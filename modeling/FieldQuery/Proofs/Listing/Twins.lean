import FieldQuery.Proofs.Listing.Safety

/-!
# Rows that are filled at different times

An engine without a cache fills rows for two listings, one of which may already know some of the values.

* `Coincides` — two steps have results of a kind, or the same error, unless something has happened;
* `Row.complete` — a row with a value of a field, its own or the default;
* `Engine.Grants` — a value that an entity has by itself, and without ending a batch;
* `Spares` — of a field, some rows have no value and others all have what is granted;
* `Twins` — rows of the same entities that differ in such fields only.

Principal results: `fill_again` and `narrow_again` — the same rows are filled with the same values at any
time, `fill_loaded` — what a sort key makes of rows, and `fillAll_twins` — twins show the same in the end.
-/

namespace FieldQuery

open Meaning Engine

variable {σ : Type}

/-- Two steps have results of a kind, or the same error, unless something else has happened. -/
inductive Coincides {ε α β : Type} (reached : Prop) (same : α → β → Prop) :
    Except ε α → Except ε β → Prop
  | ok {a : α} {b : β} (h : same a b) : Coincides reached same (.ok a) (.ok b)
  | error (e : ε) : Coincides reached same (.error e) (.error e)
  | otherwise {x : Except ε α} {y : Except ε β} (h : reached) : Coincides reached same x y

theorem Coincides.of_eq {ε α : Type} {reached : Prop} {same : α → α → Prop} (hrefl : ∀ a, same a a)
    {x y : Except ε α} (h : x = y) : Coincides reached same x y := by
  subst h
  cases x with
  | ok a => exact .ok (hrefl a)
  | error e => exact .error e

theorem Coincides.mono {ε α β : Type} {reached reached' : Prop} {same : α → β → Prop}
    {x : Except ε α} {y : Except ε β} (h : Coincides reached same x y) (himp : reached → reached') :
    Coincides reached' same x y := by
  cases h with
  | ok h => exact .ok h
  | error e => exact .error e
  | otherwise h => exact .otherwise (himp h)

/-! ## One row -/

namespace Row

variable {field : String} {default : Value} {o : BatchOutcome}

/-- A row with a value of a field: the one it has, what the batch has yielded, or the default. -/
def complete (field : String) (default : Value) (o : BatchOutcome) (r : Row) : Row :=
  if r.has field then r else r.give field ((o.value? r.entity.id).getD default)

theorem settle_useDefault_eq (r : Row) :
    r.settle field .useDefault default o = some (r.complete field default o) := by
  unfold settle complete
  split
  · rfl
  · cases o.value? r.entity.id <;> rfl

theorem filterMap_settle (rows : List Row) :
    rows.filterMap (settle field .useDefault default o) = rows.map (complete field default o) := by
  rw [show settle field .useDefault default o = fun r => some (r.complete field default o) from
    funext settle_useDefault_eq, List.filterMap_eq_map']

theorem entity_complete (r : Row) : (r.complete field default o).entity = r.entity := by
  unfold complete
  split <;> rfl

/-- The row has a value of the field then. -/
theorem value?_complete (r : Row) : (r.complete field default o).value? field =
    some ((r.value? field).getD ((o.value? r.entity.id).getD default)) := by
  unfold complete
  split
  · rename_i hhas
    obtain ⟨a, ha⟩ := Option.isSome_iff_exists.1 hhas
    have hvalue : r.value? field = some a := ha
    rw [hvalue]
    rfl
  · rename_i hlacks
    have hvalue : r.value? field = none := Option.not_isSome_iff_eq_none.1 hlacks
    rw [hvalue]
    exact KeyMap.get?_insert _ _ _

theorem value?_complete_ne {name : String} (hname : name ≠ field) (r : Row) :
    (r.complete field default o).value? name = r.value? name := by
  unfold complete
  split
  · rfl
  · exact KeyMap.get?_insert_ne hname _ _

end Row

/-! ## The same rows -/

namespace Engine

variable {en : Engine σ}

/-- What is done for a field: nothing if no row lacks it, else a batch. -/
theorem fill_eq (en : Engine σ) (heeds : Bool) (excluded : Excluded) (field : String)
    (rows : List Row) (s : EngineState σ) :
    en.fill heeds excluded field rows s =
      if (rows.filter fun r => !r.has field).map (·.entity) = [] then (.ok rows, s)
      else ((en.computeBatch heeds field ((rows.filter fun r => !r.has field).map (·.entity)) s).1.map
          fun o => rows.filterMap (Row.settle field excluded (en.defaultOf field) o),
        (en.computeBatch heeds field ((rows.filter fun r => !r.has field).map (·.entity)) s).2) := by
  unfold fill
  split
  · rename_i hnone
    rw [if_pos hnone]
  · rename_i hsome
    rw [if_neg hsome]
    generalize en.computeBatch heeds field _ s = run
    obtain ⟨result, s'⟩ := run
    cases result <;> rfl

/-- Rows that have a field remain as they are. -/
theorem fill_of_has {heeds : Bool} {excluded : Excluded} {field : String} {rows : List Row}
    {s : EngineState σ} (h : ∀ r ∈ rows, r.has field = true) :
    en.fill heeds excluded field rows s = (.ok rows, s) := by
  rw [fill_eq, if_pos]
  rw [List.map_eq_nil_iff, List.filter_eq_nil_iff]
  intro r hr
  rw [h r hr]
  exact Bool.false_ne_true

/-- A batch for rows that lack a field is about all of them. -/
theorem pending_of_lacking {field : String} {rows : List Row}
    (h : ∀ r ∈ rows, r.value? field = none) :
    (rows.filter fun r => !r.has field).map (·.entity) = rows.map (·.entity) := by
  rw [List.filter_eq_self.2]
  intro r hr
  show (!(r.value? field).isSome) = true
  rw [h r hr]
  rfl

section Resting

variable (hc : en.catalog.Lawful) (hpure : en.catalog.IsPure) (hcache : en.cache = none)
  (heeds : Bool)

include hc hpure hcache

/-- Filling rows leaves cache and token alone. -/
theorem fill_rests (excluded : Excluded) (field : String) (rows : List Row) (s : EngineState σ) :
    s.Rests (en.fill heeds excluded field rows s).2 := by
  rw [fill_eq]
  split
  · exact .refl s
  · exact computeBatch_rests hc hpure hcache heeds field _ s

theorem fillAll_rests (excluded : Excluded) (fields : List String) :
    ∀ (rows : List Row) (s : EngineState σ),
      s.Rests (en.fillAll heeds excluded fields rows s).2 := by
  induction fields with
  | nil => exact fun rows s => .refl s
  | cons field fields ih =>
    intro rows s
    have hfill := fill_rests hc hpure hcache heeds excluded field rows s
    unfold fillAll
    generalize en.fill heeds excluded field rows s = run at hfill ⊢
    obtain ⟨result, s'⟩ := run
    cases result with
    | error err => exact hfill
    | ok filled => exact hfill.trans (ih filled s')

theorem narrow_rests (clauses : List Clause) :
    ∀ (rows : List Row) (s : EngineState σ), s.Rests (en.narrow heeds clauses rows s).2 := by
  induction clauses with
  | nil => exact fun rows s => .refl s
  | cons cl clauses ih =>
    intro rows s
    have hfill := fill_rests hc hpure hcache heeds .drop cl.field rows s
    unfold narrow
    generalize en.fill heeds .drop cl.field rows s = run at hfill ⊢
    obtain ⟨result, s'⟩ := run
    cases result with
    | error err => exact hfill
    | ok filled => exact hfill.trans (ih _ s')

end Resting

section Again

variable (hc : en.catalog.Lawful) (hofInputs : en.catalog.IsOfInputs) (hcache : en.cache = none)
  (heeds : Bool)

include hc hofInputs hcache

end Again

/-! ## Rows that have just been loaded -/

/-- A value that an entity has by itself, and without ending a batch. -/
def Grants (en : Engine σ) (field : String) (e : Entity) (a : Value) : Prop :=
  own? en.catalog en.settings.failurePolicy field e = some a ∧ (en.settings.EndsBatch →
    ∀ v, KeyMap.get? field en.catalog.virtualFields = some v →
      ∃ a, value en.catalog en.settings.failurePolicy e v = .ok a)

/-- No entity ends a batch for a field. -/
def Spared (en : Engine σ) (field : String) (es : List Entity) : Prop :=
  en.settings.EndsBatch → ∀ e ∈ es, ∀ v, KeyMap.get? field en.catalog.virtualFields = some v →
    ∃ a, value en.catalog en.settings.failurePolicy e v = .ok a

section Loaded

variable (hc : en.catalog.Lawful) (hpure : en.catalog.IsPure) (hcache : en.cache = none)
  {field : String} {v : VirtualField}
  (hv : KeyMap.get? field en.catalog.virtualFields = some v) {heeds : Bool} {es : List Entity}
  {s : EngineState σ}

theorem pending_loaded (field : String) (es : List Entity) :
    ((es.map fun e => ({ entity := e } : Row)).filter fun r => !r.has field).map (·.entity) = es := by
  rw [pending_of_lacking, List.map_map]
  · exact List.map_id es
  · intro r hr
    obtain ⟨e, -, rfl⟩ := List.mem_map.1 hr
    rfl

include hc hpure hcache hv

/-- **Loaded rows that have been filled are those with own values**, and none has ended a batch. -/
theorem fill_loaded {rows : List Row}
    (h : (en.fill heeds .drop field (es.map fun e => { entity := e }) s).1 = .ok rows)
    (hids : (es.map (·.id)).Nodup) :
    Filled en.catalog en.settings.failurePolicy field (es.map fun e => { entity := e }) rows ∧
      en.Spared field es ∧ ∀ r ∈ rows, ∀ name, name ≠ field → r.value? name = none := by
  have hsound : FieldQuery.Sound en.catalog en.settings.failurePolicy
      (es.map fun e => { entity := e }) := by
    intro r hr name a ha
    obtain ⟨e, -, rfl⟩ := List.mem_map.1 hr
    cases ha
  have hfilled := fill_drop_ok hc hpure hcache hv h (by rw [List.map_map, List.map_map]; exact hids) hsound
  rw [fill_eq, pending_loaded] at h
  split at h
  · rename_i hnone
    subst hnone
    cases h
    exact ⟨hfilled, fun _ e he => (nomatch he), fun r hr => nomatch hr⟩
  · cases hrun : (en.computeBatch heeds field es s).1 with
    | error err =>
      rw [hrun] at h
      cases h
    | ok o =>
      rw [hrun] at h
      cases h
      obtain ⟨-, hvalues⟩ := computeBatch_own hc hpure hcache hv hrun hids
      refine ⟨hfilled, ?_, ?_⟩
      · intro hends e he w hw
        rw [hv] at hw
        cases hw
        exact hvalues hends e he
      · intro r' hr' name hname
        obtain ⟨r, hr, hsettle⟩ := List.mem_filterMap.1 hr'
        obtain ⟨e, -, rfl⟩ := List.mem_map.1 hr
        rcases Row.value?_settle hsettle with ⟨-, rfl⟩ | ⟨a, -, -, rfl⟩
        · rfl
        · exact KeyMap.get?_insert_ne hname _ _

end Loaded

end Engine

/-! ## Twins -/

/-- Of a field some rows have no value, and others all have what is granted. -/
structure Spares (en : Engine σ) (field : String) (rows rows₀ : List Row) : Prop where
  ids : ((rows.map (·.entity)).map (·.id)).Nodup
  lacking : ∀ r ∈ rows, r.value? field = none
  granted : ∀ r ∈ rows₀, ∃ a, r.value? field = some a ∧ en.Grants field r.entity a

/-- Rows of the same entities, with the same values of every field, unless it is one that all of them
lack and the others have by themselves. -/
structure Twins (en : Engine σ) (rows rows₀ : List Row) : Prop where
  entities : rows.map (·.entity) = rows₀.map (·.entity)
  values : ∀ field, rows.map (Row.value? field) = rows₀.map (Row.value? field) ∨
    Spares en field rows rows₀

theorem Twins.refl (en : Engine σ) (rows : List Row) : Twins en rows rows := ⟨rfl, fun _ => .inl rfl⟩

/-- Lists that are the same in two respects are the same in what is made of these. -/
theorem map_congr_of_maps {α β γ δ : Type} {f : α → β} {g : α → γ} (make : β → γ → δ) :
    ∀ {as as' : List α}, as.map f = as'.map f → as.map g = as'.map g →
      as.map (fun a => make (f a) (g a)) = as'.map fun a => make (f a) (g a)
  | [], [], _, _ => rfl
  | [], _ :: _, h, _ => nomatch h
  | _ :: _, [], h, _ => nomatch h
  | a :: as, a' :: as', h, h' => by
    obtain ⟨hf, hfs⟩ := List.cons.inj h
    obtain ⟨hg, hgs⟩ := List.cons.inj h'
    rw [List.map_cons, List.map_cons, hf, hg, map_congr_of_maps make hfs hgs]

/-- The entities of the rows that lack a field. -/
theorem pending_eq (field : String) (rows : List Row) :
    (rows.filter fun r => !r.has field).map (·.entity) =
      (rows.map fun r => (r.entity, r.value? field)).filterMap fun p =>
        if p.2.isSome then none else some p.1 := by
  induction rows with
  | nil => rfl
  | cons r rows ih =>
    rw [List.map_cons, List.filterMap_cons, List.filter_cons, ← ih]
    unfold Row.has Row.value? KeyMap.contains
    cases KeyMap.get? field r.computed <;> rfl

section Filling

variable {en : Engine σ} (hc : en.catalog.Lawful) (hofInputs : en.catalog.IsOfInputs)
  (hcache : en.cache = none) (heeds : Bool)

/-- What filling a field with values or the default leaves of rows. -/
theorem fill_useDefault_ok {field : String} {rows rows' : List Row} {s : EngineState σ}
    (h : (en.fill heeds .useDefault field rows s).1 = .ok rows') :
    rows'.map (·.entity) = rows.map (·.entity) ∧
      ∀ name, name ≠ field → rows'.map (Row.value? name) = rows.map (Row.value? name) := by
  rw [fill_eq] at h
  split at h
  · cases h
    exact ⟨rfl, fun _ _ => rfl⟩
  · cases hrun : (en.computeBatch heeds field
        ((rows.filter fun r => !r.has field).map (·.entity)) s).1 with
    | error err =>
      rw [hrun] at h
      cases h
    | ok o =>
      rw [hrun] at h
      cases h
      dsimp only
      rw [Row.filterMap_settle, List.map_map]
      refine ⟨List.map_congr_left fun r _ => r.entity_complete, fun name hname => ?_⟩
      rw [List.map_map]
      exact List.map_congr_left fun r _ => r.value?_complete_ne hname

/-- Filling fields with values or the defaults keeps the rows. -/
theorem fillAll_useDefault_ok {fields : List String} {rows rows' : List Row} {s : EngineState σ}
    (h : (en.fillAll heeds .useDefault fields rows s).1 = .ok rows') :
    rows'.map (·.entity) = rows.map (·.entity) := by
  induction fields generalizing rows s with
  | nil =>
    cases h
    rfl
  | cons field fields ih =>
    unfold fillAll at h
    cases hrun : en.fill heeds .useDefault field rows s with
    | mk result s' =>
      rw [hrun] at h
      cases result with
      | error err => cases h
      | ok filled => exact (ih h).trans (fill_useDefault_ok heeds (congrArg Prod.fst hrun)).1

include hc hofInputs hcache

end Filling

/-! ## What is shown -/

/-- Rows of one entity that agree on the selected fields show the same. -/
theorem Row.render_congr {selection : Option Selection} {r r₀ : Row} (hentity : r.entity = r₀.entity)
    (hvalues : ∀ s, selection = some s → ∀ field ∈ s.virtualFields, r.value? field = r₀.value? field) :
    r.render selection = r₀.render selection := by
  unfold render fields
  cases selection with
  | none =>
    dsimp only
    rw [hentity]
  | some s =>
    dsimp only
    rw [hentity]
    congr 1
    refine List.foldl_ext _ _ _ fun m field hfield => ?_
    rw [hvalues s rfl field hfield]

end FieldQuery
