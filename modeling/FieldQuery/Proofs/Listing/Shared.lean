import FieldQuery.Proofs.Engine.Repeated
import FieldQuery.Proofs.Listing.Safety
import FieldQuery.Proofs.Listing.Unhindered

/-!
# Values of rows with repeated identities

Values of virtual fields are kept by identity: rows with one identity have the value of the last of them.
A row that is dropped takes with it all rows of its identity, so that the last row of an identity stays
the same from one field to the next.

* `Meaning.shared?` — the value that the rows of an identity have;
* `Meaning.decides` — whether it satisfies a clause;
* `Shares` — what has been kept of rows, and what has been computed for them.

Principal results: `fill_shares` and `narrow_shares` — one field, and all clauses; `fill_finishes`,
`narrow_finishes` and `fillAll_finishes` — the steps end well if their work is covered.
-/

namespace FieldQuery

open Engine Meaning

variable {σ : Type}

/-- The value that the rows of an identity have of a virtual field. -/
def Meaning.shared? (c : Catalog) (policy : FailurePolicy) (es : List Entity) (field : String)
    (id : EntityId) : Option Value :=
  (Store.rowOf? id es).bind (own? c policy field)

/-- Whether the value that the rows of an identity have satisfies a clause. -/
def Meaning.decides (c : Catalog) (policy : FailurePolicy) (es : List Entity) (cl : Clause)
    (id : EntityId) : Bool :=
  (Store.rowOf? id es).any fun e => satisfies c policy e cl

/-- Rows for those of the entities whose identities have been kept, with the shared values of the fields
that have been computed so far. -/
structure Shares (c : Catalog) (policy : FailurePolicy) (es : List Entity) (keep : EntityId → Bool)
    (fields : List String) (rows : List Row) : Prop where
  entities : rows.map (·.entity) = es.filter fun e => keep e.id
  given : ∀ r ∈ rows, ∀ field ∈ fields, ∃ a, r.value? field = some a ∧
    shared? c policy es field r.entity.id = some a
  lacking : ∀ r ∈ rows, ∀ field, field ∉ fields → r.has field = false

/-! ## One field -/

section Sharing

variable {c : Catalog} {policy : FailurePolicy} {es : List Entity} {keep : EntityId → Bool}
  {fields : List String} {rows : List Row}

/-- Rows that have just been loaded. -/
theorem shares_loaded (c : Catalog) (policy : FailurePolicy) (q : BaseQuery) (es : List Entity) :
    Shares c policy (es.map (Store.project q)) (fun _ => true) []
      (es.map fun e => { entity := Store.project q e }) where
  entities := (Listing.entities_loaded q es).trans (List.filter_eq_self.2 fun _ _ => rfl).symm
  given := fun _ _ _ hfield => nomatch hfield
  lacking := by
    intro r hr field _
    obtain ⟨e, -, rfl⟩ := List.mem_map.1 hr
    rfl

/-- A choice among identities is a matter of the identities there are. -/
theorem Shares.congr {keep' : EntityId → Bool} (h : Shares c policy es keep fields rows)
    (hkeep : ∀ e ∈ es, keep e.id = keep' e.id) : Shares c policy es keep' fields rows where
  entities := h.entities.trans (List.filter_congr hkeep)
  given := h.given
  lacking := h.lacking

/-- All rows with an identity have been kept, so that the last of them is the last one that was there. -/
theorem Shares.rowOf? (h : Shares c policy es keep fields rows) {r : Row} (hr : r ∈ rows) :
    Store.rowOf? r.entity.id (rows.map (·.entity)) = Store.rowOf? r.entity.id es := by
  have hmem : r.entity ∈ es.filter fun e => keep e.id := h.entities ▸ List.mem_map_of_mem hr
  rw [h.entities]
  exact Store.rowOf?_filter (List.mem_filter.1 hmem).2 es

/-- What a value satisfies, there is a value to satisfy. -/
theorem Meaning.isSome_of_decides {cl : Clause} {id : EntityId} (h : decides c policy es cl id = true) :
    (shared? c policy es cl.field id).isSome = true := by
  unfold decides at h
  unfold shared?
  cases he : Store.rowOf? id es with
  | none =>
    rw [he] at h
    cases h
  | some e =>
    rw [he, Option.any_some] at h
    unfold satisfies at h
    rw [Option.bind_some]
    cases hown : own? c policy cl.field e with
    | some a => rfl
    | none =>
      rw [hown] at h
      cases h

/-- Rows that lack a field are settled by the values of their identities. -/
theorem entities_settle_by {field : String} {o : BatchOutcome} {value : EntityId → Option Value}
    (hlacks : ∀ r ∈ rows, r.has field = false)
    (hvalue : ∀ r ∈ rows, o.value? r.entity.id = value r.entity.id) (default : Value) :
    (rows.filterMap (Row.settle field .drop default o)).map (·.entity) =
      (rows.map (·.entity)).filter fun e => (value e.id).isSome := by
  induction rows with
  | nil => rfl
  | cons r rows ih =>
    obtain ⟨hlack, hlacks⟩ := List.forall_mem_cons.1 hlacks
    obtain ⟨hfirst, hvalue⟩ := List.forall_mem_cons.1 hvalue
    have hrest := ih hlacks hvalue
    have hsettle : r.settle field .drop default o = (value r.entity.id).map fun a => r.give field a := by
      unfold Row.settle
      rw [hlack, hfirst]
      cases value r.entity.id <;> rfl
    cases hown : value r.entity.id with
    | none =>
      rw [hown] at hsettle
      rw [List.filterMap_cons_none hsettle, List.map_cons, List.filter_cons_of_neg (by simp [hown])]
      exact hrest
    | some a =>
      rw [hown] at hsettle
      rw [List.filterMap_cons_some hsettle, List.map_cons, List.map_cons,
        List.filter_cons_of_pos (by simp [hown]), hrest]
      rfl

/-- Rows that lack a field have their shared values of it when they have been settled by them. -/
theorem Shares.settled {field : String} {o : BatchOutcome} (h : Shares c policy es keep fields rows)
    (hlacks : ∀ r ∈ rows, r.has field = false)
    (hvalue : ∀ r ∈ rows, o.value? r.entity.id = shared? c policy es field r.entity.id)
    (default : Value) :
    Shares c policy es (fun id => keep id && (shared? c policy es field id).isSome) (field :: fields)
      (rows.filterMap (Row.settle field .drop default o)) where
  entities := by
    rw [entities_settle_by hlacks hvalue, h.entities, List.filter_filter]
    exact List.filter_congr fun e _ => Bool.and_comm _ _
  given := by
    intro r' hr' name hname
    obtain ⟨r, hr, hsettle⟩ := List.mem_filterMap.1 hr'
    obtain ⟨hhas, -⟩ | ⟨a, -, ha, rfl⟩ := Row.value?_settle hsettle
    · rw [hlacks r hr] at hhas
      cases hhas
    · rw [hvalue r hr] at ha
      by_cases heq : name = field
      · subst heq
        exact ⟨a, KeyMap.get?_insert _ _ _, ha⟩
      · obtain ⟨b, hb, hshared⟩ := h.given r hr name ((List.mem_cons.1 hname).resolve_left heq)
        exact ⟨b, (KeyMap.get?_insert_ne heq _ _).trans hb, hshared⟩
  lacking := by
    intro r' hr' name hname
    rw [List.mem_cons, not_or] at hname
    obtain ⟨r, hr, hsettle⟩ := List.mem_filterMap.1 hr'
    have hlack := h.lacking r hr name hname.2
    obtain ⟨-, rfl⟩ | ⟨a, -, -, rfl⟩ := Row.value?_settle hsettle
    · exact hlack
    · unfold Row.has KeyMap.contains at hlack ⊢
      rw [show (r.give field a).computed = KeyMap.insert field a r.computed from rfl,
        KeyMap.get?_insert_ne hname.1]
      exact hlack

/-- **Of rows that have been filled those satisfy a clause whose identities do.** -/
theorem Shares.satisfying {cl : Clause} (h : Shares c policy es keep (cl.field :: fields) rows) :
    Shares c policy es (fun id => keep id && decides c policy es cl id) (cl.field :: fields)
      (rows.filter (Row.satisfies cl)) where
  entities := by
    have hcongr : rows.filter (Row.satisfies cl) =
        rows.filter ((fun e => decides c policy es cl e.id) ∘ (·.entity)) := by
      refine List.filter_congr fun r hr => ?_
      obtain ⟨a, hvalue, hshared⟩ := h.given r hr cl.field List.mem_cons_self
      obtain ⟨e, he, hown⟩ := Option.bind_eq_some_iff.1 hshared
      unfold Row.satisfies decides satisfies
      rw [Function.comp_apply, hvalue, he, Option.any_some, hown]
    rw [hcongr, ← List.filter_map, h.entities, List.filter_filter]
    exact List.filter_congr fun e _ => Bool.and_comm _ _
  given := fun r hr => h.given r (List.mem_filter.1 hr).1
  lacking := fun r hr => h.lacking r (List.mem_filter.1 hr).1

/-- Rows that have a field all have their shared values of it. -/
theorem Shares.known {field : String} (h : Shares c policy es keep fields rows)
    (hhas : ∀ r ∈ rows, r.has field = true) :
    Shares c policy es (fun id => keep id && (shared? c policy es field id).isSome) (field :: fields)
      rows := by
  have hvalue : ∀ r ∈ rows, ∃ a, r.value? field = some a ∧
      shared? c policy es field r.entity.id = some a := by
    intro r hr
    by_cases hmem : field ∈ fields
    · exact h.given r hr field hmem
    · have hlack := h.lacking r hr field hmem
      rw [hhas r hr] at hlack
      cases hlack
  have hkept : Shares c policy es (fun id => keep id && (shared? c policy es field id).isSome) fields
      rows := h.congr <| by
    intro e he
    cases hkeep : keep e.id with
    | false => rfl
    | true =>
      have hmem : e ∈ rows.map (·.entity) := by
        rw [h.entities]
        exact List.mem_filter.2 ⟨he, hkeep⟩
      obtain ⟨r, hr, rfl⟩ := List.mem_map.1 hmem
      obtain ⟨a, -, ha⟩ := hvalue r hr
      rw [ha]
      rfl
  refine ⟨hkept.entities, fun r hr => List.forall_mem_cons.2 ⟨hvalue r hr, h.given r hr⟩, ?_⟩
  intro r hr name hname
  exact h.lacking r hr name fun hmem => hname (List.mem_cons_of_mem _ hmem)

/-- Where failures count for the default, the rows that are there have shared values. -/
theorem Meaning.shared?_default {field : String} (hfield : field ∈ KeyMap.keys c.virtualFields)
    {e : Entity} (he : e ∈ es) : (shared? c .default es field e.id).isSome = true := by
  obtain ⟨e', he'⟩ := Store.exists_rowOf? he
  obtain ⟨a, ha⟩ := own?_default hfield e'
  unfold shared?
  rw [he', Option.bind_some, ha]
  rfl

end Sharing

namespace Engine

variable {en : Engine σ} (hc : en.catalog.Lawful) (hpure : en.catalog.IsPure)
  (hcache : en.cache = none) {heeds : Bool} {es : List Entity} {keep : EntityId → Bool}
  {fields : List String} {rows : List Row}

include hc hpure hcache

/-- A batch gives the rows of an identity the own value of the last of its entities. -/
theorem computeBatch_shared {field : String} {v : VirtualField}
    (hv : KeyMap.get? field en.catalog.virtualFields = some v) {s : EngineState σ} {o : BatchOutcome}
    (h : (en.computeBatch heeds field es s).1 = .ok o) (id : EntityId) :
    o.value? id = shared? en.catalog en.settings.failurePolicy es field id := by
  have hfield : en.catalog.virtual? field = some v :=
    (hc.virtual?_eq (Catalog.mem_keys_of_get? hv)).trans hv
  rw [computeBatch_value? hc hpure hcache hfield h]
  unfold shared?
  congr 1
  funext e
  unfold own? result report contribution
  rw [hv]
  dsimp only
  cases value en.catalog en.settings.failurePolicy e v with
  | ok a => rfl
  | error err =>
    dsimp only
    split_ifs <;> rfl

/-- **Rows that have been filled share the values of the last rows of their identities**, and those are
dropped whose identities have none. -/
theorem fill_shares {field : String} {v : VirtualField}
    (hv : KeyMap.get? field en.catalog.virtualFields = some v)
    (h : Shares en.catalog en.settings.failurePolicy es keep fields rows) {filled : List Row}
    {s : EngineState σ} (hfill : (en.fill heeds .drop field rows s).1 = .ok filled) :
    Shares en.catalog en.settings.failurePolicy es (fun id => keep id &&
        (shared? en.catalog en.settings.failurePolicy es field id).isSome) (field :: fields) filled := by
  rcases fill_cases hfill with ⟨rfl, hhas⟩ | ⟨o, hrun, rfl⟩
  · exact h.known hhas
  by_cases hmem : field ∈ fields
  · have hhas : ∀ r ∈ rows, r.has field = true := by
      intro r hr
      obtain ⟨a, ha, -⟩ := h.given r hr field hmem
      exact Option.isSome_iff_exists.2 ⟨a, ha⟩
    have hsame : rows.filterMap (Row.settle field .drop (en.defaultOf field) o) = rows := by
      have hsome : ∀ r ∈ rows, r.settle field .drop (en.defaultOf field) o = some r :=
        fun r hr => if_pos (hhas r hr)
      rw [List.filterMap_congr hsome, List.filterMap_some]
    rw [hsame]
    exact h.known hhas
  · have hlacks : ∀ r ∈ rows, r.has field = false := fun r hr => h.lacking r hr field hmem
    have hall : (rows.filter fun r => !r.has field) = rows :=
      List.filter_eq_self.2 fun r hr => by rw [hlacks r hr]; rfl
    rw [hall] at hrun
    have hvalue : ∀ r ∈ rows, o.value? r.entity.id =
        shared? en.catalog en.settings.failurePolicy es field r.entity.id := by
      intro r hr
      rw [computeBatch_shared hc hpure hcache hv hrun]
      unfold shared?
      rw [h.rowOf? hr]
    exact h.settled hlacks hvalue _

/-- **Rows that have been narrowed are those whose identities satisfy all clauses.** -/
theorem narrow_shares {clauses : List Clause}
    (hclauses : ∀ cl ∈ clauses, cl.field ∈ KeyMap.keys en.catalog.virtualFields)
    (h : Shares en.catalog en.settings.failurePolicy es keep fields rows) {kept : List Row}
    {s : EngineState σ} (hnarrow : (en.narrow heeds clauses rows s).1 = .ok kept) :
    ∃ fields', Shares en.catalog en.settings.failurePolicy es (fun id => keep id &&
        clauses.all fun cl => decides en.catalog en.settings.failurePolicy es cl id) fields' kept := by
  induction clauses generalizing keep fields rows s with
  | nil =>
    cases hnarrow
    exact ⟨fields, h.congr fun e _ => (Bool.and_true _).symm⟩
  | cons cl clauses ih =>
    obtain ⟨hfirst, hclauses⟩ := List.forall_mem_cons.1 hclauses
    obtain ⟨v, hv⟩ := Catalog.get?_of_mem_keys hfirst
    unfold narrow at hnarrow
    cases hrun : en.fill heeds .drop cl.field rows s with
    | mk result s' =>
      rw [hrun] at hnarrow
      cases result with
      | error err => cases hnarrow
      | ok filled =>
        have hfilled := fill_shares hc hpure hcache hv h (congrArg Prod.fst hrun)
        obtain ⟨fields', hkept⟩ := ih hclauses hfilled.satisfying hnarrow
        refine ⟨fields', hkept.congr fun e _ => ?_⟩
        rw [List.all_cons]
        cases hdecides : decides en.catalog en.settings.failurePolicy es cl e.id with
        | false => simp
        | true => simp [isSome_of_decides hdecides]

/-- Where failures count for the default, no row is dropped when a field is computed. -/
theorem fill_shares_default (hpolicy : en.settings.failurePolicy = .default) {field : String}
    (hfield : field ∈ KeyMap.keys en.catalog.virtualFields)
    (h : Shares en.catalog .default es keep fields rows) {filled : List Row} {s : EngineState σ}
    (hfill : (en.fill heeds .drop field rows s).1 = .ok filled) :
    filled.map (·.entity) = rows.map (·.entity) := by
  obtain ⟨v, hv⟩ := Catalog.get?_of_mem_keys hfield
  rw [← hpolicy] at h
  have hfilled := fill_shares hc hpure hcache hv h hfill
  rw [hpolicy] at hfilled
  rw [hfilled.entities, h.entities]
  refine List.filter_congr fun e he => ?_
  rw [shared?_default hfield he, Bool.and_true]

/-! ## Work that is covered -/

section Finishing

variable (hends : ¬ en.settings.EndsBatch) {all : List Entity}

include hends

/-- A field is computed for rows if its work on them is covered and no failure ends it. -/
theorem fill_finishes (excluded : Excluded) {field : String}
    (hfield : field ∈ KeyMap.keys en.catalog.virtualFields)
    (hrows : (rows.map (·.entity)).Subperm all) (hample : Ample en all field) {s : EngineState σ}
    (hcancelled : (heeds && s.cancelled) = false) :
    ∃ filled engine, en.fill heeds excluded field rows s = (.ok filled, engine) ∧
      engine.cancelled = s.cancelled ∧ (filled.map (·.entity)).Sublist (rows.map (·.entity)) := by
  obtain ⟨v, hv⟩ := Catalog.get?_of_mem_keys hfield
  have hpending : ((rows.filter fun r => !r.has field).map (·.entity)).Subperm all :=
    (List.filter_sublist.map _).subperm.trans hrows
  obtain ⟨o, ho⟩ := computeBatch_completes hc hpure hcache hends
    ((hc.virtual?_eq hfield).trans hv) ((hample v hv).subperm hpending) hcancelled
  have htoken := (computeBatch_rests hc hpure hcache heeds field
    ((rows.filter fun r => !r.has field).map (·.entity)) s).cancelled
  have hfilled : ∃ filled engine, en.fill heeds excluded field rows s = (.ok filled, engine) ∧
      engine.cancelled = s.cancelled := by
    unfold fill
    split
    · exact ⟨rows, s, rfl, rfl⟩
    · generalize en.computeBatch heeds field _ s = run at ho htoken ⊢
      obtain ⟨outcome, engine⟩ := run
      cases ho
      exact ⟨_, engine, rfl, htoken⟩
  obtain ⟨filled, engine, hfill, hcancelled'⟩ := hfilled
  exact ⟨filled, engine, hfill, hcancelled', fill_sublist (congrArg Prod.fst hfill)⟩

/-- Clauses are evaluated if the work of their fields is covered and no failure ends it. -/
theorem narrow_finishes {clauses : List Clause}
    (hclauses : ∀ cl ∈ clauses, cl.field ∈ KeyMap.keys en.catalog.virtualFields)
    (hrows : (rows.map (·.entity)).Subperm all) (hample : ∀ cl ∈ clauses, Ample en all cl.field)
    {s : EngineState σ} (hcancelled : (heeds && s.cancelled) = false) :
    ∃ kept engine, en.narrow heeds clauses rows s = (.ok kept, engine) ∧
      engine.cancelled = s.cancelled ∧ (kept.map (·.entity)).Sublist (rows.map (·.entity)) := by
  induction clauses generalizing rows s with
  | nil => exact ⟨rows, s, rfl, rfl, List.Sublist.refl _⟩
  | cons cl clauses ih =>
    obtain ⟨hfirst, hclauses⟩ := List.forall_mem_cons.1 hclauses
    obtain ⟨hamplefirst, hample⟩ := List.forall_mem_cons.1 hample
    obtain ⟨filled, engine, hfill, htoken, hsublist⟩ := fill_finishes hc hpure hcache hends .drop
      hfirst hrows hamplefirst hcancelled
    have hsatisfying : ((filled.filter (Row.satisfies cl)).map (·.entity)).Sublist
        (rows.map (·.entity)) := (List.filter_sublist.map _).trans hsublist
    obtain ⟨kept, engine', hnarrow, htoken', hsublist'⟩ := ih hclauses
      (hsatisfying.subperm.trans hrows) hample (s := engine) (by rw [htoken]; exact hcancelled)
    refine ⟨kept, engine', ?_, htoken'.trans htoken, hsublist'.trans hsatisfying⟩
    unfold narrow
    rw [hfill]
    exact hnarrow

/-- The selected fields of a page are computed if their work is covered and no failure ends it. -/
theorem fillAll_finishes (excluded : Excluded) {names : List String}
    (hnames : ∀ field ∈ names, field ∈ KeyMap.keys en.catalog.virtualFields)
    (hrows : (rows.map (·.entity)).Subperm all) (hample : ∀ field ∈ names, Ample en all field)
    {s : EngineState σ} (hcancelled : (heeds && s.cancelled) = false) :
    ∃ filled, (en.fillAll heeds excluded names rows s).1 = .ok filled := by
  induction names generalizing rows s with
  | nil => exact ⟨rows, rfl⟩
  | cons field names ih =>
    obtain ⟨hfirst, hnames⟩ := List.forall_mem_cons.1 hnames
    obtain ⟨hamplefirst, hample⟩ := List.forall_mem_cons.1 hample
    obtain ⟨filled, engine, hfill, htoken, hsublist⟩ := fill_finishes hc hpure hcache hends
      excluded hfirst hrows hamplefirst hcancelled
    unfold fillAll
    rw [hfill]
    exact ih hnames (hsublist.subperm.trans hrows) hample (by rw [htoken]; exact hcancelled)

end Finishing

end Engine

end FieldQuery
