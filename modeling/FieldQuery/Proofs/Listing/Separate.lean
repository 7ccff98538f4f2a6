import FieldQuery.Proofs.Listing.Bare
import FieldQuery.Proofs.Listing.Reordered

/-!
# Selected fields are computed each by itself

The fields that a request selects are computed one after the other, in the order of the request.  Where a
batch leaves the token alone and remembers nothing, each of them has the values that it has when it is the
only one.  Where what is remembered is what would be computed, they are the same.

* `Engine.Timeless` — a field that is computed alike at any time, as far as the token is heard alike;
* `Engine.Filled` — rows with the values that each field has by itself;
* `Engine.fillAllAsks` — the asks of rows that are filled with fields;
* `Engine.Separable` — fields that do not matter to each other.

Principal results: `timeless_of_neverCaches` — fields that are not cached, of computations that are pure,
`fillAll_filled` and `fillAll_completes` — all fields succeed if each of them does, and with the same
values, `fillAll_recalled` — rows are filled with a trusted cache as they are without, and
`Separable.fillAll_perm`.
-/

namespace FieldQuery

namespace Engine

variable {σ : Type} {en : Engine σ} {heeds : Bool}

/-- A field that is computed alike at any time, as far as the token is heard alike. -/
structure Timeless (en : Engine σ) (heeds : Bool) (field : String) : Prop where
  token : ∀ rows s, (heeds && (en.fill heeds .useDefault field rows s).2.cancelled) =
    (heeds && s.cancelled)
  result : ∀ rows s s', (heeds && s.cancelled) = (heeds && s'.cancelled) →
    (en.fill heeds .useDefault field rows s).1 = (en.fill heeds .useDefault field rows s').1

/-- **A field that needs none that is cached is computed alike at any time.** -/
theorem timeless_of_neverCaches (hc : en.catalog.Lawful) (hpure : en.catalog.IsPure) {field : String}
    (hfield : field ∈ KeyMap.keys en.catalog.virtualFields) (hnever : en.NeverCaches field) :
    en.Timeless heeds field := by
  have hbare : ∀ rows, en.bare.fill heeds .useDefault field rows = en.fill heeds .useDefault field rows :=
    fun rows => fill_sameOn (sameOn_bare hc hfield hnever) heeds .useDefault rows
  have hlawful : en.bare.catalog.Lawful := hc
  have hnone : en.bare.cache = none := rfl
  constructor
  · intro rows s
    rw [← hbare, (fill_rests hlawful hpure hnone heeds .useDefault field rows s).cancelled]
  · intro rows s s' htoken
    cases hheard : heeds && s.cancelled with
    | false =>
      rw [← hbare]
      exact (fill_together hlawful hpure hnone .useDefault field rows hheard
        (htoken.symm.trans hheard)).result
    | true =>
      rw [fill_eq, fill_eq]
      split
      · rfl
      · rename_i hsome
        dsimp only
        rw [(computeBatch_cancelled hc hfield hsome hheard).1,
          (computeBatch_cancelled hc hfield hsome (htoken.symm.trans hheard)).1]

/-! ## One field -/

/-- Rows that agree on a field and on their entities are filled with the same values of the field. -/
theorem fill_agree {field : String} {rows rows₀ filled₀ : List Row}
    (hentities : rows.map (·.entity) = rows₀.map (·.entity))
    (hsame : rows.map (Row.value? field) = rows₀.map (Row.value? field)) {s : EngineState σ}
    (h : (en.fill heeds .useDefault field rows₀ s).1 = .ok filled₀) :
    ∃ filled, (en.fill heeds .useDefault field rows s).1 = .ok filled ∧
      filled.map (Row.value? field) = filled₀.map (Row.value? field) := by
  have hpending : (rows.filter fun r => !r.has field).map (·.entity) =
      (rows₀.filter fun r => !r.has field).map (·.entity) := by
    rw [pending_eq, pending_eq, map_congr_of_maps Prod.mk hentities hsame]
  rw [fill_eq] at h
  rw [fill_eq, hpending]
  split at h
  · rename_i hnone
    cases h
    rw [if_pos hnone]
    exact ⟨rows, rfl, hsame⟩
  · rename_i hsome
    rw [if_neg hsome]
    dsimp only at h ⊢
    cases hrun : (en.computeBatch heeds field
        ((rows₀.filter fun r => !r.has field).map (·.entity)) s).1 with
    | error err =>
      rw [hrun] at h
      cases h
    | ok o =>
      rw [hrun] at h
      cases h
      refine ⟨_, rfl, ?_⟩
      dsimp only
      rw [Row.filterMap_settle, Row.filterMap_settle, List.map_map, List.map_map]
      have hvalue : ∀ r : Row, (Row.value? field ∘ Row.complete field (en.defaultOf field) o) r =
          some ((r.value? field).getD ((o.value? r.entity.id).getD (en.defaultOf field))) :=
        fun r => r.value?_complete
      rw [funext hvalue]
      exact map_congr_of_maps (fun e a => some (a.getD ((o.value? e.id).getD (en.defaultOf field))))
        hentities hsame

/-! ## Several fields -/

/-- Rows that are filled with defaults have all fields then. -/
theorem fillAll_has {fields : List String} {rows rows' : List Row} {s : EngineState σ}
    (h : (en.fillAll heeds .useDefault fields rows s).1 = .ok rows') :
    ∀ field ∈ fields, ∀ r ∈ rows', (r.value? field).isSome = true := by
  induction fields generalizing rows s with
  | nil => exact fun field hfield => absurd hfield List.not_mem_nil
  | cons field fields ih =>
    unfold fillAll at h
    cases hrun : en.fill heeds .useDefault field rows s with
    | mk result s' =>
      rw [hrun] at h
      cases result with
      | error err => cases h
      | ok filled =>
        refine List.forall_mem_cons.2 ⟨fun r hr => ?_, ih h⟩
        obtain ⟨r₁, hr₁, hext⟩ := fillAll_extends fields h r hr
        have hvalue : ∃ a, r₁.value? field = some a := by
          rcases fill_cases (congrArg Prod.fst hrun) with ⟨rfl, hhas⟩ | ⟨o, -, rfl⟩
          · exact Option.isSome_iff_exists.1 (hhas r₁ hr₁)
          · rw [Row.filterMap_settle] at hr₁
            obtain ⟨r₀, -, rfl⟩ := List.mem_map.1 hr₁
            exact ⟨_, r₀.value?_complete⟩
        obtain ⟨a, ha⟩ := hvalue
        rw [hext.values field a ha]
        rfl

/-- Rows with the values that each field has by itself. -/
structure Filled (en : Engine σ) (heeds : Bool) (s : EngineState σ) (fields : List String)
    (rows rows' : List Row) : Prop where
  entities : rows'.map (·.entity) = rows.map (·.entity)
  values : ∀ field ∈ fields, ∃ filled, (en.fill heeds .useDefault field rows s).1 = .ok filled ∧
    rows'.map (Row.value? field) = filled.map (Row.value? field)
  others : ∀ field, field ∉ fields → rows'.map (Row.value? field) = rows.map (Row.value? field)

/-- A field by itself is the same after another one. -/
theorem fill_after {field other : String} (hother : en.Timeless heeds other)
    (hfield : en.Timeless heeds field) (hne : field ≠ other) {rows filled : List Row}
    {s s' : EngineState σ}
    (hrun : en.fill heeds .useDefault other rows s = (.ok filled, s')) :
    (∀ out, (en.fill heeds .useDefault field rows s).1 = .ok out →
      ∃ out', (en.fill heeds .useDefault field filled s').1 = .ok out' ∧
        out'.map (Row.value? field) = out.map (Row.value? field)) ∧
    ∀ out', (en.fill heeds .useDefault field filled s').1 = .ok out' →
      ∃ out, (en.fill heeds .useDefault field rows s).1 = .ok out ∧
        out.map (Row.value? field) = out'.map (Row.value? field) := by
  obtain ⟨hentities, hvalues⟩ := fill_useDefault_ok heeds (congrArg Prod.fst hrun)
  have htoken := hother.token rows s
  rw [hrun] at htoken
  have hsame := hfield.result filled s' s htoken
  rw [hsame]
  exact ⟨fun out h => fill_agree hentities (hvalues field hne) h,
    fun out' h => fill_agree hentities.symm (hvalues field hne).symm h⟩

/-- **Fields that are computed one after the other have the values that each of them has by itself.** -/
theorem fillAll_filled {fields : List String} (htimeless : ∀ field ∈ fields, en.Timeless heeds field)
    (hnodup : fields.Nodup) {rows rows' : List Row} {s : EngineState σ}
    (h : (en.fillAll heeds .useDefault fields rows s).1 = .ok rows') :
    en.Filled heeds s fields rows rows' := by
  induction fields generalizing rows s with
  | nil =>
    cases h
    exact ⟨rfl, fun field hfield => absurd hfield List.not_mem_nil, fun _ _ => rfl⟩
  | cons field fields ih =>
    obtain ⟨hfield, hfields⟩ := List.forall_mem_cons.1 htimeless
    obtain ⟨hnew, hrest⟩ := List.nodup_cons.1 hnodup
    unfold fillAll at h
    cases hrun : en.fill heeds .useDefault field rows s with
    | mk result s' =>
      rw [hrun] at h
      cases result with
      | error err => cases h
      | ok filled =>
        have hfilled := ih hfields hrest h
        obtain ⟨hentities, hvalues⟩ := fill_useDefault_ok heeds (congrArg Prod.fst hrun)
        refine ⟨hfilled.entities.trans hentities, List.forall_mem_cons.2 ⟨?_, fun other hother => ?_⟩,
          fun other hother => ?_⟩
        · exact ⟨filled, by rw [hrun], hfilled.others field hnew⟩
        · have hne : other ≠ field := fun heq => hnew (heq ▸ hother)
          obtain ⟨out', hout', hsame'⟩ := hfilled.values other hother
          obtain ⟨out, hout, hsame⟩ := (fill_after hfield (hfields other hother) hne hrun).2 out' hout'
          exact ⟨out, hout, hsame'.trans hsame.symm⟩
        · rw [List.mem_cons, not_or] at hother
          exact (hfilled.others other hother.2).trans (hvalues other hother.1)

/-- **Fields can be computed one after the other if each of them can by itself.** -/
theorem fillAll_completes {fields : List String} (htimeless : ∀ field ∈ fields, en.Timeless heeds field)
    (hnodup : fields.Nodup) {rows : List Row} {s : EngineState σ}
    (heach : ∀ field ∈ fields, ∃ filled, (en.fill heeds .useDefault field rows s).1 = .ok filled) :
    ∃ rows', (en.fillAll heeds .useDefault fields rows s).1 = .ok rows' := by
  induction fields generalizing rows s with
  | nil => exact ⟨rows, rfl⟩
  | cons field fields ih =>
    obtain ⟨hfield, hfields⟩ := List.forall_mem_cons.1 htimeless
    obtain ⟨hnew, hrest⟩ := List.nodup_cons.1 hnodup
    obtain ⟨⟨filled, hfilled⟩, heach⟩ := List.forall_mem_cons.1 heach
    unfold fillAll
    cases hrun : en.fill heeds .useDefault field rows s with
    | mk result s' =>
      rw [hrun] at hfilled
      cases hfilled
      refine ih hfields hrest fun other hother => ?_
      have hne : other ≠ field := fun heq => hnew (heq ▸ hother)
      obtain ⟨out, hout⟩ := heach other hother
      obtain ⟨out', hout', -⟩ := (fill_after hfield (hfields other hother) hne hrun).1 out hout
      exact ⟨out', hout'⟩

/-- **The order of fields does not matter.** -/
theorem fillAll_perm {fields fields' : List String} (hperm : fields'.Perm fields)
    (htimeless : ∀ field ∈ fields, en.Timeless heeds field) (hnodup : fields.Nodup)
    {rows filled : List Row} {s : EngineState σ}
    (h : (en.fillAll heeds .useDefault fields rows s).1 = .ok filled) :
    ∃ filled', (en.fillAll heeds .useDefault fields' rows s).1 = .ok filled' ∧
      filled'.map (·.entity) = filled.map (·.entity) ∧
      ∀ field, filled'.map (Row.value? field) = filled.map (Row.value? field) := by
  have htimeless' : ∀ field ∈ fields', en.Timeless heeds field := fun field hfield =>
    htimeless field (hperm.mem_iff.1 hfield)
  have hfilled := fillAll_filled htimeless hnodup h
  obtain ⟨filled', h'⟩ := fillAll_completes htimeless' (hperm.nodup_iff.2 hnodup) fun field hfield =>
    (hfilled.values field (hperm.mem_iff.1 hfield)).imp fun out hout => hout.1
  have hfilled' := fillAll_filled htimeless' (hperm.nodup_iff.2 hnodup) h'
  refine ⟨filled', h', hfilled'.entities.trans hfilled.entities.symm, fun field => ?_⟩
  by_cases hfield : field ∈ fields
  · obtain ⟨out, hout, hsame⟩ := hfilled.values field hfield
    obtain ⟨out', hout', hsame'⟩ := hfilled'.values field (hperm.mem_iff.2 hfield)
    cases hout.symm.trans hout'
    exact hsame'.trans hsame.symm
  · exact (hfilled'.others field (hperm.mem_iff.not.2 hfield)).trans (hfilled.others field hfield).symm

/-! ## Fields that are recalled -/

/-- The asks of rows that are filled with fields. -/
def fillAllAsks (en : Engine σ) (heeds : Bool) : List String → List Row → EngineState σ → List Ask
  | [], _, _ => []
  | field :: fields, rows, s =>
    en.batchAsks heeds field ((rows.filter fun r => !r.has field).map (·.entity)) s ++
      match en.fill heeds .useDefault field rows s with
      | (.error _, _) => []
      | (.ok filled, s') => fillAllAsks en heeds fields filled s'

section Recalled

variable {asks : Ask → Prop} {start : σ} (hc : en.catalog.Lawful) (hofInputs : en.catalog.IsOfInputs)
  (htrusted : ∀ cache, en.cache = some cache → en.Trusted asks start cache)

include hc hofInputs htrusted

/-- **A batch that ends well without a cache ends well with one**, with the same results. -/
theorem computeBatch_recalled {field : String} {es : List Entity} {s s₀ : EngineState σ}
    (htoken : s.cancelled = s₀.cancelled) (hasks : ∀ a ∈ en.batchAsks heeds field es s, asks a)
    (hsound : en.Sound asks start s.cache) {o₀ : BatchOutcome}
    (h₀ : (en.bare.computeBatch heeds field es s₀).1 = .ok o₀) :
    ∃ o, (en.computeBatch heeds field es s).1 = .ok o ∧ o.results = o₀.results ∧
      (en.computeBatch heeds field es s).2.cancelled = s.cancelled := by
  unfold batchAsks at hasks
  unfold computeBatch at h₀ ⊢
  cases hget : en.catalog.virtual? field with
  | none =>
    rw [show en.bare.catalog.virtual? field = none from hget] at h₀
    cases h₀
  | some v =>
    rw [hget] at hasks
    rw [show en.bare.catalog.virtual? field = some v from hget] at h₀
    have hb : Alike (en.batchOf heeds v s) (en.bare.batchOf heeds v s₀) := ⟨rfl, rfl, rfl, rfl⟩
    have hlawful : en.bare.catalog.Lawful := hc
    have hcatalog : en.bare.catalog = en.catalog := rfl
    have hsettings : en.settings = en.bare.settings := rfl
    have hnone : en.bare.cache = none := rfl
    have hget₀ : KeyMap.get? v.name en.bare.catalog.virtualFields = some v := hc.get?_name hget
    have hchunks := computeChunks_follows hc hofInputs htrusted hcatalog hsettings hnone hb
      (chunks (en.settings.batchSize - 1) es) [] (startOf es s) (startOf es s₀) hasks hsound
      ⟨htoken, Nat.le_refl _, Nat.le_refl _, rfl⟩
    have htoken₀ := computeChunks_cancelled (b := en.bare.batchOf heeds v s₀) hlawful hofInputs.isPure
      hnone hget₀ rfl
      (chunks (en.settings.batchSize - 1) es) [] (startOf es s₀)
    unfold batchOf startOf at hchunks htoken₀
    rw [show en.bare.settings = en.settings from rfl] at h₀ hchunks htoken₀
    dsimp only at h₀ htoken₀ ⊢
    generalize en.computeChunks _ _ _ _ = run at hchunks ⊢
    generalize en.bare.computeChunks _ _ _ _ = run₀ at h₀ hchunks htoken₀
    obtain ⟨r, p⟩ := run
    obtain ⟨r₀, p₀⟩ := run₀
    cases r₀ with
    | error err => cases h₀
    | ok results =>
      cases h₀
      rcases hchunks with ⟨hsame, htrails⟩ | ⟨err, herr, -⟩
      · obtain rfl : r = .ok results := hsame
        exact ⟨_, rfl, rfl, (htrails results rfl).cancelled.trans (htoken₀.trans htoken.symm)⟩
      · cases herr

/-- **Rows that can be filled without a cache are filled alike with one.** -/
theorem fill_recalled {field : String} {rows filled : List Row} {s s₀ : EngineState σ}
    (htoken : s.cancelled = s₀.cancelled)
    (hasks : ∀ a ∈ en.batchAsks heeds field ((rows.filter fun r => !r.has field).map (·.entity)) s, asks a)
    (hsound : en.Sound asks start s.cache)
    (h₀ : (en.bare.fill heeds .useDefault field rows s₀).1 = .ok filled) :
    (en.fill heeds .useDefault field rows s).1 = .ok filled ∧
      (en.fill heeds .useDefault field rows s).2.cancelled = s.cancelled ∧
      en.Sound asks start (en.fill heeds .useDefault field rows s).2.cache := by
  rw [fill_eq] at h₀
  rw [fill_eq]
  by_cases hnone : (rows.filter fun r => !r.has field).map (·.entity) = []
  · rw [if_pos hnone] at h₀ ⊢
    cases h₀
    exact ⟨rfl, rfl, hsound⟩
  · rw [if_neg hnone] at h₀ ⊢
    cases hrun₀ : (en.bare.computeBatch heeds field
        ((rows.filter fun r => !r.has field).map (·.entity)) s₀).1 with
    | error err =>
      rw [hrun₀] at h₀
      cases h₀
    | ok o₀ =>
      rw [hrun₀] at h₀
      cases h₀
      obtain ⟨o, ho, hresults, hcancelled⟩ :=
        computeBatch_recalled hc hofInputs htrusted htoken hasks hsound hrun₀
      refine ⟨?_, hcancelled, computeBatch_steady hc (steady_sound hc hofInputs htrusted) hasks hsound⟩
      dsimp only
      rw [ho]
      have hvalue : o.value? = o₀.value? := by
        unfold BatchOutcome.value?
        rw [hresults]
      have hsettle : Row.settle field .useDefault (en.defaultOf field) o =
          Row.settle field .useDefault (en.bare.defaultOf field) o₀ := by
        unfold Row.settle
        rw [hvalue]
        rfl
      rw [← hsettle]
      rfl

/-- **Rows that can be filled with fields without a cache are filled alike with one.** -/
theorem fillAll_recalled {fields : List String} {rows filled : List Row} {s s₀ : EngineState σ}
    (htoken : s.cancelled = s₀.cancelled) (hasks : ∀ a ∈ en.fillAllAsks heeds fields rows s, asks a)
    (hsound : en.Sound asks start s.cache)
    (h₀ : (en.bare.fillAll heeds .useDefault fields rows s₀).1 = .ok filled) :
    (en.fillAll heeds .useDefault fields rows s).1 = .ok filled := by
  induction fields generalizing rows s s₀ with
  | nil => exact h₀
  | cons field fields ih =>
    unfold fillAllAsks at hasks
    unfold fillAll at h₀ ⊢
    have hlawful : en.bare.catalog.Lawful := hc
    have htoken₀ := (fill_rests hlawful hofInputs.isPure rfl heeds .useDefault field rows s₀).cancelled
    cases hrun₀ : en.bare.fill heeds .useDefault field rows s₀ with
    | mk result₀ s₁₀ =>
      rw [hrun₀] at h₀ htoken₀
      cases result₀ with
      | error err => cases h₀
      | ok filled₁ =>
        obtain ⟨hfilled, hcancelled, hsound₁⟩ := fill_recalled hc hofInputs htrusted htoken
          (fun a ha => hasks a (List.mem_append_left _ ha)) hsound (congrArg Prod.fst hrun₀)
        cases hrun : en.fill heeds .useDefault field rows s with
        | mk result s₁ =>
          rw [hrun] at hfilled hcancelled hsound₁ hasks
          dsimp only at hfilled
          subst hfilled
          exact ih (hcancelled.trans (htoken.trans htoken₀.symm))
            (fun a ha => hasks a (List.mem_append_right _ ha)) hsound₁ h₀

end Recalled

/-- Fields do not matter to each other when rows are filled with them, in either order: none of them needs a
field that is cached, or what is found in the cache are the answers that would be computed.  Then what the
fields need could be computed without a cache as well. -/
inductive Separable (en : Engine σ) (heeds : Bool) (fields fields' : List String) (rows : List Row)
    (s : EngineState σ) : Prop
  | uncached (hpure : en.catalog.IsPure) (hnever : ∀ field ∈ fields, en.NeverCaches field)
  | recalled (hofInputs : en.catalog.IsOfInputs) {asks : Ask → Prop} {start : σ}
      (htrusted : ∀ cache, en.cache = some cache → en.Trusted asks start cache)
      (hsound : en.Sound asks start s.cache)
      (hasks : ∀ a ∈ en.fillAllAsks heeds fields rows s ++ en.fillAllAsks heeds fields' rows s, asks a)
      (hbare : ∃ filled, (en.bare.fillAll heeds .useDefault fields rows s).1 = .ok filled)

/-- **The order of separable fields does not matter.** -/
theorem Separable.fillAll_perm {fields fields' : List String} {rows filled : List Row} {s : EngineState σ}
    (h : en.Separable heeds fields fields' rows s) (hc : en.catalog.Lawful)
    (hfields : ∀ field ∈ fields, field ∈ KeyMap.keys en.catalog.virtualFields) (hnodup : fields.Nodup)
    (hperm : fields'.Perm fields) (hfilled : (en.fillAll heeds .useDefault fields rows s).1 = .ok filled) :
    ∃ filled', (en.fillAll heeds .useDefault fields' rows s).1 = .ok filled' ∧
      filled'.map (·.entity) = filled.map (·.entity) ∧
      ∀ field, filled'.map (Row.value? field) = filled.map (Row.value? field) := by
  cases h with
  | uncached hpure hnever =>
    exact Engine.fillAll_perm hperm (fun field hfield =>
      timeless_of_neverCaches hc hpure (hfields field hfield) (hnever field hfield)) hnodup hfilled
  | recalled hofInputs htrusted hsound hasks hbare =>
    obtain ⟨filled₀, hfilled₀⟩ := hbare
    have hsame := fillAll_recalled hc hofInputs htrusted rfl
      (fun a ha => hasks a (List.mem_append_left _ ha)) hsound hfilled₀
    cases hfilled.symm.trans hsame
    have hlawful : en.bare.catalog.Lawful := hc
    have htimeless : ∀ field ∈ fields, en.bare.Timeless heeds field := fun field hfield =>
      timeless_of_neverCaches hlawful hofInputs.isPure (hfields field hfield) fun _ _ _ _ => .inl rfl
    obtain ⟨filled', hfilled', hviews⟩ := Engine.fillAll_perm hperm htimeless hnodup hfilled₀
    exact ⟨filled', fillAll_recalled hc hofInputs htrusted rfl
      (fun a ha => hasks a (List.mem_append_right _ ha)) hsound hfilled', hviews⟩

end Engine

end FieldQuery
