import FieldQuery.Proofs.Engine.Lockstep
import FieldQuery.Proofs.Engine.Outcome

/-!
# What a batch comes to when nobody cancels it

Computations that are pure do not look at the token or the clock and cancel nothing.  So what a batch
yields for some entities does not depend on when it is computed, nor on whether it heeds a token that has
not been cancelled.

* `Batch.Even` — two batches that differ in their deadlines and in what they heed;
* `Engine.Manages` — a field can be computed for a list of entities in one batch that heeds no token.

Principal results: `computeOne_even`, one field, and from it by induction `computeOrder_even`,
`computeChunk_even`, `computeChunks_even` and `computeBatch_even`; `computeBatch_tells` — every batch that
its token does not end tells whether its field can be computed.
-/

namespace FieldQuery

/-- Two batches that differ in their deadlines and in what they heed. -/
structure Batch.Even (b b' : Batch) : Prop where
  target : b.target = b'.target
  order : b.order = b'.order
  budget : b.budget = b'.budget

namespace Engine

variable {σ : Type} {en : Engine σ}

/-- A field can be computed for some entities in one batch that heeds no token. -/
def Manages (en : Engine σ) (field : String) (es : List Entity) : Prop :=
  ∃ s o, (en.computeBatch false field es s).1 = .ok o

section Steps

variable (hpure : en.catalog.IsPure) (hcache : en.cache = none) {b b' : Batch} (hb : b.Even b')

include hpure hcache hb

/-- **One field**: it does not see by when its batch ends and what it heeds. -/
theorem computeOne_even {v : VirtualField} {name : String} (hv : en.catalog.virtual? name = some v)
    (e : Entity) (computed : List (String × Value)) {p p' : Progress σ} (h : Level false p p') :
    InStep false (en.computeOne b v e computed p) (en.computeOne b' v e computed p') := by
  have hslot : ∀ i, en.slot? v e i = none := by
    intro i
    unfold slot?
    rw [hcache]
  have hinputs : resolveInputs b' v e computed p'.cancelled =
      (resolveInputs b v e computed p.cancelled).map fun i =>
        { i with deadline := some b'.deadline, cancelled := b'.heeds && p'.cancelled } := by
    unfold resolveInputs
    cases resolveColumns v e computed with
    | error err => rfl
    | ok columns => cases resolveRelations v e <;> rfl
  unfold computeOne
  rw [hinputs]
  cases resolveInputs b v e computed p.cancelled with
  | error err => exact ⟨rfl, h⟩
  | ok i =>
    have hlooks : ∀ i, v.computation e i =
        v.computation e { columns := i.columns, relations := i.relations } :=
      (hpure _ (KeyMap.mem_of_get? hv)).looks e
    dsimp only [Except.map]
    rw [hslot, hslot]
    refine compute_inStep hb.budget rfl ?_ h
    rw [hlooks i, hlooks { i with deadline := some b'.deadline, cancelled := b'.heeds && p'.cancelled }]

/-- The fields of an order, one after the other. -/
theorem computeOrder_even (e : Entity) (names : List String) :
    ∀ (computed : List (String × Value)) {p p' : Progress σ}, Level false p p' →
      InStep false (en.computeOrder b e names computed p) (en.computeOrder b' e names computed p') := by
  induction names with
  | nil =>
    intro computed p p' h
    unfold computeOrder
    rw [hb.target]
    split <;> exact ⟨rfl, h⟩
  | cons name names ih =>
    intro computed p p' h
    unfold computeOrder
    cases hv : en.catalog.virtual? name with
    | none => exact ih computed h
    | some v =>
      obtain ⟨hresult, hlevel⟩ := computeOne_even hpure hcache hb hv e computed h
      dsimp only
      generalize en.computeOne b v e computed p = run at hresult hlevel ⊢
      generalize en.computeOne b' v e computed p' = run' at hresult hlevel ⊢
      obtain ⟨r, p₁⟩ := run
      obtain ⟨r', p₁'⟩ := run'
      dsimp only at hresult hlevel
      subst hresult
      cases r with
      | ok value => exact ih _ hlevel
      | error err =>
        dsimp only
        rw [hb.target]
        split
        · exact ⟨rfl, hlevel⟩
        · split
          · exact ih _ hlevel
          · exact ⟨rfl, hlevel⟩

/-- The entities of a chunk. -/
theorem computeChunk_even (es : List Entity) :
    ∀ {p p' : Progress σ}, Level false p p' →
      InStep false (en.computeChunk b es p) (en.computeChunk b' es p') := by
  induction es with
  | nil => exact fun h => ⟨rfl, h⟩
  | cons e es ih =>
    intro p p' h
    have hentity : InStep false (en.computeEntity b e p) (en.computeEntity b' e p') := by
      unfold computeEntity
      rw [hb.budget, h.spent, hb.order]
      split
      · exact ⟨rfl, h⟩
      · exact computeOrder_even hpure hcache hb e _ [] h
    obtain ⟨hresults, hlevel⟩ := ih hentity.level
    unfold computeChunk
    dsimp only
    rw [hentity.result, hresults]
    exact ⟨rfl, hlevel⟩

variable (hc : en.catalog.Lawful)
  (htarget : KeyMap.get? b.target.name en.catalog.virtualFields = some b.target)
  (horder : b.order = en.catalog.computationOrder b.target.name)

include hc htarget horder

/-- **The chunks of a batch**: between them no token is heard that has not been cancelled before. -/
theorem computeChunks_even (parts : List (List Entity)) :
    ∀ (acc : Results) {p p' : Progress σ}, Level false p p' → (b.heeds && p.cancelled) = false →
      (b'.heeds && p'.cancelled) = false →
      InStep false (en.computeChunks b parts acc p) (en.computeChunks b' parts acc p') := by
  induction parts with
  | nil => exact fun acc p p' h _ _ => ⟨rfl, h⟩
  | cons es parts ih =>
    intro acc p p' h htoken htoken'
    have htarget' : KeyMap.get? b'.target.name en.catalog.virtualFields = some b'.target := by
      rw [← hb.target]
      exact htarget
    have horder' : b'.order = en.catalog.computationOrder b'.target.name := by
      rw [← hb.order, ← hb.target]
      exact horder
    have hkept : _ = p.cancelled := (computeChunk_meets hc hpure hcache htarget horder es
      { p with stats := { p.stats with chunks := p.stats.chunks + 1 } }).cancelled
    have hkept' : _ = p'.cancelled := (computeChunk_meets hc hpure hcache htarget' horder' es
      { p' with stats := { p'.stats with chunks := p'.stats.chunks + 1 } }).cancelled
    have htime : b.budget.checkTime p.spent = b'.budget.checkTime p'.spent := by
      rw [hb.budget, h.spent]
    unfold computeChunks
    rw [htoken, htoken', htime]
    split
    · contradiction
    split
    · exact ⟨rfl, h⟩
    have hstart : Level false { p with stats := { p.stats with chunks := p.stats.chunks + 1 } }
        { p' with stats := { p'.stats with chunks := p'.stats.chunks + 1 } } :=
      ⟨h.spent, h.used, rfl, by rw [h.stats]⟩
    have hchunk := computeChunk_even hpure hcache hb es hstart
    dsimp only
    generalize en.computeChunk b es _ = run at hchunk hkept ⊢
    generalize en.computeChunk b' es _ = run' at hchunk hkept' ⊢
    obtain ⟨found, p₁⟩ := run
    obtain ⟨found', p₁'⟩ := run'
    obtain ⟨hfound, hlevel⟩ := hchunk
    dsimp only at hfound hlevel hkept hkept'
    subst hfound
    rw [hlevel.stats, hb.target]
    dsimp only
    cases en.collect b'.target found acc p₁'.stats with
    | error err => exact ⟨rfl, hlevel⟩
    | ok collected =>
      refine ih collected.1 ⟨hlevel.spent, hlevel.used, rfl, rfl⟩ ?_ ?_
      · show (b.heeds && p₁.cancelled) = false
        rw [hkept, htoken]
      · show (b'.heeds && p₁'.cancelled) = false
        rw [hkept', htoken']

end Steps

section Batches

variable (hc : en.catalog.Lawful) (hpure : en.catalog.IsPure) (hcache : en.cache = none)

include hc hpure hcache

/-- **A batch yields the same at any time** at which its token has not been cancelled. -/
theorem computeBatch_even (field : String) (es : List Entity) {heeds heeds' : Bool}
    {s s' : EngineState σ} (htoken : (heeds && s.cancelled) = false)
    (htoken' : (heeds' && s'.cancelled) = false) :
    (en.computeBatch heeds field es s).1 = (en.computeBatch heeds' field es s').1 := by
  unfold computeBatch
  cases hv : en.catalog.virtual? field with
  | none => rfl
  | some v =>
    have hb : (en.batchOf heeds v s).Even (en.batchOf heeds' v s') := ⟨rfl, rfl, rfl⟩
    have hstart : Level false (startOf es s) (startOf es s') := ⟨rfl, rfl, rfl, rfl⟩
    have hchunks := computeChunks_even hpure hcache hb hc (hc.get?_name hv) rfl
      (chunks (en.settings.batchSize - 1) es) [] hstart htoken htoken'
    unfold batchOf startOf at hchunks
    dsimp only at hchunks ⊢
    generalize en.computeChunks _ _ _ _ = run at hchunks ⊢
    generalize en.computeChunks _ _ _ _ = run' at hchunks ⊢
    obtain ⟨found, p⟩ := run
    obtain ⟨found', p'⟩ := run'
    obtain ⟨hfound, hlevel⟩ := hchunks
    dsimp only at hfound hlevel
    subst hfound
    cases found with
    | error err => rfl
    | ok results =>
      dsimp only
      rw [hlevel.stats]

variable {field : String} (hfield : field ∈ KeyMap.keys en.catalog.virtualFields)

include hfield

omit hpure hcache in
/-- Nothing can go wrong with no entities. -/
theorem computeBatch_nil (heeds : Bool) (s : EngineState σ) :
    ∃ o, (en.computeBatch heeds field [] s).1 = .ok o := by
  obtain ⟨v, hv⟩ := Catalog.get?_of_mem_keys hfield
  unfold computeBatch
  rw [hc.virtual?_eq hfield, hv, chunks_nil]
  exact ⟨_, rfl⟩

/-- **A batch tells whether its field can be computed**, unless its token ends it. -/
theorem computeBatch_tells (heeds : Bool) (es : List Entity) (s : EngineState σ) :
    (en.computeBatch heeds field es s).1 = .error (.cancelled field) ∨
      ((∃ o, (en.computeBatch heeds field es s).1 = .ok o) ↔ en.Manages field es) := by
  cases htoken : heeds && s.cancelled with
  | false =>
    right
    constructor
    · rintro ⟨o, ho⟩
      exact ⟨s, o, (computeBatch_even hc hpure hcache field es rfl htoken).trans ho⟩
    · rintro ⟨s₀, o, ho⟩
      exact ⟨o, (computeBatch_even hc hpure hcache field es htoken rfl).trans ho⟩
  | true =>
    by_cases hes : es = []
    · subst hes
      exact .inr (iff_of_true (computeBatch_nil hc hfield heeds s)
        ⟨s, computeBatch_nil hc hfield false s⟩)
    · exact .inl (computeBatch_cancelled hc hfield hes htoken).1

omit hpure in
/-- Whether a field can be computed depends on what it needs of the entities. -/
theorem Manages.sameFor (hofInputs : en.catalog.IsOfInputs) {es es' : List Entity}
    (hsame : List.Forall₂ (SameFor (en.catalog.plan field)) es es') (h : en.Manages field es) :
    en.Manages field es' := by
  obtain ⟨s, o, ho⟩ := h
  exact ⟨s, o, (computeBatch_inStep hc hfield hofInputs.isLocal hcache hsame rfl).1.symm.trans ho⟩

end Batches

end Engine

end FieldQuery
