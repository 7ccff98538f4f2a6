import FieldQuery.Proofs.Engine.Outcome
import FieldQuery.Store.Basic

/-!
# Batches with repeated identities

A batch keeps results by the identities of entities, and a result takes the place of an earlier one.
So entities with one identity have one value, that of the last of them, whatever the others come to.
No identity need be unique here.

* `rowOf?_append`, `rowOf?_map`, `rowOf?_filter` — the last entity with an identity, in parts of a
  list;
* `lookup_collect` — what a chunk leaves under an identity.

Principal results: `computeBatch_value?` — the value of an identity after a batch that ends well, and
`computeBatch_completes` — a batch ends well if its work is covered and no failure ends it.
-/

namespace FieldQuery

/-! ## The last entity with an identity -/

namespace Store

variable {id : EntityId}

theorem rowOf?_append (as bs : List Entity) :
    rowOf? id (as ++ bs) = (rowOf? id bs).or (rowOf? id as) := by
  unfold rowOf?
  rw [List.reverse_append, List.find?_append]

theorem rowOf?_map {f : Entity → Entity} (hf : ∀ e, (f e).id = e.id) (es : List Entity) :
    rowOf? id (es.map f) = (rowOf? id es).map f := by
  have hsame : (fun e : Entity => e.id == id) ∘ f = fun e => e.id == id := by
    funext e
    rw [Function.comp_apply, hf]
  unfold rowOf?
  rw [← List.map_reverse, List.find?_map, hsame]

theorem id_of_rowOf? {es : List Entity} {e : Entity} (h : rowOf? id es = some e) : e.id = id := by
  have hfound := List.find?_some h
  simpa using hfound

theorem mem_of_rowOf? {es : List Entity} {e : Entity} (h : rowOf? id es = some e) : e ∈ es :=
  List.mem_reverse.1 (List.mem_of_find?_eq_some h)

theorem exists_rowOf? {es : List Entity} {e : Entity} (h : e ∈ es) :
    ∃ e', rowOf? e.id es = some e' := by
  refine Option.isSome_iff_exists.1 (List.find?_isSome.2 ?_)
  exact ⟨e, List.mem_reverse.2 h, beq_self_eq_true e.id⟩

/-- A choice among identities leaves all entities of an identity or none. -/
theorem rowOf?_filter {keep : EntityId → Bool} (h : keep id = true) (es : List Entity) :
    rowOf? id (es.filter fun e => keep e.id) = rowOf? id es := by
  unfold rowOf?
  rw [← List.filter_reverse, List.find?_filter]
  congr 1
  funext e
  by_cases hid : e.id = id
  · simp [hid, h]
  · simp [hid]

end Store

namespace Engine

open Meaning

variable {σ : Type} {en : Engine σ}

/-- The results of a list of entities, from the last one on. -/
theorem lookup_rawResults (c : Catalog) (policy : FailurePolicy) (v : VirtualField)
    (es : List Entity) (id : EntityId) :
    List.lookup id (rawResults c policy v es).reverse =
      (Store.rowOf? id es).map (result c policy v) := by
  unfold rawResults Store.rowOf?
  rw [← List.map_reverse]
  induction es.reverse with
  | nil => rfl
  | cons e es ih =>
    rw [List.map_cons, List.lookup_cons, List.find?_cons]
    by_cases hid : e.id = id
    · rw [hid, beq_self_eq_true]
      rfl
    · rw [beq_false_of_ne hid, beq_false_of_ne (Ne.symm hid)]
      exact ih

/-- **Of the results of a chunk with one identity the last one is taken over**, and what has been
there stays if there is none. -/
theorem lookup_collect {v : VirtualField} {found acc : Results} {stats : BatchStats}
    {out : Results × BatchStats} (h : en.collect v found acc stats = .ok out) (id : EntityId) :
    List.lookup id out.1 =
      ((List.lookup id found.reverse).map (contribution en.settings.failurePolicy v)).or
        (List.lookup id acc) := by
  induction found generalizing acc stats with
  | nil =>
    cases h
    rfl
  | cons r found ih =>
    obtain ⟨-, stats₁, hrest⟩ := collect_cons_ok h
    rw [ih hrest, List.reverse_cons, List.lookup_append, Option.map_or, Option.or_assoc]
    congr 1
    by_cases hid : id = r.1
    · subst hid
      rw [Assoc.lookup_set, List.lookup_cons, beq_self_eq_true]
      rfl
    · rw [Assoc.lookup_set_ne hid, List.lookup_cons, beq_false_of_ne hid]
      rfl

/-- Results in which no failure counts and no ceiling has been reached are taken over. -/
theorem collect_completes {v : VirtualField} {found : Results}
    (h : ∀ r ∈ found, ∀ err, r.2 = .error err → err.isBatchLevel = false)
    (hends : ¬ en.settings.EndsBatch) (acc : Results) (stats : BatchStats) :
    ∃ out, en.collect v found acc stats = .ok out := by
  have hspared := collect_unhindered (v := v) (fun r hr err herr =>
    .inr ⟨h r hr err herr, hends⟩) acc stats
  refine hspared.resolve_right ?_
  rintro ⟨r, hr, err, herr, hceiling, -⟩
  have hlevel := h r hr err herr
  rw [hceiling.isBatchLevel] at hlevel
  cases hlevel

section Batches

variable (hc : en.catalog.Lawful) (hpure : en.catalog.IsPure) (hcache : en.cache = none)

include hc hpure hcache

/-- What chunks leave under an identity. The last entity with it decides, in whatever chunk it is. -/
theorem lookup_computeChunks {b : Batch}
    (htarget : KeyMap.get? b.target.name en.catalog.virtualFields = some b.target)
    (horder : b.order = en.catalog.computationOrder b.target.name) {parts : List (List Entity)}
    {acc results : Results} {p : Progress σ}
    (h : (en.computeChunks b parts acc p).1 = .ok results) (id : EntityId) :
    List.lookup id results =
      ((Store.rowOf? id parts.flatten).map fun e => contribution en.settings.failurePolicy b.target
        (result en.catalog en.settings.failurePolicy b.target e)).or (List.lookup id acc) := by
  induction parts generalizing acc p with
  | nil =>
    cases h
    rfl
  | cons es parts ih =>
    unfold computeChunks at h
    split at h
    · cases h
    split at h
    · cases h
    dsimp only at h
    have hchunk := (computeChunk_meets hc hpure hcache htarget horder es
      { p with stats := { p.stats with chunks := p.stats.chunks + 1 } }).agrees
    generalize en.computeChunk b es
      { p with stats := { p.stats with chunks := p.stats.chunks + 1 } } = run at hchunk h
    obtain ⟨found, p₁⟩ := run
    dsimp only at hchunk h
    cases hcollect : en.collect b.target found acc p₁.stats with
    | error err =>
      rw [hcollect] at h
      cases h
    | ok out =>
      rw [hcollect] at h
      obtain rfl := eq_of_collect hchunk hcollect
      rw [ih h, lookup_collect hcollect, lookup_rawResults, List.flatten_cons, Store.rowOf?_append,
        Option.map_or, Option.or_assoc, Option.map_map]
      rfl

/-- **The value of an identity is what the last entity with it contributes.** -/
theorem computeBatch_value? {heeds : Bool} {field : String} {v : VirtualField}
    (hfield : en.catalog.virtual? field = some v) {es : List Entity} {s : EngineState σ}
    {o : BatchOutcome} (h : (en.computeBatch heeds field es s).1 = .ok o) (id : EntityId) :
    o.value? id = (Store.rowOf? id es).bind fun e =>
      (contribution en.settings.failurePolicy v
        (result en.catalog en.settings.failurePolicy v e)).toOption := by
  unfold computeBatch at h
  rw [hfield] at h
  dsimp only at h
  generalize hrun : en.computeChunks _ _ _ _ = run at h
  obtain ⟨found, p⟩ := run
  cases found with
  | error err => cases h
  | ok results =>
    cases h
    have hlookup := lookup_computeChunks hc hpure hcache (hc.get?_name hfield) rfl
      (congrArg Prod.fst hrun) id
    rw [flatten_chunks] at hlookup
    unfold BatchOutcome.value?
    dsimp only at hlookup ⊢
    rw [hlookup]
    cases Store.rowOf? id es with
    | none => rfl
    | some e =>
      dsimp only [Option.map_some, Option.some_or, Option.bind_some]
      cases contribution en.settings.failurePolicy v
        (result en.catalog en.settings.failurePolicy v e) <;> rfl

/-- Chunks end well if their work is covered and no failure ends the batch. -/
theorem computeChunks_completes (hends : ¬ en.settings.EndsBatch) {b : Batch}
    (htarget : KeyMap.get? b.target.name en.catalog.virtualFields = some b.target)
    (horder : b.order = en.catalog.computationOrder b.target.name) (parts : List (List Entity)) :
    ∀ (acc : Results) (p : Progress σ), (b.heeds && p.cancelled) = false →
      b.budget.Fits p
        (Work.total (entityWork en.catalog en.settings.failurePolicy b.target) parts.flatten) →
      ∃ results, (en.computeChunks b parts acc p).1 = .ok results := by
  induction parts with
  | nil => exact fun acc p _ _ => ⟨acc, rfl⟩
  | cons es parts ih =>
    intro acc p hcancelled hfits
    have htime : b.budget.checkTime p.spent = .ok () :=
      Budget.checkTime_eq_ok_iff.2 ((Nat.le_add_right _ _).trans hfits.1)
    rw [List.flatten_cons, Work.total_append] at hfits
    unfold computeChunks
    rw [hcancelled, htime]
    simp only [Bool.false_eq_true, if_false]
    have hchunk := computeChunk_meets hc hpure hcache htarget horder es
      { p with stats := { p.stats with chunks := p.stats.chunks + 1 } }
    generalize en.computeChunk b es
      { p with stats := { p.stats with chunks := p.stats.chunks + 1 } } = run at hchunk ⊢
    obtain ⟨found, p₁⟩ := run
    obtain ⟨hfirst, hrest⟩ := hchunk.fits_of_add hfits
    have hfound : found = _ := (hchunk.fits hfirst).1
    have htoken : p₁.cancelled = p.cancelled := hchunk.cancelled
    obtain ⟨out, hcollect⟩ := collect_completes (v := b.target) rawResults_error hends acc p₁.stats
    rw [hfound, hcollect]
    exact ih out.1 { p₁ with stats := out.2 } (by rw [← hcancelled, ← htoken]) hrest

/-- **A batch ends well if its work is covered and no failure ends it.** -/
theorem computeBatch_completes (hends : ¬ en.settings.EndsBatch) {field : String} {v : VirtualField}
    (hfield : en.catalog.virtual? field = some v) {es : List Entity}
    (hcovers : (Budget.ofField v en.settings).Covers
      (Work.total (entityWork en.catalog en.settings.failurePolicy v) es))
    {heeds : Bool} {s : EngineState σ} (hcancelled : (heeds && s.cancelled) = false) :
    ∃ o, (en.computeBatch heeds field es s).1 = .ok o := by
  have hfits : (Budget.ofField v en.settings).Fits (startOf es s)
      (Work.total (entityWork en.catalog en.settings.failurePolicy v)
        (chunks (en.settings.batchSize - 1) es).flatten) := by
    rw [flatten_chunks]
    exact ⟨by simpa [startOf] using hcovers.1, by simpa [startOf] using hcovers.2⟩
  obtain ⟨results, hresults⟩ := computeChunks_completes hc hpure hcache hends
    (b := en.batchOf heeds v s) (hc.get?_name hfield) rfl
    (chunks (en.settings.batchSize - 1) es) [] (startOf es s) hcancelled hfits
  unfold batchOf startOf at hresults
  unfold computeBatch
  rw [hfield]
  dsimp only at hresults ⊢
  generalize en.computeChunks _ _ _ _ = run at hresults ⊢
  obtain ⟨found, p⟩ := run
  cases hresults
  exact ⟨_, rfl⟩

end Batches

end Engine

end FieldQuery
