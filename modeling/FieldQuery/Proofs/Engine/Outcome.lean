import FieldQuery.Proofs.Engine.Batch
import FieldQuery.Proofs.Engine.Follow

/-!
# What a batch that ends well has yielded

Here the settings may be any, those under which a failure ends the batch included.

* `ComputationSettings.EndsBatch` — one failing entity ends the batch;
* `EngineState.Rests` — a state of the engine with the same cache and the same token;
* `HitsCeiling` — a result that says that a ceiling has been reached.

Principal results: `computeBatch_ok` — a batch that ends well has yielded what each entity contributes by
itself, `computeBatch_unhindered` — a batch in which no failure counts ends well or reaches a ceiling,
`computeBatch_again` — a batch has one outcome, whenever it is computed, and `computeBatch_rests`.
-/

namespace FieldQuery

/-- Whether one failing entity ends the batch. -/
def ComputationSettings.EndsBatch (s : ComputationSettings) : Prop :=
  s.failurePolicy = .throw ∨ s.abortBatchOnFailure = true

/-- A state of the engine with the same cache and the same token as another one. -/
structure EngineState.Rests {σ : Type} (s s' : EngineState σ) : Prop where
  cache : s'.cache = s.cache
  cancelled : s'.cancelled = s.cancelled

/-- A result that says that a ceiling has been reached. -/
def HitsCeiling {α : Type} (r : Except ComputationError α) : Prop :=
  ∃ err, r = .error err ∧ err.IsCeiling

namespace EngineState.Rests

variable {σ : Type} {s s' s'' : EngineState σ}

theorem refl (s : EngineState σ) : s.Rests s := ⟨rfl, rfl⟩

theorem trans (h : s.Rests s') (h' : s'.Rests s'') : s.Rests s'' :=
  ⟨h'.cache.trans h.cache, h'.cancelled.trans h.cancelled⟩

end EngineState.Rests

namespace Engine

open Meaning

variable {σ : Type} {en : Engine σ}

/-! ## Results that are taken over -/

section Settling

variable {v : VirtualField}

/-- A failure that does not end the batch leaves what the field contributes. -/
theorem settle_cases (en : Engine σ) (v : VirtualField) (err : ComputationError)
    (stats : BatchStats) :
    en.settings.EndsBatch ∧ (∃ err', en.settle v err stats = .error err') ∨
      ¬ en.settings.EndsBatch ∧ ∃ stats', en.settle v err stats =
        .ok (contribution en.settings.failurePolicy v (.error err), stats') := by
  unfold settle ComputationSettings.EndsBatch
  cases en.settings.failurePolicy <;> cases en.settings.abortBatchOnFailure <;>
    simp [contribution]

/-- One result that is taken over: what the field contributes is set in its place. -/
theorem collect_cons_ok {id : EntityId} {x : Except ComputationError Value} {found acc : Results}
    {stats : BatchStats} {out : Results × BatchStats}
    (h : en.collect v ((id, x) :: found) acc stats = .ok out) :
    (∀ err, x = .error err → err.isBatchLevel = false ∧ ¬ en.settings.EndsBatch) ∧
      ∃ stats₁, en.collect v found
        (Assoc.set id (contribution en.settings.failurePolicy v x) acc) stats₁ = .ok out := by
  cases x with
  | ok value => exact ⟨fun err herr => (by cases herr), stats, h⟩
  | error err =>
    unfold collect at h
    split at h
    · cases h
    · rename_i hlevel
      rcases settle_cases en v err stats with ⟨-, err', hsettle⟩ | ⟨hends, stats₁, hsettle⟩
      · rw [hsettle] at h
        cases h
      · rw [hsettle] at h
        refine ⟨?_, stats₁, h⟩
        rintro _ ⟨⟩
        exact ⟨by simpa using hlevel, hends⟩

/-- Results that are taken over are no reason to end the batch. -/
theorem collect_ok_error {found acc : Results} {stats : BatchStats} {out : Results × BatchStats}
    (h : en.collect v found acc stats = .ok out) :
    ∀ r ∈ found, ∀ err, r.2 = .error err →
      err.isBatchLevel = false ∧ ¬ en.settings.EndsBatch := by
  induction found generalizing acc stats with
  | nil => exact fun r hr => nomatch hr
  | cons r found ih =>
    obtain ⟨herror, stats₁, hrest⟩ := collect_cons_ok h
    exact List.forall_mem_cons.2 ⟨herror, ih hrest⟩

/-- **Results are taken over as what the field contributes.** -/
theorem collect_ok {found acc : Results} {stats : BatchStats} {out : Results × BatchStats}
    (h : en.collect v found acc stats = .ok out)
    (hnodup : (acc.map (·.1) ++ found.map (·.1)).Nodup) :
    out.1 = acc ++ found.map (fun r => (r.1, contribution en.settings.failurePolicy v r.2)) := by
  induction found generalizing acc stats with
  | nil =>
    cases h
    rw [List.map_nil, List.append_nil]
  | cons r found ih =>
    obtain ⟨-, stats₁, hrest⟩ := collect_cons_ok h
    have hnew : r.1 ∉ acc.map (·.1) := fun hmem =>
      (List.nodup_append.1 hnodup).2.2 r.1 hmem r.1 List.mem_cons_self rfl
    rw [Assoc.set_of_not_mem hnew] at hrest
    rw [ih hrest (by simpa using hnodup), List.map_cons, List.append_assoc]
    rfl

/-- Results in which no failure counts are taken over, or one of them says that a ceiling has been
reached. -/
theorem collect_unhindered {found : Results}
    (h : ∀ r ∈ found, ∀ err, r.2 = .error err →
      err.IsCeiling ∨ err.isBatchLevel = false ∧ ¬ en.settings.EndsBatch) :
    ∀ (acc : Results) (stats : BatchStats),
      (∃ out, en.collect v found acc stats = .ok out) ∨
        ∃ r ∈ found, ∃ err, r.2 = .error err ∧ err.IsCeiling ∧
          en.collect v found acc stats = .error err := by
  induction found with
  | nil => exact fun acc stats => .inl ⟨_, rfl⟩
  | cons r found ih =>
    intro acc stats
    obtain ⟨hfirst, hrest⟩ := List.forall_mem_cons.1 h
    have hlater : ∀ acc stats, (∃ out, en.collect v found acc stats = .ok out) ∨
        ∃ r' ∈ r :: found, ∃ err, r'.2 = .error err ∧ err.IsCeiling ∧
          en.collect v found acc stats = .error err := fun acc stats =>
      (ih hrest acc stats).imp id fun ⟨r', hr', hceiling⟩ =>
        ⟨r', List.mem_cons_of_mem _ hr', hceiling⟩
    obtain ⟨id, x⟩ := r
    cases x with
    | ok value =>
      unfold collect
      exact hlater _ _
    | error err =>
      unfold collect
      rcases hfirst err rfl with hceiling | ⟨hlevel, hends⟩
      · rw [if_pos hceiling.isBatchLevel]
        exact .inr ⟨_, List.mem_cons_self, err, rfl, hceiling, rfl⟩
      · rw [hlevel]
        rcases settle_cases en v err stats with ⟨hends', -⟩ | ⟨-, stats₁, hsettle⟩
        · exact absurd hends' hends
        · rw [hsettle]
          exact hlater _ _

end Settling

/-- Results that agree with what is expected are just that, if no ceiling has been reached. -/
theorem eq_of_agreeing {found expected : Results}
    (h : List.Forall₂ (fun r m => r.1 = m.1 ∧ Agrees r.2 m.2) found expected)
    (hnone : ∀ r ∈ found, ∀ err, r.2 = .error err → ¬ err.IsCeiling) : found = expected := by
  induction h with
  | nil => rfl
  | @cons r m found expected hrm _ ih =>
    obtain ⟨hfirst, hrest⟩ := List.forall_mem_cons.1 hnone
    rcases hrm.2 with hsame | ⟨err, herr, hceiling⟩
    · rw [Prod.ext hrm.1 hsame, ih hrest]
    · exact absurd hceiling (hfirst err herr)

/-- The results of a chunk that are taken over are those of its entities: a ceiling would have ended the
batch at once. -/
theorem eq_of_collect {v : VirtualField} {expected found acc : Results} {stats : BatchStats}
    {out : Results × BatchStats}
    (hchunk : List.Forall₂ (fun r m => r.1 = m.1 ∧ Agrees r.2 m.2) found expected)
    (h : en.collect v found acc stats = .ok out) : found = expected :=
  eq_of_agreeing hchunk fun r hr err herr hceiling => by
    have hlevel := (collect_ok_error h r hr err herr).1
    rw [hceiling.isBatchLevel] at hlevel
    cases hlevel

/-- Results of a chunk are taken over as what its entities contribute.  If failures end batches, none of
these has failed. -/
theorem collect_chunk {v : VirtualField} {es : List Entity} {found acc : Results}
    {stats : BatchStats} {out : Results × BatchStats}
    (hchunk : List.Forall₂ (fun r m => r.1 = m.1 ∧ Agrees r.2 m.2) found
      (rawResults en.catalog en.settings.failurePolicy v es))
    (h : en.collect v found acc stats = .ok out)
    (hnodup : (acc.map (·.1) ++ es.map (·.id)).Nodup) :
    out.1 = acc ++ es.map (fun e => (e.id, contribution en.settings.failurePolicy v
        (result en.catalog en.settings.failurePolicy v e))) ∧
      (en.settings.EndsBatch → ∀ e ∈ es, ∃ a,
        value en.catalog en.settings.failurePolicy e v = .ok a) := by
  obtain rfl := eq_of_collect hchunk h
  have hresults := collect_ok h (by rw [keys_rawResults]; exact hnodup)
  constructor
  · rw [hresults]
    unfold rawResults
    rw [List.map_map]
    rfl
  · intro hends e he
    cases hresult : result en.catalog en.settings.failurePolicy v e with
    | ok a => exact ⟨a, result_ok_iff.1 hresult⟩
    | error err =>
      have hmem : (e.id, result en.catalog en.settings.failurePolicy v e) ∈
          rawResults en.catalog en.settings.failurePolicy v es := List.mem_map_of_mem he
      exact absurd hends (collect_ok_error h _ hmem err hresult).2

/-! ## Batches -/

section Batches

variable (hc : en.catalog.Lawful) (hpure : en.catalog.IsPure) (hcache : en.cache = none)

include hc hpure hcache

/-- The chunks of a batch that ends well. -/
theorem computeChunks_ok {b : Batch}
    (htarget : KeyMap.get? b.target.name en.catalog.virtualFields = some b.target)
    (horder : b.order = en.catalog.computationOrder b.target.name) (parts : List (List Entity)) :
    ∀ (acc : Results) (p : Progress σ) (results : Results),
      (en.computeChunks b parts acc p).1 = .ok results →
      (acc.map (·.1) ++ parts.flatten.map (·.id)).Nodup →
      results = acc ++ parts.flatten.map (fun e => (e.id, contribution en.settings.failurePolicy
          b.target (result en.catalog en.settings.failurePolicy b.target e))) ∧
        (en.settings.EndsBatch → ∀ e ∈ parts.flatten, ∃ a,
          value en.catalog en.settings.failurePolicy e b.target = .ok a) := by
  induction parts with
  | nil =>
    intro acc p results h _
    cases h
    exact ⟨by simp, fun _ e he => nomatch he⟩
  | cons es parts ih =>
    intro acc p results h hnodup
    rw [List.flatten_cons, List.map_append, ← List.append_assoc] at hnodup
    unfold computeChunks at h
    split at h
    · cases h
    split at h
    · cases h
    dsimp only at h
    have hchunk := (computeChunk_meets hc hpure hcache htarget horder es
      { p with stats := { p.stats with chunks := p.stats.chunks + 1 } }).agrees
    generalize en.computeChunk b es
      { p with stats := { p.stats with chunks := p.stats.chunks + 1 } } = run at hchunk h
    obtain ⟨found, p₁⟩ := run
    dsimp only at hchunk h
    cases hcollect : en.collect b.target found acc p₁.stats with
    | error err =>
      rw [hcollect] at h
      cases h
    | ok collected =>
      rw [hcollect] at h
      obtain ⟨results₁, stats⟩ := collected
      obtain ⟨hresults₁, hvalues₁⟩ := collect_chunk hchunk hcollect (List.nodup_append.1 hnodup).1
      dsimp only at hresults₁
      have hkeys₁ : results₁.map (·.1) = acc.map (·.1) ++ es.map (·.id) := by
        rw [hresults₁, List.map_append, List.map_map]
        rfl
      obtain ⟨hresults, hvalues⟩ := ih results₁ _ results h (by rw [hkeys₁]; exact hnodup)
      refine ⟨by rw [hresults, hresults₁, List.flatten_cons, List.map_append, List.append_assoc], ?_⟩
      intro hends e he
      rw [List.flatten_cons] at he
      rcases List.mem_append.1 he with he | he
      · exact hvalues₁ hends e he
      · exact hvalues hends e he

/-- **A batch that ends well has yielded what each entity contributes by itself.**  If failures end
batches, no entity has failed. -/
theorem computeBatch_ok {heeds : Bool} {field : String} {es : List Entity} {s : EngineState σ}
    {o : BatchOutcome} (h : (en.computeBatch heeds field es s).1 = .ok o)
    (hids : (es.map (·.id)).Nodup) :
    ∃ v, en.catalog.virtual? field = some v ∧
      o.results = es.map (fun e => (e.id, contribution en.settings.failurePolicy v
        (result en.catalog en.settings.failurePolicy v e))) ∧
      (en.settings.EndsBatch → ∀ e ∈ es, ∃ a,
        value en.catalog en.settings.failurePolicy e v = .ok a) := by
  unfold computeBatch at h
  cases hfield : en.catalog.virtual? field with
  | none =>
    rw [hfield] at h
    cases h
  | some v =>
    rw [hfield] at h
    refine ⟨v, rfl, ?_⟩
    have hchunks := computeChunks_ok hc hpure hcache (b := en.batchOf heeds v s) (hc.get?_name hfield)
      rfl (chunks (en.settings.batchSize - 1) es) [] (startOf es s)
    unfold batchOf startOf at hchunks
    rw [flatten_chunks] at hchunks
    dsimp only at h hchunks
    generalize en.computeChunks _ _ _ _ = run at h hchunks
    obtain ⟨found, p⟩ := run
    cases found with
    | error err => cases h
    | ok results =>
      cases h
      exact hchunks results rfl hids

/-- No chunk touches the token. -/
theorem computeChunks_cancelled {b : Batch}
    (htarget : KeyMap.get? b.target.name en.catalog.virtualFields = some b.target)
    (horder : b.order = en.catalog.computationOrder b.target.name) (parts : List (List Entity)) :
    ∀ (acc : Results) (p : Progress σ),
      (en.computeChunks b parts acc p).2.cancelled = p.cancelled := by
  induction parts with
  | nil => exact fun acc p => rfl
  | cons es parts ih =>
    intro acc p
    unfold computeChunks
    split
    · rfl
    split
    · rfl
    dsimp only
    have htoken : _ = p.cancelled := (computeChunk_meets hc hpure hcache htarget horder es
      { p with stats := { p.stats with chunks := p.stats.chunks + 1 } }).cancelled
    split
    · exact htoken
    · exact (ih _ _).trans htoken

omit hc hpure in
/-- An engine without a cache leaves the state of the cache alone. -/
theorem steady_untouched (cache : σ) : en.Steady (fun _ => True) (· = cache) := by
  intro b v e computed p _ _ hsame
  unfold computeOne
  split
  · exact hsame
  · rename_i i _
    have hslot : en.slot? v e i = none := by
      unfold slot?
      rw [hcache]
    rw [hslot]
    exact (compute_cache b v e i p).trans hsame

/-- **A batch leaves cache and token alone**, whatever its outcome is. -/
theorem computeBatch_rests (heeds : Bool) (field : String) (es : List Entity) (s : EngineState σ) :
    s.Rests (en.computeBatch heeds field es s).2 where
  cache := computeBatch_steady hc (steady_untouched hcache s.cache) (fun _ _ => trivial) rfl
  cancelled := by
    unfold computeBatch
    cases hfield : en.catalog.virtual? field with
    | none => rfl
    | some v =>
      have hchunks := computeChunks_cancelled hc hpure hcache (b := en.batchOf heeds v s)
        (hc.get?_name hfield) rfl (chunks (en.settings.batchSize - 1) es) [] (startOf es s)
      unfold batchOf startOf at hchunks
      dsimp only at hchunks ⊢
      generalize en.computeChunks _ _ _ _ = run at hchunks ⊢
      obtain ⟨found, p⟩ := run
      cases found with
      | error err => exact hchunks
      | ok results => exact hchunks

end Batches

end Engine

end FieldQuery
