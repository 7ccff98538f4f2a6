import FieldQuery.Proofs.Engine.Entity

/-!
# What a batch computes

* `rawResults` — the recursive values of a list of entities;
* `settleOne`, `settleAll` — what becomes of results under a policy: failures give way to the default
  value, stay in their places, or the first one ends the batch.

Principal results: `collect_eq` — what is taken over from a chunk, `computeChunks_meets` and
`computeBatch_agrees` — a batch yields what `settleAll` makes of the recursive values.
-/

namespace FieldQuery.Engine

open Meaning

variable {σ : Type} {policy : FailurePolicy}

/-- What becomes of one result under a policy. -/
def settleOne (policy : FailurePolicy) (v : VirtualField) :
    Except ComputationError Value → Except ComputationError (Except ComputationError Value)
  | .ok a => .ok (.ok a)
  | .error err =>
    match policy with
    | .throw => .error err
    | .default => .ok (.ok v.default)
    | .exclude => .ok (.error err)

/-- The results of a batch under a policy. -/
def settleAll (policy : FailurePolicy) (v : VirtualField) (results : Results) :
    Except ComputationError Results :=
  match policy with
  | .throw =>
    match results.findSome? fun r => failure? r.2 with
    | some err => .error err
    | none => .ok results
  | .default => .ok (results.map fun r => (r.1, .ok (r.2.toOption.getD v.default)))
  | .exclude => .ok results

/-- The results of a list of entities before the policy. -/
def rawResults (c : Catalog) (policy : FailurePolicy) (v : VirtualField) (es : List Entity) :
    Results :=
  es.map fun e => (e.id, result c policy v e)

section Settling

variable {v : VirtualField} {results more : Results}

theorem settleAll_nil : settleAll policy v [] = .ok [] := by
  cases policy <;> rfl

theorem settleAll_append :
    settleAll policy v (results ++ more) =
      match settleAll policy v results with
      | .error err => .error err
      | .ok settled => (settleAll policy v more).map (settled ++ ·) := by
  unfold settleAll
  cases policy with
  | throw =>
    dsimp only
    rw [List.findSome?_append]
    cases results.findSome? fun r => failure? r.2 with
    | some err => rfl
    | none =>
      cases more.findSome? fun r => failure? r.2 <;> simp [Except.map]
  | default => simp [Except.map]
  | exclude => rfl

/-- Every entity keeps its place. -/
theorem keys_settleAll {settled : Results} (h : settleAll policy v results = .ok settled) :
    settled.map (·.1) = results.map (·.1) := by
  unfold settleAll at h
  split at h
  · split at h
    · cases h
    · cases h
      rfl
  · cases h
    simp
  · cases h
    rfl

theorem settleAll_cons (id : EntityId) (x : Except ComputationError Value) :
    settleAll policy v ((id, x) :: results) =
      match settleOne policy v x with
      | .error err => .error err
      | .ok r => (settleAll policy v results).map ((id, r) :: ·) := by
  rw [← List.singleton_append, settleAll_append]
  cases x <;> cases policy <;> rfl

theorem settle_eq {en : Engine σ} (habort : en.settings.abortBatchOnFailure = false)
    (err : ComputationError) (stats : BatchStats) :
    (settle en v err stats).map (·.1) = settleOne en.settings.failurePolicy v (.error err) := by
  unfold settle
  rw [habort]
  cases en.settings.failurePolicy <;> rfl

/-- What `collect` takes over from one result. -/
theorem collect_cons {en : Engine σ} (habort : en.settings.abortBatchOnFailure = false)
    {id : EntityId} {x : Except ComputationError Value} {acc : Results}
    (hnew : id ∉ acc.map (·.1)) (hlevel : ∀ err, x = .error err → err.isBatchLevel = false)
    (stats : BatchStats) :
    ∃ stats', collect en v ((id, x) :: results) acc stats =
      match settleOne en.settings.failurePolicy v x with
      | .error err => .error err
      | .ok r => collect en v results (acc ++ [(id, r)]) stats' := by
  cases x with
  | ok a =>
    refine ⟨stats, ?_⟩
    rw [collect, Assoc.set_of_not_mem hnew]
    rfl
  | error err =>
    have hsettle := settle_eq (v := v) habort err stats
    rw [collect, hlevel err rfl, ← hsettle]
    cases settle en v err stats with
    | error err' => exact ⟨stats, rfl⟩
    | ok settled =>
      refine ⟨settled.2, ?_⟩
      dsimp only [Except.map]
      rw [← Assoc.set_of_not_mem hnew]
      rfl

/-- **What is taken over from the results of a chunk that agree with what is expected.** -/
theorem collect_eq {en : Engine σ} (habort : en.settings.abortBatchOnFailure = false)
    {found expected : Results}
    (hagree : List.Forall₂ (fun r m => r.1 = m.1 ∧ Agrees r.2 m.2) found expected)
    (hlevel : ∀ m ∈ expected, ∀ err, m.2 = .error err → err.isBatchLevel = false)
    {acc : Results} (hnodup : (acc.map (·.1) ++ expected.map (·.1)).Nodup) (stats : BatchStats) :
    (collect en v found acc stats).map (·.1) =
        (settleAll en.settings.failurePolicy v expected).map (acc ++ ·) ∨
      found ≠ expected ∧ ∃ err, collect en v found acc stats = .error err ∧ err.IsCeiling := by
  induction hagree generalizing acc stats with
  | nil => simp [collect, settleAll_nil, Except.map]
  | @cons r m found expected hrm _ ih =>
    obtain ⟨id, x⟩ := r
    obtain ⟨id', y⟩ := m
    obtain ⟨rfl, hxy⟩ : id = id' ∧ Agrees x y := hrm
    have hnew : id ∉ acc.map (·.1) := fun hmem =>
      (List.nodup_append.1 hnodup).2.2 id hmem id List.mem_cons_self rfl
    have hy := hlevel (id, y) List.mem_cons_self
    rcases hxy with rfl | ⟨err, rfl, hceiling⟩
    · obtain ⟨stats', hcollect⟩ := collect_cons habort hnew hy stats
      rw [hcollect, settleAll_cons]
      cases settleOne en.settings.failurePolicy v x with
      | error err => exact .inl rfl
      | ok r =>
        have hnodup' : ((acc ++ [(id, r)]).map (·.1) ++ expected.map (·.1)).Nodup := by
          simpa using hnodup
        dsimp only
        rcases ih (fun m hm => hlevel m (List.mem_cons_of_mem _ hm)) hnodup' stats' with
          heq | ⟨hne, hceiling⟩
        · left
          rw [heq]
          cases settleAll en.settings.failurePolicy v expected <;> simp [Except.map]
        · exact .inr ⟨fun heq => hne (List.cons.inj heq).2, hceiling⟩
    · right
      refine ⟨?_, err, ?_, hceiling⟩
      · intro heq
        cases heq
        have := hy err rfl
        rw [hceiling.isBatchLevel] at this
        cases this
      · unfold collect
        rw [hceiling.isBatchLevel]
        rfl

end Settling

theorem keys_rawResults (c : Catalog) (v : VirtualField) (es : List Entity) :
    (rawResults c policy v es).map (·.1) = es.map (·.id) := by
  unfold rawResults
  rw [List.map_map]
  rfl

theorem rawResults_append (c : Catalog) (v : VirtualField) (es more : List Entity) :
    rawResults c policy v (es ++ more) = rawResults c policy v es ++ rawResults c policy v more :=
  List.map_append

theorem rawResults_error {c : Catalog} {v : VirtualField} {es : List Entity} :
    ∀ m ∈ rawResults c policy v es, ∀ err, m.2 = .error err → err.isBatchLevel = false := by
  intro m hm err herr
  obtain ⟨e, _, rfl⟩ := List.mem_map.1 hm
  exact result_error herr

section Batches

variable {en : Engine σ} (hc : en.catalog.Lawful) (hpure : en.catalog.IsPure)
  (hcache : en.cache = none)

include hc hpure hcache

theorem computeChunk_meets {b : Batch}
    (htarget : KeyMap.get? b.target.name en.catalog.virtualFields = some b.target)
    (horder : b.order = en.catalog.computationOrder b.target.name) (es : List Entity)
    (p : Progress σ) :
    Meets (List.Forall₂ fun r m => r.1 = m.1 ∧ Agrees r.2 m.2) b.budget p
      (Work.total (entityWork en.catalog en.settings.failurePolicy b.target) es)
      (en.computeChunk b es p) (rawResults en.catalog en.settings.failurePolicy b.target es) := by
  induction es generalizing p with
  | nil => exact .still _ .nil
  | cons e es ih =>
    have hone := computeEntity_meets hc hpure hcache htarget horder e p
    unfold computeChunk
    cases hrun : en.computeEntity b e p with
    | mk r p₁ =>
      rw [hrun] at hone
      have hrest := ih p₁
      dsimp only
      cases hruns : en.computeChunk b es p₁ with
      | mk rs p₂ =>
        rw [hruns] at hrest
        refine ⟨.cons ⟨rfl, hone.agrees⟩ hrest.agrees, fun hfits => ?_,
          hrest.cancelled.trans hone.cancelled⟩
        have hfirst := (hone.fits (hone.fits_of_add hfits).1).1
        have hsecond := (hrest.fits (hone.fits_of_add hfits).2).1
        refine ⟨?_, ((hone.chain hrest).fits hfits).2⟩
        dsimp only at hfirst hsecond ⊢
        rw [hfirst, hsecond]
        rfl

/-- **The chunks of a batch yield the results under the policy.** -/
theorem computeChunks_meets (habort : en.settings.abortBatchOnFailure = false) {b : Batch}
    (htarget : KeyMap.get? b.target.name en.catalog.virtualFields = some b.target)
    (horder : b.order = en.catalog.computationOrder b.target.name) (parts : List (List Entity)) :
    ∀ (acc : Results) (p : Progress σ), (b.heeds && p.cancelled) = false →
      (acc.map (·.1) ++ parts.flatten.map (·.id)).Nodup →
      Meets Agrees b.budget p
        (Work.total (entityWork en.catalog en.settings.failurePolicy b.target) parts.flatten)
        (en.computeChunks b parts acc p)
        ((settleAll en.settings.failurePolicy b.target
          (rawResults en.catalog en.settings.failurePolicy b.target parts.flatten)).map
            (acc ++ ·)) := by
  induction parts with
  | nil =>
    intro acc p _ _
    have : (settleAll en.settings.failurePolicy b.target
        (rawResults en.catalog en.settings.failurePolicy b.target [])).map (acc ++ ·) =
        .ok acc := by
      unfold rawResults
      rw [List.map_nil, settleAll_nil, Except.map, List.append_nil]
    rw [List.flatten_nil, this]
    exact .still _ (.inl rfl)
  | cons es parts ih =>
    intro acc p hcancelled hnodup
    rw [List.flatten_cons, List.map_append, ← List.append_assoc] at hnodup
    rw [computeChunks, hcancelled, List.flatten_cons, rawResults_append, Work.total_append,
      settleAll_append]
    simp only [Bool.false_eq_true, if_false]
    split
    · rename_i err htime
      exact .late htime
    · have hchunk := computeChunk_meets hc hpure hcache htarget horder es
        { p with stats := { p.stats with chunks := p.stats.chunks + 1 } }
      cases hrun : en.computeChunk b es
          { p with stats := { p.stats with chunks := p.stats.chunks + 1 } } with
      | mk found p₁ =>
        rw [hrun] at hchunk
        have hchunk' : Meets (List.Forall₂ fun r m => r.1 = m.1 ∧ Agrees r.2 m.2) b.budget p
            (Work.total (entityWork en.catalog en.settings.failurePolicy b.target) es)
            (found, p₁) (rawResults en.catalog en.settings.failurePolicy b.target es) :=
          ⟨hchunk.agrees, hchunk.fits, hchunk.cancelled⟩
        have hnew : (acc.map (·.1) ++ (rawResults en.catalog en.settings.failurePolicy b.target
            es).map (·.1)).Nodup := by
          rw [keys_rawResults]
          exact (List.nodup_append.1 hnodup).1
        have hcollect := collect_eq (v := b.target) habort hchunk.agrees rawResults_error hnew
          p₁.stats
        dsimp only at hcollect ⊢
        cases hcol : collect en b.target found acc p₁.stats with
        | error err =>
          rw [hcol] at hcollect
          rcases hcollect with heq | ⟨hne, err', herr, hceiling⟩
          · cases hset : settleAll en.settings.failurePolicy b.target
                (rawResults en.catalog en.settings.failurePolicy b.target es) with
            | error err' =>
              rw [hset] at heq
              cases heq
              exact (hchunk'.settled (.inl rfl) fun _ => rfl).spared
            | ok settled =>
              rw [hset] at heq
              cases heq
          · cases herr
            exact (hchunk'.settled (.inr ⟨err, rfl, hceiling⟩) fun heq => absurd heq hne).spared
        | ok collected =>
          obtain ⟨results, stats⟩ := collected
          rw [hcol] at hcollect
          rcases hcollect with heq | ⟨-, err', herr, -⟩
          · cases hset : settleAll en.settings.failurePolicy b.target
                (rawResults en.catalog en.settings.failurePolicy b.target es) with
            | error err' =>
              rw [hset] at heq
              cases heq
            | ok settled =>
              rw [hset] at heq
              obtain rfl : results = acc ++ settled := Except.ok.inj heq
              have hkeys : (acc ++ settled).map (·.1) = acc.map (·.1) ++ es.map (·.id) := by
                rw [List.map_append, keys_settleAll hset, keys_rawResults]
              have hrest := ih (acc ++ settled) { p₁ with stats := stats }
                (by rw [show ({ p₁ with stats := stats } : Progress σ).cancelled = p.cancelled from
                  hchunk.cancelled]; exact hcancelled) (by rw [hkeys]; exact hnodup)
              have hmore : Meets Agrees b.budget p₁ _ _ _ :=
                ⟨hrest.agrees, hrest.fits, hrest.cancelled⟩
              have hmap : ((settleAll en.settings.failurePolicy b.target
                    (rawResults en.catalog en.settings.failurePolicy b.target
                      parts.flatten)).map (settled ++ ·)).map (acc ++ ·) =
                  (settleAll en.settings.failurePolicy b.target
                    (rawResults en.catalog en.settings.failurePolicy b.target
                      parts.flatten)).map (acc ++ settled ++ ·) := by
                cases settleAll en.settings.failurePolicy b.target
                  (rawResults en.catalog en.settings.failurePolicy b.target parts.flatten) <;>
                  simp [Except.map]
              dsimp only
              rw [hmap]
              exact hchunk'.chain hmore
          · cases herr

/-- **A batch yields the recursive values under the policy, or the error of a ceiling; the latter
only if the work does not fit.** -/
theorem computeBatch_agrees (habort : en.settings.abortBatchOnFailure = false) {field : String}
    {v : VirtualField} (hfield : en.catalog.virtual? field = some v) {es : List Entity}
    (hids : (es.map (·.id)).Nodup) {heeds : Bool} {s : EngineState σ}
    (hcancelled : (heeds && s.cancelled) = false) :
    Agrees ((en.computeBatch heeds field es s).1.map (·.results))
        (settleAll en.settings.failurePolicy v
          (rawResults en.catalog en.settings.failurePolicy v es)) ∧
      ((Budget.ofField v en.settings).Covers
          (Work.total (entityWork en.catalog en.settings.failurePolicy v) es) →
        (en.computeBatch heeds field es s).1.map (·.results) =
          settleAll en.settings.failurePolicy v
            (rawResults en.catalog en.settings.failurePolicy v es)) ∧
      (en.computeBatch heeds field es s).2.cancelled = s.cancelled := by
  have htarget := hc.get?_name hfield
  have hmeets := computeChunks_meets hc hpure hcache habort
    (b := { target := v, order := en.catalog.computationOrder v.name
            budget := Budget.ofField v en.settings
            deadline := s.clock + nanosPerMilli * (Budget.ofField v en.settings).timeLimitMs
            heeds := heeds })
    htarget rfl (chunks (en.settings.batchSize - 1) es) []
    { cache := s.cache, clock := s.clock, cancelled := s.cancelled
      stats := { entities := es.length } }
    hcancelled (by rw [flatten_chunks]; exact hids)
  rw [flatten_chunks] at hmeets
  have hnil : ∀ r : Except ComputationError Results, r.map ([] ++ ·) = r := by
    intro r
    cases r <;> rfl
  rw [hnil] at hmeets
  unfold computeBatch
  rw [hfield]
  dsimp only
  generalize en.computeChunks _ _ _ _ = run at hmeets
  obtain ⟨found, p⟩ := run
  have hcovers : (Budget.ofField v en.settings).Covers
      (Work.total (entityWork en.catalog en.settings.failurePolicy v) es) →
      found = settleAll en.settings.failurePolicy v
        (rawResults en.catalog en.settings.failurePolicy v es) := fun hcovers =>
    (hmeets.fits ⟨by simpa using hcovers.1, by simpa using hcovers.2⟩).1
  cases found with
  | error err => exact ⟨hmeets.agrees, hcovers, hmeets.cancelled⟩
  | ok results => exact ⟨hmeets.agrees, hcovers, hmeets.cancelled⟩

end Batches

/-! ## The outcome by policy -/

/-- What the outcome of a batch is, by the recursive values of its entities. -/
structure Yields (en : Engine σ) (v : VirtualField) (es : List Entity)
    (outcome : Except ComputationError BatchOutcome) : Prop where
  /-- An entity that fails has the default value. -/
  default : en.settings.failurePolicy = .default → ∃ stats, outcome = .ok
    ⟨es.map fun e => (e.id, .ok ((value en.catalog .default e v).toOption.getD v.default)), stats⟩
  /-- An entity that fails keeps its failure. -/
  exclude : en.settings.failurePolicy = .exclude → ∃ stats, outcome = .ok
    ⟨es.map fun e => (e.id, result en.catalog .exclude v e), stats⟩
  /-- No entity fails. -/
  throw : en.settings.failurePolicy = .throw →
    (∀ e ∈ es, ∃ a, value en.catalog .throw e v = .ok a) → ∃ stats, outcome = .ok
      ⟨es.map fun e => (e.id, value en.catalog .throw e v), stats⟩
  /-- The first entity that fails ends the batch. -/
  first : en.settings.failurePolicy = .throw → ∀ before e after err, es = before ++ e :: after →
    (∀ e' ∈ before, ∃ a, value en.catalog .throw e' v = .ok a) →
    result en.catalog .throw v e = .error err → outcome = .error err

theorem ok_of_map {outcome : Except ComputationError BatchOutcome} {results : Results}
    (h : outcome.map (·.results) = .ok results) : ∃ stats, outcome = .ok ⟨results, stats⟩ := by
  cases outcome with
  | error err => cases h
  | ok o =>
    cases h
    exact ⟨o.stats, rfl⟩

theorem error_of_map {outcome : Except ComputationError BatchOutcome} {err : ComputationError}
    (h : outcome.map (·.results) = .error err) : outcome = .error err := by
  cases outcome with
  | error err' =>
    cases h
    rfl
  | ok o => cases h

theorem findSome?_rawResults {c : Catalog} {v : VirtualField} {es : List Entity}
    (h : ∀ e ∈ es, ∃ a, value c policy e v = .ok a) :
    (rawResults c policy v es).findSome? (fun r => failure? r.2) = none := by
  refine List.findSome?_eq_none_iff.2 fun r hr => ?_
  obtain ⟨e, he, rfl⟩ := List.mem_map.1 hr
  obtain ⟨a, ha⟩ := h e he
  rw [show result c policy v e = .ok a from result_ok_iff.2 ha]
  rfl

/-- The three policies, one by one. -/
theorem Yields.of_settleAll {en : Engine σ} {v : VirtualField} {es : List Entity}
    {outcome : Except ComputationError BatchOutcome}
    (h : outcome.map (·.results) = settleAll en.settings.failurePolicy v
      (rawResults en.catalog en.settings.failurePolicy v es)) : Yields en v es outcome where
  default := by
    intro hpolicy
    rw [hpolicy] at h
    obtain ⟨stats, hstats⟩ := ok_of_map h
    refine ⟨stats, hstats.trans ?_⟩
    have : ∀ e, (result en.catalog .default v e).toOption =
        (value en.catalog .default e v).toOption := by
      intro e
      unfold result report
      cases value en.catalog .default e v with
      | ok a => rfl
      | error err =>
        dsimp only
        split <;> rfl
    unfold rawResults
    simp only [List.map_map, Function.comp_def, this]
  exclude := by
    intro hpolicy
    rw [hpolicy] at h
    exact ok_of_map h
  throw := by
    intro hpolicy hall
    rw [hpolicy] at h
    unfold settleAll at h
    rw [findSome?_rawResults hall] at h
    obtain ⟨stats, hstats⟩ := ok_of_map h
    refine ⟨stats, hstats.trans ?_⟩
    have : rawResults en.catalog .throw v es =
        es.map fun e => (e.id, value en.catalog .throw e v) := by
      refine List.map_congr_left fun e he => ?_
      obtain ⟨a, ha⟩ := hall e he
      rw [ha, result_ok_iff.2 ha]
    rw [this]
  first := by
    intro hpolicy before e after err hes hbefore herr
    subst hes
    rw [hpolicy] at h
    unfold settleAll at h
    rw [rawResults_append, List.findSome?_append, findSome?_rawResults hbefore] at h
    refine error_of_map (h.trans ?_)
    unfold rawResults
    rw [List.map_cons, List.findSome?_cons, herr]
    rfl

/-- **A batch computes the recursive meaning of its field, under every policy.**  In a catalog that
registrations have built, `value` is the recursion over the needed fields, and what a failure tells
of is a needed field that fails by itself.  The outcome is the one of these values if their work is
within the budget; if it is not, it may be the error of a ceiling instead, and nothing else. -/
theorem computeBatch_refines (rs : List Registration) {en : Engine σ}
    (hcatalog : en.catalog = Catalog.enterAll {} rs) (hpure : en.catalog.IsPure)
    (hcache : en.cache = none) (habort : en.settings.abortBatchOnFailure = false)
    {field : String} {v : VirtualField} (hfield : en.catalog.virtual? field = some v)
    {es : List Entity} (hids : (es.map (·.id)).Nodup) {heeds : Bool} {s : EngineState σ}
    (hcancelled : (heeds && s.cancelled) = false) :
    (∀ policy e g, KeyMap.get? g.name en.catalog.virtualFields = some g →
      value en.catalog policy e g = step en.catalog policy e (value en.catalog policy e) g) ∧
    (∀ policy e err, value en.catalog policy e v = .error err → ∃ g,
      Relation.ReflTransGen en.catalog.Needs v.name g.name ∧
      KeyMap.get? g.name en.catalog.virtualFields = some g ∧
      value en.catalog policy e g = .error err ∧
      g.dependencies.findSome? (fault? en.catalog policy (value en.catalog policy e)) = none ∧
      err.field = g.name) ∧
    ((Budget.ofField v en.settings).Covers
        (Work.total (entityWork en.catalog en.settings.failurePolicy v) es) →
      Yields en v es (en.computeBatch heeds field es s).1) ∧
    (Yields en v es (en.computeBatch heeds field es s).1 ∨
      ∃ err, (en.computeBatch heeds field es s).1 = .error err ∧ err.IsCeiling) := by
  have hc : en.catalog.Lawful := by
    rw [hcatalog]
    exact Catalog.Lawful.empty.enterAll rs
  obtain ⟨hagrees, hcovers, -⟩ :=
    computeBatch_agrees hc hpure hcache habort hfield hids hcancelled
  refine ⟨fun policy e g hg => value_eq hc policy e hg,
    fun policy e err herr => exists_culprit hc policy e (hc.get?_name hfield) herr,
    fun h => .of_settleAll (hcovers h), ?_⟩
  rcases hagrees with heq | ⟨err, herr, hceiling⟩
  · exact .inl (.of_settleAll heq)
  · exact .inr ⟨err, error_of_map herr, hceiling⟩

section Halving

/-- Half of a count that is even. -/
def half : VirtualField where
  name := "half"
  fieldType := .integer
  computation := .pure fun _ i =>
    match i.get? "count" with
    | some (.int n) => if n % 2 = 0 then .ok (.int (n / 2)) else .error "odd"
    | _ => .error "no number"
  computationName := "half"
  dependencies := ["count"]
  operators := []

/-- The half once more; it is registered before the field that it needs. -/
def copy : VirtualField where
  name := "copy"
  fieldType := .integer
  computation := .pure fun _ i => .ok ((i.get? "half").getD .null)
  computationName := "copy"
  dependencies := ["half"]
  operators := []

/-- An engine that leaves out what fails. -/
def halving : Engine Unit where
  catalog := Catalog.enterAll {} [.virtual copy, .virtual half]
  settings := { failurePolicy := .exclude }
  digest := id

/-- An item with a count. -/
def counted (id n : Int64) : Entity := .mk "item" (.int id) [("count", .int n)] []

theorem halving_isPure : halving.catalog.IsPure := by
  intro p hp
  have hfields : halving.catalog.virtualFields = [("copy", copy), ("half", half)] := rfl
  rw [hfields] at hp
  simp only [List.mem_cons, List.not_mem_nil, or_false] at hp
  rcases hp with rfl | rfl
  · exact ⟨fun _ _ => rfl, fun _ _ => rfl⟩
  · exact ⟨fun _ _ => rfl, fun _ _ => rfl⟩

/-- An even count, and an odd one that fails in the field behind the one that is asked for. -/
theorem computeBatch_halving :
    halving.catalog.virtual? "copy" = some copy ∧
    ([counted 1 6, counted 2 3].map (·.id)).Nodup ∧
    (Budget.ofField copy halving.settings).Covers
      (Work.total (entityWork halving.catalog .exclude copy) [counted 1 6, counted 2 3]) ∧
    ∃ stats, (halving.computeBatch false "copy" [counted 1 6, counted 2 3] { cache := () }).1 =
      .ok ⟨[(.int 1, .ok (.int 3)),
        (.int 2, .error (.dependencyFailed "copy" ⟨"item", .int 2⟩ "half"))], stats⟩ := by
  have hfield : halving.catalog.virtual? "copy" = some copy := rfl
  have hids : ([counted 1 6, counted 2 3].map (·.id)).Nodup := by decide
  have hcovers : (Budget.ofField copy halving.settings).Covers
      (Work.total (entityWork halving.catalog .exclude copy) [counted 1 6, counted 2 3]) := by
    constructor <;> decide +kernel
  have heven : result halving.catalog .exclude copy (counted 1 6) = .ok (.int 3) := by
    with_unfolding_all rfl
  have hodd : result halving.catalog .exclude copy (counted 2 3) =
      .error (.dependencyFailed "copy" ⟨"item", .int 2⟩ "half") := by
    with_unfolding_all rfl
  have hcancelled : (false && ({ cache := () } : EngineState Unit).cancelled) = false := rfl
  obtain ⟨-, -, hyields, -⟩ := computeBatch_refines [.virtual copy, .virtual half] rfl
    halving_isPure rfl rfl hfield hids hcancelled
  obtain ⟨stats, hstats⟩ := (hyields hcovers).exclude rfl
  refine ⟨hfield, hids, hcovers, stats, hstats.trans ?_⟩
  rw [List.map_cons, List.map_cons, heven, hodd]
  rfl

end Halving

end FieldQuery.Engine
