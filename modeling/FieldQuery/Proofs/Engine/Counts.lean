import FieldQuery.Proofs.Engine.Cached
import FieldQuery.Proofs.Engine.SharedCache

/-!
# Counts of batches

A batch counts what becomes of its entities, and an engine adds up the counts of its batches that end well.

* `BatchStats.total` — the sum of some counts;
* `Tally` — the counts of failures fit the results that have been taken over so far;
* `Adopts` — results and counts before and after some entities have been taken over, in some chunks;
* `Accounts` — an outcome has one result for each entity, and counts that fit them;
* `Serves`, `Served` — a call that is served, one entity after the other or side by side, and calls that
  are served one after the other.

A single result that is taken over keeps the tally (`collect_cons_adopts`).  The moves of the entities of a
chunk leave alone what it is about (`Interweaves.counts`), whatever the cache answers, so that chunks keep
it under any schedule.

Principal results: `Serves.settles` — a call fails and leaves the totals, or its outcome accounts for its
entities and is counted; `served_account` — all the outcomes of a run account for their entities, and the
totals are what they add up to.
-/

namespace FieldQuery

namespace BatchStats

/-- The sum of some counts. -/
def total : List BatchStats → BatchStats
  | [] => {}
  | s :: ss => s.add (total ss)

end BatchStats

namespace Engine

variable {σ : Type} {en : Engine σ} {b : Batch}

/-- The counts of failures fit the results that have been taken over so far. -/
structure Tally (en : Engine σ) (results : Results) (stats : BatchStats) : Prop where
  failed : stats.failed = stats.defaulted + stats.excluded
  excluded : stats.excluded = results.countP fun r => !r.2.isOk
  single : ∀ r ∈ results, ∀ err, r.2 = .error err → err.isBatchLevel = false
  default : en.settings.failurePolicy = .default → stats.excluded = 0
  exclude : en.settings.failurePolicy = .exclude → stats.defaulted = 0
  strict : en.settings.EndsBatch → stats.failed = 0

/-- Results and counts before and after some entities have been taken over, in some chunks. -/
structure Adopts (en : Engine σ) (ids : List EntityId) (n : Nat) (before after : Results × BatchStats) :
    Prop where
  keys : after.1.map (·.1) = before.1.map (·.1) ++ ids
  entities : after.2.entities = before.2.entities
  chunks : after.2.chunks = before.2.chunks + n
  tally : Tally en before.1 before.2 → Tally en after.1 after.2

/-- An outcome has one result for each of some entities, and counts that fit them. -/
structure Accounts (en : Engine σ) (es : List Entity) (o : BatchOutcome) : Prop
    extends Tally en o.results o.stats where
  keys : o.results.map (·.1) = es.map (·.id)
  entities : o.stats.entities = es.length
  chunks : o.stats.chunks = es.length ⌈/⌉ max 1 en.settings.batchSize

/-! ## Results that are taken over -/

theorem tally_empty {stats : BatchStats} (hfailed : stats.failed = 0) (hdefaulted : stats.defaulted = 0)
    (hexcluded : stats.excluded = 0) : Tally en [] stats where
  failed := by rw [hfailed, hdefaulted, hexcluded]
  excluded := hexcluded
  single := fun _ hr => absurd hr List.not_mem_nil
  default := fun _ => hexcluded
  exclude := fun _ => hdefaulted
  strict := fun _ => hfailed

/-- A value is taken over and not counted. -/
theorem Tally.value {acc : Results} {stats : BatchStats} (h : Tally en acc stats) (id : EntityId)
    (value : Value) : Tally en (acc ++ [(id, .ok value)]) stats where
  failed := h.failed
  excluded := by
    rw [h.excluded, List.countP_append]
    rfl
  single := List.forall_mem_append.2 ⟨h.single, by simp⟩
  default := h.default
  exclude := h.exclude
  strict := h.strict

/-- A failure that does not end the batch is counted as what becomes of it. -/
theorem settle_ok {v : VirtualField} {err : ComputationError} {stats : BatchStats}
    {out : Except ComputationError Value × BatchStats} (h : en.settle v err stats = .ok out) :
    ¬ en.settings.EndsBatch ∧
      (en.settings.failurePolicy = .exclude ∧
          out = (.error err, stats.add { failed := 1, excluded := 1 }) ∨
        en.settings.failurePolicy = .default ∧
          out = (.ok v.default, stats.add { failed := 1, defaulted := 1 })) := by
  unfold settle at h
  unfold ComputationSettings.EndsBatch
  cases hpolicy : en.settings.failurePolicy <;> cases habort : en.settings.abortBatchOnFailure <;>
    simp only [hpolicy, habort] at h <;> cases h
  · exact ⟨by simp, .inr ⟨rfl, rfl⟩⟩
  · exact ⟨by simp, .inl ⟨rfl, rfl⟩⟩

theorem Tally.failure {acc : Results} {stats : BatchStats} (h : Tally en acc stats) {v : VirtualField}
    {err : ComputationError} (hsingle : err.isBatchLevel = false)
    {out : Except ComputationError Value × BatchStats} (hsettle : en.settle v err stats = .ok out)
    (id : EntityId) : Tally en (acc ++ [(id, out.1)]) out.2 := by
  obtain ⟨hends, ⟨hpolicy, rfl⟩ | ⟨hpolicy, rfl⟩⟩ := settle_ok hsettle
  · constructor
    case failed => exact congrArg (· + 1) h.failed
    case excluded =>
      rw [List.countP_append]
      exact congrArg (· + 1) h.excluded
    case single =>
      refine List.forall_mem_append.2 ⟨h.single, fun r hr err' herr' => ?_⟩
      rw [List.mem_singleton.1 hr] at herr'
      exact Except.error.inj herr' ▸ hsingle
    case default => exact fun hdefault => nomatch hpolicy.symm.trans hdefault
    case exclude => exact h.exclude
    case strict => exact fun hstrict => absurd hstrict hends
  · constructor
    case failed =>
      show stats.failed + 1 = stats.defaulted + 1 + stats.excluded
      rw [h.failed]
      omega
    case excluded =>
      rw [List.countP_append]
      exact h.excluded
    case single => exact List.forall_mem_append.2 ⟨h.single, by simp⟩
    case default => exact h.default
    case exclude => exact fun hexclude => nomatch hpolicy.symm.trans hexclude
    case strict => exact fun hstrict => absurd hstrict hends

theorem Adopts.trans {ids ids' : List EntityId} {n n' : Nat} {x y z : Results × BatchStats}
    (h : Adopts en ids n x y) (h' : Adopts en ids' n' y z) : Adopts en (ids ++ ids') (n + n') x z where
  keys := by rw [h'.keys, h.keys, List.append_assoc]
  entities := h'.entities.trans h.entities
  chunks := by rw [h'.chunks, h.chunks, Nat.add_assoc]
  tally := h'.tally ∘ h.tally

theorem Adopts.nothing (x : Results × BatchStats) : Adopts en [] 0 x x where
  keys := (List.append_nil _).symm
  entities := rfl
  chunks := rfl
  tally := id

/-- Counts of computations and of the cache do not matter, and one more chunk is counted. -/
theorem Adopts.ofStats {stats stats' : BatchStats} (acc : Results)
    (h : stats'.ofResults = { stats with chunks := stats.chunks + 1 }.ofResults) :
    Adopts en [] 1 (acc, stats) (acc, stats') := by
  obtain ⟨entities, chunks, computed, cacheHits, cacheErrors, failed, defaulted, excluded⟩ := stats'
  cases h
  exact ⟨(List.append_nil _).symm, rfl, rfl, fun h => ⟨h.1, h.2, h.3, h.4, h.5, h.6⟩⟩

/-- **One result is taken over**: its entity is new, and the tally is kept. -/
theorem collect_cons_adopts {v : VirtualField} {r : EntityId × Except ComputationError Value}
    {found acc : Results} {stats : BatchStats} {out : Results × BatchStats}
    (h : en.collect v (r :: found) acc stats = .ok out) (hnew : r.1 ∉ acc.map (·.1)) :
    ∃ next, Adopts en [r.1] 0 (acc, stats) next ∧ en.collect v found next.1 next.2 = .ok out := by
  obtain ⟨id, x⟩ := r
  cases x with
  | ok value =>
    rw [collect, Assoc.set_of_not_mem hnew] at h
    exact ⟨(acc ++ [(id, .ok value)], stats),
      ⟨List.map_append, rfl, rfl, fun htally => htally.value id value⟩, h⟩
  | error err =>
    rw [collect] at h
    split at h
    · cases h
    rename_i hlevel
    cases hsettle : en.settle v err stats with
    | error err' =>
      rw [hsettle] at h
      cases h
    | ok settled =>
      rw [hsettle] at h
      dsimp only at h
      rw [Assoc.set_of_not_mem hnew] at h
      have hcounts : settled.2.entities = stats.entities ∧ settled.2.chunks = stats.chunks := by
        obtain ⟨-, ⟨-, rfl⟩ | ⟨-, rfl⟩⟩ := settle_ok hsettle <;> exact ⟨rfl, rfl⟩
      exact ⟨(acc ++ [(id, settled.1)], settled.2), ⟨List.map_append, hcounts.1, hcounts.2,
        fun htally => htally.failure (Bool.not_eq_true _ ▸ hlevel) hsettle id⟩, h⟩

/-- The results of a chunk are taken over one by one. -/
theorem collect_adopts {v : VirtualField} {found acc : Results} {stats : BatchStats}
    {out : Results × BatchStats} (h : en.collect v found acc stats = .ok out)
    (hnodup : (acc.map (·.1) ++ found.map (·.1)).Nodup) :
    Adopts en (found.map (·.1)) 0 (acc, stats) out := by
  induction found generalizing acc stats with
  | nil =>
    cases h
    exact .nothing _
  | cons r found ih =>
    have hnew : r.1 ∉ acc.map (·.1) := fun hmem =>
      (List.nodup_append.1 hnodup).2.2 r.1 hmem r.1 List.mem_cons_self rfl
    obtain ⟨next, hfirst, hrest⟩ := collect_cons_adopts h hnew
    refine hfirst.trans (ih hrest ?_)
    rw [hfirst.keys, List.append_assoc]
    exact hnodup

/-- **A chunk is taken over.**  Its computations have counted nothing that the tally is about. -/
theorem adopts_chunk {v : VirtualField} {es : List Entity} {found acc : Results} {p p' : Progress σ}
    {out : Results × BatchStats} (hkeys : found.map (·.1) = es.map (·.id))
    (hstats : p'.stats.ofResults = p.nextChunk.stats.ofResults)
    (h : en.collect v found acc p'.stats = .ok out)
    (hnodup : (acc.map (·.1) ++ es.map (·.id)).Nodup) :
    Adopts en (es.map (·.id)) 1 (acc, p.stats) out := by
  rw [← hkeys] at hnodup ⊢
  exact (Adopts.ofStats acc hstats).trans (collect_adopts h hnodup)

/-! ## Chunks side by side -/

theorem takeOver_stats (b : Budget) (value : Value) (p : Progress σ) :
    (takeOver b value p).2.stats = p.stats := by
  unfold takeOver
  split
  · rfl
  · split <;> rfl

/-- A move counts computations only. -/
theorem advance_stats (e : Entity) (stage : Stage) (p : Progress σ) :
    (en.advance b e stage p).2.stats.ofResults = p.stats.ofResults := by
  unfold advance
  cases stage with
  | waiting => dsimp only; split <;> rfl
  | going names computed =>
    cases names with
    | nil => rfl
    | cons name rest =>
      dsimp only
      split
      · rfl
      split
      · rfl
      split <;> rfl
  | returned t value => dsimp only; split <;> rfl
  | accepted t value => exact congrArg BatchStats.ofResults (takeOver_stats b.budget value p)
  | done r => rfl

/-- With a cache, a move counts look-ups and errors of the cache as well. -/
theorem advanceShared_stats (e : Entity) (station : Station σ) (p : Progress σ) :
    (en.advanceShared b e station p).2.stats.ofResults = p.stats.ofResults := by
  unfold advanceShared
  cases station with
  | plain stage =>
    dsimp only
    split
    · exact advance_stats e stage p
    · rename_i t slot _
      have hlook := (findCached_cases slot p).2.1.stats
      generalize findCached slot p = looked at hlook ⊢
      obtain ⟨found, p'⟩ := looked
      cases found <;> exact hlook
  | missing slot stage =>
    cases stage with
    | accepted t value => exact congrArg BatchStats.ofResults (takeOver_stats b.budget value p)
    | waiting => exact advance_stats e _ p
    | going names computed => exact advance_stats e _ p
    | returned t value => exact advance_stats e _ p
    | done r => exact advance_stats e _ p
  | charged slot t value => exact (remember_cases (en.lifetime t.field) value slot p).2.stats

/-- In a chunk that goes on, each entity keeps its place. -/
theorem SharedRuns.counts {x y : Sharing σ} (h : SharedRuns en b x y) :
    y.1.map (·.1) = x.1.map (·.1) ∧ y.2.stats.ofResults = x.2.stats.ofResults := by
  induction h with
  | refl => exact ⟨rfl, rfl⟩
  | tail _ hmove ih =>
    obtain ⟨before, after, e, station, p⟩ := hmove
    rw [← ih.1, ← ih.2]
    exact ⟨by simp, advanceShared_stats e station p⟩

/-- **Whatever the schedule of a chunk**, each of its entities has a result, and computations and look-ups
have been counted, and nothing else. -/
theorem Interweaves.counts {es : List Entity} {p p' : Progress σ} {found : Results}
    (h : Interweaves en b es p found p') :
    found.map (·.1) = es.map (·.id) ∧ p'.stats.ofResults = p.stats.ofResults := by
  obtain ⟨ended, hruns, rfl⟩ := h
  obtain ⟨hplaces, hstats⟩ := hruns.counts
  refine ⟨?_, hstats⟩
  have hentities : ended.map (·.1) = es := by
    simpa [plainly, finished, Function.comp_def] using hplaces
  rw [← hentities, List.map_map, List.map_map]
  rfl

/-- **Chunks that end well are taken over**, under any schedule. -/
theorem SideBySide.adopts {parts : List (List Entity)} {acc : Results} {p : Progress σ}
    {run : Except ComputationError Results × Progress σ} (h : SideBySide en b parts acc p run) :
    ∀ {results : Results} {q : Progress σ}, run = (.ok results, q) →
      (acc.map (·.1) ++ parts.flatten.map (·.id)).Nodup →
      Adopts en (parts.flatten.map (·.id)) parts.length (acc, p.stats) (results, q.stats) := by
  induction h with
  | done acc p =>
    intro results q hrun _
    cases hrun
    exact .nothing _
  | cancelled => exact fun hrun => nomatch hrun
  | late => exact fun hrun => nomatch hrun
  | failed => exact fun hrun => nomatch hrun
  | @next es parts acc found collected p p' stats run _ _ hchunk hcollect _ ih =>
    intro results q hrun hnodup
    rw [List.flatten_cons, List.map_append, ← List.append_assoc] at hnodup
    obtain ⟨hkeys, hstats⟩ := hchunk.counts
    have hfirst := adopts_chunk hkeys hstats hcollect (List.nodup_append.1 hnodup).1
    have hothers := ih hrun (by rw [hfirst.keys]; exact hnodup)
    rw [List.flatten_cons, List.map_append, List.length_cons, Nat.add_comm]
    exact hfirst.trans hothers

/-! ## Calls -/

/-- A batch as its chunks leave it: counts are added up if it ends well. -/
def concluded (s : EngineState σ) (run : Except ComputationError Results × Progress σ) :
    Except ComputationError BatchOutcome × EngineState σ :=
  (yields run, { s with
    cache := run.2.cache, clock := run.2.clock, cancelled := run.2.cancelled
    totals := match run.1 with
      | .error _ => s.totals
      | .ok _ => s.totals.add run.2.stats })

theorem computeBatch_concluded {field : String} {v : VirtualField}
    (hv : en.catalog.virtual? field = some v) (heeds : Bool) (es : List Entity) (s : EngineState σ) :
    en.computeBatch heeds field es s = concluded s (en.computeChunks (en.batchOf heeds v s)
      (chunks (en.settings.batchSize - 1) es) [] (startOf es s)) := by
  unfold computeBatch batchOf startOf
  rw [hv]
  dsimp only
  generalize en.computeChunks _ _ _ _ = run
  obtain ⟨r, p⟩ := run
  cases r <;> rfl

/-- A call is served: one entity after the other, or the entities of a chunk side by side, sharing the
cache. -/
inductive Serves (en : Engine σ) (c : BatchCall) (s : EngineState σ) :
    Except ComputationError BatchOutcome × EngineState σ → Prop
  | inOrder : Serves en c s (en.callBatch c s)
  | sideBySide {v : VirtualField} {run : Except ComputationError Results × Progress σ}
      (hv : en.catalog.virtual? c.field = some v)
      (hrun : SideBySide en (en.batchOf c.heeds v (c.begin s))
        (chunks (en.settings.batchSize - 1) c.entities) [] (startOf c.entities (c.begin s)) run) :
      Serves en c s (concluded (c.begin s) run)

/-- Calls are served one after the other, with these outcomes. -/
inductive Served (en : Engine σ) :
    List BatchCall → EngineState σ → List (Except ComputationError BatchOutcome) → EngineState σ →
      Prop
  | nil (s : EngineState σ) : Served en [] s [] s
  | cons {c : BatchCall} {calls : List BatchCall} {s s₁ s' : EngineState σ}
      {outcome : Except ComputationError BatchOutcome}
      {outcomes : List (Except ComputationError BatchOutcome)} (hfirst : Serves en c s (outcome, s₁))
      (hrest : Served en calls s₁ outcomes s') : Served en (c :: calls) s (outcome :: outcomes) s'

/-- The counts of the batches that have ended well. -/
def okStats (outcomes : List (Except ComputationError BatchOutcome)) : List BatchStats :=
  outcomes.filterMap fun outcome => outcome.toOption.map (·.stats)

/-- The calls of a run are served. -/
theorem served_runBatches (calls : List BatchCall) :
    ∀ s : EngineState σ, ∃ s', Served en calls s (en.runBatches calls s) s' := by
  induction calls with
  | nil => exact fun s => ⟨s, .nil s⟩
  | cons c calls ih =>
    intro s
    obtain ⟨s', hrest⟩ := ih (en.callBatch c s).2
    exact ⟨s', .cons .inOrder hrest⟩

/-- A batch fails and leaves the totals, or accounts for some entities and is counted. -/
def Settles (en : Engine σ) (es : List Entity) (s : EngineState σ)
    (served : Except ComputationError BatchOutcome × EngineState σ) : Prop :=
  match served.1 with
  | .error _ => served.2.totals = s.totals
  | .ok o => Accounts en es o ∧ served.2.totals = s.totals.add o.stats

/-- Chunks that have been taken over account for the entities of a batch. -/
theorem accounts_of_adopts {es : List Entity} {results : Results} {stats : BatchStats}
    (h : Adopts en ((chunks (en.settings.batchSize - 1) es).flatten.map (·.id))
      (chunks (en.settings.batchSize - 1) es).length ([], { entities := es.length }) (results, stats)) :
    Accounts en es ⟨results, stats⟩ := by
  have hparts : (chunks (en.settings.batchSize - 1) es).length =
      es.length ⌈/⌉ max 1 en.settings.batchSize := by
    rw [length_chunks]
    congr 1
    omega
  have hkeys := h.keys
  have hchunks := h.chunks
  rw [flatten_chunks] at hkeys
  rw [hparts] at hchunks
  exact ⟨h.tally (tally_empty rfl rfl rfl), hkeys, h.entities, hchunks.trans (Nat.zero_add _)⟩

theorem concluded_settles {es : List Entity} (s : EngineState σ)
    {run : Except ComputationError Results × Progress σ}
    (h : ∀ results q, run = (.ok results, q) → Accounts en es ⟨results, q.stats⟩) :
    Settles en es s (concluded s run) := by
  obtain ⟨r, q⟩ := run
  cases r with
  | error err => rfl
  | ok results => exact ⟨h results q rfl, rfl⟩

/-- **A call that is served fails and leaves the totals, or its outcome accounts for its entities and is
counted.** -/
theorem Serves.settles {c : BatchCall} {s : EngineState σ}
    {served : Except ComputationError BatchOutcome × EngineState σ} (h : Serves en c s served)
    (hids : (c.entities.map (·.id)).Nodup) : Settles en c.entities s served := by
  have hnodup : (([] : Results).map (·.1) ++
      (chunks (en.settings.batchSize - 1) c.entities).flatten.map (·.id)).Nodup := by
    rw [flatten_chunks]
    exact hids
  cases h with
  | inOrder =>
    unfold callBatch
    cases hv : en.catalog.virtual? c.field with
    | none =>
      unfold computeBatch
      rw [hv]
      rfl
    | some v =>
      rw [computeBatch_concluded hv]
      exact concluded_settles (c.begin s) fun results q hrun =>
        accounts_of_adopts ((sideBySide_computeChunks _ _ _).adopts hrun hnodup)
  | sideBySide hv hrun =>
    exact concluded_settles (c.begin s) fun results q hok =>
      accounts_of_adopts (hrun.adopts hok hnodup)

/-- **Every outcome of a run accounts for the entities of its call, and the totals are what the counts of
the batches that end well add up to.** -/
theorem served_account {calls : List BatchCall} {s s' : EngineState σ}
    {outcomes : List (Except ComputationError BatchOutcome)} (h : Served en calls s outcomes s')
    (hids : ∀ c ∈ calls, (c.entities.map (·.id)).Nodup) :
    List.Forall₂ (fun c outcome => ∀ o, outcome = .ok o → Accounts en c.entities o) calls outcomes ∧
      s'.totals = s.totals.add (.total (okStats outcomes)) := by
  induction h with
  | nil s => exact ⟨.nil, rfl⟩
  | @cons c calls s s₁ s' outcome outcomes hfirst _ ih =>
    obtain ⟨hhead, hrest⟩ := List.forall_mem_cons.1 hids
    obtain ⟨hothers, htotals⟩ := ih hrest
    have hsettles := hfirst.settles hhead
    cases outcome with
    | error err =>
      have hleft : s₁.totals = s.totals := hsettles
      exact ⟨.cons (fun _ ho => nomatch ho) hothers, htotals.trans (by rw [hleft]; rfl)⟩
    | ok o =>
      obtain ⟨haccounts, hcounted⟩ : Accounts en c.entities o ∧
        s₁.totals = s.totals.add o.stats := hsettles
      refine ⟨.cons (fun _ ho => Except.ok.inj ho ▸ haccounts) hothers, ?_⟩
      rw [htotals, hcounted]
      exact BatchStats.add_assoc _ _ _

/-- A call for copies of two halves, of which one fails, and a call for a field that is unknown. -/
def halvesCalled : List BatchCall :=
  [{ field := "copy", entities := [counted 1 6, counted 2 3] },
   { field := "whole", entities := [counted 1 6] }]

/-- One of two entities is excluded, and the call that fails adds nothing. -/
theorem served_account_halvesCalled :
    (∀ c ∈ halvesCalled, (c.entities.map (·.id)).Nodup) ∧
    ∃ outcomes s', Served halving halvesCalled { cache := () } outcomes s' ∧
      List.Forall₂ (fun c outcome => ∀ o, outcome = .ok o → Accounts halving c.entities o)
        halvesCalled outcomes ∧
      okStats outcomes = [{ entities := 2, chunks := 1, computed := 2, failed := 1, excluded := 1 }] ∧
      s'.totals = { entities := 2, chunks := 1, computed := 2, failed := 1, excluded := 1 } := by
  have hids : ∀ c ∈ halvesCalled, (c.entities.map (·.id)).Nodup := by decide
  obtain ⟨s', hserved⟩ : ∃ s', Served halving halvesCalled { cache := () }
      (halving.runBatches halvesCalled { cache := () }) s' := served_runBatches halvesCalled _
  obtain ⟨haccounts, htotals⟩ := served_account hserved hids
  have hstats : okStats (halving.runBatches halvesCalled { cache := () }) =
      [{ entities := 2, chunks := 1, computed := 2, failed := 1, excluded := 1 }] := by
    decide +kernel
  refine ⟨hids, _, s', hserved, haccounts, hstats, ?_⟩
  rw [htotals, hstats]
  rfl

end Engine

end FieldQuery
