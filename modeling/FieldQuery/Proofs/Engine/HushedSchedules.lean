import FieldQuery.Proofs.Engine.Hushed

/-!
# What failed computations say, side by side

Two engines whose computations differ in the reasons of failures at most, and the entities of a chunk
under any schedule in which they share a cache.

* `Stage.hushed`, `Station.hushed`, `Sharing.hushed` — how far entities have come, failures hushed.

Principal results: `advance_hushed` and `advanceShared_hushed` — one move of an entity; `SharedMoves.same` —
what one engine does next, the other one can do as well, and from it `SharedRuns.same`, `Interweaves.same`,
`SideBySide.same` and `Serves.same` — so it is with a chunk, with all chunks of a batch, and with a call.
-/

namespace FieldQuery

/-- The stage, its failure hushed. -/
def Stage.hushed : Stage → Stage
  | .returned t value => .returned t.hushed value
  | .accepted t value => .accepted t.hushed value
  | .done r => .done (hush id r)
  | stage => stage

/-- The station, its failure hushed. -/
def Station.hushed {σ : Type} : Station σ → Station σ
  | .plain stage => .plain stage.hushed
  | .missing slot stage => .missing slot stage.hushed
  | .charged slot t value => .charged slot t.hushed value

/-- The entities of a chunk, all failures hushed. -/
def Sharing.hushed {σ : Type} (x : Sharing σ) : Sharing σ :=
  (x.1.map fun t => (t.1, t.2.hushed), x.2)

namespace Engine

variable {σ : Type}

/-! ## One move -/

section Moves

variable {en : Engine σ} {b : Batch} {e : Entity}

theorem proceed_hushed (t : Visit) (r : Except ComputationError Value) :
    en.hushed.proceed b.hushed e t.hushed (hush id r) = (en.proceed b e t r).hushed := by
  unfold proceed
  exact @goOn_hushed σ en Stage Stage Stage.hushed .done .done (.going t.rest) (.going t.rest)
    (fun _ => rfl) (fun _ => rfl) b.target e t r

/-- **One move of an entity.** -/
theorem advance_hushed (stage : Stage) (p : Progress σ) :
    en.hushed.advance b.hushed e stage.hushed p = Prod.map Stage.hushed id (en.advance b e stage p) := by
  rcases stage with _ | ⟨_ | ⟨name, rest⟩, computed⟩ | ⟨t, value⟩ | ⟨t, value⟩ | r
  case waiting =>
    show en.hushed.advance b.hushed e .waiting p = _
    rw [advance, advance, show b.hushed.budget = b.budget from rfl]
    cases htime : b.budget.checkTime p.spent with
    | error err =>
      exact (congrArg (fun err => (Stage.done (.error err), p)) (Budget.checkTime_error htime).1.hushed).symm
    | ok u => rfl
  case going.nil =>
    show en.hushed.advance b.hushed e (.going [] computed) p = _
    rw [advance, advance]
    unfold targetValue
    rw [show b.hushed.target.name = b.target.name from rfl]
    cases List.lookup b.target.name computed <;> rfl
  case going.cons =>
    show en.hushed.advance b.hushed e (.going (name :: rest) computed) p = _
    rw [advance, advance]
    cases hv : en.catalog.virtual? name with
    | none =>
      rw [virtual?_hushed hv]
      rfl
    | some v =>
      rw [virtual?_hushed hv]
      dsimp only [Option.map_some]
      rw [show resolveInputs b.hushed v.hushed e computed p.cancelled =
        resolveInputs b v e computed p.cancelled from rfl]
      cases hinputs : resolveInputs b v e computed p.cancelled with
      | error err =>
        have hproceed := @proceed_hushed σ en b e ⟨name, v, rest, computed⟩ (.error err)
        rw [show hush id (.error err) = (.error err : Except ComputationError Value) from
          congrArg Except.error (hushed_of_resolveInputs hinputs)] at hproceed
        exact congrArg (·, p) hproceed
      | ok i =>
        have hproceed := @proceed_hushed σ en b e ⟨name, v, rest, computed⟩
        dsimp only
        rw [show v.hushed.computation e i = (v.computation e i).hushed from rfl]
        unfold Outcome.hushed
        dsimp only
        cases (v.computation e i).value with
        | error reason => exact congrArg (·, _) (hproceed (.error (.callbackFailed v.name e.ref reason)))
        | ok value => rfl
  case returned =>
    show en.hushed.advance b.hushed e (.returned t.hushed value) p = _
    rw [advance, advance, show t.hushed.field.nullable = t.field.nullable from rfl]
    split
    · exact congrArg (·, p.countComputed)
        (proceed_hushed t (.error (.callbackFailed t.field.name e.ref nullRefused)))
    · rfl
  case accepted =>
    show en.hushed.advance b.hushed e (.accepted t.hushed value) p = _
    rw [advance, advance, show b.hushed.budget = b.budget from rfl]
    conv_lhs => rw [← takeOver_hushed]
    exact congrArg (·, _) (proceed_hushed t _)
  case done => rfl

theorem nextSlot?_hushed (stage : Stage) (p : Progress σ) :
    en.hushed.nextSlot? b.hushed e p stage.hushed =
      (en.nextSlot? b e p stage).map fun next => (next.1.hushed, next.2) := by
  rcases stage with _ | ⟨_ | ⟨name, rest⟩, computed⟩ | ⟨t, value⟩ | ⟨t, value⟩ | r
  case going.cons =>
    show en.hushed.nextSlot? b.hushed e p (.going (name :: rest) computed) = _
    rw [nextSlot?, nextSlot?]
    cases hv : en.catalog.virtual? name with
    | none =>
      rw [virtual?_hushed hv]
      rfl
    | some v =>
      rw [virtual?_hushed hv]
      dsimp only [Option.map_some]
      rw [show resolveInputs b.hushed v.hushed e computed p.cancelled =
        resolveInputs b v e computed p.cancelled from rfl]
      cases resolveInputs b v e computed p.cancelled with
      | error err => rfl
      | ok i =>
        dsimp only
        rw [show en.hushed.slot? v.hushed e i = en.slot? v e i from rfl]
        cases en.slot? v e i <;> rfl
  all_goals rfl

theorem station_hushed (slot : Slot σ) (stage : Stage) :
    stage.hushed.station slot = (stage.station slot).hushed := by
  cases stage <;> rfl

theorem forward_hushed (slot : Slot σ) (t : Visit) (r : Except ComputationError Value) :
    en.hushed.forward b.hushed e slot t.hushed (hush id r) = (en.forward b e slot t r).hushed := by
  cases r with
  | error err => exact congrArg Station.plain (proceed_hushed t (.error err))
  | ok value => rfl

/-- **One move of an entity that shares a cache.** -/
theorem advanceShared_hushed (station : Station σ) (p : Progress σ) :
    en.hushed.advanceShared b.hushed e station.hushed p =
      Prod.map Station.hushed id (en.advanceShared b e station p) := by
  have hmissing : ∀ (slot : Slot σ) (stage : Stage),
      (((en.hushed.advance b.hushed e stage.hushed p).1.station slot,
        (en.hushed.advance b.hushed e stage.hushed p).2) : Station σ × Progress σ) =
      Prod.map Station.hushed id ((en.advance b e stage p).1.station slot, (en.advance b e stage p).2) := by
    intro slot stage
    rw [advance_hushed]
    exact congrArg (·, _) (station_hushed slot _)
  rcases station with stage | ⟨slot, stage⟩ | ⟨slot, t, value⟩
  case plain =>
    show en.hushed.advanceShared b.hushed e (.plain stage.hushed) p = _
    rw [advanceShared, advanceShared, nextSlot?_hushed, advance_hushed]
    cases en.nextSlot? b e p stage with
    | none => rfl
    | some next =>
      dsimp only [Option.map_some]
      generalize findCached next.2 p = looked
      obtain ⟨found, p'⟩ := looked
      cases found with
      | none => rfl
      | some value => exact congrArg (fun s => (Station.plain s, p')) (proceed_hushed next.1 (.ok value))
  case missing =>
    cases stage with
    | accepted t value =>
      show en.hushed.advanceShared b.hushed e (.missing slot (.accepted t.hushed value)) p = _
      rw [advanceShared, advanceShared, show b.hushed.budget = b.budget from rfl]
      conv_lhs => rw [← takeOver_hushed]
      exact congrArg (·, _) (forward_hushed slot t _)
    | _ => exact hmissing slot _
  case charged => exact congrArg (fun s => (Station.plain s, _)) (proceed_hushed t (.ok value))

end Moves

/-! ## The same moves -/

/-- An entity that is at the end but for what its failure says is at the end. -/
theorem exists_of_hushed_done {station : Station σ} {r : Except ComputationError Value}
    (h : station.hushed = .plain (.done (hush id r))) :
    ∃ r', station = .plain (.done r') ∧ hush id r' = hush id r := by
  rcases station with stage | ⟨slot, stage⟩ | ⟨slot, t, value⟩
  · cases stage with
    | done r' => exact ⟨r', rfl, Stage.done.inj (Station.plain.inj h)⟩
    | _ => cases h
  · cases h
  · cases h

theorem exists_of_hushed_finished {ended : List (Entity × Except ComputationError Value)} :
    ∀ {tasks : List (Entity × Station σ)},
      tasks.map (fun t => (t.1, t.2.hushed)) = (plainly (finished ended)).map (fun t => (t.1, t.2.hushed)) →
      ∃ ended', tasks = plainly (finished ended') ∧
        ended'.map (fun t => (t.1, hush id t.2)) = ended.map fun t => (t.1, hush id t.2) := by
  induction ended with
  | nil =>
    intro tasks h
    exact ⟨[], List.map_eq_nil_iff.1 h, rfl⟩
  | cons t ended ih =>
    intro tasks h
    obtain ⟨⟨e, station⟩, rest, rfl, hfirst, hrest⟩ := List.map_eq_cons_iff.1 h
    obtain ⟨he, hstation⟩ := Prod.mk.inj hfirst
    obtain ⟨r', rfl, hr⟩ := exists_of_hushed_done hstation
    obtain ⟨ended', rfl, hended⟩ := ih hrest
    exact ⟨(e, r') :: ended', rfl, by rw [List.map_cons, List.map_cons, hended, hr, he]⟩

section Same

variable {en en' : Engine σ} (hen : en.hushed = en'.hushed) {b b' : Batch} (hb : b.hushed = b'.hushed)

include hen hb

/-- **What one engine does next, the other one can do as well.** -/
theorem SharedMoves.same {x y x' : Sharing σ} (h : SharedMoves en b x y) (hx : x.hushed = x'.hushed) :
    ∃ y', SharedMoves en' b' x' y' ∧ y.hushed = y'.hushed := by
  obtain ⟨tasks', q⟩ := x'
  cases h with
  | one before after e station p =>
    obtain ⟨htasks, hp⟩ := Prod.mk.inj hx
    dsimp only at hp
    subst hp
    rw [List.map_append, List.map_cons] at htasks
    obtain ⟨before', rest', rfl, hbefore, hrest⟩ := List.map_eq_append_iff.1 htasks.symm
    obtain ⟨⟨e', station'⟩, after', rfl, hfirst, hafter⟩ := List.map_eq_cons_iff.1 hrest
    obtain ⟨he, hstation⟩ := Prod.mk.inj hfirst
    dsimp only at he hstation
    subst he
    have hnext : Prod.map Station.hushed id (en.advanceShared b e' station p) =
        Prod.map Station.hushed id (en'.advanceShared b' e' station' p) := by
      rw [← advanceShared_hushed, ← advanceShared_hushed, hen, hb, hstation]
    obtain ⟨hmoved, hprogress⟩ := Prod.ext_iff.1 hnext
    rw [Prod.map_fst, Prod.map_fst] at hmoved
    rw [Prod.map_snd, Prod.map_snd, id, id] at hprogress
    refine ⟨_, .one before' after' e' station' p, ?_⟩
    unfold Sharing.hushed
    dsimp only
    rw [List.map_append, List.map_append, List.map_cons, List.map_cons, hbefore, hafter, hmoved, hprogress]

theorem SharedRuns.same {x y x' : Sharing σ} (h : SharedRuns en b x y) (hx : x.hushed = x'.hushed) :
    ∃ y', SharedRuns en' b' x' y' ∧ y.hushed = y'.hushed := by
  induction h with
  | refl => exact ⟨x', .refl, hx⟩
  | tail _ hmove ih =>
    obtain ⟨y', hruns, hy⟩ := ih
    obtain ⟨z', hmove', hz⟩ := hmove.same hen hb hy
    exact ⟨z', hruns.tail hmove', hz⟩

/-- A schedule of a chunk has a counterpart. -/
theorem Interweaves.same {es : List Entity} {p p' : Progress σ} {found : Results}
    (h : en.Interweaves b es p found p') :
    ∃ found', en'.Interweaves b' es p found' p' ∧ Results.hushed found = Results.hushed found' := by
  obtain ⟨ended, hruns, rfl⟩ := h
  obtain ⟨⟨tasks, q⟩, hruns', hend⟩ := SharedRuns.same hen hb hruns rfl
  obtain ⟨htasks, hq⟩ := Prod.mk.inj hend
  dsimp only at hq
  subst hq
  obtain ⟨ended', rfl, hended⟩ := exists_of_hushed_finished htasks.symm
  refine ⟨_, ⟨ended', hruns', rfl⟩, ?_⟩
  have hids := congrArg (List.map fun t => (t.1.id, t.2)) hended
  rw [List.map_map, List.map_map] at hids
  unfold Results.hushed
  rw [List.map_map, List.map_map]
  exact hids.symm

/-- **Schedules of the chunks of a batch have counterparts.** -/
theorem SideBySide.same {parts : List (List Entity)} {acc acc' : Results} {p : Progress σ}
    {run : Except ComputationError Results × Progress σ} (h : en.SideBySide b parts acc p run)
    (hacc : Results.hushed acc = Results.hushed acc') :
    ∃ run', en'.SideBySide b' parts acc' p run' ∧
      hushRun Results.hushed run = hushRun Results.hushed run' := by
  have hheeds : b.hushed.heeds = b'.hushed.heeds := congrArg Batch.heeds hb
  have hbudget : b.hushed.budget = b'.hushed.budget := congrArg Batch.budget hb
  have htarget : b.target.hushed = b'.target.hushed := congrArg Batch.target hb
  have hname : b.target.hushed.name = b'.target.hushed.name := congrArg VirtualField.name htarget
  have hcollect : ∀ {found found' acc acc' : Results} (stats : BatchStats),
      Results.hushed found = Results.hushed found' → Results.hushed acc = Results.hushed acc' →
      hush (fun collected => (Results.hushed collected.1, collected.2)) (en.collect b.target found acc stats) =
        hush (fun collected => (Results.hushed collected.1, collected.2))
          (en'.collect b'.target found' acc' stats) := by
    intro found found' acc acc' stats hfound hacc
    rw [← collect_hushed, ← collect_hushed, hen, htarget, hfound, hacc]
  change b.heeds = b'.heeds at hheeds
  change b.budget = b'.budget at hbudget
  change b.target.name = b'.target.name at hname
  induction h generalizing acc' with
  | done acc p => exact ⟨_, .done acc' p, congrArg (fun acc => (Except.ok acc, p)) hacc⟩
  | cancelled hheard =>
    rw [hheeds] at hheard
    exact ⟨_, .cancelled hheard, by rw [hname]⟩
  | late hheard htime =>
    rw [hheeds] at hheard
    rw [hbudget] at htime
    exact ⟨_, .late hheard htime, rfl⟩
  | @failed es parts acc found p p' err hheard htime hchunk hfailed =>
    rw [hheeds] at hheard
    rw [hbudget] at htime
    obtain ⟨found', hchunk', hfound⟩ := Interweaves.same hen hb hchunk
    have hboth := hcollect p'.stats hfound hacc
    rw [hfailed] at hboth
    obtain ⟨err', hfailed', herr⟩ := hush_eq_error_iff.1 hboth.symm
    exact ⟨_, .failed hheard htime hchunk' hfailed', congrArg (fun err => (Except.error err, p')) herr.symm⟩
  | @next es parts acc found collected p p' stats run hheard htime hchunk hnext _ ih =>
    rw [hheeds] at hheard
    rw [hbudget] at htime
    obtain ⟨found', hchunk', hfound⟩ := Interweaves.same hen hb hchunk
    have hboth := hcollect p'.stats hfound hacc
    rw [hnext] at hboth
    obtain ⟨⟨collected', stats'⟩, hnext', hcollected⟩ := hush_eq_ok_iff.1 hboth.symm
    obtain ⟨hresults, hstats⟩ := Prod.mk.inj hcollected
    dsimp only at hstats
    subst hstats
    obtain ⟨run', hrest', hrun⟩ := ih hresults.symm
    exact ⟨run', .next hheard htime hchunk' hnext' hrest', hrun⟩

omit hb in
/-- **A call that one engine serves the other one can serve as well**, in order or side by side; the results
are the same but for reasons, and so is what is left behind. -/
theorem Serves.same {c : BatchCall} {s : EngineState σ}
    {served : Except ComputationError BatchOutcome × EngineState σ} (h : Serves en c s served) :
    ∃ served', Serves en' c s served' ∧
      hushRun BatchOutcome.hushed served = hushRun BatchOutcome.hushed served' := by
  cases h with
  | inOrder =>
    refine ⟨_, .inOrder, ?_⟩
    unfold callBatch
    rw [← computeBatch_hushed, ← computeBatch_hushed, hen]
  | @sideBySide v run hv hrun =>
    have hfound : (en'.catalog.virtual? c.field).map VirtualField.hushed = some v.hushed := by
      rw [← virtual?_hushed rfl, ← hen, virtual?_hushed hv]
      rfl
    obtain ⟨v', hv', hsame⟩ := Option.map_eq_some_iff.1 hfound
    have hb : (en.batchOf c.heeds v (c.begin s)).hushed = (en'.batchOf c.heeds v' (c.begin s)).hushed := by
      rw [← batchOf_hushed, ← batchOf_hushed, hen, hsame]
    have hsettings : en.hushed.settings = en'.hushed.settings := congrArg Engine.settings hen
    change en.settings = en'.settings at hsettings
    obtain ⟨run', hrun', hruns⟩ := SideBySide.same hen hb hrun rfl
    rw [hsettings] at hrun'
    exact ⟨_, .sideBySide hv' hrun', by rw [← concluded_hushed, ← concluded_hushed, hruns]⟩

end Same

end Engine

end FieldQuery
