import Mathlib.Algebra.BigOperators.Group.List.Basic
import Mathlib.Logic.Relation
import FieldQuery.Proofs.Engine.Outcome
import FieldQuery.Proofs.Engine.Turns

/-!
# Entities of a chunk in any order

The entities of a chunk may be computed side by side.  They share the counts and the memory in use,
and between any two uses of what they share the others may go on.

* `Effort` — the time, the memory and the number of computations;
* `Stage` — how far an entity has come, and `Engine.advance` — its next use of what is shared: a
  computation, counting it, or charging its value;
* `Moves`, `Interleaves` — one entity of a chunk goes on, and a whole chunk by such moves;
* `Engine.forecast` — what an entity comes to if no ceiling is reached, and the effort that takes;
* `OnCourse`, `Overrun` — in a state of a chunk everything is as forecast, or an entity has reached the
  ceiling of memory and the effort of the whole chunk is above it.

A move changes the progress by an effort and the forecast of its entity by as much, so the two together
stay the same (`advance_onCourse`).  Only a charge can fail, and only if all the charges of the chunk
together are too much.

Principal results: `interleaves_computeChunk` — one entity after the other is one of the schedules;
`Interleaves.verdict` — for all schedules of a chunk the memory suffices and everything is as forecast,
or for all of them it does not and an entity says so; `exists_finished` — every schedule can be finished.
-/

namespace FieldQuery

/-- What computations take: milliseconds, the sizes of the values that are accepted, and how many
computations succeed. -/
@[ext]
structure Effort where
  time : Nat
  memory : Nat
  computed : Nat

namespace Effort

instance : Zero Effort := ⟨⟨0, 0, 0⟩⟩

instance : Add Effort :=
  ⟨fun s t => ⟨s.time + t.time, s.memory + t.memory, s.computed + t.computed⟩⟩

@[simp] theorem zero_time : (0 : Effort).time = 0 := rfl

@[simp] theorem zero_memory : (0 : Effort).memory = 0 := rfl

@[simp] theorem zero_computed : (0 : Effort).computed = 0 := rfl

@[simp] theorem add_time (s t : Effort) : (s + t).time = s.time + t.time := rfl

@[simp] theorem add_memory (s t : Effort) : (s + t).memory = s.memory + t.memory := rfl

@[simp] theorem add_computed (s t : Effort) : (s + t).computed = s.computed + t.computed := rfl

instance : AddCommMonoid Effort where
  add_assoc s t u := by ext <;> simp [Nat.add_assoc]
  zero_add s := by ext <;> simp
  add_zero s := by ext <;> simp
  add_comm s t := by ext <;> simp [Nat.add_comm]
  nsmul := nsmulRec

/-- What an outcome takes. -/
def ofOutcome (v : VirtualField) (e : Entity) (o : Outcome) : Effort where
  time := o.duration
  memory := match v.accept e o with
    | .ok value => value.size
    | .error _ => 0
  computed := match o.value with
    | .ok _ => 1
    | .error _ => 0

end Effort

namespace Progress

variable {σ : Type}

/-- The progress after some effort. -/
def later (p : Progress σ) (t : Effort) : Progress σ :=
  { p with
    clock := p.clock + nanosPerMilli * t.time
    spent := p.spent + t.time
    used := p.used + t.memory
    stats := { p.stats with computed := p.stats.computed + t.computed } }

@[simp] theorem later_spent (p : Progress σ) (t : Effort) :
    (p.later t).spent = p.spent + t.time := rfl

@[simp] theorem later_used (p : Progress σ) (t : Effort) :
    (p.later t).used = p.used + t.memory := rfl

@[simp] theorem later_cancelled (p : Progress σ) (t : Effort) :
    (p.later t).cancelled = p.cancelled := rfl

@[simp] theorem later_zero (p : Progress σ) : p.later 0 = p := rfl

theorem later_later (p : Progress σ) (s t : Effort) : (p.later s).later t = p.later (s + t) := by
  unfold later
  simp [Nat.mul_add, Nat.add_assoc]

/-- An outcome that cancels nothing takes its time. -/
theorem after_eq_later {o : Outcome} (hkeeps : o.cancels = false) (p : Progress σ) :
    p.after o = p.later ⟨o.duration, 0, 0⟩ := by
  unfold after later
  simp [hkeeps]

theorem countComputed_eq_later (p : Progress σ) : p.countComputed = p.later ⟨0, 0, 1⟩ := rfl

end Progress

/-! ## Stages -/

/-- How far the target of a batch has come for one entity. -/
inductive Stage where
  /-- Nothing has been done. -/
  | waiting
  /-- Some fields are left. -/
  | going (names : List String) (computed : List (String × Value))
  /-- The computation of a field has succeeded, and has not been counted. -/
  | returned (t : Visit) (value : Value)
  /-- The value of a field has been accepted, and has not been charged. -/
  | accepted (t : Visit) (value : Value)
  | done (result : Except ComputationError Value)

/-- What an entity comes to, and the effort that takes. -/
structure Forecast where
  effort : Effort := 0
  result : Except ComputationError Value

/-- A forecast after some effort. -/
def Forecast.after (t : Effort) (f : Forecast) : Forecast := { f with effort := t + f.effort }

/-- The entities of a chunk at their stages, and what they share. -/
abbrev Underway (σ : Type) := List (Entity × Stage) × Progress σ

namespace Engine

variable {σ : Type}

/-- The value of the target among those that have been computed. -/
def targetValue (target : VirtualField) (computed : List (String × Value)) :
    Except ComputationError Value :=
  match List.lookup target.name computed with
  | some value => .ok value
  | none => .error (.unknownField target.name)

/-- The stage after the turn of a field. -/
def proceed (en : Engine σ) (b : Batch) (e : Entity) (t : Visit) :
    Except ComputationError Value → Stage :=
  en.goOn b.target e t .done (.going t.rest)

/-- Goes on up to the next use of what the entities share. -/
def advance (en : Engine σ) (b : Batch) (e : Entity) : Stage → Progress σ → Stage × Progress σ
  | .waiting, p =>
    match b.budget.checkTime p.spent with
    | .error err => (.done (.error err), p)
    | .ok _ => (.going b.order [], p)
  | .going [] computed, p => (.done (targetValue b.target computed), p)
  | .going (name :: rest) computed, p =>
    match en.catalog.virtual? name with
    | none => (.going rest computed, p)
    | some v =>
      let t : Visit := ⟨name, v, rest, computed⟩
      match resolveInputs b v e computed p.cancelled with
      | .error err => (en.proceed b e t (.error err), p)
      | .ok inputs =>
        let outcome := v.computation e inputs
        match outcome.value with
        | .error reason => (en.proceed b e t (.error (.callbackFailed v.name e.ref reason)), p.after outcome)
        | .ok value => (.returned t value, p.after outcome)
  | .returned t value, p =>
    if value.isNull && !t.field.nullable then
      (en.proceed b e t (.error (.callbackFailed t.field.name e.ref nullRefused)), p.countComputed)
    else (.accepted t value, p.countComputed)
  | .accepted t value, p =>
    let (r, p) := takeOver b.budget value p
    (en.proceed b e t r, p)
  | .done r, p => (.done r, p)

/-- One entity of a chunk goes on. -/
inductive Moves (en : Engine σ) (b : Batch) : Underway σ → Underway σ → Prop
  | one (before after : List (Entity × Stage)) (e : Entity) (stage : Stage) (p : Progress σ) :
      Moves en b (before ++ (e, stage) :: after, p)
        (before ++ (e, (en.advance b e stage p).1) :: after, (en.advance b e stage p).2)

/-- A chunk goes on by moves of its entities, in any order. -/
abbrev Runs (en : Engine σ) (b : Batch) : Underway σ → Underway σ → Prop :=
  Relation.ReflTransGen (Moves en b)

/-- Entities at the end. -/
def finished (ended : List (Entity × Except ComputationError Value)) : List (Entity × Stage) :=
  ended.map fun t => (t.1, .done t.2)

/-- A schedule of a chunk: its results are those of the entities in their order. -/
def Interleaves (en : Engine σ) (b : Batch) (es : List Entity) (p : Progress σ) (found : Results)
    (p' : Progress σ) : Prop :=
  ∃ ended, Runs en b (es.map fun e => (e, .waiting), p) (finished ended, p') ∧
    found = ended.map fun t => (t.1.id, t.2)

/-! ## One entity after the other -/

/-- One entity goes on by itself. -/
abbrev Advances (en : Engine σ) (b : Batch) (e : Entity) :
    Stage × Progress σ → Stage × Progress σ → Prop :=
  Relation.ReflTransGen fun x y => y = en.advance b e x.1 x.2

section Sequential

variable {en : Engine σ} {b : Batch} {e : Entity}

theorem Advances.next {stage : Stage} {p : Progress σ} {y : Stage × Progress σ}
    (h : Advances en b e (en.advance b e stage p) y) : Advances en b e (stage, p) y :=
  .head rfl h

/-- What an entity does by itself, it does beside the others. -/
theorem Advances.runs {x y : Stage × Progress σ} (h : Advances en b e x y)
    (before after : List (Entity × Stage)) :
    Runs en b (before ++ (e, x.1) :: after, x.2) (before ++ (e, y.1) :: after, y.2) := by
  induction h with
  | refl => exact .refl
  | tail _ hstep ih =>
    subst hstep
    exact ih.tail (.one before after e _ _)

/-- A field that lacks an input fails. -/
theorem computeOne_of_lacking {v : VirtualField} {computed : List (String × Value)} {p : Progress σ}
    {err : ComputationError} (h : resolveInputs b v e computed p.cancelled = .error err) :
    en.computeOne b v e computed p = (.error err, p) := by
  unfold computeOne
  rw [h]

/-- The turn of a field that has its inputs is its computation. -/
theorem computeOne_of_inputs (hcache : en.cache = none) {v : VirtualField}
    {computed : List (String × Value)} {p : Progress σ} {i : Inputs}
    (h : resolveInputs b v e computed p.cancelled = .ok i) :
    en.computeOne b v e computed p = compute b v e i p := by
  have hslot : en.slot? v e i = none := by
    unfold slot?
    rw [hcache]
  unfold computeOne
  rw [h]
  dsimp only
  rw [hslot]

/-- The turn of a field, move by move. -/
theorem advances_computeOne (hcache : en.cache = none) {name : String} {v : VirtualField}
    (hv : en.catalog.virtual? name = some v) (rest : List String)
    (computed : List (String × Value)) (p : Progress σ) :
    Advances en b e (.going (name :: rest) computed, p)
      (en.proceed b e ⟨name, v, rest, computed⟩ (en.computeOne b v e computed p).1,
        (en.computeOne b v e computed p).2) := by
  apply Advances.next
  rw [advance, hv]
  dsimp only
  cases hinputs : resolveInputs b v e computed p.cancelled with
  | error err =>
    rw [computeOne_of_lacking hinputs]
  | ok inputs =>
    rw [computeOne_of_inputs hcache hinputs]
    unfold compute
    dsimp only
    cases (v.computation e inputs).value with
    | error reason => exact .refl
    | ok value =>
      apply Advances.next
      rw [advance]
      dsimp only
      split
      · exact .refl
      · exact .next .refl

/-- The fields of an order, move by move. -/
theorem advances_computeOrder (hcache : en.cache = none) (names : List String) :
    ∀ (computed : List (String × Value)) (p : Progress σ),
      Advances en b e (.going names computed, p)
        (.done (en.computeOrder b e names computed p).1, (en.computeOrder b e names computed p).2) := by
  induction names with
  | nil =>
    intro computed p
    apply Advances.next
    rw [advance, computeOrder]
    unfold targetValue
    cases List.lookup b.target.name computed <;> exact .refl
  | cons name rest ih =>
    intro computed p
    cases hv : en.catalog.virtual? name with
    | none =>
      apply Advances.next
      rw [advance, computeOrder, hv]
      exact ih computed p
    | some v =>
      refine (advances_computeOne hcache hv rest computed p).trans ?_
      rw [computeOrder_cons hv]
      generalize en.computeOne b v e computed p = run
      obtain ⟨r, p'⟩ := run
      unfold proceed
      rcases goOn_cases b.target e ⟨name, v, rest, computed⟩ r with ⟨a, -, hgo⟩ | ⟨err, hgo⟩
      · rw [hgo, hgo]
        exact ih _ p'
      · rw [hgo, hgo]

/-- An entity, move by move. -/
theorem advances_computeEntity (hcache : en.cache = none) (p : Progress σ) :
    Advances en b e (.waiting, p) (.done (en.computeEntity b e p).1, (en.computeEntity b e p).2) := by
  apply Advances.next
  rw [advance]
  unfold computeEntity
  cases b.budget.checkTime p.spent with
  | error err => exact .refl
  | ok u => exact advances_computeOrder hcache b.order [] p

/-- **One entity after the other is one of the schedules.** -/
theorem interleaves_computeChunk (hcache : en.cache = none) (es : List Entity) (p : Progress σ) :
    Interleaves en b es p (en.computeChunk b es p).1 (en.computeChunk b es p).2 := by
  -- the entities before have ended
  have hgeneral : ∀ (before : List (Entity × Except ComputationError Value)) (p : Progress σ),
      ∃ ended, Runs en b (finished before ++ es.map fun e => (e, .waiting), p)
          (finished (before ++ ended), (en.computeChunk b es p).2) ∧
        (en.computeChunk b es p).1 = ended.map fun t => (t.1.id, t.2) := by
    induction es with
    | nil =>
      intro before p
      refine ⟨[], ?_, rfl⟩
      simp only [List.map_nil, List.append_nil]
      exact .refl
    | cons e es ih =>
      intro before p
      obtain ⟨ended, hruns, hfound⟩ :=
        ih (before ++ [(e, (en.computeEntity b e p).1)]) (en.computeEntity b e p).2
      refine ⟨(e, (en.computeEntity b e p).1) :: ended, ?_, congrArg _ hfound⟩
      have hstart : finished (before ++ [(e, (en.computeEntity b e p).1)]) ++
            es.map (fun e => (e, Stage.waiting)) =
          finished before ++ (e, .done (en.computeEntity b e p).1) ::
            es.map (fun e => (e, Stage.waiting)) := by
        simp [finished]
      rw [hstart, List.append_assoc] at hruns
      exact ((advances_computeEntity hcache p).runs (finished before) _).trans hruns
  obtain ⟨ended, hruns, hfound⟩ := hgeneral [] p
  exact ⟨ended, hruns, hfound⟩

/-- An entity comes to its end from every stage. -/
theorem exists_done (hcache : en.cache = none) (stage : Stage) (p : Progress σ) :
    ∃ r p', Advances en b e (stage, p) (.done r, p') := by
  have hproceed : ∀ (t : Visit) (r : Except ComputationError Value) (p : Progress σ),
      ∃ r' p', Advances en b e (en.proceed b e t r, p) (.done r', p') := by
    intro t r p
    unfold proceed
    rcases goOn_cases b.target e t r with ⟨a, -, hgo⟩ | ⟨err, hgo⟩
    · rw [hgo]
      exact ⟨_, _, advances_computeOrder hcache t.rest _ p⟩
    · rw [hgo]
      exact ⟨_, _, .refl⟩
  have haccepted : ∀ (t : Visit) (value : Value) (p : Progress σ),
      ∃ r p', Advances en b e (.accepted t value, p) (.done r, p') := by
    intro t value p
    obtain ⟨r, p', h⟩ := hproceed t (takeOver b.budget value p).1 (takeOver b.budget value p).2
    exact ⟨r, p', .next h⟩
  cases stage with
  | waiting => exact ⟨_, _, advances_computeEntity hcache p⟩
  | going names computed => exact ⟨_, _, advances_computeOrder hcache names computed p⟩
  | returned t value =>
    have hnext : ∃ r p', Advances en b e (en.advance b e (.returned t value) p) (.done r, p') := by
      rw [advance]
      split
      · exact hproceed t _ _
      · exact haccepted t value _
    obtain ⟨r, p', h⟩ := hnext
    exact ⟨r, p', .next h⟩
  | accepted t value => exact haccepted t value p
  | done r => exact ⟨r, p, .refl⟩

/-- **A chunk can be finished from everywhere.** -/
theorem exists_finished (hcache : en.cache = none) (x : Underway σ) :
    ∃ ended p', Runs en b x (finished ended, p') := by
  obtain ⟨tasks, p⟩ := x
  have hgeneral : ∀ (before : List (Entity × Except ComputationError Value)) (p : Progress σ),
      ∃ ended p', Runs en b (finished before ++ tasks, p) (finished ended, p') := by
    induction tasks with
    | nil =>
      intro before p
      refine ⟨before, p, ?_⟩
      rw [List.append_nil]
    | cons task tasks ih =>
      intro before p
      obtain ⟨r, p₁, hdone⟩ := exists_done (b := b) (e := task.1) hcache task.2 p
      obtain ⟨ended, p', hruns⟩ := ih (before ++ [(task.1, r)]) p₁
      refine ⟨ended, p', (hdone.runs (finished before) tasks).trans ?_⟩
      simpa [finished] using hruns
  exact hgeneral [] p

end Sequential

/-! ## Forecasts -/

section Forecasting

variable (en : Engine σ) (target : VirtualField) (e : Entity)

/-- The turn of a field. -/
def forecastOne (v : VirtualField) (computed : List (String × Value)) : Forecast :=
  match resolveColumns v e computed with
  | .error err => { result := .error err }
  | .ok columns =>
    match resolveRelations v e with
    | .error err => { result := .error err }
    | .ok relations =>
      let outcome := v.computation e { columns := columns, relations := relations }
      ⟨.ofOutcome v e outcome, v.accept e outcome⟩

/-- The fields of an order. -/
def forecastOrder : List String → List (String × Value) → Forecast
  | [], computed => { result := targetValue target computed }
  | name :: rest, computed =>
    match en.catalog.virtual? name with
    | none => forecastOrder rest computed
    | some v =>
      (en.goOn target e ⟨name, v, rest, computed⟩ (fun r => { result := r })
        (fun table => forecastOrder rest table) (forecastOne e v computed).result).after
          (forecastOne e v computed).effort

/-- What an entity comes to, with all the fields that the target needs. -/
def forecast : Forecast := en.forecastOrder target e (en.catalog.computationOrder target.name) []

/-- What follows the turn of a field. -/
def forecastAfter (t : Visit) : Except ComputationError Value → Forecast :=
  en.goOn target e t (fun r => { result := r }) (en.forecastOrder target e t.rest)

/-- What an entity still comes to. -/
def forecastFrom (b : Batch) (e : Entity) : Stage → Forecast
  | .waiting => en.forecastOrder b.target e b.order []
  | .going names computed => en.forecastOrder b.target e names computed
  | .returned t value =>
    if value.isNull && !t.field.nullable then
      (en.forecastAfter b.target e t
        (.error (.callbackFailed t.field.name e.ref nullRefused))).after ⟨0, 0, 1⟩
    else (en.forecastAfter b.target e t (.ok value)).after ⟨0, value.size, 1⟩
  | .accepted t value => (en.forecastAfter b.target e t (.ok value)).after ⟨0, value.size, 0⟩
  | .done r => { result := r }

/-- The effort of a list of entities. -/
def effortOf (es : List Entity) : Effort := (es.map fun e => (en.forecast target e).effort).sum

/-- The effort that is left in a chunk. -/
def effortLeft (b : Batch) (tasks : List (Entity × Stage)) : Effort :=
  (tasks.map fun t => (en.forecastFrom b t.1 t.2).effort).sum

end Forecasting

theorem Forecast.after_after (s t : Effort) (f : Forecast) : (f.after t).after s = f.after (s + t) := by
  unfold Forecast.after
  simp [add_assoc]

/-! ## What a move takes -/

section Moving

variable {en : Engine σ} {b : Batch} {e : Entity}

theorem forecastFrom_proceed (t : Visit) (r : Except ComputationError Value) :
    en.forecastFrom b e (en.proceed b e t r) = en.forecastAfter b.target e t r := by
  unfold proceed forecastAfter
  rcases goOn_cases b.target e t r with ⟨a, -, hgo⟩ | ⟨err, hgo⟩
  · rw [hgo, hgo]
    rfl
  · rw [hgo, hgo]
    rfl

/-- After a move from a stage with some progress, what the move has taken and what is left are together
what was left before, and the memory has sufficed. -/
def OnTrack (en : Engine σ) (b : Batch) (e : Entity) (stage : Stage) (p : Progress σ)
    (next : Stage × Progress σ) : Prop :=
  ∃ t, next.2 = p.later t ∧ p.used + t.memory ≤ b.budget.memoryLimit ∧
    en.forecastFrom b e stage = (en.forecastFrom b e next.1).after t

/-- A move that takes no memory. -/
theorem OnTrack.of_later {stage stage' : Stage} {p p' : Progress σ} (time computed : Nat)
    (hused : p.used ≤ b.budget.memoryLimit) (hp : p' = p.later ⟨time, 0, computed⟩)
    (hstage : en.forecastFrom b e stage = (en.forecastFrom b e stage').after ⟨time, 0, computed⟩) :
    OnTrack en b e stage p (stage', p') :=
  ⟨_, hp, hused, hstage⟩

/-- A move that takes nothing. -/
theorem OnTrack.of_eq {stage stage' : Stage} {p : Progress σ} (hused : p.used ≤ b.budget.memoryLimit)
    (hstage : en.forecastFrom b e stage = en.forecastFrom b e stage') :
    OnTrack en b e stage p (stage', p) := by
  refine ⟨0, rfl, hused, ?_⟩
  rw [hstage]
  unfold Forecast.after
  simp

/-- The inputs of a field, by its columns and relations. -/
theorem forecastOne_of_resolved {v : VirtualField} (hv : v.computation.IsPure)
    {computed : List (String × Value)} {cancelled : Bool} :
    (∃ err, resolveInputs b v e computed cancelled = .error err ∧
        forecastOne e v computed = { result := .error err }) ∨
      ∃ i, resolveInputs b v e computed cancelled = .ok i ∧ forecastOne e v computed =
        ⟨.ofOutcome v e (v.computation e i), v.accept e (v.computation e i)⟩ := by
  unfold resolveInputs forecastOne
  cases resolveColumns v e computed with
  | error err => exact .inl ⟨err, rfl, rfl⟩
  | ok columns =>
    cases resolveRelations v e with
    | error err => exact .inl ⟨err, rfl, rfl⟩
    | ok relations =>
      have hlooks := hv.looks e { columns := columns, relations := relations,
                                  deadline := some b.deadline, cancelled := b.heeds && cancelled }
      exact .inr ⟨_, rfl, by rw [hlooks]⟩

theorem forecastFrom_going {name : String} {v : VirtualField}
    (hv : en.catalog.virtual? name = some v) (rest : List String)
    (computed : List (String × Value)) :
    en.forecastFrom b e (.going (name :: rest) computed) =
      (en.forecastAfter b.target e ⟨name, v, rest, computed⟩ (forecastOne e v computed).result).after
        (forecastOne e v computed).effort := by
  show en.forecastOrder b.target e (name :: rest) computed = _
  rw [forecastOrder, hv]
  rfl

/-- A computation and what follows it are as forecast. -/
theorem onTrack_computation (hpure : en.catalog.IsPure) {name : String} {v : VirtualField}
    (hv : en.catalog.virtual? name = some v) (rest : List String)
    (computed : List (String × Value)) {p : Progress σ} (hused : p.used ≤ b.budget.memoryLimit) :
    OnTrack en b e (.going (name :: rest) computed) p
      (en.advance b e (.going (name :: rest) computed) p) := by
  have hpure' : v.computation.IsPure := hpure (_, v) (KeyMap.mem_of_get? hv)
  have hforecast := forecastFrom_going (b := b) (e := e) hv rest computed
  rw [advance, hv]
  dsimp only
  rcases @forecastOne_of_resolved b e v hpure' computed p.cancelled with ⟨err, hinputs, hone⟩ | ⟨i, hinputs, hone⟩
  · rw [hinputs]
    apply OnTrack.of_eq hused
    rw [hforecast, hone, forecastFrom_proceed]
    unfold Forecast.after
    simp
  · rw [hinputs]
    have hkeeps := hpure'.keeps e i
    dsimp only
    generalize v.computation e i = o at hone hkeeps ⊢
    cases hvalue : o.value with
    | error reason =>
      refine .of_later _ _ hused (Progress.after_eq_later hkeeps p) ?_
      rw [hforecast, hone, forecastFrom_proceed]
      unfold Effort.ofOutcome VirtualField.accept
      rw [hvalue]
    | ok value =>
      refine .of_later _ _ hused (Progress.after_eq_later hkeeps p) ?_
      rw [hforecast, hone]
      unfold Effort.ofOutcome VirtualField.accept forecastFrom
      rw [hvalue]
      dsimp only
      by_cases hrefused : (value.isNull && !v.nullable) = true
      · simp only [if_pos hrefused]
        rw [Forecast.after_after]
        congr 1
      · simp only [if_neg hrefused]
        rw [Forecast.after_after]
        congr 1
        ext <;> simp

/-- The charge of a value is as forecast, or there is no memory for it. -/
theorem onTrack_charge (t : Visit) (value : Value) {p : Progress σ}
    (htime : p.spent ≤ b.budget.timeLimitMs) :
    OnTrack en b e (.accepted t value) p (en.advance b e (.accepted t value) p) ∨
      b.budget.memoryLimit < p.used + value.size ∧
        ∃ err, (en.advance b e (.accepted t value) p).1 = .done (.error err) ∧ err.IsCeiling := by
  rw [advance]
  by_cases hmemory : p.used + value.size ≤ b.budget.memoryLimit
  · left
    rw [takeOver_of_room htime hmemory]
    refine ⟨⟨0, value.size, 0⟩, ?_, hmemory, ?_⟩
    · unfold Progress.later
      simp
    · rw [forecastFrom_proceed]
      rfl
  · right
    refine ⟨Nat.lt_of_not_le hmemory, ?_⟩
    rcases takeOver_cases b.budget value p with ⟨-, hroom⟩ | ⟨err, herr, hceiling⟩
    · exact absurd hroom hmemory
    · refine ⟨err, ?_, hceiling⟩
      dsimp only
      rw [herr]
      exact if_pos (.inr hceiling.isBatchLevel)

/-- **A move is as forecast, or the charge of a value has reached the ceiling of memory.** -/
theorem advance_onTrack (hpure : en.catalog.IsPure) (stage : Stage) {p : Progress σ}
    (htime : p.spent ≤ b.budget.timeLimitMs) (hused : p.used ≤ b.budget.memoryLimit) :
    OnTrack en b e stage p (en.advance b e stage p) ∨
      b.budget.memoryLimit < p.used + (en.forecastFrom b e stage).effort.memory ∧
        ∃ err, (en.advance b e stage p).1 = .done (.error err) ∧ err.IsCeiling := by
  cases stage with
  | waiting =>
    left
    rw [advance, Budget.checkTime_eq_ok_iff.2 htime]
    exact .of_eq hused rfl
  | going names computed =>
    left
    cases names with
    | nil =>
      rw [advance]
      exact .of_eq hused rfl
    | cons name rest =>
      cases hv : en.catalog.virtual? name with
      | none =>
        rw [advance, hv]
        refine .of_eq hused ?_
        show en.forecastOrder b.target e (name :: rest) computed = en.forecastOrder b.target e rest computed
        rw [forecastOrder, hv]
      | some v => exact onTrack_computation hpure hv rest computed hused
  | returned t value =>
    left
    rw [advance]
    split
    · rename_i hrefused
      refine .of_later 0 1 hused p.countComputed_eq_later ?_
      rw [forecastFrom_proceed, forecastFrom, if_pos hrefused]
    · rename_i hrefused
      refine .of_later 0 1 hused p.countComputed_eq_later ?_
      rw [forecastFrom, if_neg hrefused, forecastFrom, Forecast.after_after]
      congr 1
      ext <;> simp
  | accepted t value =>
    refine (onTrack_charge t value htime).imp_right fun ⟨hfull, hdone⟩ => ⟨?_, hdone⟩
    unfold forecastFrom Forecast.after
    simp only [Effort.add_memory]
    omega
  | done r =>
    left
    exact .of_eq hused rfl

end Moving

/-! ## What a schedule takes -/

section Scheduling

variable {en : Engine σ} {b : Batch}

/-- What the entities of a chunk come to. -/
def forecasts (en : Engine σ) (b : Batch) (tasks : List (Entity × Stage)) :
    List (Entity × Except ComputationError Value) :=
  tasks.map fun t => (t.1, (en.forecastFrom b t.1 t.2).result)

/-- A state of a chunk in which everything is as it was forecast in another state. -/
structure OnCourse (en : Engine σ) (b : Batch) (x₀ x : Underway σ) : Prop where
  progress : x.2.later (en.effortLeft b x.1) = x₀.2.later (en.effortLeft b x₀.1)
  forecasts : en.forecasts b x.1 = en.forecasts b x₀.1
  used : x.2.used ≤ b.budget.memoryLimit

/-- A state of a chunk in which an entity has reached the ceiling of memory. -/
structure Overrun (en : Engine σ) (b : Batch) (x₀ x : Underway σ) : Prop where
  memory : b.budget.memoryLimit < x₀.2.used + (en.effortLeft b x₀.1).memory
  ended : ∃ t ∈ x.1, ∃ err, t.2 = .done (.error err) ∧ err.IsCeiling

theorem effortLeft_append (before after : List (Entity × Stage)) :
    en.effortLeft b (before ++ after) = en.effortLeft b before + en.effortLeft b after := by
  unfold effortLeft
  rw [List.map_append, List.sum_append]

theorem effortLeft_cons (t : Entity × Stage) (after : List (Entity × Stage)) :
    en.effortLeft b (t :: after) = (en.forecastFrom b t.1 t.2).effort + en.effortLeft b after := by
  unfold effortLeft
  rw [List.map_cons, List.sum_cons]

/-- **A move keeps a chunk on course, or reaches the ceiling.** -/
theorem OnCourse.move (hpure : en.catalog.IsPure) {x₀ x y : Underway σ}
    (htime : x₀.2.spent + (en.effortLeft b x₀.1).time ≤ b.budget.timeLimitMs)
    (h : OnCourse en b x₀ x) (hmove : Moves en b x y) : OnCourse en b x₀ y ∨ Overrun en b x₀ y := by
  obtain ⟨before, after, e, stage, p⟩ := hmove
  have hleft : en.effortLeft b (before ++ (e, stage) :: after) = (en.forecastFrom b e stage).effort +
      (en.effortLeft b before + en.effortLeft b after) := by
    rw [effortLeft_append, effortLeft_cons, add_left_comm]
  have hspent := congrArg Progress.spent h.progress
  have hmemory := congrArg Progress.used h.progress
  rw [hleft] at hspent hmemory
  simp only [Progress.later_spent, Progress.later_used, Effort.add_time, Effort.add_memory]
    at hspent hmemory
  rcases advance_onTrack hpure stage (p := p) (by omega) h.used with
    ⟨t, hp, hroom, hstage⟩ | ⟨hfull, err, hdone, hceiling⟩
  · left
    refine ⟨?_, ?_, ?_⟩
    · have hleft' : t + en.effortLeft b (before ++ (e, (en.advance b e stage p).1) :: after) =
          en.effortLeft b (before ++ (e, stage) :: after) := by
        rw [hleft, hstage, effortLeft_append, effortLeft_cons, add_left_comm (en.effortLeft b before)]
        exact (add_assoc _ _ _).symm
      rw [← h.progress, ← hleft', hp]
      exact Progress.later_later p _ _
    · rw [← h.forecasts]
      unfold Engine.forecasts
      rw [List.map_append, List.map_append, List.map_cons, List.map_cons, hstage]
      rfl
    · rw [hp]
      exact hroom
  · exact .inr ⟨by omega, _, List.mem_append_right _ List.mem_cons_self, err, hdone, hceiling⟩

/-- An entity that has ended does not move. -/
theorem Overrun.move {x₀ x y : Underway σ} (h : Overrun en b x₀ x) (hmove : Moves en b x y) :
    Overrun en b x₀ y := by
  obtain ⟨hmemory, task, hmem, err, hdone, hceiling⟩ := h
  obtain ⟨before, after, e, stage, p⟩ := hmove
  rcases List.mem_append.1 hmem with hbefore | hafter
  · exact ⟨hmemory, task, List.mem_append_left _ hbefore, err, hdone, hceiling⟩
  · rcases List.mem_cons.1 hafter with rfl | hafter
    · dsimp only at hdone
      subst hdone
      exact ⟨hmemory, _, List.mem_append_right _ List.mem_cons_self, err, rfl, hceiling⟩
    · exact ⟨hmemory, task, List.mem_append_right _ (List.mem_cons_of_mem _ hafter), err, hdone,
        hceiling⟩

/-- Every state of a schedule is on course, or an entity has reached the ceiling. -/
theorem Runs.course (hpure : en.catalog.IsPure) {x₀ x : Underway σ}
    (htime : x₀.2.spent + (en.effortLeft b x₀.1).time ≤ b.budget.timeLimitMs)
    (hused : x₀.2.used ≤ b.budget.memoryLimit) (h : Runs en b x₀ x) :
    OnCourse en b x₀ x ∨ Overrun en b x₀ x := by
  induction h with
  | refl => exact .inl ⟨rfl, rfl, hused⟩
  | tail _ hmove ih =>
    rcases ih with hcourse | hover
    · exact hcourse.move hpure htime hmove
    · exact .inr (hover.move hmove)

theorem effortLeft_finished (ended : List (Entity × Except ComputationError Value)) :
    en.effortLeft b (finished ended) = 0 := by
  unfold effortLeft finished
  rw [List.map_map]
  induction ended with
  | nil => rfl
  | cons t ended ih =>
    rw [List.map_cons, List.sum_cons, ih]
    rfl

theorem forecasts_finished (ended : List (Entity × Except ComputationError Value)) :
    en.forecasts b (finished ended) = ended := by
  unfold forecasts finished
  rw [List.map_map]
  exact List.map_id _

/-- What a chunk comes to if its memory suffices: the results and the progress. -/
structure Fulfilled (en : Engine σ) (b : Batch) (es : List Entity) (p : Progress σ) (found : Results)
    (p' : Progress σ) : Prop where
  memory : p.used + (en.effortOf b.target es).memory ≤ b.budget.memoryLimit
  found : found = es.map fun e => (e.id, (en.forecast b.target e).result)
  progress : p' = p.later (en.effortOf b.target es)

/-- What a chunk comes to if its memory does not suffice. -/
structure Exceeded (en : Engine σ) (b : Batch) (es : List Entity) (p : Progress σ)
    (found : Results) : Prop where
  memory : b.budget.memoryLimit < p.used + (en.effortOf b.target es).memory
  found : ∃ r ∈ found, HitsCeiling r.2

/-- **The verdict on a chunk is the same for all its schedules.** -/
theorem Interleaves.verdict (hpure : en.catalog.IsPure) {es : List Entity} {p p' : Progress σ}
    {found : Results} (horder : b.order = en.catalog.computationOrder b.target.name)
    (htime : p.spent + (en.effortOf b.target es).time ≤ b.budget.timeLimitMs)
    (hused : p.used ≤ b.budget.memoryLimit) (h : Interleaves en b es p found p') :
    Fulfilled en b es p found p' ∨ Exceeded en b es p found := by
  obtain ⟨ended, hruns, rfl⟩ := h
  have hleft : en.effortLeft b (es.map fun e => (e, .waiting)) = en.effortOf b.target es := by
    unfold effortLeft effortOf forecastFrom forecast
    rw [List.map_map, horder]
    rfl
  have hforecasts : en.forecasts b (es.map fun e => (e, .waiting)) =
      es.map fun e => (e, (en.forecast b.target e).result) := by
    unfold forecasts forecastFrom forecast
    rw [List.map_map, horder]
    rfl
  rcases hruns.course hpure (by rw [hleft]; exact htime) hused with hcourse | hover
  · left
    have hprogress := hcourse.progress
    have hended := hcourse.forecasts
    have hroom := hcourse.used
    rw [effortLeft_finished, hleft, Progress.later_zero] at hprogress
    rw [forecasts_finished, hforecasts] at hended
    dsimp only at hprogress hroom
    subst hprogress hended
    exact ⟨hroom, by rw [List.map_map]; rfl, rfl⟩
  · right
    obtain ⟨t, hmem, err, hdone, hceiling⟩ := hover.ended
    have hmemory := hover.memory
    rw [hleft] at hmemory
    obtain ⟨t', hmem', rfl⟩ := List.mem_map.1 hmem
    refine ⟨hmemory, (t'.1.id, t'.2), List.mem_map_of_mem hmem', err, ?_, hceiling⟩
    exact Stage.done.inj hdone

end Scheduling

end Engine

end FieldQuery
