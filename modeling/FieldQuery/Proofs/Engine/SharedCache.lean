import FieldQuery.Proofs.Engine.Chunking

/-!
# Entities of a chunk that share a cache

The entities of a chunk that are computed side by side share the cache as well: between a look-up and the
put that follows it the others may go on.

* `Station` — how far an entity has come, and `Engine.advanceShared` — its next use of what is shared,
  which may be a look-up or a put;
* `SharedMoves`, `Interweaves` — one entity of a chunk goes on, and a whole chunk by such moves;
* `ByChunks` — a batch chunk by chunk, whatever it is that a chunk comes to;
* `SideBySide` — a batch in which the entities of a chunk share a cache, under any schedule.

A look-up that finds nothing leaves the entity where it is, with the slot in mind; its value goes there
after it has been charged.

Principal results: `sideBySide_computeChunks` — one entity after the other is one of the schedules, with
any cache; `Parallel.sideBySide` — so is every schedule of an engine without a cache.
-/

namespace FieldQuery

/-- How far the target of a batch has come for one entity, where the entities share a cache. -/
inductive Station (σ : Type) where
  /-- A stage in which no value is on its way to the cache. -/
  | plain (stage : Stage)
  /-- A stage of a field whose value has not been found in its slot. -/
  | missing (slot : Slot σ) (stage : Stage)
  /-- The value of a field has been charged, and is not in its slot. -/
  | charged (slot : Slot σ) (t : Visit) (value : Value)

/-- Where a field has come whose value has not been found in its slot: the slot is forgotten when its turn
is over. -/
def Stage.station {σ : Type} (slot : Slot σ) : Stage → Station σ
  | .returned t value => .missing slot (.returned t value)
  | .accepted t value => .missing slot (.accepted t value)
  | stage => .plain stage

/-- The entities of a chunk at their stations, and what they share. -/
abbrev Sharing (σ : Type) := List (Entity × Station σ) × Progress σ

namespace Engine

variable {σ : Type}

/-- The field that has its turn next, with its slot, if its value may be in the cache. -/
def nextSlot? (en : Engine σ) (b : Batch) (e : Entity) (p : Progress σ) :
    Stage → Option (Visit × Slot σ)
  | .going (name :: rest) computed =>
    match en.catalog.virtual? name with
    | none => none
    | some v =>
      match resolveInputs b v e computed p.cancelled with
      | .error _ => none
      | .ok i => (en.slot? v e i).map fun slot => (⟨name, v, rest, computed⟩, slot)
  | _ => none

/-- After its computation a field goes on with its failure, or its value is on its way to its slot. -/
def forward (en : Engine σ) (b : Batch) (e : Entity) (slot : Slot σ) (t : Visit) :
    Except ComputationError Value → Station σ
  | .error err => .plain (en.proceed b e t (.error err))
  | .ok value => .charged slot t value

/-- Goes on up to the next use of what the entities share, the cache being shared too. -/
def advanceShared (en : Engine σ) (b : Batch) (e : Entity) :
    Station σ → Progress σ → Station σ × Progress σ
  | .plain stage, p =>
    match en.nextSlot? b e p stage with
    | none => (.plain (en.advance b e stage p).1, (en.advance b e stage p).2)
    | some (t, slot) =>
      match findCached slot p with
      | (some value, p) => (.plain (en.proceed b e t (.ok value)), p)
      | (none, p) => (.missing slot stage, p)
  | .missing slot (.accepted t value), p =>
    (en.forward b e slot t (takeOver b.budget value p).1, (takeOver b.budget value p).2)
  | .missing slot stage, p => ((en.advance b e stage p).1.station slot, (en.advance b e stage p).2)
  | .charged slot t value, p =>
    (.plain (en.proceed b e t (.ok value)), remember (en.lifetime t.field) value slot p)

/-- One entity of a chunk goes on. -/
inductive SharedMoves (en : Engine σ) (b : Batch) : Sharing σ → Sharing σ → Prop
  | one (before after : List (Entity × Station σ)) (e : Entity) (station : Station σ)
      (p : Progress σ) : SharedMoves en b (before ++ (e, station) :: after, p)
        (before ++ (e, (en.advanceShared b e station p).1) :: after, (en.advanceShared b e station p).2)

/-- A chunk goes on by moves of its entities, in any order. -/
abbrev SharedRuns (en : Engine σ) (b : Batch) : Sharing σ → Sharing σ → Prop :=
  Relation.ReflTransGen (SharedMoves en b)

/-- Entities at stages in which no value is on its way to the cache. -/
def plainly (tasks : List (Entity × Stage)) : List (Entity × Station σ) :=
  tasks.map fun t => (t.1, .plain t.2)

/-- A schedule of a chunk whose entities share a cache. -/
def Interweaves (en : Engine σ) (b : Batch) (es : List Entity) (p : Progress σ) (found : Results)
    (p' : Progress σ) : Prop :=
  ∃ ended, SharedRuns en b (plainly (es.map fun e => (e, .waiting)), p) (plainly (finished ended), p') ∧
    found = ended.map fun t => (t.1.id, t.2)

/-- A batch chunk by chunk, where `chunk` says what a chunk comes to. -/
inductive ByChunks (en : Engine σ) (b : Batch)
    (chunk : List Entity → Progress σ → Results → Progress σ → Prop) :
    List (List Entity) → Results → Progress σ → Except ComputationError Results × Progress σ → Prop
  | done (acc : Results) (p : Progress σ) : ByChunks en b chunk [] acc p (.ok acc, p)
  | cancelled {es : List Entity} {parts : List (List Entity)} {acc : Results} {p : Progress σ}
      (hheard : (b.heeds && p.cancelled) = true) :
      ByChunks en b chunk (es :: parts) acc p (.error (.cancelled b.target.name), p)
  | late {es : List Entity} {parts : List (List Entity)} {acc : Results} {p : Progress σ}
      {err : ComputationError} (hheard : (b.heeds && p.cancelled) = false)
      (htime : b.budget.checkTime p.spent = .error err) :
      ByChunks en b chunk (es :: parts) acc p (.error err, p)
  | failed {es : List Entity} {parts : List (List Entity)} {acc found : Results}
      {p p' : Progress σ} {err : ComputationError} (hheard : (b.heeds && p.cancelled) = false)
      (htime : b.budget.checkTime p.spent = .ok ()) (hchunk : chunk es p.nextChunk found p')
      (hcollect : en.collect b.target found acc p'.stats = .error err) :
      ByChunks en b chunk (es :: parts) acc p (.error err, p')
  | next {es : List Entity} {parts : List (List Entity)} {acc found collected : Results}
      {p p' : Progress σ} {stats : BatchStats} {run : Except ComputationError Results × Progress σ}
      (hheard : (b.heeds && p.cancelled) = false) (htime : b.budget.checkTime p.spent = .ok ())
      (hchunk : chunk es p.nextChunk found p')
      (hcollect : en.collect b.target found acc p'.stats = .ok (collected, stats))
      (hrest : ByChunks en b chunk parts collected (p'.recount stats) run) :
      ByChunks en b chunk (es :: parts) acc p run

/-- The chunks of a batch one after the other, and the entities of a chunk under any schedule in which they
share a cache. -/
abbrev SideBySide (en : Engine σ) (b : Batch) :
    List (List Entity) → Results → Progress σ → Except ComputationError Results × Progress σ → Prop :=
  en.ByChunks b (en.Interweaves b)

variable {en : Engine σ} {b : Batch} {e : Entity}

/-! ## One entity after the other -/

/-- One entity goes on by itself. -/
abbrev AdvancesShared (en : Engine σ) (b : Batch) (e : Entity) :
    Station σ × Progress σ → Station σ × Progress σ → Prop :=
  Relation.ReflTransGen fun x y => y = en.advanceShared b e x.1 x.2

theorem AdvancesShared.next {station : Station σ} {p : Progress σ} {y : Station σ × Progress σ}
    (h : AdvancesShared en b e (en.advanceShared b e station p) y) :
    AdvancesShared en b e (station, p) y :=
  .head rfl h

/-- A field that has its inputs, and whose computation fails, ends its turn. -/
theorem advance_going_error {name : String} {v : VirtualField} (hv : en.catalog.virtual? name = some v)
    {rest : List String} {computed : List (String × Value)} {p : Progress σ} {i : Inputs}
    (hinputs : resolveInputs b v e computed p.cancelled = .ok i) {reason : String}
    (hvalue : (v.computation e i).value = .error reason) :
    en.advance b e (.going (name :: rest) computed) p =
      (en.proceed b e ⟨name, v, rest, computed⟩ (.error (.callbackFailed v.name e.ref reason)),
        p.after (v.computation e i)) := by
  rw [advance, hv]
  dsimp only
  rw [hinputs]
  dsimp only
  rw [hvalue]

/-- A field that has its inputs, and whose computation yields a value, has returned. -/
theorem advance_going_ok {name : String} {v : VirtualField} (hv : en.catalog.virtual? name = some v)
    {rest : List String} {computed : List (String × Value)} {p : Progress σ} {i : Inputs}
    (hinputs : resolveInputs b v e computed p.cancelled = .ok i) {value : Value}
    (hvalue : (v.computation e i).value = .ok value) :
    en.advance b e (.going (name :: rest) computed) p =
      (.returned ⟨name, v, rest, computed⟩ value, p.after (v.computation e i)) := by
  rw [advance, hv]
  dsimp only
  rw [hinputs]
  dsimp only
  rw [hvalue]

/-- A field that has its inputs is looked for in its slot first, if it has one. -/
theorem nextSlot?_going {name : String} {v : VirtualField} (hv : en.catalog.virtual? name = some v)
    {rest : List String} {computed : List (String × Value)} {p : Progress σ} {i : Inputs}
    (hinputs : resolveInputs b v e computed p.cancelled = .ok i) :
    en.nextSlot? b e p (.going (name :: rest) computed) =
      (en.slot? v e i).map fun slot => (⟨name, v, rest, computed⟩, slot) := by
  rw [nextSlot?, hv]
  dsimp only
  rw [hinputs]

theorem advanceShared_plain {stage : Stage} {p : Progress σ}
    (hnext : en.nextSlot? b e p stage = none) : en.advanceShared b e (.plain stage) p =
      (.plain (en.advance b e stage p).1, (en.advance b e stage p).2) := by
  rw [advanceShared, hnext]

/-- After its turn a field has no value on its way. -/
theorem station_proceed (slot : Slot σ) (t : Visit) (r : Except ComputationError Value) :
    (en.proceed b e t r).station slot = .plain (en.proceed b e t r) := by
  unfold proceed
  rcases goOn_cases b.target e t r with ⟨a, -, hgo⟩ | ⟨err, hgo⟩ <;> rw [hgo] <;> rfl

/-- The computation of a field whose value does not go to the cache. -/
theorem advancesShared_compute {name : String} {v : VirtualField}
    (hv : en.catalog.virtual? name = some v) {rest : List String} {computed : List (String × Value)}
    {p : Progress σ} {i : Inputs} (hinputs : resolveInputs b v e computed p.cancelled = .ok i)
    (hslot : en.slot? v e i = none) :
    AdvancesShared en b e (.plain (.going (name :: rest) computed), p)
      (.plain (en.proceed b e ⟨name, v, rest, computed⟩ (compute b v e i p).1), (compute b v e i p).2) := by
  have hnext : en.nextSlot? b e p (.going (name :: rest) computed) = none := by
    rw [nextSlot?_going hv hinputs, hslot]
    rfl
  apply AdvancesShared.next
  rw [advanceShared_plain hnext]
  unfold compute
  dsimp only
  cases hvalue : (v.computation e i).value with
  | error reason =>
    rw [advance_going_error hv hinputs hvalue]
  | ok value =>
    rw [advance_going_ok hv hinputs hvalue]
    apply AdvancesShared.next
    show AdvancesShared en b e (.plain (en.advance b e (.returned _ value) _).1, _) _
    rw [advance]
    dsimp only
    split
    · exact .refl
    · exact .next .refl

/-- The computation of a field whose value has not been found in its slot. -/
theorem advancesShared_missing {name : String} {v : VirtualField}
    (hv : en.catalog.virtual? name = some v) {rest : List String} {computed : List (String × Value)}
    {p : Progress σ} {i : Inputs} (hinputs : resolveInputs b v e computed p.cancelled = .ok i)
    (slot : Slot σ) :
    AdvancesShared en b e (.missing slot (.going (name :: rest) computed), p)
      (en.forward b e slot ⟨name, v, rest, computed⟩ (compute b v e i p).1, (compute b v e i p).2) := by
  apply AdvancesShared.next
  show AdvancesShared en b e ((en.advance b e (.going _ _) p).1.station slot,
    (en.advance b e (.going _ _) p).2) _
  unfold compute
  dsimp only
  cases hvalue : (v.computation e i).value with
  | error reason =>
    rw [advance_going_error hv hinputs hvalue, station_proceed]
    exact .refl
  | ok value =>
    rw [advance_going_ok hv hinputs hvalue]
    apply AdvancesShared.next
    show AdvancesShared en b e ((en.advance b e (.returned _ value) _).1.station slot,
      (en.advance b e (.returned _ value) _).2) _
    rw [advance]
    dsimp only
    split
    · rw [station_proceed]
      exact .refl
    · exact .next .refl

/-- The turn of a field, move by move. -/
theorem advancesShared_computeOne {name : String} {v : VirtualField}
    (hv : en.catalog.virtual? name = some v) (rest : List String) (computed : List (String × Value))
    (p : Progress σ) :
    AdvancesShared en b e (.plain (.going (name :: rest) computed), p)
      (.plain (en.proceed b e ⟨name, v, rest, computed⟩ (en.computeOne b v e computed p).1),
        (en.computeOne b v e computed p).2) := by
  cases hinputs : resolveInputs b v e computed p.cancelled with
  | error err =>
    rw [computeOne_of_lacking hinputs]
    have hnext : en.nextSlot? b e p (.going (name :: rest) computed) = none := by
      rw [nextSlot?, hv]
      dsimp only
      rw [hinputs]
    apply AdvancesShared.next
    rw [advanceShared_plain hnext, advance, hv]
    dsimp only
    rw [hinputs]
  | ok i =>
    unfold computeOne
    rw [hinputs]
    dsimp only
    cases hslot : en.slot? v e i with
    | none => exact advancesShared_compute hv hinputs hslot
    | some slot =>
      have hlook := (findCached_cases slot p).2.1.cancelled
      apply AdvancesShared.next
      rw [advanceShared, nextSlot?_going hv hinputs, hslot]
      unfold findOrCompute
      dsimp only [Option.map_some]
      generalize findCached slot p = looked at hlook ⊢
      obtain ⟨found, p'⟩ := looked
      dsimp only at hlook
      cases found with
      | some value => exact .refl
      | none =>
        rw [← hlook] at hinputs
        have hmissing := @advancesShared_missing σ en b e name v hv rest computed p' i hinputs slot
        dsimp only
        generalize compute b v e i p' = run at hmissing ⊢
        obtain ⟨r, q⟩ := run
        cases r with
        | error err => exact hmissing
        | ok value => exact hmissing.tail rfl

/-- The fields of an order, move by move. -/
theorem advancesShared_computeOrder (names : List String) :
    ∀ (computed : List (String × Value)) (p : Progress σ),
      AdvancesShared en b e (.plain (.going names computed), p)
        (.plain (.done (en.computeOrder b e names computed p).1),
          (en.computeOrder b e names computed p).2) := by
  induction names with
  | nil =>
    intro computed p
    apply AdvancesShared.next
    show AdvancesShared en b e (.plain (.done (targetValue b.target computed)), p) _
    rw [computeOrder]
    unfold targetValue
    cases List.lookup b.target.name computed <;> exact .refl
  | cons name rest ih =>
    intro computed p
    cases hv : en.catalog.virtual? name with
    | none =>
      have hnext : en.nextSlot? b e p (.going (name :: rest) computed) = none := by
        rw [nextSlot?, hv]
      apply AdvancesShared.next
      rw [advanceShared_plain hnext, advance, computeOrder, hv]
      exact ih computed p
    | some v =>
      refine (advancesShared_computeOne hv rest computed p).trans ?_
      rw [computeOrder_cons hv]
      generalize en.computeOne b v e computed p = run
      obtain ⟨r, p'⟩ := run
      unfold proceed
      rcases goOn_cases b.target e ⟨name, v, rest, computed⟩ r with ⟨a, -, hgo⟩ | ⟨err, hgo⟩
      · rw [hgo, hgo]
        exact ih _ p'
      · rw [hgo, hgo]

/-- An entity, move by move. -/
theorem advancesShared_computeEntity (p : Progress σ) :
    AdvancesShared en b e (.plain .waiting, p)
      (.plain (.done (en.computeEntity b e p).1), (en.computeEntity b e p).2) := by
  apply AdvancesShared.next
  show AdvancesShared en b e (.plain (en.advance b e .waiting p).1, (en.advance b e .waiting p).2) _
  rw [advance]
  unfold computeEntity
  cases b.budget.checkTime p.spent with
  | error err => exact .refl
  | ok u => exact advancesShared_computeOrder b.order [] p

/-- What an entity does by itself, it does before the others. -/
theorem AdvancesShared.runs {x y : Station σ × Progress σ} (h : AdvancesShared en b e x y)
    (after : List (Entity × Station σ)) :
    SharedRuns en b ((e, x.1) :: after, x.2) ((e, y.1) :: after, y.2) := by
  induction h with
  | refl => exact .refl
  | tail _ hstep ih =>
    subst hstep
    exact ih.tail (.one [] after e _ _)

/-- What entities do, they do behind another one. -/
theorem SharedRuns.cons (task : Entity × Station σ) {x y : Sharing σ} (h : SharedRuns en b x y) :
    SharedRuns en b (task :: x.1, x.2) (task :: y.1, y.2) := by
  refine h.lift (fun x => (task :: x.1, x.2)) ?_
  rintro _ _ ⟨before, after, e, station, p⟩
  exact .one (task :: before) after e station p

/-- **One entity after the other is one of the schedules.** -/
theorem interweaves_computeChunk (es : List Entity) :
    ∀ p : Progress σ, en.Interweaves b es p (en.computeChunk b es p).1 (en.computeChunk b es p).2 := by
  induction es with
  | nil => exact fun p => ⟨[], .refl, rfl⟩
  | cons e es ih =>
    intro p
    obtain ⟨ended, hruns, hfound⟩ := ih (en.computeEntity b e p).2
    refine ⟨(e, (en.computeEntity b e p).1) :: ended, ?_, congrArg _ hfound⟩
    exact ((advancesShared_computeEntity p).runs _).trans (hruns.cons _)

/-- **Chunks in order are one way to compute chunks side by side**, with any cache. -/
theorem sideBySide_computeChunks (parts : List (List Entity)) :
    ∀ (acc : Results) (p : Progress σ), en.SideBySide b parts acc p (en.computeChunks b parts acc p) := by
  induction parts with
  | nil => exact fun acc p => .done acc p
  | cons es parts ih =>
    intro acc p
    rw [computeChunks_cons]
    unfold gated
    split
    · rename_i hheard
      exact .cancelled hheard
    rename_i hheard
    have hheard : (b.heeds && p.cancelled) = false := by simpa using hheard
    cases htime : b.budget.checkTime p.spent with
    | error err => exact .late hheard htime
    | ok u =>
      have hchunk := @interweaves_computeChunk σ en b es p.nextChunk
      unfold takeIn
      cases hcollect : en.collect b.target (en.computeChunk b es p.nextChunk).1 acc
          (en.computeChunk b es p.nextChunk).2.stats with
      | error err => exact .failed hheard htime hchunk hcollect
      | ok collected => exact .next hheard htime hchunk hcollect (ih _ _)

/-! ## Without a cache -/

/-- What chunks come to may be weakened. -/
theorem ByChunks.mono {chunk chunk' : List Entity → Progress σ → Results → Progress σ → Prop}
    (hchunk : ∀ es p found p', chunk es p found p' → chunk' es p found p') {parts : List (List Entity)}
    {acc : Results} {p : Progress σ} {run : Except ComputationError Results × Progress σ}
    (h : en.ByChunks b chunk parts acc p run) : en.ByChunks b chunk' parts acc p run := by
  induction h with
  | done acc p => exact .done acc p
  | cancelled hheard => exact .cancelled hheard
  | late hheard htime => exact .late hheard htime
  | failed hheard htime hfirst hcollect => exact .failed hheard htime (hchunk _ _ _ _ hfirst) hcollect
  | next hheard htime hfirst hcollect _ ih =>
    exact .next hheard htime (hchunk _ _ _ _ hfirst) hcollect ih

/-- The schedules without a cache, chunk by chunk. -/
theorem parallel_iff_byChunks {parts : List (List Entity)} {acc : Results} {p : Progress σ}
    {run : Except ComputationError Results × Progress σ} :
    en.Parallel b parts acc p run ↔ en.ByChunks b (en.Interleaves b) parts acc p run := by
  constructor
  · intro h
    induction h with
    | done acc p => exact .done acc p
    | cancelled hheard => exact .cancelled hheard
    | late hheard htime => exact .late hheard htime
    | failed hheard htime hchunk hcollect => exact .failed hheard htime hchunk hcollect
    | next hheard htime hchunk hcollect _ ih => exact .next hheard htime hchunk hcollect ih
  · intro h
    induction h with
    | done acc p => exact .done acc p
    | cancelled hheard => exact .cancelled hheard
    | late hheard htime => exact .late hheard htime
    | failed hheard htime hchunk hcollect => exact .failed hheard htime hchunk hcollect
    | next hheard htime hchunk hcollect _ ih => exact .next hheard htime hchunk hcollect ih

/-- Without a cache nothing is looked up. -/
theorem nextSlot?_eq_none (hcache : en.cache = none) (stage : Stage) (p : Progress σ) :
    en.nextSlot? b e p stage = none := by
  unfold nextSlot? slot?
  rw [hcache]
  split
  · split
    · rfl
    · split <;> rfl
  · rfl

/-- A schedule of a chunk without a cache is one in which no cache is shared. -/
theorem Interleaves.interweaves (hcache : en.cache = none) {es : List Entity} {p p' : Progress σ}
    {found : Results} (h : Interleaves en b es p found p') : en.Interweaves b es p found p' := by
  obtain ⟨ended, hruns, hfound⟩ := h
  refine ⟨ended, hruns.lift (fun x => (plainly x.1, x.2)) ?_, hfound⟩
  rintro _ _ ⟨before, after, e, stage, p⟩
  have hmove := @SharedMoves.one σ en b (plainly before) (plainly after) e (.plain stage) p
  rw [advanceShared_plain (nextSlot?_eq_none hcache stage p)] at hmove
  have hplainly : ∀ stage : Stage, @plainly σ (before ++ (e, stage) :: after) =
      plainly before ++ (e, .plain stage) :: plainly after := fun stage => List.map_append
  show SharedMoves en b (plainly (before ++ (e, stage) :: after), p)
    (plainly (before ++ (e, (en.advance b e stage p).1) :: after), (en.advance b e stage p).2)
  rw [hplainly, hplainly]
  exact hmove

/-- **Without a cache every schedule of a batch is one in which no cache is shared.** -/
theorem Parallel.sideBySide (hcache : en.cache = none) {parts : List (List Entity)} {acc : Results}
    {p : Progress σ} {run : Except ComputationError Results × Progress σ}
    (h : en.Parallel b parts acc p run) : en.SideBySide b parts acc p run :=
  (parallel_iff_byChunks.1 h).mono fun _ _ _ _ hchunk => hchunk.interweaves hcache

end Engine

end FieldQuery
