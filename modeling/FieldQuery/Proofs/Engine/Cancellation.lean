import FieldQuery.Proofs.Engine.AtMostOnce
import FieldQuery.Proofs.Engine.Counts

/-!
# Cancelled batches

A token ends a batch between two chunks, whoever has cancelled it and when.  Here the cache may be any, and
computations may cancel the token, but do not look at it.

* `Catalog.IsDeaf` — no computation looks at the token; `Batch.unheeding` — a batch that no token ends;
* `Engine.Cancels` — a turn whose computation cancels the token;
* `Engine.chunkRounds`, `Engine.batchRounds` — the moments of a batch chunk by chunk, for the chunks that are
  begun;
* `CancelledAfter` — the token has been cancelled before the first chunk of a batch, or in its `n`th;
* `stopped` — what chunks come to if others would have followed;
* `Uncancelled` — a result that does not say that a token has ended the batch;
* `StopsAfter` — a batch is stopped behind its first `n` chunks.

Within a chunk a cancelled token is not noticed (`computeChunk_unheeding`), and it stays cancelled
(`computeChunk_cancelled`).  So a batch goes on as if it heeded no token up to the end of the chunk, and then
the token ends it, if there is another chunk (`computeChunks_stopped`).

Principal results: `computeBatch_uncancelled` — a batch that heeds no token is not cancelled;
`computeBatch_complete` — a batch that ends well has a result for each of its entities; and
`computeBatch_stopped` — a batch whose token is cancelled has its turns in the chunks up to then, ends as
they do or as cancelled, and leaves the cache that they by themselves leave.
-/

namespace FieldQuery

/-- A computation that does not look at the token of its batch. -/
def Computation.IsDeaf (f : Computation) : Prop :=
  ∀ e i cancelled, f e { i with cancelled := cancelled } = f e i

/-- No computation of a catalog looks at the token. -/
def Catalog.IsDeaf (c : Catalog) : Prop := ∀ p ∈ c.virtualFields, p.2.computation.IsDeaf

/-- A batch that no token ends. -/
def Batch.unheeding (b : Batch) : Batch := { b with heeds := false }

/-- Whether an error says that a token has ended the batch. -/
def ComputationError.IsCancellation : ComputationError → Prop
  | .cancelled _ => True
  | _ => False

theorem ComputationError.IsCancellation.isBatchLevel {err : ComputationError} (h : err.IsCancellation) :
    err.isBatchLevel = true := by
  cases err with
  | cancelled => rfl
  | _ => cases h

theorem ComputationError.IsCeiling.not_isCancellation {err : ComputationError} (h : err.IsCeiling) :
    ¬ err.IsCancellation := by
  cases err with
  | cancelled => cases h
  | _ => exact id

namespace Engine

variable {σ : Type} {en : Engine σ} {b : Batch}

/-! ## Within a chunk -/

section Chunk

/-- What a field is given in a batch that heeds no token differs in the token only. -/
theorem resolveInputs_unheeding (b : Batch) (v : VirtualField) (e : Entity)
    (computed : List (String × Value)) (cancelled : Bool) :
    resolveInputs b.unheeding v e computed cancelled =
      (resolveInputs b v e computed cancelled).map fun i => { i with cancelled := false } := by
  unfold resolveInputs
  cases resolveColumns v e computed with
  | error err => rfl
  | ok columns => cases resolveRelations v e <;> rfl

theorem compute_unheeding {v : VirtualField} (hdeaf : v.computation.IsDeaf) (b : Batch) (e : Entity)
    (i : Inputs) (p : Progress σ) :
    compute b.unheeding v e { i with cancelled := false } p = compute b v e i p := by
  rw [compute_eq, compute_eq, hdeaf e i false]
  rfl

/-- **One field** is computed, or recalled, without regard to the token. -/
theorem computeOne_unheeding {v : VirtualField} (hdeaf : v.computation.IsDeaf) (e : Entity)
    (computed : List (String × Value)) (p : Progress σ) :
    en.computeOne b.unheeding v e computed p = en.computeOne b v e computed p := by
  unfold computeOne
  rw [resolveInputs_unheeding]
  cases resolveInputs b v e computed p.cancelled with
  | error err => rfl
  | ok i =>
    dsimp only [Except.map]
    have hslot : en.slot? v e { i with cancelled := false } = en.slot? v e i := rfl
    rw [hslot]
    cases en.slot? v e i with
    | none => exact compute_unheeding hdeaf b e i p
    | some slot =>
      unfold findOrCompute
      simp only [compute_unheeding hdeaf]

variable (hdeaf : en.catalog.IsDeaf)

include hdeaf

theorem computeOrder_unheeding (e : Entity) (names : List String) :
    ∀ (computed : List (String × Value)) (p : Progress σ),
      en.computeOrder b.unheeding e names computed p = en.computeOrder b e names computed p := by
  induction names with
  | nil => exact fun _ _ => rfl
  | cons name rest ih =>
    intro computed p
    cases hv : en.catalog.virtual? name with
    | none =>
      rw [computeOrder, computeOrder, hv]
      exact ih computed p
    | some v =>
      rw [computeOrder_cons hv, computeOrder_cons hv,
        computeOne_unheeding (hdeaf _ (KeyMap.mem_of_get? hv))]
      simp only [ih]
      rfl

/-- **The token is not noticed within a chunk.** -/
theorem computeChunk_unheeding (es : List Entity) :
    ∀ p : Progress σ, en.computeChunk b.unheeding es p = en.computeChunk b es p := by
  induction es with
  | nil => exact fun _ => rfl
  | cons e es ih =>
    intro p
    have hentity : en.computeEntity b.unheeding e p = en.computeEntity b e p := by
      unfold computeEntity
      rw [computeOrder_unheeding hdeaf]
      rfl
    rw [computeChunk, computeChunk, hentity]
    dsimp only
    rw [ih]

end Chunk

/-! ## Turns that cancel -/

/-- In a turn, the computation of the field is run and cancels the token. -/
def Cancels (en : Engine σ) (t : Moment σ) : Prop :=
  ∃ i, t.inputs = .ok i ∧ en.Invokes t ∧ (t.field.computation t.entity i).cancels = true

@[simp] theorem takeOver_cancelled (b : Budget) (value : Value) (p : Progress σ) :
    (takeOver b value p).2.cancelled = p.cancelled := by
  unfold takeOver
  split
  · rfl
  · split <;> rfl

theorem compute_cancelled (b : Batch) (v : VirtualField) (e : Entity) (i : Inputs) (p : Progress σ) :
    (compute b v e i p).2.cancelled = (p.cancelled || (v.computation e i).cancels) := by
  rw [compute_eq]
  split <;> simp

/-- **After a turn the token is cancelled** if it was before, or if the turn cancels it. -/
theorem turn_cancelled (t : Moment σ) :
    (en.turn t).2.cancelled = true ↔ t.progress.cancelled = true ∨ en.Cancels t := by
  have hcancels : ∀ {i : Inputs}, t.inputs = .ok i →
      (en.Cancels t ↔ en.Invokes t ∧ (t.field.computation t.entity i).cancels = true) := by
    intro i hinputs
    constructor
    · rintro ⟨i', hi', hinvokes, hcancels⟩
      cases hinputs.symm.trans hi'
      exact ⟨hinvokes, hcancels⟩
    · rintro ⟨hinvokes, hcancels⟩
      exact ⟨i, hinputs, hinvokes, hcancels⟩
  cases hinputs : t.inputs with
  | error err =>
    have hturn : en.turn t = (.error err, t.progress) := computeOne_of_lacking hinputs
    rw [hturn]
    refine ⟨.inl, fun h => h.resolve_right ?_⟩
    rintro ⟨i, hi, -⟩
    cases hinputs.symm.trans hi
  | ok i =>
    rw [hcancels hinputs]
    cases hslot : en.slot? t.field t.entity i with
    | none =>
      have hinvokes : en.Invokes t := by
        refine ⟨i, hinputs, fun slot hsome => ?_⟩
        rw [hslot] at hsome
        cases hsome
      have hturn : en.turn t = compute t.batch t.field t.entity i t.progress := by
        unfold turn computeOne
        unfold Moment.inputs at hinputs
        rw [hinputs]
        dsimp only
        rw [hslot]
      rw [hturn, compute_cancelled, Bool.or_eq_true, iff_true_intro hinvokes, true_and]
    | some slot =>
      obtain ⟨-, hturn, hinvokes⟩ := turn_of_slot hinputs hslot
      have hlook := (findCached_cases slot t.progress).2.1.cancelled
      rw [hturn, hinvokes]
      unfold findOrCompute
      generalize findCached slot t.progress = looked at hlook ⊢
      obtain ⟨found, p⟩ := looked
      dsimp only at hlook ⊢
      cases found with
      | some value => simp [hlook]
      | none =>
        have hcomputed := compute_cancelled t.batch t.field t.entity i p
        dsimp only
        generalize compute t.batch t.field t.entity i p = run at hcomputed ⊢
        obtain ⟨r, p'⟩ := run
        dsimp only at hcomputed
        cases r with
        | error err => simp [hcomputed, hlook]
        | ok value =>
          have hput := (remember_cases (en.lifetime t.field) value slot p').2.cancelled
          dsimp only
          rw [hput, hcomputed, hlook]
          simp

/-- A turn after which the token is cancelled, and was not before, cancels it. -/
theorem cancels_of_turn {t : Moment σ} (hbefore : t.progress.cancelled = false)
    (hafter : (en.turn t).2.cancelled = true) : en.Cancels t := by
  rcases (turn_cancelled t).1 hafter with hcancelled | hcancels
  · rw [hbefore] at hcancelled
    cases hcancelled
  · exact hcancels

theorem computeOrder_cancelled (e : Entity) (names : List String) :
    ∀ (computed : List (String × Value)) (p : Progress σ),
      (en.computeOrder b e names computed p).2.cancelled = true ↔
        p.cancelled = true ∨ ∃ t ∈ en.orderMoments b e names computed p, en.Cancels t := by
  induction names with
  | nil =>
    intro computed p
    unfold computeOrder orderMoments
    split <;> simp
  | cons name rest ih =>
    intro computed p
    cases hv : en.catalog.virtual? name with
    | none =>
      rw [computeOrder, orderMoments, hv]
      exact ih computed p
    | some v =>
      have hone := @turn_cancelled σ en ⟨b, v, e, computed, p⟩
      unfold turn at hone
      rw [computeOrder_cons hv, orderMoments, hv]
      dsimp only at hone ⊢
      rw [List.exists_mem_cons_iff, ← or_assoc, ← hone]
      rcases goOn_cases b.target e ⟨name, v, rest, computed⟩ (en.computeOne b v e computed p).1 with
        ⟨a, -, hgo⟩ | ⟨err, hgo⟩
      · rw [hgo, hgo]
        exact ih _ _
      · rw [hgo, hgo]
        simp

theorem computeEntity_cancelled (e : Entity) (p : Progress σ) :
    (en.computeEntity b e p).2.cancelled = true ↔
      p.cancelled = true ∨ ∃ t ∈ en.entityMoments b e p, en.Cancels t := by
  unfold computeEntity entityMoments
  cases b.budget.checkTime p.spent with
  | error err => simp
  | ok u => exact computeOrder_cancelled e b.order [] p

/-- **After a chunk the token is cancelled** if it was before, or if a turn of the chunk cancels it. -/
theorem computeChunk_cancelled (es : List Entity) :
    ∀ p : Progress σ, (en.computeChunk b es p).2.cancelled = true ↔
      p.cancelled = true ∨ ∃ t ∈ en.chunkMoments b es p, en.Cancels t := by
  induction es with
  | nil => exact fun p => by simp [computeChunk, chunkMoments]
  | cons e es ih =>
    intro p
    rw [computeChunk, chunkMoments]
    dsimp only
    rw [ih, computeEntity_cancelled, or_assoc]
    simp only [List.mem_append, or_and_right, exists_or]

/-! ## Chunk by chunk -/

/-- The moments for the chunks of a batch that are begun, chunk by chunk. -/
def chunkRounds (en : Engine σ) (b : Batch) :
    List (List Entity) → Results → Progress σ → List (List (Moment σ))
  | [], _, _ => []
  | es :: parts, acc, p =>
    if b.heeds && p.cancelled then []
    else match b.budget.checkTime p.spent with
      | .error _ => []
      | .ok _ =>
        en.chunkMoments b es p.nextChunk ::
          match en.collect b.target (en.computeChunk b es p.nextChunk).1 acc
              (en.computeChunk b es p.nextChunk).2.stats with
          | .error _ => []
          | .ok (acc, stats) =>
            chunkRounds en b parts acc ((en.computeChunk b es p.nextChunk).2.recount stats)

/-- The moments of a batch that heeds its token, chunk by chunk. -/
def batchRounds (en : Engine σ) (field : String) (es : List Entity) (s : EngineState σ) :
    List (List (Moment σ)) :=
  match en.catalog.virtual? field with
  | none => []
  | some v =>
    en.chunkRounds (en.batchOf true v s) (chunks (en.settings.batchSize - 1) es) [] (startOf es s)

theorem flatten_chunkRounds (parts : List (List Entity)) :
    ∀ (acc : Results) (p : Progress σ),
      (en.chunkRounds b parts acc p).flatten = en.chunksMoments b parts acc p := by
  induction parts with
  | nil => exact fun _ _ => rfl
  | cons es parts ih =>
    intro acc p
    unfold chunkRounds chunksMoments
    split
    · rfl
    cases b.budget.checkTime p.spent with
    | error err => rfl
    | ok u =>
      show en.chunkMoments b es p.nextChunk ++ List.flatten _ = en.chunkMoments b es p.nextChunk ++ _
      congr 1
      show List.flatten _ = match en.collect b.target (en.computeChunk b es p.nextChunk).1 acc
          (en.computeChunk b es p.nextChunk).2.stats with
        | .error _ => []
        | .ok (acc, stats) =>
          en.chunksMoments b parts acc ((en.computeChunk b es p.nextChunk).2.recount stats)
      cases en.collect b.target (en.computeChunk b es p.nextChunk).1 acc
          (en.computeChunk b es p.nextChunk).2.stats with
      | error err => rfl
      | ok collected => exact ih _ _

/-- **The moments chunk by chunk are the moments of the batch.** -/
theorem flatten_batchRounds (field : String) (es : List Entity) (s : EngineState σ) :
    (en.batchRounds field es s).flatten = en.batchMoments true field es s := by
  unfold batchRounds batchMoments
  cases en.catalog.virtual? field with
  | none => rfl
  | some v => exact flatten_chunkRounds _ [] _

theorem entity_of_mem_entityMoments {e : Entity} {p : Progress σ} {t : Moment σ}
    (h : t ∈ en.entityMoments b e p) : t.entity = e := by
  unfold entityMoments at h
  split at h
  · cases h
  · exact (mem_orderMoments h).2.1

/-- The moments of a chunk are for its entities. -/
theorem chunkRounds_entities (parts : List (List Entity)) :
    ∀ (acc : Results) (p : Progress σ),
      List.Forall₂ (fun round part => ∀ t ∈ round, t.entity ∈ part) (en.chunkRounds b parts acc p)
        (parts.take (en.chunkRounds b parts acc p).length) := by
  induction parts with
  | nil => exact fun _ _ => .nil
  | cons es parts ih =>
    intro acc p
    unfold chunkRounds
    split
    · exact .nil
    split
    · exact .nil
    rw [List.length_cons, List.take_succ_cons]
    refine .cons (fun t ht => ?_) ?_
    · obtain ⟨e, he, p', hmem⟩ := mem_chunkMoments ht
      rw [entity_of_mem_entityMoments hmem]
      exact he
    · split
      · exact .nil
      · exact ih _ _

/-- The token has been cancelled before all chunks (`n = 0`), or by a turn of the `n`th one. -/
def CancelledAfter (en : Engine σ) (rounds : List (List (Moment σ))) (before : Bool) : Nat → Prop
  | 0 => before = true
  | n + 1 => ∃ round, rounds[n]? = some round ∧ ∃ t ∈ round, en.Cancels t

/-- What chunks come to if others would have followed, which the token forbids. -/
def stopped (b : Batch) (follow : Prop) [Decidable follow]
    (run : Except ComputationError Results × Progress σ) :
    Except ComputationError Results × Progress σ :=
  match run with
  | (.error err, p) => (.error err, p)
  | (.ok results, p) =>
    if follow then (.error (.cancelled b.target.name), p) else (.ok results, p)

/-- A batch whose token has been cancelled does not begin its chunks. -/
theorem computeChunks_forbidden (hheeds : b.heeds = true) {p : Progress σ} (hcancelled : p.cancelled = true)
    (parts : List (List Entity)) (acc : Results) :
    en.computeChunks b parts acc p = stopped b (0 < parts.length) (.ok acc, p) ∧
      en.chunkRounds b parts acc p = [] := by
  cases parts with
  | nil => exact ⟨rfl, rfl⟩
  | cons es parts =>
    have hstop : stopped b (0 < (es :: parts).length) (.ok acc, p) =
        (.error (.cancelled b.target.name), p) := by
      unfold stopped
      exact if_pos (Nat.succ_pos _)
    rw [computeChunks_cons, hstop]
    unfold gated chunkRounds
    rw [hheeds, hcancelled]
    exact ⟨rfl, rfl⟩

/-- A chunk that has been begun: neither the token nor the time has ended the batch before. -/
theorem begun_of_rounds {es : List Entity} {parts : List (List Entity)} {acc : Results} {p : Progress σ}
    {n : Nat} {round : List (Moment σ)} (h : (en.chunkRounds b (es :: parts) acc p)[n]? = some round) :
    (b.heeds && p.cancelled) = false ∧ b.budget.checkTime p.spent = .ok () := by
  unfold chunkRounds at h
  split at h
  · cases h
  rename_i hheard
  cases htime : b.budget.checkTime p.spent with
  | error err =>
    rw [htime] at h
    cases h
  | ok u => exact ⟨by simpa using hheard, rfl⟩

/-- A token that has been cancelled after a chunk and `n` more has been cancelled after `n` of the chunks
that follow the first. -/
theorem CancelledAfter.next {es : List Entity} {parts : List (List Entity)} {acc : Results}
    {p : Progress σ} {n : Nat}
    (h : CancelledAfter en (en.chunkRounds b (es :: parts) acc p) p.cancelled (n + 1)) :
    (∃ err, en.collect b.target (en.computeChunk b es p.nextChunk).1 acc
        (en.computeChunk b es p.nextChunk).2.stats = .error err ∧ n = 0) ∨
      ∃ collected, en.collect b.target (en.computeChunk b es p.nextChunk).1 acc
          (en.computeChunk b es p.nextChunk).2.stats = .ok collected ∧
        CancelledAfter en (en.chunkRounds b parts collected.1
          ((en.computeChunk b es p.nextChunk).2.recount collected.2))
          (en.computeChunk b es p.nextChunk).2.cancelled n := by
  obtain ⟨round, hround, t, ht, hcancels⟩ := h
  obtain ⟨hheard, htime⟩ := begun_of_rounds hround
  unfold chunkRounds at hround
  rw [hheard, htime] at hround
  simp only [Bool.false_eq_true, if_false] at hround
  cases n with
  | zero =>
    cases hround
    have hcancelled : (en.computeChunk b es p.nextChunk).2.cancelled = true :=
      (computeChunk_cancelled es p.nextChunk).2 (.inr ⟨t, ht, hcancels⟩)
    cases hcollect : en.collect b.target (en.computeChunk b es p.nextChunk).1 acc
        (en.computeChunk b es p.nextChunk).2.stats with
    | error err => exact .inl ⟨err, rfl, rfl⟩
    | ok collected => exact .inr ⟨collected, rfl, hcancelled⟩
  | succ n =>
    rw [List.getElem?_cons_succ] at hround
    cases hcollect : en.collect b.target (en.computeChunk b es p.nextChunk).1 acc
        (en.computeChunk b es p.nextChunk).2.stats with
    | error err =>
      rw [hcollect] at hround
      cases hround
    | ok collected =>
      rw [hcollect] at hround
      exact .inr ⟨collected, rfl, round, hround, t, ht, hcancels⟩

/-- **A token that is cancelled stops the chunks behind the one in which that happens**: they are what the
chunks up to then are for a batch that heeds no token, and no other chunk is begun. -/
theorem computeChunks_stopped (hdeaf : en.catalog.IsDeaf) (hheeds : b.heeds = true) (n : Nat) :
    ∀ (parts : List (List Entity)) (acc : Results) (p : Progress σ),
      CancelledAfter en (en.chunkRounds b parts acc p) p.cancelled n →
      en.computeChunks b parts acc p =
          stopped b (n < parts.length) (en.computeChunks b.unheeding (parts.take n) acc p) ∧
        (en.chunkRounds b parts acc p).length = n := by
  induction n with
  | zero =>
    intro parts acc p hcancelled
    obtain ⟨hrun, hrounds⟩ := @computeChunks_forbidden σ en b hheeds p hcancelled parts acc
    rw [hrounds]
    exact ⟨hrun, rfl⟩
  | succ n ih =>
    intro parts acc p h
    cases parts with
    | nil =>
      obtain ⟨round, hround, -⟩ := h
      cases hround
    | cons es parts =>
      have hnext := h.next
      obtain ⟨round, hround, -⟩ := h
      obtain ⟨hheard, htime⟩ := begun_of_rounds hround
      have hspared : ∀ run : Except ComputationError Results × Progress σ,
          gated b.unheeding p run = run := by
        intro run
        unfold gated
        rw [show b.unheeding.budget = b.budget from rfl, htime]
        rfl
      have hrun : ∀ run : Except ComputationError Results × Progress σ, gated b p run = run := by
        intro run
        unfold gated
        rw [hheard, htime]
        rfl
      rw [List.take_succ_cons, computeChunks_cons, computeChunks_cons, computeChunk_unheeding hdeaf,
        hspared, hrun, chunkRounds, hheard, htime]
      simp only [Bool.false_eq_true, if_false, List.length_cons]
      unfold takeIn
      rw [show b.unheeding.target = b.target from rfl]
      rcases hnext with ⟨err, hcollect, rfl⟩ | ⟨collected, hcollect, hrest⟩
      · rw [hcollect]
        exact ⟨rfl, rfl⟩
      · obtain ⟨hothers, hlength⟩ := ih parts _ _ hrest
        rw [hcollect]
        dsimp only
        rw [hothers, hlength]
        simp only [Nat.add_lt_add_iff_right, and_self]

/-! ## What a batch that heeds no token comes to -/

/-- A result that does not say that a token has ended the batch. -/
def Uncancelled {α : Type} (r : Except ComputationError α) : Prop :=
  ∀ err, r = .error err → ¬ err.IsCancellation

theorem Uncancelled.ok {α : Type} (a : α) : Uncancelled (.ok a : Except ComputationError α) :=
  fun _ h => nomatch h

theorem Uncancelled.error {α : Type} {err : ComputationError} (h : ¬ err.IsCancellation) :
    Uncancelled (.error err : Except ComputationError α) := by
  rintro _ ⟨⟩
  exact h

/-- The failure of a single entity is no cancellation. -/
theorem Uncancelled.single {α : Type} {err : ComputationError} (h : err.isBatchLevel = false) :
    Uncancelled (.error err : Except ComputationError α) :=
  .error fun hcancelled => Bool.false_ne_true (h.symm.trans hcancelled.isBatchLevel)

theorem takeOver_uncancelled (budget : Budget) (value : Value) (p : Progress σ) :
    Uncancelled (takeOver budget value p).1 := by
  unfold takeOver
  cases htime : budget.checkTime p.spent with
  | error err => exact .error (Budget.checkTime_error htime).1.not_isCancellation
  | ok u =>
    cases hcharge : budget.charge value.size p.used with
    | mk charged used =>
      cases charged with
      | error err => exact .error (Budget.charge_error hcharge).1.not_isCancellation
      | ok u => exact .ok value

theorem compute_uncancelled (b : Batch) (v : VirtualField) (e : Entity) (i : Inputs) (p : Progress σ) :
    Uncancelled (compute b v e i p).1 := by
  rw [compute_eq]
  cases haccept : v.accept e (v.computation e i) with
  | error err => exact .single (Meaning.accept_error haccept).2
  | ok value => exact takeOver_uncancelled b.budget value _

theorem resolveInputs_uncancelled (b : Batch) (v : VirtualField) (e : Entity)
    (computed : List (String × Value)) (cancelled : Bool) :
    Uncancelled (resolveInputs b v e computed cancelled) := by
  unfold resolveInputs
  cases hcolumns : resolveColumns v e computed with
  | error err =>
    obtain ⟨n, rfl⟩ := Meaning.gather_error hcolumns
    exact .single rfl
  | ok columns =>
    cases hrelations : resolveRelations v e with
    | error err =>
      obtain ⟨n, rfl⟩ := Meaning.gather_error hrelations
      exact .single rfl
    | ok relations => exact .ok _

theorem computeOne_uncancelled (v : VirtualField) (e : Entity) (computed : List (String × Value))
    (p : Progress σ) : Uncancelled (en.computeOne b v e computed p).1 := by
  have hinputs := resolveInputs_uncancelled b v e computed p.cancelled
  unfold computeOne
  cases hresolved : resolveInputs b v e computed p.cancelled with
  | error err => exact .error (hinputs err hresolved)
  | ok i =>
    dsimp only
    cases en.slot? v e i with
    | none => exact compute_uncancelled b v e i p
    | some slot =>
      unfold findOrCompute
      dsimp only
      split
      · exact .ok _
      · rename_i p' _
        have hcomputed := compute_uncancelled b v e i p'
        generalize compute b v e i p' = run at hcomputed ⊢
        obtain ⟨r, q⟩ := run
        cases r with
        | error err => exact hcomputed
        | ok value => exact .ok value

theorem computeOrder_uncancelled (e : Entity) (names : List String) :
    ∀ (computed : List (String × Value)) (p : Progress σ),
      Uncancelled (en.computeOrder b e names computed p).1 := by
  induction names with
  | nil =>
    intro computed p
    unfold computeOrder
    split
    · exact .ok _
    · exact .error id
  | cons name rest ih =>
    intro computed p
    have hone := fun v => en.computeOne_uncancelled (b := b) v e computed p
    unfold computeOrder
    split
    · exact ih computed p
    · rename_i v _
      have hone := hone v
      generalize en.computeOne b v e computed p = run at hone ⊢
      obtain ⟨r, p₁⟩ := run
      cases r with
      | ok value => exact ih _ p₁
      | error err =>
        dsimp only
        split
        · exact hone
        split
        · exact ih _ p₁
        · exact .single rfl

theorem computeChunk_uncancelled (es : List Entity) :
    ∀ p : Progress σ, ∀ r ∈ (en.computeChunk b es p).1, Uncancelled r.2 := by
  induction es with
  | nil => exact fun _ r hr => absurd hr List.not_mem_nil
  | cons e es ih =>
    intro p
    have hentity : Uncancelled (en.computeEntity b e p).1 := by
      unfold computeEntity
      cases htime : b.budget.checkTime p.spent with
      | error err => exact .error (Budget.checkTime_error htime).1.not_isCancellation
      | ok u => exact computeOrder_uncancelled e b.order [] p
    unfold computeChunk
    exact List.forall_mem_cons.2 ⟨hentity, ih _⟩

theorem collect_uncancelled {v : VirtualField} {found : Results} (h : ∀ r ∈ found, Uncancelled r.2) :
    ∀ (acc : Results) (stats : BatchStats), Uncancelled (en.collect v found acc stats) := by
  induction found with
  | nil => exact fun _ _ => .ok _
  | cons r found ih =>
    intro acc stats
    obtain ⟨hfirst, hrest⟩ := List.forall_mem_cons.1 h
    obtain ⟨id, x⟩ := r
    cases x with
    | ok value => exact ih hrest _ stats
    | error err =>
      have herr : ¬ err.IsCancellation := hfirst err rfl
      have hsettle : Uncancelled (en.settle v err stats) := by
        unfold settle
        split
        · exact .error herr
        split
        · exact .error fun h => h
        split
        · exact .ok _
        · exact .ok _
      unfold collect
      split
      · exact .error herr
      cases hsettled : en.settle v err stats with
      | error err' => exact .error (hsettle err' hsettled)
      | ok settled => exact ih hrest _ _

/-- **A batch that heeds no token is not cancelled.** -/
theorem computeChunks_uncancelled (hheeds : b.heeds = false) (parts : List (List Entity)) :
    ∀ (acc : Results) (p : Progress σ), Uncancelled (en.computeChunks b parts acc p).1 := by
  induction parts with
  | nil => exact fun acc _ => .ok acc
  | cons es parts ih =>
    intro acc p
    have hcollect : Uncancelled (en.collect b.target (en.computeChunk b es p.nextChunk).1 acc
        (en.computeChunk b es p.nextChunk).2.stats) :=
      collect_uncancelled (computeChunk_uncancelled es p.nextChunk) acc _
    rw [computeChunks_cons]
    unfold gated takeIn
    rw [hheeds]
    simp only [Bool.false_and, Bool.false_eq_true, if_false]
    cases htime : b.budget.checkTime p.spent with
    | error err => exact .error (Budget.checkTime_error htime).1.not_isCancellation
    | ok u =>
      dsimp only
      cases hcollected : en.collect b.target (en.computeChunk b es p.nextChunk).1 acc
          (en.computeChunk b es p.nextChunk).2.stats with
      | error err => exact .error (hcollect err hcollected)
      | ok collected => exact ih _ _

/-! ## Results for all entities -/

theorem mem_keys_of_collect {v : VirtualField} {found acc : Results} {stats : BatchStats}
    {out : Results × BatchStats} (h : en.collect v found acc stats = .ok out) {id : EntityId}
    (hid : id ∈ acc.map (·.1) ++ found.map (·.1)) : id ∈ out.1.map (·.1) := by
  induction found generalizing acc stats with
  | nil =>
    cases h
    simpa using hid
  | cons r found ih =>
    obtain ⟨-, stats₁, hrest⟩ := collect_cons_ok h
    refine ih hrest ?_
    rw [Assoc.keys_set]
    split
    · rename_i hold
      rw [List.map_cons, List.mem_append, List.mem_cons] at hid
      rcases hid with hacc | rfl | hfound
      · exact List.mem_append_left _ hacc
      · exact List.mem_append_left _ hold
      · exact List.mem_append_right _ hfound
    · simpa using hid

/-- Chunks that end well have a result for each of their entities. -/
theorem mem_keys_of_computeChunks (parts : List (List Entity)) :
    ∀ {acc results : Results} {p : Progress σ}, (en.computeChunks b parts acc p).1 = .ok results →
      ∀ id ∈ acc.map (·.1) ++ parts.flatten.map (·.id), id ∈ results.map (·.1) := by
  induction parts with
  | nil =>
    intro acc results p h id hid
    cases h
    simpa using hid
  | cons es parts ih =>
    intro acc results p h id hid
    obtain ⟨found, p₁, collected, hchunk, hcollect, hrest, -⟩ := computeChunks_cons_ok h
    have hids : (en.computeChunk b es p.nextChunk).1.map (·.1) = es.map (·.id) := ids_computeChunk es _
    rw [hchunk] at hids
    rw [List.flatten_cons, List.map_append, ← List.append_assoc] at hid
    refine ih hrest id ?_
    rcases List.mem_append.1 hid with hfirst | hothers
    · refine List.mem_append_left _ (mem_keys_of_collect hcollect ?_)
      rw [hids]
      exact hfirst
    · exact List.mem_append_right _ hothers

/-! ## Batches -/

/-- **A batch that heeds no token is not cancelled.** -/
theorem computeBatch_uncancelled (field : String) (es : List Entity) (s : EngineState σ) :
    Uncancelled (en.computeBatch false field es s).1 := by
  cases hv : en.catalog.virtual? field with
  | none =>
    rw [computeBatch_unknown hv]
    exact .error id
  | some v =>
    have hchunks : Uncancelled (en.computeChunks (en.batchOf false v s)
        (chunks (en.settings.batchSize - 1) es) [] (startOf es s)).1 := computeChunks_uncancelled rfl _ [] _
    rw [computeBatch_yields hv]
    generalize en.computeChunks _ _ _ _ = run at hchunks ⊢
    obtain ⟨r, q⟩ := run
    cases r with
    | error err => exact .error (hchunks err rfl)
    | ok results => exact .ok _

/-- **A batch that ends well has a result for each of its entities.** -/
theorem computeBatch_complete {heeds : Bool} {field : String} {es : List Entity} {s : EngineState σ}
    {o : BatchOutcome} (h : (en.computeBatch heeds field es s).1 = .ok o) :
    ∀ e ∈ es, e.id ∈ o.results.map (·.1) := by
  cases hv : en.catalog.virtual? field with
  | none =>
    rw [computeBatch_unknown hv] at h
    cases h
  | some v =>
    rw [computeBatch_yields hv] at h
    cases hrun : en.computeChunks (en.batchOf heeds v s) (chunks (en.settings.batchSize - 1) es) []
        (startOf es s) with
    | mk r q =>
      rw [hrun] at h
      cases r with
      | error err => cases h
      | ok results =>
        cases h
        intro e he
        refine mem_keys_of_computeChunks _ (congrArg Prod.fst hrun) e.id ?_
        rw [flatten_chunks]
        exact List.mem_map_of_mem he

/-- The moments of a batch are for the entities of its first chunks. -/
theorem batchRounds_entities (field : String) (es : List Entity) (s : EngineState σ) :
    List.Forall₂ (fun round part => ∀ t ∈ round, t.entity ∈ part) (en.batchRounds field es s)
      ((chunks (en.settings.batchSize - 1) es).take (en.batchRounds field es s).length) := by
  unfold batchRounds
  cases en.catalog.virtual? field with
  | none => exact .nil
  | some v => exact chunkRounds_entities _ [] _

/-- Entities that are not among the first ones are counted at the start, and that is all. -/
theorem computeChunks_startOf (b : Batch) (parts : List (List Entity)) (s : EngineState σ)
    {first es : List Entity} (hlength : first.length ≤ es.length) :
    en.computeChunks b parts [] (startOf es s) =
      counting { entities := es.length - first.length } (en.computeChunks b parts [] (startOf first s)) := by
  have hstart : startOf es s = (startOf first s).recount
      ((startOf first s).stats.add { entities := es.length - first.length }) := by
    unfold startOf Progress.recount BatchStats.add
    dsimp only
    rw [Nat.add_sub_cancel' hlength]
  rw [hstart]
  exact computeChunks_add rfl parts [] (startOf first s)

section Concluding

variable (s : EngineState σ) (d : BatchStats) (follow : Prop) [Decidable follow]

/-- A batch that fails is not stopped. -/
theorem concluded_stopped_error (err : ComputationError) (q : Progress σ) :
    (concluded s (stopped b follow (counting d (.error err, q)))).1 = .error err := rfl

/-- A batch that ends well is stopped if other chunks would have followed. -/
theorem concluded_stopped_ok (results : Results) (q : Progress σ) :
    (concluded s (stopped b follow (counting d (.ok results, q)))).1 =
      if follow then .error (.cancelled b.target.name) else .ok ⟨results, q.stats.add d⟩ := by
  unfold stopped counting
  dsimp only
  split <;> rfl

/-- A batch that is stopped leaves the cache as it is by then. -/
theorem cacheAt_concluded_stopped (run : Except ComputationError Results × Progress σ) :
    (concluded s (stopped b follow (counting d run))).2.cacheAt = (concluded s run).2.cacheAt := by
  obtain ⟨r, q⟩ := run
  unfold stopped counting
  cases r with
  | error err => rfl
  | ok results =>
    dsimp only
    split <;> rfl

end Concluding

/-- A batch for a virtual field that heeds its token is stopped behind its first `n` chunks: what a batch
for their entities by itself comes to, that heeds no token. -/
structure StopsAfter (en : Engine σ) (v : VirtualField) (field : String) (es : List Entity)
    (s : EngineState σ) (n : Nat) : Prop where
  /-- All turns of the batch are those of the chunks that are begun. -/
  whole : (en.batchRounds field es s).flatten = en.batchMoments true field es s
  /-- There are `n` of them. -/
  begun : (en.batchRounds field es s).length = n
  /-- Each of them has its turns for its own entities. -/
  turns : List.Forall₂ (fun round part => ∀ t ∈ round, t.entity ∈ part) (en.batchRounds field es s)
    (chunks (en.settings.batchSize - 1) (es.take (n * max 1 en.settings.batchSize)))
  /-- Another error than the token ends both batches. -/
  failed : ∀ err,
    (en.computeBatch false field (es.take (n * max 1 en.settings.batchSize)) s).1 = .error err →
      ¬ err.IsCancellation ∧ (en.computeBatch true field es s).1 = .error err
  /-- The token ends the batch if there is another chunk. -/
  ended : ∀ o,
    (en.computeBatch false field (es.take (n * max 1 en.settings.batchSize)) s).1 = .ok o →
      (en.computeBatch true field es s).1 =
        if n * max 1 en.settings.batchSize < es.length then .error (.cancelled v.name) else .ok o
  /-- If the batch ends well, every entity has its result. -/
  complete : ∀ o, (en.computeBatch true field es s).1 = .ok o → ∀ e ∈ es, e.id ∈ o.results.map (·.1)
  /-- The cache is what the first chunks have made of it. -/
  cacheAt : (en.computeBatch true field es s).2.cacheAt =
    (en.computeBatch false field (es.take (n * max 1 en.settings.batchSize)) s).2.cacheAt

section Stopping

variable (hdeaf : en.catalog.IsDeaf) {field : String} {v : VirtualField}
  (hv : en.catalog.virtual? field = some v) {es : List Entity} {s : EngineState σ} {n : Nat}
  (hcancelled : CancelledAfter en (en.batchRounds field es s) s.cancelled n)

include hdeaf hv hcancelled

/-- A batch whose token is cancelled is a batch for the entities of its first chunks that is stopped. -/
theorem computeBatch_eq_stopped : (en.batchRounds field es s).length = n ∧
    en.computeBatch true field es s = concluded s (stopped (en.batchOf true v s)
      (n * max 1 en.settings.batchSize < es.length)
      (counting { entities := es.length - (es.take (n * max 1 en.settings.batchSize)).length }
        (en.computeChunks (en.batchOf false v s)
          (chunks (en.settings.batchSize - 1) (es.take (n * max 1 en.settings.batchSize))) []
          (startOf (es.take (n * max 1 en.settings.batchSize)) s)))) := by
  have hsize : max 1 en.settings.batchSize = en.settings.batchSize - 1 + 1 := by omega
  have hfollow : n < (chunks (en.settings.batchSize - 1) es).length ↔
      n * max 1 en.settings.batchSize < es.length := by
    rw [hsize, lt_length_chunks_iff]
  have hfirst : chunks (en.settings.batchSize - 1) (es.take (n * max 1 en.settings.batchSize)) =
      (chunks (en.settings.batchSize - 1) es).take n := by
    rw [hsize, chunks_take]
  have hrounds : en.batchRounds field es s = en.chunkRounds (en.batchOf true v s)
      (chunks (en.settings.batchSize - 1) es) [] (startOf es s) := by
    unfold batchRounds
    rw [hv]
  rw [hrounds] at hcancelled ⊢
  obtain ⟨hstopped, hlength⟩ := computeChunks_stopped hdeaf rfl n _ _ _ hcancelled
  simp only [hfollow] at hstopped
  refine ⟨hlength, ?_⟩
  rw [computeBatch_concluded hv, hstopped, hfirst,
    ← computeChunks_startOf (en.batchOf false v s) _ s (List.length_take_le' _ es)]
  rfl

/-- **A token that is cancelled stops a batch between two chunks.**  For every catalog whose computations do
not look at the token, whether they cancel it or not, every cache and all settings: if the token has been
cancelled before the batch (`n = 0`) or by a turn of its `n`th chunk, the batch is stopped behind its first
`n` chunks. -/
theorem computeBatch_stopped : StopsAfter en v field es s n := by
  obtain ⟨hlength, hrun⟩ := computeBatch_eq_stopped hdeaf hv hcancelled
  have hturns := en.batchRounds_entities field es s
  rw [hlength, ← chunks_take,
    show en.settings.batchSize - 1 + 1 = max 1 en.settings.batchSize by omega] at hturns
  have hspared := computeBatch_concluded hv false (es.take (n * max 1 en.settings.batchSize)) s
  refine ⟨flatten_batchRounds field es s, hlength, hturns,
    fun err h => ⟨computeBatch_uncancelled _ _ _ err h, ?_⟩, fun o h => ?_,
    fun o => computeBatch_complete, ?_⟩
  case refine_3 => rw [hrun, hspared, cacheAt_concluded_stopped]
  all_goals
    rw [hspared] at h
    rw [hrun]
    generalize en.computeChunks (en.batchOf false v s) _ [] _ = run at h ⊢
    obtain ⟨r, q⟩ := run
  case refine_1 =>
    cases r with
    | error err' =>
      cases h
      exact concluded_stopped_error s _ _ err q
    | ok results => cases h
  case refine_2 =>
    cases r with
    | error err => cases h
    | ok results =>
      cases h
      rw [concluded_stopped_ok]
      split
      · rfl
      · -- the first chunks are all chunks, so that no entity is left to be counted
        rename_i hleft
        rw [List.take_of_length_le (Nat.not_lt.1 hleft), Nat.sub_self]
        rfl

end Stopping

section Ringing

/-- A field whose computation cancels the token at the third item. -/
def ringing : VirtualField where
  name := "ringing"
  fieldType := .integer
  computation := fun e _ => { value := .ok (.int 1), cancels := e.id == .int 3 }
  computationName := "ringing"
  operators := FieldType.integer.operators
  cacheable := true

/-- An engine that rings, with chunks of two items. -/
def belfry : Engine MemoryCache where
  catalog := Catalog.enterAll {} [.virtual ringing]
  settings := { batchSize := 2 }
  digest := id
  cache := some MemoryCache.cache

/-- Five items in three chunks. -/
def fiveItems : List Entity :=
  [counted 1 1, counted 2 2, counted 3 3, counted 4 4, counted 5 5]

/-- The token is cancelled at the first item of the second chunk: the second chunk is computed and cached,
and the third is not begun. -/
theorem computeBatch_stopped_belfry :
    belfry.catalog.IsDeaf ∧ belfry.catalog.virtual? "ringing" = some ringing ∧
    CancelledAfter belfry (belfry.batchRounds "ringing" fiveItems blank) blank.cancelled 2 ∧
    StopsAfter belfry ringing "ringing" fiveItems blank 2 ∧
    (belfry.computeBatch true "ringing" fiveItems blank).1 = .error (.cancelled "ringing") ∧
    (belfry.computeBatch true "ringing" fiveItems blank).2.cache.entries.length = 4 := by
  have hdeaf : belfry.catalog.IsDeaf := by
    intro p hp
    have hfields : belfry.catalog.virtualFields = [("ringing", ringing)] := rfl
    rw [hfields] at hp
    obtain rfl := List.mem_singleton.1 hp
    exact fun _ _ _ => rfl
  have hcancelled : CancelledAfter belfry (belfry.batchRounds "ringing" fiveItems blank)
      blank.cancelled 2 := by
    have hround : ((belfry.batchRounds "ringing" fiveItems blank)[1]?.any fun round =>
        round.any fun t => !t.progress.cancelled && (belfry.turn t).2.cancelled) = true := by
      decide +kernel
    obtain ⟨round, hround, hany⟩ := (Option.any_eq_true _ _).1 hround
    obtain ⟨t, ht, hturn⟩ := List.any_eq_true.1 hany
    rw [Bool.and_eq_true, Bool.not_eq_true'] at hturn
    exact ⟨round, hround, t, ht, cancels_of_turn hturn.1 hturn.2⟩
  have hstops : StopsAfter belfry ringing "ringing" fiveItems blank 2 :=
    computeBatch_stopped hdeaf rfl hcancelled
  have hspared : (belfry.computeBatch false "ringing" (fiveItems.take 4) blank).1.isOk = true := by
    decide +kernel
  refine ⟨hdeaf, rfl, hcancelled, hstops, ?_, by decide +kernel⟩
  cases ho : (belfry.computeBatch false "ringing" (fiveItems.take 4) blank).1 with
  | error err =>
    rw [ho] at hspared
    cases hspared
  | ok o => exact (hstops.ended o ho).trans (if_pos (by decide))

end Ringing

end Engine

end FieldQuery
