import FieldQuery.Engine.Batch

/-!
# Runs under ceilings

A batch may use a given time and a given memory.  What a run yields is therefore stated twice: it is
what is expected or the error of a ceiling, and it is what is expected whenever the work fits.

* `Work` — the time and the memory that something takes, `Work.total` for a list;
* `Budget.Covers`, `Budget.Fits` — a budget is enough for some work, at the start and later on;
* `Agrees` — a result is the expected one, or the error of a ceiling;
* `Meets` — the statement about a run.

Principal results: `Meets.chain`, `Meets.settled` and `Meets.spared` — what follows a run is another
one, something made of its result, or nothing.
-/

namespace FieldQuery

/-- Milliseconds and bytes. -/
structure Work where
  time : Nat := 0
  memory : Nat := 0
  deriving DecidableEq, Repr

namespace Work

/-- Two pieces of work. -/
def add (v w : Work) : Work := ⟨v.time + w.time, v.memory + w.memory⟩

/-- All the work on the elements of a list. -/
def total {α : Type} (work : α → Work) : List α → Work
  | [] => {}
  | a :: as => (work a).add (total work as)

theorem add_assoc (u v w : Work) : (u.add v).add w = u.add (v.add w) := by
  unfold add
  rw [Nat.add_assoc, Nat.add_assoc]

theorem zero_add (w : Work) : add {} w = w := by
  unfold add
  rw [Nat.zero_add, Nat.zero_add]

theorem total_append {α : Type} (work : α → Work) (as bs : List α) :
    total work (as ++ bs) = (total work as).add (total work bs) := by
  induction as with
  | nil => exact (zero_add _).symm
  | cons a as ih =>
    rw [List.cons_append, total, total, ih, add_assoc]

end Work

/-- Whether an error says that a ceiling has been reached. -/
def ComputationError.IsCeiling : ComputationError → Prop
  | .timeoutExceeded .. => True
  | .memoryLimitExceeded .. => True
  | _ => False

theorem ComputationError.IsCeiling.isBatchLevel {err : ComputationError} (h : err.IsCeiling) :
    err.isBatchLevel = true := by
  cases err with
  | timeoutExceeded => rfl
  | memoryLimitExceeded => rfl
  | _ => cases h

/-- A result is what is expected, or says that a ceiling has been reached. -/
def Agrees {α : Type} (r expected : Except ComputationError α) : Prop :=
  r = expected ∨ ∃ err, r = .error err ∧ err.IsCeiling

variable {σ α β : Type}

/-- Whether a budget is enough for some work. -/
def Budget.Covers (b : Budget) (w : Work) : Prop :=
  w.time ≤ b.timeLimitMs ∧ w.memory ≤ b.memoryLimit

/-- Whether there is room for some work. -/
def Budget.Fits (b : Budget) (p : Progress σ) (w : Work) : Prop :=
  p.spent + w.time ≤ b.timeLimitMs ∧ p.used + w.memory ≤ b.memoryLimit

/-- A run that takes some work yields a result and a progress.  The result agrees with what is
expected, and equals it if there is room for the work. -/
structure Meets (agree : β → β → Prop) (b : Budget) (p : Progress σ) (w : Work)
    (run : β × Progress σ) (expected : β) : Prop where
  agrees : agree run.1 expected
  fits : b.Fits p w →
    run.1 = expected ∧ run.2.spent ≤ p.spent + w.time ∧ run.2.used ≤ p.used + w.memory
  cancelled : run.2.cancelled = p.cancelled

namespace Meets

variable {b : Budget} {p : Progress σ} {w w₁ w₂ : Work}

/-- Room for two pieces of work is room for the first, and room for the second after it. -/
theorem fits_of_add {agree : α → α → Prop} {first : α × Progress σ} {m : α}
    (h : Meets agree b p w₁ first m) (hfits : b.Fits p (w₁.add w₂)) :
    b.Fits p w₁ ∧ b.Fits first.2 w₂ := by
  obtain ⟨htime, hmemory⟩ := hfits
  unfold Work.add at htime hmemory
  dsimp only at htime hmemory
  have hfirst : b.Fits p w₁ := ⟨by omega, by omega⟩
  obtain ⟨-, hspent, hused⟩ := h.fits hfirst
  exact ⟨hfirst, by omega, by omega⟩

/-- A run after another one. -/
theorem chain {agree₁ : α → α → Prop} {agree : β → β → Prop} {first : α × Progress σ}
    {second : β × Progress σ} {m₁ : α} {m : β} (h₁ : Meets agree₁ b p w₁ first m₁)
    (h₂ : Meets agree b first.2 w₂ second m) : Meets agree b p (w₁.add w₂) second m where
  agrees := h₂.agrees
  fits := by
    intro hfits
    obtain ⟨hfirst, hsecond⟩ := h₁.fits_of_add hfits
    obtain ⟨-, hspent₁, hused₁⟩ := h₁.fits hfirst
    obtain ⟨hr, hspent₂, hused₂⟩ := h₂.fits hsecond
    unfold Work.add
    dsimp only
    exact ⟨hr, by omega, by omega⟩
  cancelled := h₂.cancelled.trans h₁.cancelled

/-- A run that does nothing. -/
theorem still {agree : α → α → Prop} (r : α) (hagree : agree r r) :
    Meets agree b p w (r, p) r :=
  ⟨hagree, fun _ => ⟨rfl, Nat.le_add_right _ _, Nat.le_add_right _ _⟩, rfl⟩

/-- What is made of the result of a run, with no more work. -/
theorem settled {agree : α → α → Prop} {agree' : β → β → Prop} {r m : α} {r' m' : β}
    {p' : Progress σ} (h : Meets agree b p w (r, p') m) (hagree : agree' r' m')
    (heq : r = m → r' = m') : Meets agree' b p w (r', p') m' where
  agrees := hagree
  fits := fun hfits => ⟨heq (h.fits hfits).1, (h.fits hfits).2⟩
  cancelled := h.cancelled

/-- Work that is not done makes no difference. -/
theorem spared {agree : α → α → Prop} {run : α × Progress σ} {m : α}
    (h : Meets agree b p w₁ run m) : Meets agree b p (w₁.add w₂) run m where
  agrees := h.agrees
  fits := by
    intro hfits
    obtain ⟨hr, hspent, hused⟩ := h.fits (h.fits_of_add hfits).1
    unfold Work.add
    dsimp only
    exact ⟨hr, by omega, by omega⟩
  cancelled := h.cancelled

end Meets

theorem Budget.checkTime_error {b : Budget} {spent : Nat} {err : ComputationError}
    (h : b.checkTime spent = .error err) : err.IsCeiling ∧ b.timeLimitMs < spent := by
  unfold checkTime at h
  split at h
  · rename_i hlate
    cases h
    exact ⟨trivial, hlate⟩
  · cases h

theorem Budget.charge_error {b : Budget} {bytes used used' : Nat} {err : ComputationError}
    (h : b.charge bytes used = (.error err, used')) :
    err.IsCeiling ∧ b.memoryLimit < used + bytes := by
  unfold charge at h
  dsimp only at h
  split at h
  · rename_i hfull
    cases h
    exact ⟨trivial, hfull⟩
  · cases h

theorem Budget.charge_ok {b : Budget} {bytes used used' : Nat} {u : Unit}
    (h : b.charge bytes used = (.ok u, used')) : used' = used + bytes := by
  unfold charge at h
  dsimp only at h
  split at h
  · cases h
  · cases h
    rfl

/-- A run that ends when it looks at the time. -/
theorem Meets.late {b : Budget} {p : Progress σ} {w : Work} {err : ComputationError}
    {expected : Except ComputationError α} (h : b.checkTime p.spent = .error err) :
    Meets Agrees b p w (.error err, p) expected where
  agrees := .inr ⟨err, rfl, (Budget.checkTime_error h).1⟩
  fits := by
    intro hfits
    have hlate := (Budget.checkTime_error h).2
    have htime := hfits.1
    omega
  cancelled := rfl

end FieldQuery
