import FieldQuery.Catalog.Field
import FieldQuery.Computation.Error
import FieldQuery.Settings.Basic

/-!
# Budgets

* `Budget` — the time and the memory that a batch may use; a field's own limits replace those of
  the settings;
* `Budget.checkTime` — fails once the time is used up;
* `Budget.charge` — adds to the memory in use, and fails above the limit.

Time is looked at between computations, so that one computation may overrun. The time in use is
that of computations alone.
-/

namespace FieldQuery

/-- What a batch may use. -/
structure Budget where
  field : String
  timeLimitMs : Nat
  memoryLimit : Nat
  deriving DecidableEq, Repr

namespace Budget

/-- The budget of a field. -/
def ofField (v : VirtualField) (s : ComputationSettings) : Budget where
  field := v.name
  timeLimitMs := v.timeoutMs.getD s.timeLimitMs
  memoryLimit := v.memoryLimit.getD s.memoryLimitBytes

/-- Whether the milliseconds in use are allowed. -/
def checkTime (b : Budget) (spent : Nat) : Except ComputationError Unit :=
  if b.timeLimitMs < spent then .error (.timeoutExceeded b.field spent b.timeLimitMs) else .ok ()

/-- The memory in use after some more, and whether that is allowed. -/
def charge (b : Budget) (bytes used : Nat) : Except ComputationError Unit × Nat :=
  let used := used + bytes
  if b.memoryLimit < used then (.error (.memoryLimitExceeded b.field used b.memoryLimit), used)
  else (.ok (), used)

theorem checkTime_eq_ok_iff {b : Budget} {spent : Nat} :
    b.checkTime spent = .ok () ↔ spent ≤ b.timeLimitMs := by
  unfold checkTime
  split <;> simp <;> omega

/-- A batch that has used no time is in time. -/
@[simp] theorem checkTime_zero (b : Budget) : b.checkTime 0 = .ok () :=
  checkTime_eq_ok_iff.2 (Nat.zero_le _)

end Budget

end FieldQuery
