import FieldQuery.Number.Word

/-!
# Numerals

Reading and writing of whole numbers in base ten.

* `natNumeral`, `intNumeral` — without sign for what is not negative, without leading zeros;
* `readDigits` — one digit or more and nothing else;
* `readCount` — a number of 64 bits without sign, a plus in front is allowed;
* `readInt64` — a number of 64 bits with sign.
-/

namespace FieldQuery.Text

/-- The digits 0 to 9. -/
def isDigit (c : Char) : Bool := '0' ≤ c && c ≤ '9'

/-- What a digit stands for. -/
def digitValue (c : Char) : Nat := c.toNat - '0'.toNat

/-- The digit that stands for a number below ten. -/
def digitChar (n : Nat) : Char := Char.ofNat (n + '0'.toNat)

/-- The number that a row of digits continues, when `n` was read before it. -/
def foldDigits (n : Nat) (cs : List Char) : Nat :=
  cs.foldl (fun n c => 10 * n + digitValue c) n

/-- The numeral of a natural number. -/
def natNumeral (n : Nat) : List Char :=
  if n < 10 then [digitChar n] else natNumeral (n / 10) ++ [digitChar (n % 10)]

/-- The numeral of an integer, with a minus in front of a negative one. -/
def intNumeral (n : Int) : List Char :=
  if n < 0 then '-' :: natNumeral n.natAbs else natNumeral n.natAbs

/-- The number written by one digit or more. -/
def readDigits (cs : List Char) : Option Nat :=
  if cs ≠ [] ∧ cs.all isDigit then some (foldDigits 0 cs) else none

/-- A number of at most 64 bits without sign; one plus may stand in front. -/
def readCount (cs : List Char) : Option Nat :=
  let digits := match cs with
    | '+' :: rest => rest
    | cs => cs
  (readDigits digits).filter (· ≤ wordMax)

/-- A number of 64 bits with sign; a plus may stand in front. -/
def readInt64 (cs : List Char) : Option Int64 :=
  let found : Option Int := match cs with
    | '+' :: rest => (readDigits rest).map Int.ofNat
    | '-' :: rest => (readDigits rest).map fun n => -(n : Int)
    | cs => (readDigits cs).map Int.ofNat
  found.bind int64?

theorem digitValue_digitChar_lt : ∀ d, d < 10 → digitValue (digitChar d) = d := by decide

theorem isDigit_digitChar_lt : ∀ d, d < 10 → isDigit (digitChar d) = true := by decide

theorem natNumeral_ne_nil (n : Nat) : natNumeral n ≠ [] := by
  rw [natNumeral]; split <;> simp

theorem all_isDigit_natNumeral (n : Nat) : (natNumeral n).all isDigit = true := by
  rw [natNumeral]
  split
  · simpa using isDigit_digitChar_lt n (by assumption)
  · have ih := all_isDigit_natNumeral (n / 10)
    simp only [List.all_append, ih, Bool.true_and, List.all_cons, List.all_nil, Bool.and_true]
    exact isDigit_digitChar_lt _ (by omega)
termination_by n
decreasing_by omega

theorem foldDigits_natNumeral (n : Nat) : foldDigits 0 (natNumeral n) = n := by
  rw [natNumeral]
  split
  · simp [foldDigits, digitValue_digitChar_lt n (by assumption)]
  · have ih := foldDigits_natNumeral (n / 10)
    simp only [foldDigits, List.foldl_append, List.foldl_cons, List.foldl_nil] at ih ⊢
    rw [ih, digitValue_digitChar_lt _ (by omega)]
    omega
termination_by n
decreasing_by omega

/-- Reading a numeral gives the number back. -/
theorem readDigits_natNumeral (n : Nat) : readDigits (natNumeral n) = some n := by
  simp [readDigits, natNumeral_ne_nil, all_isDigit_natNumeral, foldDigits_natNumeral]

end FieldQuery.Text
