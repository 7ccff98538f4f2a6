/-!
# Whole numbers of 64 bits

* `wordMax` — the largest one without sign;
* `minInt`, `maxInt` — the bounds of those with a sign;
* `int64?` — a whole number as one with a sign, if it fits.
-/

namespace FieldQuery

/-- The largest number that a word of 64 bits holds without a sign. -/
def wordMax : Nat := 0xFFFFFFFFFFFFFFFF

/-- The least number that a word of 64 bits holds with a sign. -/
def minInt : Int := -0x8000000000000000

/-- The largest number that a word of 64 bits holds with a sign. -/
def maxInt : Int := 0x7FFFFFFFFFFFFFFF

/-- A whole number, if it fits a word of 64 bits with a sign. -/
def int64? (n : Int) : Option Int64 :=
  if minInt ≤ n ∧ n ≤ maxInt then some (Int64.ofInt n) else none

/-- What fits is held exactly. -/
theorem toInt_of_int64?_eq_some {n : Int} {i : Int64} (h : int64? n = some i) : i.toInt = n := by
  unfold int64? at h
  split at h
  · rename_i bounds
    obtain rfl := Option.some.inj h
    exact Int64.toInt_ofInt_of_le (by simpa [minInt] using bounds.1)
      (by have := bounds.2; simp only [maxInt] at this; omega)
  · simp at h

/-- Every number of 64 bits fits. -/
theorem int64?_toInt (i : Int64) : int64? i.toInt = some i := by
  have bounds : minInt ≤ i.toInt ∧ i.toInt ≤ maxInt := ⟨i.minValue_le_toInt, i.toInt_le⟩
  rw [int64?, if_pos bounds, Int64.ofInt_toInt]

end FieldQuery
