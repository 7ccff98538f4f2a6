import FieldQuery.Number.Binary64
import Mathlib.Data.Nat.Log
import Mathlib.Tactic.Ring

/-!
# Rounding of whole numbers

* `roundHalfEven_mono` — rounding a quotient keeps the order of the dividends;
* `nearestMagnitude_mono` — so does the magnitude nearest to a whole number: within one exponent
  by `roundHalfEven_mono`, and across exponents because a rounded quotient stays between the
  bounds of its binade;
* `orderKey_ofInt_mono` — the number nearest to an integer grows with the integer, in the total
  order.

Principal result: `orderKey_ofInt_mono`.  Rounding is not injective: beyond `2 ^ 53` several
integers share one nearest number.
-/

namespace FieldQuery.Binary64

/-! ## Quotients -/

theorem le_roundHalfEven (num den : Nat) : num / den ≤ roundHalfEven num den := by
  unfold roundHalfEven
  simp only
  split
  · exact Nat.le_refl _
  · split <;> omega

theorem roundHalfEven_le (num den : Nat) : roundHalfEven num den ≤ num / den + 1 := by
  unfold roundHalfEven
  simp only
  split
  · omega
  · split <;> omega

theorem roundHalfEven_mono {m n den : Nat} (h : m ≤ n) :
    roundHalfEven m den ≤ roundHalfEven n den := by
  have hq : m / den ≤ n / den := Nat.div_le_div_right h
  rcases Nat.lt_or_eq_of_le hq with hlt | heq
  · calc roundHalfEven m den ≤ m / den + 1 := roundHalfEven_le m den
      _ ≤ n / den := hlt
      _ ≤ roundHalfEven n den := le_roundHalfEven n den
  · -- one quotient, so the remainders are in order
    have hm := Nat.div_add_mod m den
    have hn := Nat.div_add_mod n den
    rw [heq] at hm
    have hr : m % den ≤ n % den := by omega
    unfold roundHalfEven
    simp only [heq]
    split <;> split <;> (try split) <;> (try split) <;> omega

/-! ## Magnitudes -/

/-- The exponent that belongs to a number of units. -/
def exponentOf (units : Nat) : Nat := units.log2 - 52

/-- The magnitude nearest to a number of units, infinity aside. -/
def magnitudeOf (units : Nat) : Nat :=
  exponentOf units * binade + roundHalfEven units (2 ^ exponentOf units)

theorem exponentOf_mono {m n : Nat} (h : m ≤ n) : exponentOf m ≤ exponentOf n := by
  unfold exponentOf
  rw [Nat.log2_eq_log_two, Nat.log2_eq_log_two]
  exact Nat.sub_le_sub_right (Nat.log_mono_right h) 52

/-- A number of units takes less than two binades above its exponent. -/
theorem div_exponentOf_lt (units : Nat) : units / 2 ^ exponentOf units < 2 * binade := by
  rw [Nat.div_lt_iff_lt_mul (Nat.pow_pos (by decide))]
  have hlt : units < 2 ^ (units.log2 + 1) := Nat.lt_log2_self
  have hle : units.log2 + 1 ≤ 53 + exponentOf units := by unfold exponentOf; omega
  calc units < 2 ^ (units.log2 + 1) := hlt
    _ ≤ 2 ^ (53 + exponentOf units) := Nat.pow_le_pow_right (by decide) hle
    _ = 2 * binade * 2 ^ exponentOf units := by rw [Nat.pow_add]; rfl

/-- Above the least exponent it takes one at least. -/
theorem binade_le_div_exponentOf {units : Nat} (h : 0 < exponentOf units) :
    binade ≤ units / 2 ^ exponentOf units := by
  have he : 52 + exponentOf units = units.log2 := by unfold exponentOf at *; omega
  have hne : units ≠ 0 := by
    rintro rfl
    simp [exponentOf] at h
  rw [Nat.le_div_iff_mul_le (Nat.pow_pos (by decide))]
  calc binade * 2 ^ exponentOf units = 2 ^ (52 + exponentOf units) := by rw [Nat.pow_add]; rfl
    _ = 2 ^ units.log2 := by rw [he]
    _ ≤ units := Nat.log2_self_le hne

theorem magnitudeOf_mono {m n : Nat} (h : m ≤ n) : magnitudeOf m ≤ magnitudeOf n := by
  unfold magnitudeOf
  rcases Nat.lt_or_eq_of_le (exponentOf_mono h) with hlt | heq
  · have hm : roundHalfEven m (2 ^ exponentOf m) ≤ 2 * binade := by
      have := roundHalfEven_le m (2 ^ exponentOf m)
      have := div_exponentOf_lt m
      omega
    have hn : binade ≤ roundHalfEven n (2 ^ exponentOf n) :=
      Nat.le_trans (binade_le_div_exponentOf (by omega)) (le_roundHalfEven _ _)
    have he : (exponentOf m + 1) * binade ≤ exponentOf n * binade :=
      Nat.mul_le_mul_right _ hlt
    rw [Nat.add_mul, Nat.one_mul] at he
    omega
  · rw [heq]
    exact Nat.add_le_add_left (roundHalfEven_mono h) _

theorem nearestMagnitude_eq (n : Nat) :
    nearestMagnitude n 1 = min infinityMagnitude (magnitudeOf (n * Nat.pow 2 1074)) := by
  simp only [nearestMagnitude, magnitudeOf, exponentOf, Nat.div_one, Nat.one_mul]
  rfl

theorem nearestMagnitude_mono {m n : Nat} (h : m ≤ n) :
    nearestMagnitude m 1 ≤ nearestMagnitude n 1 := by
  rw [nearestMagnitude_eq, nearestMagnitude_eq]
  have := magnitudeOf_mono (Nat.mul_le_mul_right (Nat.pow 2 1074) h)
  omega

/-! ## Integers -/

/-- The number nearest to an integer is a number. -/
theorem isNaN_ofInt (n : Int) : (ofInt n).isNaN = false := by
  have h : nearestMagnitude n.natAbs 1 ≤ infinityMagnitude := Nat.min_le_left _ _
  exact decide_eq_false (Nat.not_lt.2 h)

/-- **The number nearest to an integer grows with the integer.** -/
theorem orderKey_ofInt_mono {m n : Int} (h : m ≤ n) :
    (ofInt m).orderKey ≤ (ofInt n).orderKey := by
  by_cases hm : m < 0 <;> by_cases hn : n < 0
  · have := nearestMagnitude_mono (show n.natAbs ≤ m.natAbs by omega)
    simp only [orderKey, ofInt, nearest, hm, hn, decide_true, if_true]
    omega
  · simp only [orderKey, ofInt, nearest, hm, hn, decide_true, decide_false, if_true]
    simp only [Bool.false_eq_true, if_false]
    omega
  · omega
  · have := nearestMagnitude_mono (show m.natAbs ≤ n.natAbs by omega)
    simp only [orderKey, ofInt, nearest, hm, hn, decide_false, Bool.false_eq_true, if_false]
    omega

-- the first integer that shares its nearest number with the one before it
example : ofInt (2 ^ 53 + 1) = ofInt (2 ^ 53) := by decide +kernel

end FieldQuery.Binary64
