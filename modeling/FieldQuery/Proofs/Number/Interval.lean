import FieldQuery.Number.Shortest
import FieldQuery.Proofs.Number.Rounding
import Mathlib.Tactic.Ring

/-!
# The decimals that round to a binary number

Around every magnitude lies an interval that reaches half-way to its neighbours.

* `Interval.Contains` — a fraction of units lies in an interval;
* `contains_nearest` — a fraction lies in the interval of the magnitude that it is rounded to;
* `contains_unique` — two intervals have nothing in common, since of two neighbours one only keeps the
  end that they share;
* `has_shortest` — the shortest decimal of a magnitude lies in its interval.

Principal result: `ofScientific_of_has` — a decimal in the interval of a magnitude reads as that
magnitude.
-/

namespace FieldQuery.Binary64

/-! ## Units -/

/-- The units of a magnitude that is given by exponent and significand. -/
theorem units_eq {e r : Nat} (hle : r ≤ 2 * binade) (hnormal : e = 0 ∨ binade ≤ r) :
    units (e * binade + r) = r * 2 ^ e := by
  have hpos : 0 < binade := by decide
  unfold units
  rcases Nat.lt_or_ge r binade with hsmall | hbig
  · obtain rfl : e = 0 := hnormal.resolve_right (by omega)
    rw [Nat.zero_mul, Nat.zero_add, Nat.div_eq_of_lt hsmall, Nat.mod_eq_of_lt hsmall]
    simp
  · rcases Nat.lt_or_ge r (2 * binade) with hlt | hge
    · have hsum : e * binade + r = (r - binade) + (e + 1) * binade := by
        rw [Nat.add_mul]
        omega
      have hrest : r - binade < binade := by omega
      rw [hsum, Nat.add_mul_div_right _ _ hpos, Nat.add_mul_mod_self_right,
        Nat.div_eq_of_lt hrest, Nat.mod_eq_of_lt hrest, Nat.zero_add, if_neg (by omega),
        Nat.add_sub_cancel, Nat.add_sub_cancel' hbig]
      rfl
    · -- the significand has been rounded up to the next power of two
      obtain rfl : r = 2 * binade := by omega
      have hsum : e * binade + 2 * binade = 0 + (e + 2) * binade := by
        rw [Nat.add_mul]
        omega
      rw [hsum, Nat.add_mul_div_right _ _ hpos, Nat.add_mul_mod_self_right,
        Nat.zero_div, Nat.zero_mod, Nat.zero_add, if_neg (by omega), Nat.add_zero]
      show binade * 2 ^ (e + 2 - 1) = 2 * binade * 2 ^ e
      rw [show e + 2 - 1 = e + 1 by omega, Nat.pow_succ, Nat.mul_comm 2 binade, Nat.mul_assoc,
        Nat.mul_comm (2 ^ e)]

/-- Every magnitude is given by exponent and significand. -/
theorem exists_parts (m : Nat) :
    ∃ e r, m = e * binade + r ∧ r < 2 * binade ∧ (e = 0 ∨ binade ≤ r) := by
  have hpos : 0 < binade := by decide
  have hsum := Nat.div_add_mod m binade
  have hmod := Nat.mod_lt m hpos
  rw [Nat.mul_comm] at hsum
  cases hdiv : m / binade with
  | zero =>
    rw [hdiv] at hsum
    exact ⟨0, m, by omega, by omega, .inl rfl⟩
  | succ e =>
    rw [hdiv, Nat.add_mul] at hsum
    exact ⟨e, binade + m % binade, by omega, by omega, .inr (by omega)⟩

theorem units_lt_succ (m : Nat) : units m < units (m + 1) := by
  obtain ⟨e, r, rfl, hr, hnormal⟩ := exists_parts m
  rw [Nat.add_assoc, units_eq (by omega) hnormal, units_eq (by omega) (by omega)]
  exact Nat.mul_lt_mul_of_pos_right (Nat.lt_succ_self r) (Nat.pow_pos (by decide))

theorem units_strictMono : StrictMono units := strictMono_nat_of_lt_succ units_lt_succ

/-! ## Intervals -/

/-- Whether `num / den` lies in an interval. -/
def Interval.Contains (i : Interval) (num den : Nat) : Prop :=
  (i.low * den < num ∨ i.low * den = num ∧ i.closed = true) ∧
    (num < i.high * den ∨ num = i.high * den ∧ i.closed = true)

theorem Interval.holds_eq_true_iff {i : Interval} {up down d : Nat} :
    i.holds up down d = true ↔ i.Contains (d * up) down := by
  unfold Interval.holds Interval.Contains
  cases i.closed with
  | true =>
    simp only [if_true, Bool.and_eq_true, decide_eq_true_eq, and_true]
    constructor <;> rintro ⟨h, h'⟩ <;> constructor <;> omega
  | false => simp

/-- A fraction may be expanded. -/
theorem Interval.contains_expand {i : Interval} {num den k : Nat} (hk : 0 < k) :
    i.Contains (num * k) (den * k) ↔ i.Contains num den := by
  unfold Interval.Contains
  rw [← Nat.mul_assoc, ← Nat.mul_assoc, Nat.mul_lt_mul_right hk, Nat.mul_lt_mul_right hk,
    Nat.mul_left_inj (by omega), Nat.mul_left_inj (by omega)]

/-- A magnitude lies strictly inside its interval. -/
theorem contains_mid {m : Nat} (hm : 0 < m) {den : Nat} (hden : 0 < den) :
    (interval m).Contains ((interval m).mid * den) den := by
  have hlow := units_strictMono (show m - 1 < m by omega)
  have hhigh := units_lt_succ m
  unfold Interval.Contains interval
  dsimp only
  exact ⟨.inl (Nat.mul_lt_mul_of_pos_right (by omega) hden),
    .inl (Nat.mul_lt_mul_of_pos_right (by omega) hden)⟩

/-- Of two neighbours one is odd, and the interval of an odd magnitude is open. -/
theorem not_contains_of_lt {m n num den : Nat} (hden : 0 < den) (hlt : m < n)
    (hm : (interval m).Contains num den) : ¬ (interval n).Contains num den := by
  rintro ⟨hlow, -⟩
  obtain ⟨-, hhigh⟩ := hm
  have h₁ : units m ≤ units (n - 1) := units_strictMono.monotone (by omega)
  have h₂ : units (m + 1) ≤ units n := units_strictMono.monotone hlt
  have hends : (interval m).high * den ≤ (interval n).low * den :=
    Nat.mul_le_mul_right den (Nat.add_le_add h₁ h₂)
  have hshared : (interval m).closed = true ∧ (interval n).closed = true ∧
      (interval m).high * den = (interval n).low * den := by
    rcases hhigh with hhigh | ⟨hhigh, hclosed⟩
    · omega
    · rcases hlow with hlow | ⟨hlow, hclosed'⟩
      · omega
      · exact ⟨hclosed, hclosed', by omega⟩
  obtain ⟨hm, hn, hshared⟩ := hshared
  have hends' : units m + units (m + 1) = units (n - 1) + units n :=
    Nat.eq_of_mul_eq_mul_right hden hshared
  have hnext : m = n - 1 := units_strictMono.injective (by omega)
  unfold interval at hm hn
  dsimp only at hm hn
  rw [beq_iff_eq] at hm hn
  omega

/-- **Two intervals have nothing in common.** -/
theorem contains_unique {m n num den : Nat} (hden : 0 < den)
    (hm : (interval m).Contains num den) (hn : (interval n).Contains num den) : m = n := by
  rcases Nat.lt_trichotomy m n with hlt | heq | hgt
  · exact absurd hn (not_contains_of_lt hden hlt hm)
  · exact heq
  · exact absurd hm (not_contains_of_lt hden hgt hn)

/-! ## Rounding -/

/-- A quotient is rounded by half at most, and by half to an even number only. -/
theorem roundHalfEven_bounds (s : Nat) {d : Nat} (hd : 0 < d) :
    2 * (roundHalfEven s d * d) ≤ 2 * s + d ∧ 2 * s ≤ 2 * (roundHalfEven s d * d) + d ∧
      (2 * (roundHalfEven s d * d) = 2 * s + d ∨ 2 * s = 2 * (roundHalfEven s d * d) + d →
        roundHalfEven s d % 2 = 0) := by
  have hsum := Nat.div_add_mod s d
  have hmod := Nat.mod_lt s hd
  rw [Nat.mul_comm] at hsum
  have hnext : (s / d + 1) * d = s / d * d + d := by rw [Nat.add_mul, Nat.one_mul]
  unfold roundHalfEven
  dsimp only
  split
  · omega
  · split
    · omega
    · rcases Nat.mod_two_eq_zero_or_one (s / d) with heven | hodd
      · rw [heven, Nat.add_zero]
        omega
      · rw [hodd]
        omega

/-- The lower end, with a significand that has been rounded. -/
theorem low_eq {e r den : Nat} (hle : r ≤ 2 * binade) (hnormal : e = 0 ∨ binade < r) (hpos : 0 < r) :
    (interval (e * binade + r)).low * den + den * 2 ^ e = 2 * (r * (den * 2 ^ e)) := by
  have hprev : e * binade + r - 1 = e * binade + (r - 1) := by omega
  unfold interval
  dsimp only
  rw [hprev, units_eq (by omega) (by omega), units_eq hle (by omega)]
  obtain ⟨k, rfl⟩ : ∃ k, r = k + 1 := ⟨r - 1, by omega⟩
  rw [Nat.add_sub_cancel]
  ring

/-- The lower end at a power of two, where the neighbour below is nearer. -/
theorem low_eq_of_binade {e den : Nat} :
    (interval ((e + 1) * binade + binade)).low * den + den * 2 ^ e =
      2 * (binade * (den * 2 ^ (e + 1))) := by
  have hprev : (e + 1) * binade + binade - 1 = e * binade + (2 * binade - 1) := by
    unfold binade
    omega
  have hpow : 2 * binade - 1 + 1 = 2 * binade := by decide
  unfold interval
  dsimp only
  rw [hprev, units_eq (by omega) (.inr (by decide)), units_eq (by decide) (.inr (Nat.le_refl _))]
  calc ((2 * binade - 1) * 2 ^ e + binade * 2 ^ (e + 1)) * den + den * 2 ^ e
      = (2 * binade - 1 + 1) * 2 ^ e * den + binade * 2 ^ (e + 1) * den := by ring
    _ = 2 * (binade * (den * 2 ^ (e + 1))) := by
      rw [hpow]
      ring

/-- The upper end. -/
theorem high_eq {e r den : Nat} (hlt : r < 2 * binade) (hnormal : e = 0 ∨ binade ≤ r) :
    (interval (e * binade + r)).high * den = 2 * (r * (den * 2 ^ e)) + den * 2 ^ e := by
  unfold interval
  dsimp only
  rw [Nat.add_assoc, units_eq (by omega) hnormal, units_eq (by omega) (by omega)]
  ring

/-- **A fraction of units lies in the interval of the magnitude that it is rounded to.** -/
theorem contains_nearest (s : Nat) {den : Nat} (hden : 0 < den) :
    (interval (exponentOf (s / den) * binade +
      roundHalfEven s (den * 2 ^ exponentOf (s / den)))).Contains (2 * s) den := by
  generalize he : exponentOf (s / den) = e
  have hd : 0 < den * 2 ^ e := Nat.mul_pos hden (Nat.pow_pos (by decide))
  have hquotient : s / (den * 2 ^ e) < 2 * binade := by
    have := div_exponentOf_lt (s / den)
    rwa [he, Nat.div_div_eq_div_mul] at this
  have hbinade : 0 < e → binade ≤ s / (den * 2 ^ e) := by
    intro hpos
    have := @binade_le_div_exponentOf (s / den) (by omega)
    rwa [he, Nat.div_div_eq_div_mul] at this
  have hle := roundHalfEven_le s (den * 2 ^ e)
  have hge := le_roundHalfEven s (den * 2 ^ e)
  obtain ⟨hbelow, habove, htie⟩ := roundHalfEven_bounds s hd
  generalize roundHalfEven s (den * 2 ^ e) = r at *
  have hnormal : e = 0 ∨ binade ≤ r := by
    rcases Nat.eq_zero_or_pos e with hzero | hpos
    · exact .inl hzero
    · exact .inr (Nat.le_trans (hbinade hpos) hge)
  have hclosed : (interval (e * binade + r)).closed = true ↔ r % 2 = 0 := by
    unfold interval binade
    dsimp only
    rw [beq_iff_eq]
    omega
  constructor
  · rcases Nat.eq_zero_or_pos r with rfl | hpos
    · -- nothing lies below zero
      obtain rfl : e = 0 := hnormal.resolve_right (by decide)
      rw [hclosed]
      have hlow : (interval (0 * binade + 0)).low = 0 := by decide
      rw [hlow]
      omega
    · by_cases hsmall : e = 0 ∨ binade < r
      · have hlow := @low_eq e r den (by omega) hsmall hpos
        rw [hclosed]
        omega
      · obtain ⟨k, rfl⟩ : ∃ k, e = k + 1 := ⟨e - 1, by omega⟩
        obtain rfl : r = binade := by omega
        have hlow := @low_eq_of_binade k den
        have hstep : 0 < den * 2 ^ k := Nat.mul_pos hden (Nat.pow_pos (by decide))
        have hfloor := (Nat.le_div_iff_mul_le hd).1 (hbinade (by omega))
        exact .inl (by omega)
  · rcases Nat.lt_or_ge r (2 * binade) with hlt | hge'
    · have hhigh := @high_eq e r den hlt hnormal
      rw [hclosed]
      omega
    · -- the fraction is below the power of two that it has been rounded up to
      have hunits : units (e * binade + r) = r * 2 ^ e := units_eq (by omega) hnormal
      have hhigh : 2 * (r * (den * 2 ^ e)) < (interval (e * binade + r)).high * den := by
        have hnext := units_lt_succ (e * binade + r)
        calc 2 * (r * (den * 2 ^ e)) = (units (e * binade + r) + units (e * binade + r)) * den := by
              rw [hunits]
              ring
          _ < (interval (e * binade + r)).high * den :=
              Nat.mul_lt_mul_of_pos_right (Nat.add_lt_add_left hnext _) hden
      have hceil := (Nat.div_lt_iff_lt_mul hd).1 hquotient
      have hscaled : 2 * binade * (den * 2 ^ e) ≤ r * (den * 2 ^ e) := Nat.mul_le_mul_right _ hge'
      exact .inl (by omega)

/-- Half of the grid of the intervals. -/
theorem pow_half : Nat.pow 2 1075 = 2 * Nat.pow 2 1074 := by decide +kernel

/-- A fraction in the interval of a finite magnitude is rounded to that magnitude. -/
theorem nearestMagnitude_of_contains {m num den : Nat} (hden : 0 < den) (hm : m < infinityMagnitude)
    (h : (interval m).Contains (2 * (num * Nat.pow 2 1074)) den) : nearestMagnitude num den = m := by
  have heq := contains_unique hden (contains_nearest (num * Nat.pow 2 1074) hden) h
  unfold nearestMagnitude
  show min infinityMagnitude (exponentOf (num * Nat.pow 2 1074 / den) * binade +
    roundHalfEven (num * Nat.pow 2 1074)
      (den * 2 ^ exponentOf (num * Nat.pow 2 1074 / den))) = m
  rw [heq]
  omega

/-! ## Decimals -/

theorem pow_ten_pos (n : Nat) : 0 < Nat.pow 10 n := Nat.pow_pos (by decide)

theorem pow_ten_add (m n : Nat) : Nat.pow 10 (m + n) = Nat.pow 10 m * Nat.pow 10 n :=
  Nat.pow_add 10 m n

theorem gridStep_of_nonneg {exponent : Int} (h : 0 ≤ exponent) :
    gridStep exponent = (2 * (Nat.pow 10 exponent.toNat * Nat.pow 2 1074), 1) := by
  have hhalf := pow_half
  unfold gridStep
  rw [if_pos h]
  generalize Nat.pow 2 1075 = p at hhalf ⊢
  generalize Nat.pow 2 1074 = q at hhalf ⊢
  rw [hhalf, Nat.mul_left_comm]

theorem gridStep_of_neg {exponent : Int} (h : exponent < 0) :
    gridStep exponent = (2 * Nat.pow 2 1074, Nat.pow 10 (-exponent).toNat) := by
  have hhalf := pow_half
  unfold gridStep
  rw [if_neg (by omega)]
  generalize Nat.pow 2 1075 = p at hhalf ⊢
  generalize Nat.pow 2 1074 = q at hhalf ⊢
  rw [hhalf]

theorem gridStep_pos (exponent : Int) : 0 < (gridStep exponent).1 ∧ 0 < (gridStep exponent).2 := by
  have hunit : ∀ n, 0 < Nat.pow 2 n := fun n => Nat.pow_pos (by decide)
  have hpos := hunit 1074
  rcases Int.lt_or_le exponent 0 with hneg | hnonneg
  · rw [gridStep_of_neg hneg]
    generalize Nat.pow 2 1074 = q at hpos ⊢
    exact ⟨Nat.mul_pos (by decide) hpos, pow_ten_pos _⟩
  · rw [gridStep_of_nonneg hnonneg]
    generalize Nat.pow 2 1074 = q at hpos ⊢
    exact ⟨Nat.mul_pos (by decide) (Nat.mul_pos (pow_ten_pos _) hpos), Nat.one_pos⟩

/-- A decimal lies in an interval. -/
def Interval.Has (i : Interval) (digits : Nat) (exponent : Int) : Prop :=
  i.Contains (digits * (gridStep exponent).1) (gridStep exponent).2

/-- A finer power of ten is a part of a coarser one. -/
theorem gridStep_sub (exponent : Int) (k : Nat) :
    Nat.pow 10 k * (gridStep (exponent - k)).1 * (gridStep exponent).2 =
      (gridStep exponent).1 * (gridStep (exponent - k)).2 := by
  rcases Int.lt_or_le exponent 0 with hneg | hpos
  · rw [gridStep_of_neg hneg, gridStep_of_neg (by omega),
      show (-(exponent - k)).toNat = k + (-exponent).toNat by omega, pow_ten_add]
    generalize Nat.pow 2 1074 = q
    ring
  · rcases Int.lt_or_le (exponent - k) 0 with hneg | hpos'
    · rw [gridStep_of_neg hneg, gridStep_of_nonneg hpos,
        show k = exponent.toNat + (-(exponent - k)).toNat by omega, pow_ten_add]
      generalize Nat.pow 2 1074 = q
      rw [show exponent - ((exponent.toNat + (-(exponent - k)).toNat : Nat) : Int) = exponent - k by
        omega]
      ring
    · rw [gridStep_of_nonneg hpos', gridStep_of_nonneg hpos,
        show exponent.toNat = k + (exponent - k).toNat by omega, pow_ten_add]
      generalize Nat.pow 2 1074 = q
      ring

/-- Zeros behind the digits of a decimal make no difference. -/
theorem Interval.has_shift {i : Interval} {digits : Nat} {exponent : Int} (k : Nat) :
    i.Has (digits * Nat.pow 10 k) (exponent - k) ↔ i.Has digits exponent := by
  unfold Interval.Has
  have hfine := gridStep_pos (exponent - k)
  have hcoarse := gridStep_pos exponent
  have hstep := gridStep_sub exponent k
  have hexpand := @Interval.contains_expand i (digits * (gridStep exponent).1) (gridStep exponent).2
    (gridStep (exponent - k)).2 hfine.2
  rw [← Interval.contains_expand hcoarse.2, ← hexpand, Nat.mul_assoc digits, Nat.mul_assoc digits,
    hstep, Nat.mul_assoc digits, Nat.mul_comm (gridStep exponent).2]

theorem Interval.has_of_nonneg {i : Interval} {digits : Nat} {exponent : Int} (h : 0 ≤ exponent) :
    i.Has digits exponent ↔
      i.Contains (2 * (digits * Nat.pow 10 exponent.toNat * Nat.pow 2 1074)) 1 := by
  unfold Interval.Has
  rw [gridStep_of_nonneg h]
  generalize Nat.pow 2 1074 = q
  dsimp only
  rw [Nat.mul_left_comm, Nat.mul_assoc digits]

theorem Interval.has_of_neg {i : Interval} {digits : Nat} {exponent : Int} (h : exponent < 0) :
    i.Has digits exponent ↔
      i.Contains (2 * (digits * Nat.pow 2 1074)) (Nat.pow 10 (-exponent).toNat) := by
  unfold Interval.Has
  rw [gridStep_of_neg h]
  generalize Nat.pow 2 1074 = q
  dsimp only
  rw [Nat.mul_left_comm]

theorem Interval.Contains.low_le {i : Interval} {num den : Nat} (h : i.Contains num den) :
    i.low * den ≤ num := by
  rcases h.1 with h | h <;> omega

theorem Interval.Contains.le_high {i : Interval} {num den : Nat} (h : i.Contains num den) :
    num ≤ i.high * den := by
  rcases h.2 with h | h <;> omega

/-! ## The range of decimals -/

/-- The lower end, zero aside. -/
theorem low_pos {m : Nat} (hm : 0 < m) : 0 < (interval m).low := by
  have hzero := units_strictMono hm
  unfold interval
  dsimp only
  omega

/-- The first magnitude of a binade is a power of two. -/
theorem units_mul_binade (k : Nat) : units (k * binade + binade) = 2 ^ (52 + k) := by
  rw [units_eq (by decide) (.inr (Nat.le_refl _)), Nat.pow_add]
  rfl

/-- The upper end of an interval whose magnitude is below the first of a binade. -/
theorem high_le_of_lt {m k : Nat} (hm : m < k * binade + binade) :
    (interval m).high ≤ 2 ^ (52 + k + 1) := by
  have h₁ := units_strictMono.monotone hm.le
  have h₂ := units_strictMono.monotone (show m + 1 ≤ k * binade + binade from hm)
  rw [units_mul_binade] at h₁ h₂
  rw [Nat.pow_succ]
  unfold interval
  dsimp only
  omega

/-- The upper end of a finite interval. -/
theorem high_le {m : Nat} (hm : m < infinityMagnitude) : (interval m).high ≤ 2 ^ (52 + 2046 + 1) :=
  high_le_of_lt (Nat.lt_of_lt_of_eq hm (by decide))

/-- A factor two and a product of powers of two, as one power. -/
theorem two_mul_pow (a b : Nat) : 2 * (2 ^ a * Nat.pow 2 b) = 2 ^ (1 + (a + b)) := by
  rw [Nat.pow_add 2 1, Nat.pow_add 2 a]
  rfl

/-- A power of ten lies between two powers of two. -/
theorem two_pow_le_ten_pow (n : Nat) : 2 ^ n ≤ Nat.pow 10 n ∧ 2 ^ (3 * n) ≤ Nat.pow 10 n := by
  refine ⟨Nat.pow_le_pow_left (by decide) n, ?_⟩
  rw [Nat.pow_mul]
  exact Nat.pow_le_pow_left (by decide) n

/-- Decimals in the interval of a magnitude are not too small to be looked at. -/
theorem not_tiny_of_has {m digits : Nat} {exponent : Int} (hpos : 0 < m) (hneg : exponent < 0)
    (h : (interval m).Has digits exponent) : ¬ exponent + (digits.log2 : Int) < -2000 := by
  intro htiny
  have hlow := low_pos hpos
  have hle := ((Interval.has_of_neg hneg).1 h).low_le
  have hten := (two_pow_le_ten_pow (-exponent).toNat).1
  have hdigits : digits < 2 ^ (digits.log2 + 1) := Nat.lt_log2_self
  have hlt : 2 ^ (-exponent).toNat < 2 ^ (1 + (digits.log2 + 1 + 1074)) := by
    calc 2 ^ (-exponent).toNat ≤ (interval m).low * Nat.pow 10 (-exponent).toNat :=
          Nat.le_trans hten (Nat.le_mul_of_pos_left _ hlow)
      _ ≤ 2 * (digits * Nat.pow 2 1074) := hle
      _ < 2 * (2 ^ (digits.log2 + 1) * Nat.pow 2 1074) :=
          Nat.mul_lt_mul_of_pos_left
            (Nat.mul_lt_mul_of_pos_right hdigits (Nat.pow_pos (by decide))) (by decide)
      _ = 2 ^ (1 + (digits.log2 + 1 + 1074)) := two_mul_pow (digits.log2 + 1) 1074
  have hexp := (Nat.pow_lt_pow_iff_right (by decide : 1 < 2)).1 hlt
  omega

/-- Nor are they too large. -/
theorem not_huge_of_has {m digits : Nat} {exponent : Int} (hdigits : digits ≠ 0)
    (hm : m < infinityMagnitude) (hnonneg : 0 ≤ exponent)
    (h : (interval m).Has digits exponent) : ¬ 400 < exponent := by
  intro hhuge
  have hle := ((Interval.has_of_nonneg hnonneg).1 h).le_high
  have hten := (two_pow_le_ten_pow exponent.toNat).2
  have hlt : 2 ^ (1 + (3 * exponent.toNat + 1074)) ≤ 2 ^ (52 + 2046 + 1) := by
    calc 2 ^ (1 + (3 * exponent.toNat + 1074))
        = 2 * (2 ^ (3 * exponent.toNat) * Nat.pow 2 1074) :=
          (two_mul_pow (3 * exponent.toNat) 1074).symm
      _ ≤ 2 * (digits * Nat.pow 10 exponent.toNat * Nat.pow 2 1074) :=
          Nat.mul_le_mul_left 2 (Nat.mul_le_mul_right _
            (Nat.le_trans hten (Nat.le_mul_of_pos_left _ (Nat.pos_of_ne_zero hdigits))))
      _ ≤ (interval m).high * 1 := hle
      _ ≤ 2 ^ (52 + 2046 + 1) := by
          rw [Nat.mul_one]
          exact high_le hm
  have hexp := (Nat.pow_le_pow_iff_right (by decide : 1 < 2)).1 hlt
  omega

/-- **A decimal in the interval of a magnitude reads as that magnitude.** -/
theorem ofScientific_of_has {m digits : Nat} {exponent : Int} (hpos : 0 < m)
    (hm : m < infinityMagnitude) (h : (interval m).Has digits exponent) (negative : Bool) :
    ofScientific negative digits exponent = ⟨negative, m, Nat.lt_trans hm (by decide)⟩ := by
  have hdigits : digits ≠ 0 := by
    rintro rfl
    have hle := Interval.Contains.low_le h
    have hlow := Nat.mul_pos (low_pos hpos) (gridStep_pos exponent).2
    omega
  have hnearest : ∀ num den, nearestMagnitude num den = m →
      nearest negative num den = ⟨negative, m, Nat.lt_trans hm (by decide)⟩ := by
    intro num den heq
    unfold nearest
    congr 1
  unfold ofScientific
  rw [if_neg hdigits]
  rcases Int.lt_or_le exponent 0 with hneg | hnonneg
  · rw [if_neg (by omega), if_neg (by omega), if_neg (not_tiny_of_has hpos hneg h)]
    exact hnearest _ _ (nearestMagnitude_of_contains (pow_ten_pos _) hm
      ((Interval.has_of_neg hneg).1 h))
  · rw [if_neg (not_huge_of_has hdigits hm hnonneg h), if_pos hnonneg]
    exact hnearest _ _ (nearestMagnitude_of_contains Nat.one_pos hm
      ((Interval.has_of_nonneg hnonneg).1 h))

/-! ## The shortest decimal -/

theorem Interval.holds_onGrid {i : Interval} {exponent : Int} {d : Nat}
    (h : i.onGrid exponent = some d) : i.Has d exponent := by
  refine Interval.holds_eq_true_iff.1 ?_
  unfold Interval.onGrid at h
  dsimp only at h
  split at h
  · rename_i hbelow habove
    split at h
    · cases h
      exact hbelow
    · split at h
      · cases h
        exact habove
      · cases h
        rcases Nat.mod_two_eq_zero_or_one (i.mid * (gridStep exponent).2 / (gridStep exponent).1) with
          heven | hodd
        · rw [heven]
          exact hbelow
        · rw [hodd]
          exact habove
  · rename_i hbelow _
    cases h
    exact hbelow
  · rename_i _ habove
    cases h
    exact habove
  · cases h

/-- The end of the powers is fine enough for every binary number. -/
theorem exact_on_grid : Nat.pow 5 1075 * (gridStep (-1075)).1 = (gridStep (-1075)).2 := by
  decide +kernel

/-- The search ends in the interval. -/
theorem has_search {m : Nat} (hm : 0 < m) (fuel : Nat) (exponent : Int) :
    (interval m).Has ((interval m).search fuel exponent).digits
      ((interval m).search fuel exponent).exponent := by
  induction fuel generalizing exponent with
  | zero =>
    have hmid := contains_mid hm (gridStep_pos (-1075)).2
    have hgrid := exact_on_grid
    unfold Interval.Has Interval.search
    generalize Nat.pow 5 1075 = p at hgrid ⊢
    dsimp only
    rw [Nat.mul_assoc, hgrid]
    exact hmid
  | succ fuel ih =>
    unfold Interval.search
    split
    · rename_i d hd
      exact Interval.holds_onGrid hd
    · exact ih _

/-- **The shortest decimal of a magnitude lies in its interval.** -/
theorem has_shortest {m : Nat} (hm : 0 < m) :
    (interval m).Has (shortest m).digits (shortest m).exponent := by
  unfold shortest
  rw [if_neg (by omega)]
  exact has_search hm _ _

end FieldQuery.Binary64
