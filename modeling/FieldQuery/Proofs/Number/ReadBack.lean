import FieldQuery.Number.DecimalText
import FieldQuery.Proofs.Number.Interval

/-!
# Printed numbers are read back

A decimal in a layout is read, by the exact reader, as a decimal with the same value, zeros at the end
perhaps added. This holds of positional notation with and without `.0` behind a whole number, and of
exponents.

* `takeWhile_digits`, `readDecimal_fraction`, `readDecimal_whole` — digits are read up to what follows
  them;
* `readDecimal_layout` — the decimal that a layout is read as.

Principal results: `read_print`, `read_printJson` — a finite number is read back from its text in
either style.
-/

namespace FieldQuery

namespace Text

theorem toNat_of_isDigit {c : Char} (h : isDigit c = true) : 48 ≤ c.toNat ∧ c.toNat ≤ 57 := by
  unfold isDigit at h
  simp only [Bool.and_eq_true, decide_eq_true_eq, Char.le_def, UInt32.le_iff_toNat_le] at h
  exact h

end Text

namespace Binary64

open Text

/-! ## Digits -/

theorem foldDigits_append (n : Nat) (cs ds : List Char) :
    foldDigits n (cs ++ ds) = foldDigits (foldDigits n cs) ds := List.foldl_append

theorem foldDigits_zeros (n k : Nat) : foldDigits n (zeros k) = n * Nat.pow 10 k := by
  induction k generalizing n with
  | zero => exact (Nat.mul_one n).symm
  | succ k ih =>
    have hstep : foldDigits n (zeros (k + 1)) = foldDigits (10 * n) (zeros k) := rfl
    rw [hstep, ih, Nat.mul_comm 10, Nat.mul_assoc]
    exact congrArg (n * ·) (Nat.pow_succ').symm

theorem isDigit_zeros (n : Nat) : (zeros n).all isDigit = true := by
  refine List.all_eq_true.2 fun c hc => ?_
  rw [List.eq_of_mem_replicate hc]
  decide

/-- A text that does not begin with a digit. -/
def NoDigit (cs : List Char) : Prop := ∀ c, cs.head? = some c → isDigit c = false

theorem noDigit_nil : NoDigit [] := fun _ h => by cases h

theorem noDigit_cons {c : Char} (h : isDigit c = false) (cs : List Char) : NoDigit (c :: cs) :=
  fun _ hc => by cases hc; exact h

theorem takeWhile_digits {ds rest : List Char} (hds : ds.all isDigit = true) (hrest : NoDigit rest) :
    (ds ++ rest).takeWhile isDigit = ds ∧ (ds ++ rest).dropWhile isDigit = rest := by
  have hall := List.all_eq_true.1 hds
  rw [List.takeWhile_append_of_pos hall, List.dropWhile_append_of_pos hall]
  cases rest with
  | nil => simp
  | cons c rest => simp [hrest c rfl]

/-! ## Decimals -/

theorem readExponent_exponentText (e : Int) : readExponent (exponentText e) = some e := by
  unfold exponentText
  rcases Int.lt_or_le e 0 with hneg | hpos
  · have hread : ∀ n : Nat, readExponent ('e' :: '-' :: natNumeral n) = some (-(n : Int)) := by
      intro n
      simp [readExponent, readDigits_natNumeral]
    rw [if_pos hneg, hread, Int.ofNat_natAbs_of_nonpos hneg.le, neg_neg]
  · have hread : ∀ n : Nat, readExponent ('e' :: '+' :: natNumeral n) = some (n : Int) := by
      intro n
      simp [readExponent, readDigits_natNumeral]
    rw [if_neg (Int.not_lt.2 hpos), hread, Int.natAbs_of_nonneg hpos]

theorem noDigit_exponentText (e : Int) : NoDigit (exponentText e) :=
  noDigit_cons (by decide) _

/-- Digits, a point and digits. -/
theorem readDecimal_fraction (negative : Bool) {whole fraction tail : List Char} {e : Int}
    (hne : whole ≠ []) (hwhole : whole.all isDigit = true) (hfraction : fraction.all isDigit = true)
    (htail : NoDigit tail) (he : readExponent tail = some e) :
    readDecimal negative (whole ++ '.' :: (fraction ++ tail)) =
      some (ofScientific negative (foldDigits 0 (whole ++ fraction)) (e - fraction.length)) := by
  obtain ⟨htake, hdrop⟩ := takeWhile_digits hwhole (noDigit_cons (show isDigit '.' = false by decide)
    (fraction ++ tail))
  obtain ⟨htake', hdrop'⟩ := takeWhile_digits hfraction htail
  unfold readDecimal
  simp only [htake, hdrop, htake', hdrop', he, hne, false_and, if_false, Option.map_some,
    foldDigits_append]

/-- Digits without a point. -/
theorem readDecimal_whole (negative : Bool) {whole tail : List Char} {e : Int} (hne : whole ≠ [])
    (hwhole : whole.all isDigit = true) (htail : NoDigit tail) (hpoint : tail.head? ≠ some '.')
    (he : readExponent tail = some e) :
    readDecimal negative (whole ++ tail) =
      some (ofScientific negative (foldDigits 0 whole) e) := by
  obtain ⟨htake, hdrop⟩ := takeWhile_digits hwhole htail
  unfold readDecimal
  simp only [htake, hdrop]
  split
  · exact absurd rfl hpoint
  · simp [hne, he, foldDigits]

/-- What follows a whole number in a style that is read: nothing, or a point and a zero. -/
def IsWholeTail (tail : List Char) : Prop := tail = [] ∨ tail = ['.', '0']

/-- A whole number in positional notation. -/
theorem readDecimal_positional (negative : Bool) {whole tail : List Char} (hne : whole ≠ [])
    (hwhole : whole.all isDigit = true) (htail : IsWholeTail tail) (n : Nat) :
    ∃ k : Nat, readDecimal negative (whole ++ zeros n ++ tail) =
      some (ofScientific negative (foldDigits 0 whole * Nat.pow 10 k) (n - k)) := by
  have hzeros : (whole ++ zeros n).all isDigit = true := by simp [hwhole, isDigit_zeros]
  rcases htail with rfl | rfl
  · refine ⟨n, ?_⟩
    rw [readDecimal_whole negative (by simp [hne]) hzeros noDigit_nil (by simp) rfl,
      foldDigits_append, foldDigits_zeros, Int.sub_self]
  · refine ⟨n + 1, ?_⟩
    have hread := @readDecimal_fraction negative (whole ++ zeros n) ['0'] [] 0 (by simp [hne]) hzeros
      (by decide) noDigit_nil rfl
    refine hread.trans ?_
    have hlast : zeros n ++ ['0'] = zeros (n + 1) := (List.replicate_succ' ..).symm
    rw [List.append_assoc, hlast, foldDigits_append, foldDigits_zeros]
    congr 2
    simp

/-- **A layout is read as the decimal that is laid out.** -/
theorem readDecimal_layout {style : NumberStyle} (htail : IsWholeTail style.wholeTail)
    (negative : Bool) (x : Scientific) :
    ∃ k : Nat, readDecimal negative (style.layout x) =
      some (ofScientific negative (x.digits * Nat.pow 10 k) (x.exponent - k)) := by
  obtain ⟨digits, exponent⟩ := x
  have hdigits := all_isDigit_natNumeral digits
  have hne := natNumeral_ne_nil digits
  have hfold := foldDigits_natNumeral digits
  have hend : readExponent [] = some 0 := rfl
  unfold NumberStyle.layout
  dsimp only
  generalize natNumeral digits = ds at hdigits hne hfold ⊢
  subst hfold
  split
  · split
    · rename_i hpos
      obtain ⟨k, hk⟩ := readDecimal_positional negative hne hdigits htail exponent.toNat
      refine ⟨k, hk.trans ?_⟩
      rw [Int.toNat_of_nonneg hpos]
    · rename_i hneg
      split
      · rename_i hpoint
        -- the point stands between the digits
        have hread := @readDecimal_fraction negative (ds.take ((ds.length : Int) + exponent).toNat)
          (ds.drop ((ds.length : Int) + exponent).toNat) [] 0
          (by simp [hne]; omega) (List.all_eq_true.2 fun c hc =>
            List.all_eq_true.1 hdigits c (List.mem_of_mem_take hc))
          (List.all_eq_true.2 fun c hc => List.all_eq_true.1 hdigits c (List.mem_of_mem_drop hc))
          noDigit_nil hend
        rw [List.append_nil, List.take_append_drop, List.length_drop] at hread
        refine ⟨0, hread.trans ?_⟩
        congr 2
        · exact (Nat.mul_one _).symm
        · omega
      · rename_i hpoint
        -- all digits stand after the point
        have hread := @readDecimal_fraction negative ['0']
          (zeros (-((ds.length : Int) + exponent)).toNat ++ ds) [] 0 (by simp) (by decide)
          (by simp [hdigits, isDigit_zeros]) noDigit_nil hend
        rw [List.append_nil] at hread
        refine ⟨0, hread.trans ?_⟩
        have hzero : foldDigits 0 ['0'] = 0 := by decide
        rw [foldDigits_append, foldDigits_append, hzero, foldDigits_zeros, Nat.zero_mul]
        congr 2
        · exact (Nat.mul_one _).symm
        · simp [zeros]
          omega
  · split
    · rename_i d _
      have hread := readDecimal_whole negative (List.cons_ne_nil d []) hdigits
        (noDigit_exponentText ((([d] : List Char).length : Int) + exponent - 1))
        (by simp [exponentText]) (readExponent_exponentText _)
      refine ⟨0, hread.trans ?_⟩
      congr 2
      · exact (Nat.mul_one _).symm
      · simp
    · rename_i d rest _ _
      simp only [List.all_cons, Bool.and_eq_true] at hdigits
      have hread := @readDecimal_fraction negative [d] rest
        (exponentText (((d :: rest).length : Int) + exponent - 1)) _ (by simp)
        (by simp [hdigits.1]) hdigits.2 (noDigit_exponentText _) (readExponent_exponentText _)
      refine ⟨0, hread.trans ?_⟩
      congr 2
      · exact (Nat.mul_one _).symm
      · simp
        omega
    · exact absurd rfl hne

/-- A layout begins with a digit. -/
theorem layout_head (style : NumberStyle) (x : Scientific) :
    ∃ c cs, style.layout x = c :: cs ∧ isDigit c = true := by
  have hdigits := all_isDigit_natNumeral x.digits
  have hne := natNumeral_ne_nil x.digits
  unfold NumberStyle.layout
  dsimp only
  generalize natNumeral x.digits = ds at hdigits hne ⊢
  cases ds with
  | nil => exact absurd rfl hne
  | cons d rest =>
    simp only [List.all_cons, Bool.and_eq_true] at hdigits
    split
    · split
      · exact ⟨d, _, rfl, hdigits.1⟩
      · split
        · rename_i hpoint
          obtain ⟨n, hn⟩ : ∃ n, (((d :: rest).length : Int) + x.exponent).toNat = n + 1 :=
            ⟨(((d :: rest).length : Int) + x.exponent).toNat - 1, by omega⟩
          rw [hn]
          exact ⟨d, _, rfl, hdigits.1⟩
        · exact ⟨'0', _, rfl, by decide⟩
    · cases rest with
      | nil => exact ⟨d, _, rfl, hdigits.1⟩
      | cons d' rest => exact ⟨d, _, rfl, hdigits.1⟩

/-- A text that begins with a digit is read as a decimal. -/
theorem readUnsigned_digit (negative : Bool) {c : Char} (hc : isDigit c = true) (cs : List Char) :
    readUnsigned negative (c :: cs) = readDecimal negative (c :: cs) := by
  have hlower : asciiLowerChar c = c := by
    unfold isDigit at hc
    simp only [Bool.and_eq_true, decide_eq_true_eq] at hc
    unfold asciiLowerChar
    rw [if_neg]
    rintro ⟨hA, -⟩
    exact absurd (Char.le_trans hA hc.2) (by decide)
  have hne : ∀ d, isDigit d = false → c ≠ d := by
    rintro d hd rfl
    rw [hc] at hd
    cases hd
  unfold readUnsigned
  simp [hlower, hne 'i' (by decide), hne 'n' (by decide)]

/-- **A finite number is read back from its text.** -/
theorem read_printFinite {style : NumberStyle} (htail : IsWholeTail style.wholeTail) {x : Binary64}
    (hx : x.isFinite = true) : read (printFinite style x) = some x := by
  obtain ⟨negative, m, hlt⟩ := x
  have hm : m < infinityMagnitude := of_decide_eq_true hx
  have hbody : readUnsigned negative (style.layout (shortest m)) = some ⟨negative, m, hlt⟩ := by
    obtain ⟨c, cs, hcs, hc⟩ := layout_head style (shortest m)
    obtain ⟨k, hk⟩ := readDecimal_layout htail negative (shortest m)
    rw [hcs, readUnsigned_digit negative hc, ← hcs, hk]
    rcases Nat.eq_zero_or_pos m with rfl | hpos
    · have hzero : shortest 0 = ⟨0, 0⟩ := rfl
      rw [hzero, Nat.zero_mul]
      rfl
    · rw [ofScientific_of_has hpos hm ((Interval.has_shift k).2 (has_shortest hpos))]
  unfold printFinite
  dsimp only
  cases negative with
  | true => exact hbody
  | false =>
    obtain ⟨c, cs, hcs, hc⟩ := layout_head style (shortest m)
    rw [hcs] at hbody
    rw [if_neg (by simp), hcs]
    unfold read
    split
    · rename_i heq
      cases heq
      cases hc
    · rename_i heq
      cases heq
      cases hc
    · exact hbody

theorem read_printJson {x : Binary64} (hx : x.isFinite = true) : read x.printJson = some x :=
  read_printFinite (.inr rfl) hx

/-- A finite number has the plain text of its decimal. -/
theorem print_of_isFinite {x : Binary64} (hx : x.isFinite = true) :
    x.print = printFinite plainStyle x := by
  have hm : x.magnitude < infinityMagnitude := of_decide_eq_true hx
  have hnan : x.isNaN = false := decide_eq_false (by omega)
  have hinfinite : x.isInfinite = false := beq_eq_false_iff_ne.2 (by omega)
  unfold print
  rw [hnan, hinfinite]
  rfl

theorem read_print {x : Binary64} (hx : x.isFinite = true) : read x.print = some x := by
  rw [print_of_isFinite hx]
  exact read_printFinite (.inl rfl) hx

end Binary64

end FieldQuery
