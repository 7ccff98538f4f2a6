import FieldQuery.Text.LowerCase

/-!
# Lower case and the case of the letters A to Z

Texts are compared in two ways that overlook case: by their lower case, and letter by letter where only the
letters A to Z have case.  The first is the coarser one: it also brings together letters of other scripts,
some of which become letters of ASCII (the Kelvin sign becomes a `k`).

* `asciiLowerChar_cases` — a character stays as it is, or is one of twenty-six letters.

Principal result: `lower_eq_of_asciiCaseEq` — texts that differ in the case of A to Z alone have one lower
case, also where a sigma looks at the letters around it.
-/

namespace FieldQuery.Text

/-- A character stays as it is, unless it is a capital letter of ASCII. -/
theorem asciiLowerChar_cases (c : Char) :
    asciiLowerChar c = c ∨
      ∃ n < 26, c = Char.ofNat (65 + n) ∧ asciiLowerChar c = Char.ofNat (97 + n) := by
  unfold asciiLowerChar
  split
  · rename_i hrange
    have hlow : 65 ≤ c.toNat := hrange.1
    have hhigh : c.toNat ≤ 90 := hrange.2
    refine .inr ⟨c.toNat - 65, by omega, ?_, ?_⟩
    · rw [show 65 + (c.toNat - 65) = c.toNat by omega, Char.ofNat_toNat]
    · rw [show 97 + (c.toNat - 65) = c.toNat + 32 by omega]
  · exact .inl rfl

/-- The code points of the letters of ASCII. -/
theorem toNat_asciiLetters : ∀ n < 26,
    (Char.ofNat (97 + n)).toNat = 97 + n ∧ (Char.ofNat (65 + n)).toNat = 65 + n := by
  decide

theorem lowerChar_asciiLetters {n : Nat} (hn : n < 26) :
    lowerChar (Char.ofNat (97 + n)) = Char.ofNat (97 + n) ∧
      lowerChar (Char.ofNat (65 + n)) = Char.ofNat (97 + n) := by
  obtain ⟨hsmall, hcapital⟩ := toNat_asciiLetters n hn
  constructor
  · unfold lowerChar
    rw [if_pos (by omega), if_neg]
    rintro ⟨-, hlast⟩
    have hlast : (Char.ofNat (97 + n)).toNat ≤ 90 := hlast
    omega
  · have hfirst : 'A' ≤ Char.ofNat (65 + n) := by
      show 65 ≤ (Char.ofNat (65 + n)).toNat
      omega
    have hlast : Char.ofNat (65 + n) ≤ 'Z' := by
      show (Char.ofNat (65 + n)).toNat ≤ 90
      omega
    unfold lowerChar
    rw [if_pos (by omega), if_pos ⟨hfirst, hlast⟩, hcapital, show 65 + n + 32 = 97 + n by omega]

/-- A character of ASCII has its simple lower case, whatever stands around it. -/
theorem lowerBetween_of_ascii {c : Char} (h : c.toNat < 128) (before after : List Char) :
    lowerBetween before c after = [lowerChar c] := by
  have hsigma : capitalSigma.toNat = 0x3A3 := rfl
  have hdotted : dottedCapitalI.toNat = 0x130 := rfl
  unfold lowerBetween
  rw [if_neg, if_neg]
  · rintro rfl
    omega
  · rintro rfl
    omega

/-- What lower case looks at is the same for both cases of a letter of ASCII. -/
theorem asciiLetters_alike : ∀ n < 26,
    isCased (Char.ofNat (97 + n)) = isCased (Char.ofNat (65 + n)) ∧
      isCaseIgnorable (Char.ofNat (97 + n)) = isCaseIgnorable (Char.ofNat (65 + n)) ∧
      ∀ before after, lowerBetween before (Char.ofNat (97 + n)) after =
        lowerBetween before (Char.ofNat (65 + n)) after := by
  have hclasses : ∀ n < 26, isCased (Char.ofNat (97 + n)) = isCased (Char.ofNat (65 + n)) ∧
      isCaseIgnorable (Char.ofNat (97 + n)) = isCaseIgnorable (Char.ofNat (65 + n)) := by
    decide +kernel
  intro n hn
  obtain ⟨hsmall, hcapital⟩ := toNat_asciiLetters n hn
  obtain ⟨hlower, hlower'⟩ := lowerChar_asciiLetters hn
  refine ⟨(hclasses n hn).1, (hclasses n hn).2, fun before after => ?_⟩
  rw [lowerBetween_of_ascii (by omega), lowerBetween_of_ascii (by omega), hlower, hlower']

theorem isCased_asciiLowerChar (c : Char) : isCased (asciiLowerChar c) = isCased c := by
  rcases asciiLowerChar_cases c with hsame | ⟨n, hn, hc, hlower⟩
  · rw [hsame]
  · rw [hlower, hc]
    exact (asciiLetters_alike n hn).1

theorem isCaseIgnorable_asciiLowerChar (c : Char) :
    isCaseIgnorable (asciiLowerChar c) = isCaseIgnorable c := by
  rcases asciiLowerChar_cases c with hsame | ⟨n, hn, hc, hlower⟩
  · rw [hsame]
  · rw [hlower, hc]
    exact (asciiLetters_alike n hn).2.1

/-- The letters around a sigma are found in either case. -/
theorem startsCased_map_asciiLowerChar (cs : List Char) :
    startsCased (cs.map asciiLowerChar) = startsCased cs := by
  induction cs with
  | nil => rfl
  | cons c cs ih =>
    cases hc : isCaseIgnorable c with
    | true =>
      have hsmall : isCaseIgnorable (asciiLowerChar c) = true := by
        rw [isCaseIgnorable_asciiLowerChar, hc]
      simpa [startsCased, hc, hsmall] using ih
    | false =>
      have hsmall : isCaseIgnorable (asciiLowerChar c) = false := by
        rw [isCaseIgnorable_asciiLowerChar, hc]
      simp [startsCased, hc, hsmall, isCased_asciiLowerChar]

theorem lowerBetween_asciiLowerChar (before : List Char) (c : Char) (after : List Char) :
    lowerBetween (before.map asciiLowerChar) (asciiLowerChar c) (after.map asciiLowerChar) =
      lowerBetween before c after := by
  have haround : ∀ d, lowerBetween (before.map asciiLowerChar) d (after.map asciiLowerChar) =
      lowerBetween before d after := by
    intro d
    unfold lowerBetween
    rw [startsCased_map_asciiLowerChar, startsCased_map_asciiLowerChar]
  rw [haround]
  rcases asciiLowerChar_cases c with hsame | ⟨n, hn, hc, hlower⟩
  · rw [hsame]
  · rw [hlower, hc]
    exact (asciiLetters_alike n hn).2.2 before after

theorem lowerAfter_map_asciiLowerChar (before cs : List Char) :
    lowerAfter (before.map asciiLowerChar) (cs.map asciiLowerChar) = lowerAfter before cs := by
  induction cs generalizing before with
  | nil => rfl
  | cons c cs ih =>
    have hrest := ih (c :: before)
    rw [List.map_cons] at hrest
    rw [List.map_cons, lowerAfter, lowerAfter, lowerBetween_asciiLowerChar, hrest]

/-- **Texts that differ in the case of A to Z alone have one lower case.** -/
theorem lower_eq_of_asciiCaseEq {cs ds : List Char} (h : asciiCaseEq cs ds = true) :
    lower cs = lower ds := by
  have hmap : cs.map asciiLowerChar = ds.map asciiLowerChar := beq_iff_eq.1 h
  calc lower cs = lower (cs.map asciiLowerChar) := (lowerAfter_map_asciiLowerChar [] cs).symm
    _ = lower (ds.map asciiLowerChar) := by rw [hmap]
    _ = lower ds := lowerAfter_map_asciiLowerChar [] ds

end FieldQuery.Text
