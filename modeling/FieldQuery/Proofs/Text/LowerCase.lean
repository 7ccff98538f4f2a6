import FieldQuery.Text.Glob
import Mathlib.Data.List.Basic

/-!
# Lower case of a part of a text

The lower case of a text is not put together from the lower cases of its parts: a capital sigma
looks at the letters on both sides of it. Nothing else does, so a part is lowered alike in two
surroundings exactly when each of its capital sigmas ends a word in both or in neither. A
wildcard is no letter, and next to it a part is lowered as it is alone.

* `lowerWithin` — the lower case of a part between what stands before and after it;
* `endsWordBetween` — whether a sigma between two texts is the last letter of its word;
* `SameSigmas` — the capital sigmas of a part end words in a text where they do in the part alone.

Principal results: `lowerAfter_append`, `lowerWithin_eq_iff`, `wildcard_notMem_lowerWithin`.
-/

namespace FieldQuery.Text

/-- The lower case of a part between `before` (nearest character first) and `after`. -/
def lowerWithin (before : List Char) : List Char → List Char → List Char
  | [], _ => []
  | c :: cs, after => lowerBetween before c (cs ++ after) ++ lowerWithin (c :: before) cs after

/-- Whether a sigma between two texts, that before it read backwards, ends its word. -/
def endsWordBetween (before after : List Char) : Bool := startsCased before && !startsCased after

/-- Each capital sigma of `part` ends a word of `before ++ part ++ after` exactly when it ends a
word of `part` alone. -/
def SameSigmas (before part after : List Char) : Prop :=
  ∀ u v, part = u ++ capitalSigma :: v →
    endsWordBetween (u.reverse ++ before.reverse) (v ++ after) = endsWordBetween u.reverse v

section Parts

variable {before part after : List Char}

/-- A text is lowered part by part, each part between the others. -/
theorem lowerAfter_append (before part after : List Char) :
    lowerAfter before (part ++ after) =
      lowerWithin before part after ++ lowerAfter (part.reverse ++ before) after := by
  induction part generalizing before with
  | nil => rfl
  | cons c part ih => simp [lowerAfter, lowerWithin, ih]

theorem lowerAfter_eq_lowerWithin (before part : List Char) :
    lowerAfter before part = lowerWithin before part [] := by
  have h := lowerAfter_append before part []
  simpa [lowerAfter] using h

/-- The two surroundings of a character matter only if it is a capital sigma. -/
theorem lowerBetween_eq_iff {c : Char} {before' after' : List Char} :
    lowerBetween before c after = lowerBetween before' c after' ↔
      (c = capitalSigma → endsWordBetween before after = endsWordBetween before' after') := by
  by_cases hc : c = capitalSigma
  · have forms : finalSigma ≠ smallSigma := by decide
    subst hc
    simp only [lowerBetween, if_true, List.cons.injEq, and_true, true_imp_iff, endsWordBetween]
    cases startsCased before && !startsCased after <;>
      cases startsCased before' && !startsCased after' <;>
      simp [forms, forms.symm]
  · simp [lowerBetween, hc]

theorem length_lowerBetween {c : Char} {before' after' : List Char} :
    (lowerBetween before c after).length = (lowerBetween before' c after').length := by
  unfold lowerBetween
  split
  · rfl
  · split <;> rfl

theorem length_lowerWithin {before' after' : List Char} :
    (lowerWithin before part after).length = (lowerWithin before' part after').length := by
  induction part generalizing before before' with
  | nil => rfl
  | cons c part ih =>
    simp only [lowerWithin, List.length_append]
    rw [ih, length_lowerBetween]

/-- **A part is lowered alike in two surroundings exactly when its capital sigmas are.** -/
theorem lowerWithin_eq_iff {before' after' : List Char} :
    lowerWithin before part after = lowerWithin before' part after' ↔
      ∀ u v, part = u ++ capitalSigma :: v →
        endsWordBetween (u.reverse ++ before) (v ++ after) =
          endsWordBetween (u.reverse ++ before') (v ++ after') := by
  induction part generalizing before before' with
  | nil => simp [lowerWithin]
  | cons c part ih =>
    have apart : lowerWithin before (c :: part) after = lowerWithin before' (c :: part) after' ↔
        lowerBetween before c (part ++ after) = lowerBetween before' c (part ++ after') ∧
          lowerWithin (c :: before) part after = lowerWithin (c :: before') part after' := by
      constructor
      · intro h
        exact List.append_inj h length_lowerBetween
      · rintro ⟨h, hs⟩
        simp only [lowerWithin, h, hs]
    rw [apart, lowerBetween_eq_iff, ih]
    constructor
    · rintro ⟨h, hs⟩ u v huv
      cases u with
      | nil =>
        obtain ⟨rfl, rfl⟩ := List.cons.inj huv
        exact h rfl
      | cons d u =>
        obtain ⟨rfl, rfl⟩ := List.cons.inj huv
        simpa using hs u v rfl
    · intro h
      constructor
      · rintro rfl
        exact h [] part rfl
      · intro u v huv
        simpa using h (c :: u) v (by rw [huv]; rfl)

/-- Without a capital sigma there is nothing to compare. -/
theorem sameSigmas_of_notMem (h : capitalSigma ∉ part) : SameSigmas before part after := by
  intro u v huv
  exact absurd (huv ▸ by simp) h

end Parts

section Wildcards

theorem lowerBetween_wildcard (before after : List Char) :
    lowerBetween before wildcard after = [wildcard] := by
  have plain : wildcard ≠ capitalSigma ∧ wildcard ≠ dottedCapitalI ∧
      lowerChar wildcard = wildcard := by decide
  simp [lowerBetween, plain]

theorem ofNat_ne_wildcard {n : Nat} (h : wildcard.toNat < n) : Char.ofNat n ≠ wildcard := by
  intro hn
  have same : (Char.ofNat n).toNat = wildcard.toNat := congrArg Char.toNat hn
  have star : wildcard.toNat ≠ 0 := by decide
  -- a number that is no character stands for the null character
  have value : (Char.ofNat n).toNat = n ∨ (Char.ofNat n).toNat = 0 := by
    unfold Char.ofNat
    by_cases valid : n.isValidChar
    · rw [dif_pos valid]
      exact .inl rfl
    · rw [dif_neg valid]
      exact .inr rfl
  omega

/-- Every run of the table leads to characters behind the wildcard. -/
theorem wildcard_lt_of_mem_lowerRuns :
    ∀ run ∈ lowerRuns, (wildcard.toNat : Int) < run.first + run.shift := by decide +kernel

theorem lowerChar_ne_wildcard {c : Char} (hc : c ≠ wildcard) : lowerChar c ≠ wildcard := by
  unfold lowerChar
  split
  · split
    · rename_i hrange
      apply ofNat_ne_wildcard
      have : 'A'.toNat ≤ c.toNat := hrange.1
      have : wildcard.toNat < 'A'.toNat := by decide
      omega
    · exact hc
  · split
    · rename_i run hrun
      apply ofNat_ne_wildcard
      have far := wildcard_lt_of_mem_lowerRuns run (List.mem_of_find?_eq_some hrun)
      have covered := List.find?_some hrun
      simp only [CaseRun.covers, Bool.and_eq_true, decide_eq_true_eq] at covered
      omega
    · exact hc

theorem wildcard_notMem_lowerBetween {c : Char} (hc : c ≠ wildcard) (before after : List Char) :
    wildcard ∉ lowerBetween before c after := by
  have forms : wildcard ≠ finalSigma ∧ wildcard ≠ smallSigma ∧
      wildcard ≠ 'i' ∧ wildcard ≠ Char.ofNat 0x307 := by decide
  unfold lowerBetween
  split
  · split <;> simp [forms]
  · split
    · simp [forms]
    · simpa using (lowerChar_ne_wildcard hc).symm

/-- Lower case brings no wildcard into a text. -/
theorem wildcard_notMem_lowerWithin {part : List Char} (h : wildcard ∉ part)
    (before after : List Char) : wildcard ∉ lowerWithin before part after := by
  induction part generalizing before with
  | nil => simp [lowerWithin]
  | cons c part ih =>
    obtain ⟨hc, hpart⟩ : wildcard ≠ c ∧ wildcard ∉ part := by simpa using h
    simp only [lowerWithin, List.mem_append, not_or]
    exact ⟨wildcard_notMem_lowerBetween hc.symm before (part ++ after), ih hpart (c :: before)⟩

/-- A wildcard is neither a letter nor passed over when letters are looked for. -/
theorem startsCased_append_wildcard (cs rest : List Char) :
    startsCased (cs ++ wildcard :: rest) = startsCased cs := by
  have plain : isCaseIgnorable wildcard = false ∧ isCased wildcard = false := by
    decide +kernel
  induction cs with
  | nil => simp [startsCased, plain]
  | cons c cs ih =>
    cases hc : isCaseIgnorable c with
    | true => simpa [startsCased, hc] using ih
    | false => simp [startsCased, hc]

/-- Between wildcards a part is lowered as it is alone. -/
theorem lowerWithin_wildcards {before part after : List Char}
    (hb : before = [] ∨ before = [wildcard]) (ha : after = [] ∨ after = [wildcard]) :
    lowerWithin before part after = lowerWithin [] part [] := by
  rw [lowerWithin_eq_iff]
  intro u v _
  have left : startsCased (u.reverse ++ before) = startsCased u.reverse := by
    obtain rfl | rfl := hb
    · rw [List.append_nil]
    · exact startsCased_append_wildcard u.reverse []
  have right : startsCased (v ++ after) = startsCased v := by
    obtain rfl | rfl := ha
    · rw [List.append_nil]
    · exact startsCased_append_wildcard v []
  simp only [endsWordBetween, left, right, List.append_nil]

end Wildcards

end FieldQuery.Text
