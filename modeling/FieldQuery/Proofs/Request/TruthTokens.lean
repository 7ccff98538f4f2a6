import FieldQuery.Proofs.Text.AsciiCase
import FieldQuery.Request.Coercion
import Mathlib.Data.List.Basic

/-!
# The tokens of truth values

A truth value is read by two lists of tokens, of which the one for true is looked at first.  Settings are
checked before they are used: no token for false may have the lower case of a token for true.  A filter is
compared with the tokens in another way, by the letters A to Z alone, after the blanks around it have been
taken off.

* `IsListed` — a text stands for one of some tokens;
* `FilterSettings.readBoolFalseFirst?` — a truth value, with the list for false looked at first.

Principal results: `not_isListed_both` — in settings that have been checked no text stands for tokens of
both lists, and `coerce_truth` — so it does not matter in which order lists and tokens are looked at, and
exactly the texts that stand for a token are accepted, with the truth value of its list.
-/

namespace FieldQuery

open Text

/-- Without the blanks around it, and up to the case of the letters A to Z, the text is one of the tokens. -/
def IsListed (tokens : List String) (raw : String) : Prop :=
  ∃ t ∈ tokens, asciiCaseEq t.toList (trim raw.toList) = true

instance (tokens : List String) (raw : String) : Decidable (IsListed tokens raw) :=
  inferInstanceAs (Decidable (∃ t ∈ tokens, asciiCaseEq t.toList (trim raw.toList) = true))

theorem any_eq_true_iff_isListed {tokens : List String} {raw : String} :
    (tokens.any fun t => asciiCaseEq t.toList (trim raw.toList)) = true ↔ IsListed tokens raw := by
  rw [List.any_eq_true]
  rfl

/-- The order of the tokens does not matter. -/
theorem isListed_perm {tokens tokens' : List String} (h : tokens'.Perm tokens) (raw : String) :
    IsListed tokens' raw ↔ IsListed tokens raw := by
  unfold IsListed
  simp only [h.mem_iff]

/-- Tokens that one text stands for have one lower case. -/
theorem lowered_eq_of_asciiCaseEq {t u : String} {cs : List Char} (ht : asciiCaseEq t.toList cs = true)
    (hu : asciiCaseEq u.toList cs = true) : lowered t = lowered u := by
  unfold lowered
  rw [lower_eq_of_asciiCaseEq ht, lower_eq_of_asciiCaseEq hu]

/-! ## Settings that have been checked -/

/-- No token for false has the lower case of one for true. -/
theorem Settings.lowered_ne_of_check {s : Settings} (hs : s.check = .ok s) {t u : String}
    (ht : t ∈ s.filter.trueTokens) (hu : u ∈ s.filter.falseTokens) : lowered t ≠ lowered u := by
  have hfault : s.fault? = none := by
    unfold check at hs
    split at hs
    · cases hs
    · assumption
  have hambiguous : s.filter.ambiguousToken? = none := by
    unfold fault? at hfault
    -- the checks of the other groups come first, and none of them has found anything
    repeat (split at hfault; · cases hfault)
    assumption
  intro heq
  have hnot := List.find?_eq_none.1 hambiguous u hu
  rw [List.contains_iff_mem, ← heq] at hnot
  exact hnot (List.mem_map_of_mem ht)

/-- **In settings that have been checked no text stands for tokens of both lists.** -/
theorem not_isListed_both {s : Settings} (hs : s.check = .ok s) (raw : String) :
    ¬ (IsListed s.filter.trueTokens raw ∧ IsListed s.filter.falseTokens raw) := by
  rintro ⟨⟨t, ht, htrue⟩, ⟨u, hu, hfalse⟩⟩
  exact Settings.lowered_ne_of_check hs ht hu (lowered_eq_of_asciiCaseEq htrue hfalse)

namespace FilterSettings

/-- A truth value by its tokens, with those for false looked at first. -/
def readBoolFalseFirst? (s : FilterSettings) (cs : List Char) : Option Bool :=
  if s.falseTokens.any fun t => asciiCaseEq t.toList cs then some false
  else if s.trueTokens.any fun t => asciiCaseEq t.toList cs then some true
  else none

theorem readBool?_eq (s : FilterSettings) (raw : String) :
    s.readBool? (trim raw.toList) =
      if IsListed s.trueTokens raw then some true
      else if IsListed s.falseTokens raw then some false else none := by
  unfold readBool?
  simp only [any_eq_true_iff_isListed]

theorem readBoolFalseFirst?_eq (s : FilterSettings) (raw : String) :
    s.readBoolFalseFirst? (trim raw.toList) =
      if IsListed s.falseTokens raw then some false
      else if IsListed s.trueTokens raw then some true else none := by
  unfold readBoolFalseFirst?
  simp only [any_eq_true_iff_isListed]

theorem coerce_boolean (s : FilterSettings) (field raw : String) (enumValues : Option (List String)) :
    s.coerce field .boolean raw enumValues =
      match s.readBool? (trim raw.toList) with
      | some b => .ok (.bool b)
      | none => .error (.malformedValue field raw FieldType.boolean.name) := by
  unfold coerce coerce?
  dsimp only
  cases s.readBool? (trim raw.toList) <;> rfl

/-- Settings that list the same tokens in other orders. -/
def withTokens (s : FilterSettings) (trues falses : List String) : FilterSettings :=
  { s with trueTokens := trues, falseTokens := falses }

end FilterSettings

/-- **Tokens of checked settings are unambiguous.**  Let the settings have passed their check, with any
tokens.  Then no text stands for tokens of both lists; with the tokens of either list in any other order, and
with the list for false looked at first, every text is read as before; and a text is accepted as a truth
value exactly if it stands for a token, as the truth value of the list in which the token stands. -/
theorem coerce_truth {s : Settings} (hs : s.check = .ok s) (field raw : String)
    (enumValues : Option (List String)) :
    ¬ (IsListed s.filter.trueTokens raw ∧ IsListed s.filter.falseTokens raw) ∧
      (∀ trues falses, trues.Perm s.filter.trueTokens → falses.Perm s.filter.falseTokens →
        (s.filter.withTokens trues falses).coerce field .boolean raw enumValues =
            s.filter.coerce field .boolean raw enumValues ∧
          (s.filter.withTokens trues falses).readBoolFalseFirst? (trim raw.toList) =
            s.filter.readBool? (trim raw.toList)) ∧
      (s.filter.coerce field .boolean raw enumValues = .ok (.bool true) ↔
        IsListed s.filter.trueTokens raw) ∧
      (s.filter.coerce field .boolean raw enumValues = .ok (.bool false) ↔
        IsListed s.filter.falseTokens raw) ∧
      (s.filter.coerce field .boolean raw enumValues =
          .error (.malformedValue field raw FieldType.boolean.name) ↔
        ¬ IsListed s.filter.trueTokens raw ∧ ¬ IsListed s.filter.falseTokens raw) := by
  have hapart := not_isListed_both hs raw
  have hread := s.filter.readBool?_eq raw
  refine ⟨hapart, fun trues falses htrues hfalses => ?_, ?_⟩
  · have htrue := isListed_perm htrues raw
    have hfalse := isListed_perm hfalses raw
    constructor
    · rw [FilterSettings.coerce_boolean, FilterSettings.coerce_boolean,
        FilterSettings.readBool?_eq, hread]
      simp only [FilterSettings.withTokens, htrue, hfalse]
    · rw [FilterSettings.readBoolFalseFirst?_eq, hread]
      simp only [FilterSettings.withTokens, htrue, hfalse]
      by_cases hlisted : IsListed s.filter.trueTokens raw
      · rw [if_neg fun hboth => hapart ⟨hlisted, hboth⟩, if_pos hlisted, if_pos hlisted]
      · simp only [if_neg hlisted]
  · rw [FilterSettings.coerce_boolean, hread]
    by_cases htrue : IsListed s.filter.trueTokens raw
    · have hfalse : ¬ IsListed s.filter.falseTokens raw := fun hboth => hapart ⟨htrue, hboth⟩
      simp [htrue, hfalse]
    · by_cases hfalse : IsListed s.filter.falseTokens raw <;> simp [htrue, hfalse]

/-- Settings with tokens of two alphabets. -/
def twoAlphabets : Settings :=
  { filter := { trueTokens := ["Yes", "Да"], falseTokens := ["no", "НЕТ"] } }

/-- A text with blanks around it stands for a token that is written in other letters. -/
theorem coerce_truth_twoAlphabets :
    IsListed twoAlphabets.filter.falseTokens " nO " ∧
      ¬ IsListed twoAlphabets.filter.trueTokens " nO " ∧
      (twoAlphabets.filter.withTokens ["Да", "Yes"] ["НЕТ", "no"]).coerce "active" .boolean " nO " none =
        twoAlphabets.filter.coerce "active" .boolean " nO " none ∧
      twoAlphabets.filter.coerce "active" .boolean " nO " none = .ok (.bool false) := by
  have hcheck : twoAlphabets.check = .ok twoAlphabets := by
    have hfault : twoAlphabets.fault? = none := by decide +kernel
    unfold Settings.check
    rw [hfault]
  obtain ⟨hapart, hperm, -, hfalse, -⟩ := coerce_truth hcheck "active" " nO " none
  have hlisted : IsListed twoAlphabets.filter.falseTokens " nO " := by decide +kernel
  exact ⟨hlisted, fun htrue => hapart ⟨htrue, hlisted⟩,
    (hperm ["Да", "Yes"] ["НЕТ", "no"] (.swap "Yes" "Да" []) (.swap "no" "НЕТ" [])).1,
    hfalse.2 hlisted⟩

/-- The Kelvin sign has the lower case of the letter K, so that the two cannot stand in both lists. -/
example : ({ filter := { trueTokens := ["\u212a"], falseTokens := ["k"] } } : Settings).fault? =
    some (.ambiguousToken "k") := by
  decide +kernel

end FieldQuery
