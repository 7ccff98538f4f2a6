import FieldQuery.Text.Glob
import Mathlib.Data.List.Forall2

/-!
# What a comparison with a wildcard pattern decides

The language of a pattern is said without any order of comparison: a text fits a pattern when it
can be cut into consecutive segments, one for each character of the pattern, a wildcard taking
any segment and every other character itself alone.

A comparison never tries an earlier wildcard again. Nothing is missed by that: between two
wildcards stands a literal, and a cut that gives the earlier wildcard a longer run finds the same
literal further right, so the later wildcard can take up what lies between.

* `Fits` — the texts of a pattern;
* `Scan.Accepts` — what a comparison at some position has still to decide;
* `Scan.Anchored` — what was compared since the latest wildcard is the same in pattern and text.

Principal results: `Scan.next_ok` and `Scan.next_error` for one step, `Scan.run_eq_true_iff` for
a whole comparison, `globFold_decides`.
-/

namespace FieldQuery.Text

/-- A wildcard stands for any segment of a text, every other character for itself alone. -/
def StandsFor (p : Char) (segment : List Char) : Prop := p = wildcard ∨ segment = [p]

/-- The text can be cut into segments for which the characters of the pattern stand. -/
def Fits (pattern text : List Char) : Prop :=
  ∃ cut, List.Forall₂ StandsFor pattern cut ∧ cut.flatten = text

section Language

variable {p t : Char} {ps c text ts : List Char}

@[simp] theorem fits_nil : Fits [] text ↔ text = [] := by
  constructor
  · rintro ⟨cut, hcut, rfl⟩
    cases hcut
    rfl
  · rintro rfl
    exact ⟨[], .nil, rfl⟩

theorem fits_cons : Fits (p :: ps) text ↔
    ∃ segment rest, StandsFor p segment ∧ text = segment ++ rest ∧ Fits ps rest := by
  constructor
  · rintro ⟨cut, hcut, rfl⟩
    cases hcut with
    | cons h hs => exact ⟨_, _, h, rfl, _, hs, rfl⟩
  · rintro ⟨segment, rest, h, rfl, cut, hs, rfl⟩
    exact ⟨segment :: cut, .cons h hs, rfl⟩

/-- A wildcard is passed over wherever what follows it fits. -/
theorem fits_wildcard : Fits (wildcard :: ps) text ↔
    ∃ run rest, text = run ++ rest ∧ Fits ps rest := by
  rw [fits_cons]
  constructor
  · rintro ⟨run, rest, -, h, hs⟩
    exact ⟨run, rest, h, hs⟩
  · rintro ⟨run, rest, h, hs⟩
    exact ⟨run, rest, .inl rfl, h, hs⟩

theorem fits_char (hp : p ≠ wildcard) : Fits (p :: ps) text ↔
    ∃ rest, text = p :: rest ∧ Fits ps rest := by
  rw [fits_cons]
  constructor
  · rintro ⟨segment, rest, h | rfl, rfl, hs⟩
    · exact absurd h hp
    · exact ⟨rest, rfl, hs⟩
  · rintro ⟨rest, rfl, hs⟩
    exact ⟨[p], rest, .inr rfl, rfl, hs⟩

/-- A wildcard stands for nothing, or its run takes one more character. -/
theorem fits_wildcard_cons : Fits (wildcard :: ps) (t :: ts) ↔
    Fits ps (t :: ts) ∨ Fits (wildcard :: ps) ts := by
  simp only [fits_wildcard]
  constructor
  · rintro ⟨run, rest, h, hs⟩
    cases run with
    | nil => exact .inl (by rwa [h])
    | cons r run => exact .inr ⟨run, rest, (List.cons.inj h).2, hs⟩
  · rintro (h | ⟨run, rest, rfl, hs⟩)
    · exact ⟨[], _, rfl, h⟩
    · exact ⟨t :: run, rest, rfl, hs⟩

@[simp] theorem fits_wildcard_nil : Fits (wildcard :: ps) [] ↔ Fits ps [] := by
  rw [fits_wildcard]
  constructor
  · rintro ⟨run, rest, h, hs⟩
    obtain ⟨rfl, rfl⟩ := List.append_eq_nil_iff.mp h.symm
    exact hs
  · intro h
    exact ⟨[], [], rfl, h⟩

/-- The empty text fits the patterns of wildcards alone. -/
theorem fits_empty_iff : ∀ {pattern : List Char},
    Fits pattern [] ↔ pattern.all (· == wildcard) = true
  | [] => by simp
  | p :: ps => by
    by_cases hp : p = wildcard
    · rw [hp, fits_wildcard_nil, fits_empty_iff]
      simp
    · rw [fits_char hp]
      simp [hp]

/-- A literal at the start of a pattern is the start of the text. -/
theorem fits_literal_append (hc : wildcard ∉ c) : Fits (c ++ ps) text ↔
    ∃ rest, text = c ++ rest ∧ Fits ps rest := by
  induction c generalizing text with
  | nil => simp
  | cons p c ih =>
    obtain ⟨hp, hc⟩ : wildcard ≠ p ∧ wildcard ∉ c := by simpa using hc
    rw [List.cons_append, fits_char (Ne.symm hp)]
    simp only [ih hc]
    constructor
    · rintro ⟨_, rfl, rest, rfl, hs⟩
      exact ⟨rest, rfl, hs⟩
    · rintro ⟨rest, rfl, hs⟩
      exact ⟨_, rfl, rest, rfl, hs⟩

/-- A literal that pattern and text share can be cancelled. -/
theorem fits_cancel (hc : wildcard ∉ c) : Fits (c ++ ps) (c ++ text) ↔ Fits ps text := by
  rw [fits_literal_append hc]
  simp

/-- The patterns of prefixes, suffixes and parts. -/
theorem fits_prefix_iff (hc : wildcard ∉ c) : Fits (c ++ [wildcard]) text ↔ c <+: text := by
  rw [fits_literal_append hc]
  constructor
  · rintro ⟨rest, rfl, -⟩
    exact List.prefix_append c rest
  · rintro ⟨rest, rfl⟩
    exact ⟨rest, rfl, fits_wildcard.mpr ⟨rest, [], by simp, fits_nil.mpr rfl⟩⟩

theorem fits_suffix_iff (hc : wildcard ∉ c) : Fits (wildcard :: c) text ↔ c <:+ text := by
  rw [fits_wildcard]
  constructor
  · rintro ⟨run, rest, rfl, h⟩
    rw [← List.append_nil c, fits_literal_append hc] at h
    obtain ⟨_, rfl, h⟩ := h
    rw [fits_nil.mp h, List.append_nil]
    exact List.suffix_append run c
  · rintro ⟨run, rfl⟩
    refine ⟨run, c, rfl, ?_⟩
    rw [← List.append_nil c, fits_literal_append hc]
    exact ⟨[], rfl, fits_nil.mpr rfl⟩

theorem fits_infix_iff (hc : wildcard ∉ c) :
    Fits (wildcard :: (c ++ [wildcard])) text ↔ c <:+: text := by
  rw [fits_wildcard]
  constructor
  · rintro ⟨run, rest, rfl, h⟩
    obtain ⟨last, rfl⟩ := (fits_prefix_iff hc).mp h
    exact ⟨run, last, by simp⟩
  · rintro ⟨run, last, rfl⟩
    exact ⟨run, c ++ last, by simp, (fits_prefix_iff hc).mpr (List.prefix_append c last)⟩

/-- The run of a leading wildcard may be made longer. -/
theorem Fits.extend {run : List Char} (h : Fits (wildcard :: ps) text) :
    Fits (wildcard :: ps) (run ++ text) := by
  obtain ⟨taken, rest, rfl, hs⟩ := fits_wildcard.mp h
  exact fits_wildcard.mpr ⟨run ++ taken, rest, by simp, hs⟩

/-- **The latest wildcard is enough**: where the text goes on with the literal between two
wildcards, it fits both of them only if it fits the later one from there on. -/
theorem fits_of_earlier (hc : wildcard ∉ c)
    (h : Fits (wildcard :: (c ++ wildcard :: ps)) (c ++ text)) : Fits (wildcard :: ps) text := by
  obtain ⟨run, found, hrun, hfound⟩ := fits_wildcard.mp h
  obtain ⟨rest, rfl, hrest⟩ := (fits_literal_append hc).mp hfound
  have shorter : rest.length ≤ text.length := by
    have := congrArg List.length hrun
    simp only [List.length_append] at this
    omega
  have rest_suffix : rest <:+ c ++ text := ⟨run ++ c, by rw [hrun, List.append_assoc]⟩
  obtain ⟨between, rfl⟩ :=
    List.suffix_of_suffix_length_le rest_suffix (List.suffix_append c text) shorter
  exact hrest.extend

end Language

namespace Scan

/-- What is still to be decided: whether the rest of the text fits the rest of the pattern, the
latest wildcard being allowed a longer run than it has so far. -/
def Accepts (s : Scan) : Prop :=
  match s.retry with
  | none => Fits s.pattern s.text
  | some r => Fits (wildcard :: r.pattern) r.text

/-- What was compared since the latest wildcard is a literal of the pattern, and the text has
it too. -/
def Anchored (s : Scan) : Prop :=
  ∀ r ∈ s.retry, ∃ c, wildcard ∉ c ∧ r.pattern = c ++ s.pattern ∧ r.text = c ++ s.text

variable {s later : Scan}

/-- At a fresh start nothing was compared. -/
theorem anchored_fresh (pattern text : List Char) :
    Anchored ⟨pattern, text, some ⟨pattern, text⟩⟩ := by
  intro r hr
  cases hr
  exact ⟨[], by simp, rfl, rfl⟩

/-- Where pattern and text depart from each other, only a longer run can help. -/
theorem again_ok (hs : s.Anchored) (hno : ¬ Fits s.pattern s.text) (h : s.again = .ok later) :
    later.Anchored ∧ (later.Accepts ↔ s.Accepts) := by
  unfold again at h
  split at h
  · rename_i pattern u text hr
    cases h
    refine ⟨anchored_fresh pattern text, ?_⟩
    obtain ⟨c, hc, hp, ht⟩ := hs _ hr
    have hno' : ¬ Fits pattern (u :: text) := by
      dsimp only at hp ht
      rwa [hp, ht, fits_cancel hc]
    simp only [Accepts, hr, fits_wildcard_cons, hno', false_or]
  · cases h

theorem again_error {answer : Bool} (hs : s.Anchored) (hno : ¬ Fits s.pattern s.text)
    (h : s.again = .error answer) : answer = true ↔ s.Accepts := by
  unfold again at h
  split at h
  · cases h
  · rename_i hlast
    cases h
    simp only [Bool.false_eq_true, false_iff]
    cases hr : s.retry with
    | none => simpa only [Accepts, hr] using hno
    | some r =>
      obtain ⟨pattern, text⟩ := r
      obtain ⟨c, hc, hp, ht⟩ := hs _ hr
      dsimp only at hp ht
      cases text with
      | nil =>
        rw [← fits_cancel hc, ← hp, ← ht] at hno
        simpa only [Accepts, hr, fits_wildcard_nil] using hno
      | cons u text => exact absurd hr (hlast pattern u text)

/-- A wildcard is met: what an earlier wildcard could still take is left to this one. -/
theorem met_wildcard {ps text : List Char} {retry : Option Retry}
    (hs : Anchored ⟨wildcard :: ps, text, retry⟩) :
    Accepts ⟨ps, text, some ⟨ps, text⟩⟩ ↔ Accepts ⟨wildcard :: ps, text, retry⟩ := by
  cases retry with
  | none => rfl
  | some r =>
    obtain ⟨c, hc, hp, ht⟩ := hs r rfl
    simp only [Accepts, hp, ht]
    constructor
    · intro h
      exact fits_wildcard.mpr ⟨[], _, rfl, (fits_cancel hc).mpr h⟩
    · exact fits_of_earlier hc

/-- A character that pattern and text share is compared. -/
theorem met_char {p : Char} {ps ts : List Char} {retry : Option Retry} (hp : p ≠ wildcard)
    (hs : Anchored ⟨p :: ps, p :: ts, retry⟩) :
    Anchored ⟨ps, ts, retry⟩ ∧
      (Accepts ⟨ps, ts, retry⟩ ↔ Accepts ⟨p :: ps, p :: ts, retry⟩) := by
  constructor
  · intro r hr
    obtain ⟨c, hc, hps, hts⟩ := hs r hr
    refine ⟨c ++ [p], ?_, by simpa using hps, by simpa using hts⟩
    simpa [hc] using Ne.symm hp
  · cases retry with
    | none => simp [Accepts, fits_char hp]
    | some r => rfl

/-- **A step keeps what is to be decided.** -/
theorem next_ok (hs : s.Anchored) (h : s.next = .ok later) :
    later.Anchored ∧ (later.Accepts ↔ s.Accepts) := by
  obtain ⟨pattern, text, retry⟩ := s
  unfold next at h
  split at h
  · cases h
  · rename_i t ts p ps ht hp
    cases ht
    cases hp
    split at h
    · rename_i hp
      subst hp
      cases h
      exact ⟨anchored_fresh ps (t :: ts), met_wildcard hs⟩
    · rename_i hp
      split at h
      · rename_i hpt
        subst hpt
        cases h
        exact met_char hp hs
      · rename_i hpt
        refine again_ok hs ?_ h
        simp [fits_char hp, Ne.symm hpt]
  · rename_i t ts ht hp
    cases ht
    cases hp
    exact again_ok hs (by simp) h

/-- **An answer is the right one.** At the end of the text no longer run can help, because the
literal that was compared would no longer have room. -/
theorem next_error {answer : Bool} (hs : s.Anchored) (h : s.next = .error answer) :
    answer = true ↔ s.Accepts := by
  obtain ⟨pattern, text, retry⟩ := s
  unfold next at h
  split at h
  · rename_i ht
    cases ht
    cases h
    rw [← fits_empty_iff]
    cases retry with
    | none => rfl
    | some r =>
      obtain ⟨c, hc, hp, ht⟩ := hs r rfl
      simp only [Accepts, hp, ht, List.append_nil]
      rw [fits_wildcard]
      constructor
      · intro h
        exact ⟨[], c, rfl, by simpa using (fits_cancel hc).mpr h⟩
      · rintro ⟨run, found, hrun, hfound⟩
        obtain ⟨rest, rfl, hrest⟩ := (fits_literal_append hc).mp hfound
        have : rest = [] := by
          have := congrArg List.length hrun
          simp only [List.length_append] at this
          exact List.eq_nil_of_length_eq_zero (by omega)
        rwa [this] at hrest
  · rename_i t ts p ps ht hp
    cases ht
    cases hp
    split at h
    · cases h
    · rename_i hp
      split at h
      · cases h
      · rename_i hpt
        refine again_error hs ?_ h
        simp [fits_char hp, Ne.symm hpt]
  · rename_i t ts ht hp
    cases ht
    cases hp
    exact again_error hs (by simp) h

/-- No comparison goes on for ever: each step leaves less of the budget. -/
theorem next_wellFounded : WellFounded fun later s : Scan => s.next = .ok later :=
  Subrelation.wf next_budget_lt (measure budget).wf

/-- **What a whole comparison answers**, by induction along its steps. -/
theorem run_eq_true_iff (hs : s.Anchored) : s.run = true ↔ s.Accepts := by
  induction s using next_wellFounded.induction with
  | h s ih =>
    unfold run
    split
    · rename_i later h
      obtain ⟨hlater, same⟩ := next_ok hs h
      exact (ih later h hlater).trans same
    · rename_i answer h
      exact next_error hs h

end Scan

theorem glob_eq_true_iff (pattern text : List Char) : glob pattern text = true ↔ Fits pattern text :=
  Scan.run_eq_true_iff (s := Scan.start pattern text) (by intro r hr; cases hr)

/-- **A comparison decides the language of its pattern.** No comparison goes on for ever, and
whatever pattern and text are, it says yes exactly when the lower case of the text can be cut
into segments for which the characters of the lower case of the pattern stand. -/
theorem globFold_decides :
    (WellFounded fun later s : Scan => s.next = .ok later) ∧
      ∀ pattern text : String, globFold pattern text = true ↔
        ∃ cut : List (List Char),
          List.Forall₂ (fun p segment => p = wildcard ∨ segment = [p]) (lower pattern.toList) cut ∧
            cut.flatten = lower text.toList := by
  refine ⟨Scan.next_wellFounded, ?_⟩
  intro pattern text
  exact glob_eq_true_iff (lower pattern.toList) (lower text.toList)

/-- Stars of the text are characters like any other, and adjacent stars of a pattern are one. -/
example : globFold "**A*" "*b*a**" = true ∧ globFold "a***b" "a*B" = true ∧
    globFold "*ab" "aab*" = false := by decide +kernel

end FieldQuery.Text
