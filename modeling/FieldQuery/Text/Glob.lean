import FieldQuery.Text.Blank
import FieldQuery.Text.LowerCase

/-!
# Wildcard patterns

A pattern is a text in which `*` stands for any run of characters. A text is compared with a
pattern from left to right. A wildcard is first taken to stand for nothing; where the text
departs from the pattern later on, the run of the latest wildcard is made longer by one character
and the comparison starts again behind it. Earlier wildcards are never tried again.

* `Scan` — what of a pattern and of a text is still to be compared, and where to start again;
* `Scan.next` — one step of the comparison: the next position, or the answer;
* `glob` — whether a text fits a pattern;
* `globFold` — the same up to the case of letters.

Principal results: `Scan.next_budget_lt`, every step uses up a part of a fixed budget, so every
comparison comes to an end.
-/

namespace FieldQuery.Text

/-- The character that stands for any run of characters. -/
def wildcard : Char := '*'

/-- Where a comparison starts again: behind the latest wildcard. -/
structure Retry where
  /-- The pattern behind the wildcard. -/
  pattern : List Char
  /-- The text behind the run that the wildcard stands for so far. -/
  text : List Char
deriving Repr, DecidableEq

/-- The position of a comparison. -/
structure Scan where
  /-- What is left of the pattern. -/
  pattern : List Char
  /-- What is left of the text. -/
  text : List Char
  /-- Where to start again, once a wildcard was met. -/
  retry : Option Retry
deriving Repr, DecidableEq

namespace Scan

/-- The run of the latest wildcard made longer by one character. -/
def again (s : Scan) : Except Bool Scan :=
  match s.retry with
  | some ⟨pattern, _ :: text⟩ => .ok ⟨pattern, text, some ⟨pattern, text⟩⟩
  | _ => .error false

/-- One step: the next position, or the answer where the comparison ends. -/
def next (s : Scan) : Except Bool Scan :=
  match s.text, s.pattern with
  | [], pattern => .error (pattern.all (· == wildcard))
  | t :: ts, p :: ps =>
    if p = wildcard then .ok ⟨ps, t :: ts, some ⟨ps, t :: ts⟩⟩
    else if p = t then .ok ⟨ps, ts, s.retry⟩
    else s.again
  | _ :: _, [] => s.again

/-- How often a comparison can still start again, the run up to the next start counted. -/
def rounds (s : Scan) : Nat :=
  match s.retry with
  | none => s.text.length + 1
  | some r => max s.text.length r.text.length

/-- The longest pattern that a round can start with. -/
def span (s : Scan) : Nat :=
  match s.retry with
  | none => s.pattern.length
  | some r => max s.pattern.length r.pattern.length

/-- The number of steps within which the comparison ends. -/
def budget (s : Scan) : Nat := s.rounds * (s.span + 1) + s.pattern.length

/-- Steps inside a round: the pattern gets shorter and nothing else grows. -/
theorem budget_lt_of_shorter {s later : Scan} (hr : later.rounds ≤ s.rounds)
    (hs : later.span ≤ s.span) (hp : later.pattern.length < s.pattern.length) :
    later.budget < s.budget := by
  have h : later.rounds * (later.span + 1) ≤ s.rounds * (s.span + 1) :=
    Nat.mul_le_mul hr (by omega)
  unfold budget
  omega

/-- The start of a round: there is one round less, and its pattern is within the span. -/
theorem budget_lt_of_fewer {s later : Scan} (hr : later.rounds < s.rounds)
    (hs : later.span ≤ s.span) : later.budget < s.budget := by
  have h : (later.rounds + 1) * (later.span + 1) ≤ s.rounds * (s.span + 1) :=
    Nat.mul_le_mul hr (by omega)
  have later_span : later.pattern.length ≤ later.span := by
    unfold span
    split <;> omega
  rw [Nat.succ_mul] at h
  unfold budget
  omega

theorem again_budget_lt {s later : Scan} (h : s.again = .ok later) : later.budget < s.budget := by
  unfold again at h
  split at h
  · rename_i pattern u text hr
    cases h
    apply budget_lt_of_fewer
    · simp only [rounds, hr, List.length_cons]; omega
    · simp only [span, hr]; omega
  · cases h

/-- **Every step uses up some of the budget.** -/
theorem next_budget_lt {s later : Scan} (h : s.next = .ok later) : later.budget < s.budget := by
  obtain ⟨pattern, text, retry⟩ := s
  unfold next at h
  split at h
  · cases h
  · rename_i t ts p ps ht hp
    cases ht
    cases hp
    split at h
    · cases h
      apply budget_lt_of_shorter
      · cases retry <;> simp only [rounds, List.length_cons] <;> omega
      · cases retry <;> simp only [span, List.length_cons] <;> omega
      · simp
    · split at h
      · cases h
        apply budget_lt_of_shorter
        · cases retry <;> simp only [rounds, List.length_cons] <;> omega
        · cases retry <;> simp only [span, List.length_cons] <;> omega
        · simp
      · exact again_budget_lt h
  · exact again_budget_lt h

/-- The answer of a comparison. -/
def run (s : Scan) : Bool :=
  match _ : s.next with
  | .ok later => later.run
  | .error answer => answer
termination_by s.budget
decreasing_by exact next_budget_lt (by assumption)

/-- The comparison of a whole text with a whole pattern. -/
def start (pattern text : List Char) : Scan := ⟨pattern, text, none⟩

end Scan

/-- Whether the whole text fits the pattern. -/
def glob (pattern text : List Char) : Bool := (Scan.start pattern text).run

/-- `glob` up to the case of letters. -/
def globFold (pattern text : String) : Bool := glob (lower pattern.toList) (lower text.toList)

end FieldQuery.Text
