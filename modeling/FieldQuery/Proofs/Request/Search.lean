import FieldQuery.Request.Translation
import FieldQuery.Proofs.Text.Glob
import FieldQuery.Proofs.Text.LowerCase

/-!
# What a search finds

A search compares the lower case of a text with the lower case of a pattern, each lowered as a
whole. The pattern of a term has nothing but wildcards around the term, so the term is lowered
there as it is alone, and in a text it is lowered between its neighbours. The two are the same
exactly when every capital sigma of the term ends a word in the text where it does in the term
alone; any other character is lowered alike everywhere.

* `lower_prefixPattern`, `lower_suffixPattern`, `lower_infixPattern` — patterns of one literal;
* `searchPattern_of_notMem`, `search_accepts` — the condition of a search term.

Principal results: `globFold_finds`, with the sigma that is missed in `globFold_misses`.
-/

namespace FieldQuery

namespace Text

variable {p s q : List Char}

theorem lower_prefixPattern (s : List Char) :
    lower (s ++ [wildcard]) = lowerWithin [] s [] ++ [wildcard] := by
  unfold lower
  rw [lowerAfter_append, lowerWithin_wildcards (.inl rfl) (.inr rfl)]
  simp [lowerAfter, lowerBetween_wildcard]

theorem lower_suffixPattern (s : List Char) :
    lower (wildcard :: s) = wildcard :: lowerWithin [] s [] := by
  unfold lower
  rw [lowerAfter, lowerBetween_wildcard, lowerAfter_eq_lowerWithin,
    lowerWithin_wildcards (.inr rfl) (.inl rfl)]
  rfl

theorem lower_infixPattern (s : List Char) :
    lower (wildcard :: (s ++ [wildcard])) = wildcard :: (lowerWithin [] s [] ++ [wildcard]) := by
  unfold lower
  rw [lowerAfter, lowerBetween_wildcard, lowerAfter_append,
    lowerWithin_wildcards (.inr rfl) (.inr rfl)]
  simp [lowerAfter, lowerBetween_wildcard]

/-- A part is lowered between its neighbours as it is alone exactly when its capital sigmas are. -/
theorem sameSigmas_iff :
    SameSigmas p s q ↔ lowerWithin p.reverse s q = lowerWithin [] s [] := by
  rw [lowerWithin_eq_iff]
  simp only [SameSigmas, List.append_nil]

/-- The pattern of a prefix fits a text that starts with it exactly when both are lowered alike. -/
theorem glob_prefix_iff (hs : wildcard ∉ s) :
    glob (lower (s ++ [wildcard])) (lower (s ++ q)) = true ↔ SameSigmas [] s q := by
  rw [glob_eq_true_iff, lower_prefixPattern,
    fits_prefix_iff (wildcard_notMem_lowerWithin hs [] []), sameSigmas_iff]
  unfold lower
  rw [lowerAfter_append]
  constructor
  · rintro ⟨rest, h⟩
    exact (List.append_inj h length_lowerWithin).1.symm
  · intro h
    rw [List.reverse_nil] at h
    rw [h]
    exact List.prefix_append _ _

theorem glob_suffix_iff (hs : wildcard ∉ s) :
    glob (lower (wildcard :: s)) (lower (p ++ s)) = true ↔ SameSigmas p s [] := by
  rw [glob_eq_true_iff, lower_suffixPattern,
    fits_suffix_iff (wildcard_notMem_lowerWithin hs [] []), sameSigmas_iff]
  unfold lower
  rw [lowerAfter_append, lowerAfter_eq_lowerWithin, List.append_nil]
  constructor
  · rintro ⟨rest, h⟩
    exact (List.append_inj' h length_lowerWithin).2.symm
  · intro h
    rw [h]
    exact List.suffix_append _ _

/-- A part of a text that is lowered as it is alone is found. -/
theorem glob_infix (hs : wildcard ∉ s) (h : SameSigmas p s q) :
    glob (lower (wildcard :: (s ++ [wildcard]))) (lower (p ++ s ++ q)) = true := by
  rw [glob_eq_true_iff, lower_infixPattern,
    fits_infix_iff (wildcard_notMem_lowerWithin hs [] []), ← sameSigmas_iff.mp h]
  unfold lower
  rw [List.append_assoc, lowerAfter_append, lowerAfter_append, List.append_nil]
  exact ⟨_, _, by rw [List.append_assoc]⟩

end Text

namespace FilterSettings

open Text

variable {s : FilterSettings} {c : Catalog}

/-- Without wildcards of its own, a term stands as it is between two of them. -/
theorem searchPattern_of_notMem {term : String} (h : '*' ∉ term.toList) :
    searchPattern term = "*" ++ term ++ "*" := by
  have keeps : ∀ cs : List Char, '*' ∉ cs → cs.dropWhile (· == wildcard) = cs := by
    intro cs hcs
    cases cs with
    | nil => rfl
    | cons d cs =>
      have : d ≠ wildcard := by
        rintro rfl
        exact hcs List.mem_cons_self
      simp [this]
  unfold searchPattern
  dsimp only
  rw [keeps _ h, keeps _ (by simpa using h), List.reverse_reverse]
  simp [wildcard, ← String.toList_inj]

/-- A search accepts a row in which one of its columns fits the pattern. -/
theorem searchPredicate_accepts {e : Entity} {name term text : String}
    (hname : name ∈ c.searchable) (hblocked : s.isBlocked name = false)
    (he : e.attribute? name = some (.text text))
    (hfits : globFold (searchPattern term) text = true) :
    ∃ condition, s.searchPredicate c term = some condition ∧ condition.accepts e = true := by
  have hmem : name ∈ c.searchable.filter fun name => !s.isBlocked name := by
    simp [hname, hblocked]
  unfold searchPredicate
  split
  · rename_i hnil
    simp [hnil] at hmem
  · refine ⟨_, rfl, ?_⟩
    rw [Predicate.accepts, Predicate.acceptsAny_eq_any, List.any_map, List.any_eq_true]
    refine ⟨name, hmem, ?_⟩
    simpa [Predicate.accepts, he, Operator.holds, Operator.holdsOf, Value.fitsPattern,
      Value.displayText, Value.display] using hfits

end FilterSettings

namespace Text

/-- **What is found of a part of a text.** As a prefix or as a suffix a part without wildcards is
found exactly when its capital sigmas end words in the text where they do in the part alone, and
so wherever it holds no capital sigma; then it is found inside the text as well, and a search for
it accepts every row with such a text in a searchable column that is not blocked. -/
theorem globFold_finds (p s q : String) (hs : '*' ∉ s.toList) :
    (globFold (s ++ "*") (s ++ q) = true ↔ SameSigmas [] s.toList q.toList) ∧
      (globFold ("*" ++ s) (p ++ s) = true ↔ SameSigmas p.toList s.toList []) ∧
        (SameSigmas p.toList s.toList q.toList →
          globFold ("*" ++ s ++ "*") (p ++ s ++ q) = true ∧
            ∀ (settings : FilterSettings) (c : Catalog) (params : Params) (raw name : String)
              (e : Entity), params.get? "search" = some raw → Options.visible? raw = some s →
              name ∈ c.searchable → settings.isBlocked name = false →
              e.attribute? name = some (.text (p ++ s ++ q)) →
              ∃ condition, (settings.collect c params).search = some condition ∧
                condition.accepts e = true) := by
  have star : "*".toList = [wildcard] := rfl
  refine ⟨?_, ?_, ?_⟩
  · simp only [globFold, String.toList_append, star]
    exact glob_prefix_iff hs
  · simp only [globFold, String.toList_append, star]
    exact glob_suffix_iff hs
  · intro hsame
    have hfound : globFold ("*" ++ s ++ "*") (p ++ s ++ q) = true := by
      simp only [globFold, String.toList_append, star]
      exact glob_infix hs hsame
    refine ⟨hfound, ?_⟩
    intro settings c params raw name e hraw hvisible hname hblocked he
    have hfits : globFold (FilterSettings.searchPattern s) (p ++ s ++ q) = true := by
      rwa [FilterSettings.searchPattern_of_notMem hs]
    obtain ⟨condition, hc, haccepts⟩ :=
      FilterSettings.searchPredicate_accepts hname hblocked he hfits
    refine ⟨condition, ?_, haccepts⟩
    simp [FilterSettings.collect, hraw, hvisible, hc]

/-- A street by its name, in a column that searches look into. -/
def streetColumn : Field where
  name := "street"
  fieldType := .string
  operators := [.like]
  searchable := true

/-- The term stands inside the text, its last sigma at the end of a word in both. -/
theorem globFold_findsStreet :
    globFold ("*" ++ "ΟΔΟΣ" ++ "*") ("η " ++ "ΟΔΟΣ" ++ ", δεξιά") = true ∧
      ∃ condition, (FilterSettings.collect {} (Catalog.enter {} (.field streetColumn)).2
          ⟨[("search", " ΟΔΟΣ ")]⟩).search = some condition ∧
        condition.accepts ⟨"house", .int 1, [("street", .text "η ΟΔΟΣ, δεξιά")], []⟩ = true := by
  have hsame : SameSigmas "η ".toList "ΟΔΟΣ".toList ", δεξιά".toList := by
    rw [sameSigmas_iff]
    decide +kernel
  obtain ⟨-, -, hinside⟩ := globFold_finds "η " "ΟΔΟΣ" ", δεξιά" (by decide)
  obtain ⟨hfound, hrows⟩ := hinside hsame
  exact ⟨hfound, hrows {} _ _ " ΟΔΟΣ " "street" _ rfl (by decide +kernel) (by decide +kernel)
    (by decide) rfl⟩

/-- Not every occurrence is found: the sigma that ends the term is followed by a letter in the
text, and the two have different lower cases. -/
theorem globFold_misses :
    ¬ ∀ p s q : String, '*' ∉ s.toList →
      globFold (s ++ "*") (s ++ q) = true ∧ globFold ("*" ++ s) (p ++ s) = true ∧
        globFold ("*" ++ s ++ "*") (p ++ s ++ q) = true := by
  intro h
  have missed : globFold ("ΑΣ" ++ "*") ("ΑΣ" ++ "Α") = false := by decide +kernel
  have found := (h "" "ΑΣ" "Α" (by decide)).1
  rw [missed] at found
  cases found

end Text

end FieldQuery
