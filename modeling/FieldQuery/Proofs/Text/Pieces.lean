import FieldQuery.Text.Blank
import Mathlib.Data.List.Basic

/-!
# Texts without blanks at their ends, and texts cut at separators

* `trim_eq_self_iff` — the texts that trimming leaves alone; `trim_trim` — one of them is what it
  makes of any text;
* `pieces_append`, `notMem_of_mem_pieces` — cutting at a separator finds the parts between which it
  stands, and no part holds it;
* `cutAt_append` — the first separator alone.

Principal result: `pieces_joinPieces` — pieces that have been put together are found again.
-/

namespace FieldQuery.Text

/-! ## Blanks -/

theorem trimStart_eq_self_iff {cs : List Char} :
    trimStart cs = cs ↔ ∀ c, cs.head? = some c → isBlank c = false := by
  cases cs with
  | nil => simp [trimStart]
  | cons c cs =>
    constructor
    · intro h d hd
      obtain rfl := Option.some.inj hd
      by_contra hblank
      -- a text without its first character is no longer the whole text
      have hshort : (trimStart (c :: cs)).length ≤ cs.length := by
        rw [trimStart, List.dropWhile_cons_of_pos (by simpa using hblank)]
        exact (List.dropWhile_sublist _).length_le
      rw [h, List.length_cons] at hshort
      omega
    · intro h
      exact trimStart_of_head (h c rfl)

theorem trimEnd_eq_self_iff {cs : List Char} :
    trimEnd cs = cs ↔ ∀ c, cs.getLast? = some c → isBlank c = false := by
  have h := @trimStart_eq_self_iff cs.reverse
  rw [List.head?_reverse] at h
  rw [← h]
  unfold trimEnd trimStart
  constructor
  · intro heq
    rw [← List.reverse_inj, heq, List.reverse_reverse]
  · intro heq
    rw [heq, List.reverse_reverse]

theorem trimEnd_isPrefix (cs : List Char) : trimEnd cs <+: cs := by
  have h : cs.reverse.dropWhile isBlank <:+ cs.reverse := List.dropWhile_suffix _
  have h' := List.reverse_prefix.2 h
  rwa [List.reverse_reverse] at h'

/-- Trimming leaves a text alone exactly if neither end is blank. -/
theorem trim_eq_self_iff {cs : List Char} :
    trim cs = cs ↔ (∀ c, cs.head? = some c → isBlank c = false) ∧
      ∀ c, cs.getLast? = some c → isBlank c = false := by
  rw [← trimStart_eq_self_iff, ← trimEnd_eq_self_iff]
  constructor
  · intro h
    have hlength : (trim cs).length ≤ (trimStart cs).length := (trimEnd_isPrefix _).length_le
    rw [h] at hlength
    have hstart : trimStart cs = cs :=
      (List.dropWhile_suffix _).eq_of_length_le hlength
    refine ⟨hstart, ?_⟩
    rw [trim, hstart] at h
    exact h
  · rintro ⟨hstart, hend⟩
    rw [trim, hstart, hend]

/-- A text without a blank is left alone. -/
theorem trim_of_forall {cs : List Char} (h : ∀ c ∈ cs, isBlank c = false) : trim cs = cs :=
  trim_eq_self_iff.2
    ⟨fun c hc => h c (List.mem_of_head? hc), fun c hc => h c (List.mem_of_getLast? hc)⟩

/-- Two texts that trimming leaves alone, whatever stands between them. -/
theorem trim_append {x y : List Char} (hx : trim x = x) (hy : trim y = y) (hxne : x ≠ [])
    (hyne : y ≠ []) (between : List Char) : trim (x ++ (between ++ y)) = x ++ (between ++ y) := by
  rw [trim_eq_self_iff] at hx hy ⊢
  constructor
  · intro c hc
    rw [List.head?_append_of_ne_nil _ hxne] at hc
    exact hx.1 c hc
  · intro c hc
    rw [List.getLast?_append_of_ne_nil _ (by simp [hyne]),
      List.getLast?_append_of_ne_nil _ hyne] at hc
    exact hy.2 c hc

/-- Trimming once is enough. -/
@[simp] theorem trim_trim (cs : List Char) : trim (trim cs) = trim cs := by
  rw [trim_eq_self_iff]
  constructor
  · intro c hc
    -- the start of a trimmed text is the start of the text without its leading blanks
    have hstart := trimStart_eq_self_iff.1 (trimStart_idem cs)
    obtain ⟨rest, hrest⟩ := trimEnd_isPrefix (trimStart cs)
    refine hstart c ?_
    rw [← hrest]
    unfold trim at hc
    cases h : trimEnd (trimStart cs) with
    | nil => simp [h] at hc
    | cons d ds => simpa [h] using hc
  · refine trimEnd_eq_self_iff.1 ?_
    unfold trim trimEnd
    have hidem := trimStart_idem (trimStart cs).reverse
    unfold trimStart at hidem ⊢
    rw [List.reverse_reverse, hidem]

/-- What trimming leaves of the beginning of a trimmed text is a beginning of the text too. -/
theorem trim_isPrefix {p cs : List Char} (h : p <+: cs) (hcs : trim cs = cs) : trim p <+: cs := by
  obtain ⟨rest, rfl⟩ := h
  cases p with
  | nil => exact List.nil_prefix
  | cons c p =>
    have hc : isBlank c = false := (trim_eq_self_iff.1 hcs).1 c rfl
    rw [trim, trimStart_of_head hc]
    exact (trimEnd_isPrefix _).trans (List.prefix_append _ _)

/-- What trimming leaves stands in the text. -/
theorem trim_subset (cs : List Char) : trim cs ⊆ cs :=
  List.Subset.trans (trimEnd_isPrefix _).subset (List.dropWhile_suffix _).subset

theorem mem_trimStart_iff {c : Char} (h : isBlank c = false) (cs : List Char) :
    c ∈ trimStart cs ↔ c ∈ cs := by
  induction cs with
  | nil => rfl
  | cons d cs ih =>
    by_cases hd : isBlank d = true
    · have hne : c ≠ d := by
        rintro rfl
        rw [h] at hd
        cases hd
      have hstep : trimStart (d :: cs) = trimStart cs := List.dropWhile_cons_of_pos hd
      rw [hstep, ih, List.mem_cons, or_iff_right hne]
    · rw [trimStart_of_head (by simpa using hd)]

/-- Trimming keeps every character that is no blank. -/
theorem mem_trim_iff {c : Char} (h : isBlank c = false) (cs : List Char) :
    c ∈ trim cs ↔ c ∈ cs := by
  have hend : c ∈ trim cs ↔ c ∈ trimStart (trimStart cs).reverse := List.mem_reverse
  rw [hend, mem_trimStart_iff h, List.mem_reverse, mem_trimStart_iff h]

/-! ## Separators -/

theorem mem_joinPieces {sep p : List Char} {ps : List (List Char)} {c : Char} (h : p ∈ ps)
    (hc : c ∈ p) : c ∈ joinPieces sep ps := by
  induction ps with
  | nil => cases h
  | cons q qs ih =>
    cases qs with
    | nil =>
      obtain rfl := List.mem_singleton.1 h
      exact hc
    | cons r rs =>
      rcases List.mem_cons.1 h with rfl | h
      · simp [joinPieces, hc]
      · exact List.mem_append_right _ (ih h)

theorem of_mem_joinPieces {sep : List Char} {ps : List (List Char)} {c : Char}
    (h : c ∈ joinPieces sep ps) : ∃ p ∈ ps, c ∈ p ∨ c ∈ sep := by
  induction ps with
  | nil => cases h
  | cons p ps ih =>
    cases ps with
    | nil => exact ⟨p, List.mem_cons_self, .inl h⟩
    | cons q qs =>
      rw [joinPieces, List.mem_append, List.mem_append] at h
      rcases h with (h | h) | h
      · exact ⟨p, List.mem_cons_self, .inl h⟩
      · exact ⟨p, List.mem_cons_self, .inr h⟩
      · obtain ⟨r, hr, hc⟩ := ih h
        exact ⟨r, List.mem_cons_of_mem _ hr, hc⟩

/-- The pieces of a text consist of its characters. -/
theorem mem_of_mem_pieces {sep c : Char} {cs p : List Char} (h : p ∈ pieces sep cs) (hc : c ∈ p) :
    c ∈ cs :=
  joinPieces_pieces sep cs ▸ mem_joinPieces h hc

theorem notMem_of_mem_pieces {sep : Char} {cs p : List Char} (h : p ∈ pieces sep cs) : sep ∉ p := by
  induction cs generalizing p with
  | nil =>
    obtain rfl := List.mem_singleton.1 h
    exact List.not_mem_nil
  | cons c cs ih =>
    unfold pieces at h
    split at h
    · rcases List.mem_cons.1 h with rfl | h
      · exact List.not_mem_nil
      · exact ih h
    · rename_i hne
      split at h
      · rename_i hnil
        exact absurd hnil (pieces_ne_nil sep cs)
      · rename_i q qs hpieces
        rw [hpieces] at ih
        rcases List.mem_cons.1 h with rfl | h
        · rw [List.mem_cons, not_or]
          exact ⟨Ne.symm hne, ih List.mem_cons_self⟩
        · exact ih (List.mem_cons_of_mem _ h)

/-- A text that is cut into two pieces. -/
theorem eq_of_pieces_pair {sep : Char} {cs p q : List Char} (h : pieces sep cs = [p, q]) :
    cs = p ++ sep :: q := by
  have hjoin := joinPieces_pieces sep cs
  rw [h] at hjoin
  simpa [joinPieces] using hjoin.symm

theorem pieces_of_notMem {sep : Char} {cs : List Char} (h : sep ∉ cs) : pieces sep cs = [cs] := by
  induction cs with
  | nil => rfl
  | cons c cs ih =>
    rw [List.mem_cons, not_or] at h
    unfold pieces
    rw [if_neg (Ne.symm h.1), ih h.2]

theorem pieces_append {sep : Char} {p : List Char} (h : sep ∉ p) (cs : List Char) :
    pieces sep (p ++ sep :: cs) = p :: pieces sep cs := by
  induction p with
  | nil =>
    rw [List.nil_append]
    show (if sep = sep then _ else _) = _
    rw [if_pos rfl]
  | cons c p ih =>
    rw [List.mem_cons, not_or] at h
    rw [List.cons_append]
    conv_lhs => unfold pieces
    rw [if_neg (Ne.symm h.1), ih h.2]

/-- Pieces that have been put together are found again. -/
theorem pieces_joinPieces {sep : Char} {ps : List (List Char)} (hne : ps ≠ [])
    (h : ∀ p ∈ ps, sep ∉ p) : pieces sep (joinPieces [sep] ps) = ps := by
  induction ps with
  | nil => exact absurd rfl hne
  | cons p ps ih =>
    have hp := h p List.mem_cons_self
    cases ps with
    | nil => exact pieces_of_notMem hp
    | cons q ps =>
      show pieces sep (p ++ [sep] ++ joinPieces [sep] (q :: ps)) = _
      rw [List.append_assoc, List.singleton_append, pieces_append hp,
        ih (List.cons_ne_nil _ _) fun r hr => h r (List.mem_cons_of_mem _ hr)]

/-- Pieces are put together as the library puts lists together. -/
theorem intercalate_eq_joinPieces (sep : List Char) (ps : List (List Char)) :
    sep.intercalate ps = joinPieces sep ps := by
  induction ps with
  | nil => rfl
  | cons p ps ih =>
    cases ps with
    | nil => exact List.intercalate_singleton
    | cons q ps => rw [List.intercalate_cons_cons, ih, joinPieces]

theorem cutAt_eq_none {sep : Char} {cs : List Char} (h : sep ∉ cs) : cutAt sep cs = none := by
  induction cs with
  | nil => rfl
  | cons c cs ih =>
    rw [List.mem_cons, not_or] at h
    unfold cutAt
    rw [if_neg (Ne.symm h.1), ih h.2]
    rfl

theorem cutAt_append {sep : Char} {p : List Char} (h : sep ∉ p) (cs : List Char) :
    cutAt sep (p ++ sep :: cs) = some (p, cs) := by
  induction p with
  | nil => simp [cutAt]
  | cons c p ih =>
    rw [List.mem_cons, not_or] at h
    rw [List.cons_append, cutAt, if_neg (Ne.symm h.1), ih h.2]
    rfl

end FieldQuery.Text
