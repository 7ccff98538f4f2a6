import FieldQuery.Proofs.Text.Pieces
import FieldQuery.Request.Expression

/-!
# Filter expressions are read back

The reader tries the forms of an expression in a fixed order, so a written expression is read back
unless its text falls under an earlier form than the one that it has been read in.

* `Visible`, `Plain` — a text with something in it and no blank at its ends; one that is read as a
  value and nothing else;
* `Signed`, `comparison?_eq_some`, `comparison?_sign` — the operators with a sign in front of their
  value;
* `readTrimmed_signed`, `readTrimmed_bounds`, `readTrimmed_values`, `readTrimmed_like`,
  `readTrimmed_plain` — the forms in the order in which they are tried;
* `Form`, `form_of_read` — everything that an expression can be read as.

Principal result: `read_render_iff` — what has been read is read back exactly if a value after `>` or
`<` does not begin with `=`, and a list has two values or more and begins with no sign. That a text
can lack this is `read_render_loses`.
-/

namespace FieldQuery

namespace Text

theorem asciiCaseEq_eq_false {c : Char} {cs word : List Char} (hc : c ∈ cs)
    (h : asciiLowerChar c ∉ word.map asciiLowerChar) : asciiCaseEq cs word = false := by
  unfold asciiCaseEq
  rw [beq_eq_false_iff_ne]
  intro heq
  exact h (heq ▸ List.mem_map_of_mem hc)

end Text

open Text

namespace Expression

/-! ## Texts of values -/

/-- A text with something in it and no blank at its ends. -/
structure Visible (v : List Char) : Prop where
  ne_nil : v ≠ []
  trim_eq : trim v = v

/-- The words for having no value and for having one, in letters of any case. -/
def IsNullWord (cs : List Char) : Prop :=
  asciiCaseEq cs ['n', 'u', 'l', 'l'] = true ∨ asciiCaseEq cs ['!', 'n', 'u', 'l', 'l'] = true

/-- A text that is read as a value and nothing else. -/
structure Plain (v : List Char) : Prop extends Visible v where
  notNull : ¬ IsNullWord v
  unsigned : comparison? v = none
  noBar : '|' ∉ v
  noComma : ',' ∉ v
  noWildcard : wildcard ∉ v

instance (cs : List Char) : Decidable (IsNullWord cs) := inferInstanceAs (Decidable (_ ∨ _))

instance (v : List Char) : Decidable (Plain v) :=
  decidable_of_iff
    ((v ≠ [] ∧ trim v = v) ∧ ¬ IsNullWord v ∧ comparison? v = none ∧ '|' ∉ v ∧ ',' ∉ v ∧
      wildcard ∉ v)
    ⟨fun ⟨⟨h₁, h₂⟩, h₃, h₄, h₅, h₆, h₇⟩ => ⟨⟨h₁, h₂⟩, h₃, h₄, h₅, h₆, h₇⟩,
      fun h => ⟨⟨h.ne_nil, h.trim_eq⟩, h.notNull, h.unsigned, h.noBar, h.noComma, h.noWildcard⟩⟩

/-- The letters of the two words are the only characters in them. -/
theorem not_isNullWord {c : Char} {cs : List Char} (hc : c ∈ cs)
    (h : asciiLowerChar c ∉ ['!', 'n', 'u', 'l']) : ¬ IsNullWord cs := by
  simp only [List.mem_cons, List.not_mem_nil, or_false, not_or] at h
  have hnull : asciiCaseEq cs ['n', 'u', 'l', 'l'] = false :=
    asciiCaseEq_eq_false hc (by simpa [asciiLowerChar] using h.2)
  have hnotNull : asciiCaseEq cs ['!', 'n', 'u', 'l', 'l'] = false :=
    asciiCaseEq_eq_false hc (by simpa [asciiLowerChar] using h)
  simp [IsNullWord, hnull, hnotNull]

theorem visible_trim {cs : List Char} (h : trim cs ≠ []) : Visible (trim cs) := ⟨h, trim_trim cs⟩

/-! ## Signs -/

/-- The sign in front of a value. -/
def sign : Operator → List Char
  | .ne | .notLike => ['!', '=']
  | .gte => ['>', '=']
  | .lte => ['<', '=']
  | .gt => ['>']
  | .lt => ['<']
  | _ => []

/-- The operators with a sign in front of a value. Two of them share theirs: which one it is depends
on whether the value is a pattern. -/
inductive Signed (v : List Char) : Operator → Prop
  | ne (h : wildcard ∉ v) : Signed v .ne
  | notLike (h : wildcard ∈ v) : Signed v .notLike
  | gte : Signed v .gte
  | lte : Signed v .lte
  | gt : Signed v .gt
  | lt : Signed v .lt

/-- Whether a sign would run on into the value. -/
def RunsOn (o : Operator) (v : List Char) : Prop := (o = .gt ∨ o = .lt) ∧ v.head? = some '='

theorem Signed.trim {rest : List Char} {o : Operator} (h : Signed rest o) :
    Signed (Text.trim rest) o := by
  have hmem := mem_trim_iff (show isBlank wildcard = false by decide) rest
  cases h with
  | ne h => exact .ne (mt hmem.1 h)
  | notLike h => exact .notLike (hmem.2 h)
  | gte => exact .gte
  | lte => exact .lte
  | gt => exact .gt
  | lt => exact .lt

/-- What stands in front of a value that an operator was found before. -/
theorem comparison?_eq_some {cs rest : List Char} {o : Operator}
    (h : comparison? cs = some (o, rest)) : cs = sign o ++ rest ∧ Signed rest o := by
  unfold comparison? at h
  split at h
  · obtain ⟨rfl, rfl⟩ := Prod.mk.inj (Option.some.inj h)
    split
    · rename_i hmem
      exact ⟨rfl, .notLike (by simpa using hmem)⟩
    · rename_i hmem
      exact ⟨rfl, .ne (by simpa using hmem)⟩
  · obtain ⟨rfl, rfl⟩ := Prod.mk.inj (Option.some.inj h)
    exact ⟨rfl, .gte⟩
  · obtain ⟨rfl, rfl⟩ := Prod.mk.inj (Option.some.inj h)
    exact ⟨rfl, .lte⟩
  · obtain ⟨rfl, rfl⟩ := Prod.mk.inj (Option.some.inj h)
    exact ⟨rfl, .gt⟩
  · obtain ⟨rfl, rfl⟩ := Prod.mk.inj (Option.some.inj h)
    exact ⟨rfl, .lt⟩
  · cases h

/-- A sign is found again unless it runs on into the value. -/
theorem comparison?_sign {v : List Char} {o : Operator} (h : Signed v o) (hv : ¬ RunsOn o v) :
    comparison? (sign o ++ v) = some (o, v) := by
  cases h with
  | ne h => simp [sign, comparison?, h]
  | notLike h => simp [sign, comparison?, h]
  | gte => rfl
  | lte => rfl
  | gt =>
    cases v with
    | nil => rfl
    | cons c v =>
      have hc : c ≠ '=' := by
        rintro rfl
        exact hv ⟨.inl rfl, rfl⟩
      simp [sign, comparison?, hc]
  | lt =>
    cases v with
    | nil => rfl
    | cons c v =>
      have hc : c ≠ '=' := by
        rintro rfl
        exact hv ⟨.inr rfl, rfl⟩
      simp [sign, comparison?, hc]

theorem comparison?_angle {c : Char} (hc : c = '>' ∨ c = '<') (rest : List Char) :
    comparison? (c :: rest) ≠ none := by
  intro h
  unfold comparison? at h
  rcases hc with rfl | rfl
  · split at h <;> simp_all
  · split at h <;> simp_all

/-- Where no operator is found. -/
theorem comparison?_eq_none_iff {cs : List Char} :
    comparison? cs = none ↔
      cs.head? ≠ some '>' ∧ cs.head? ≠ some '<' ∧ ¬ ['!', '='] <+: cs := by
  constructor
  · intro h
    refine ⟨?_, ?_, ?_⟩
    · intro hhead
      obtain ⟨rest, rfl⟩ := List.head?_eq_some_iff.1 hhead
      exact comparison?_angle (.inl rfl) rest h
    · intro hhead
      obtain ⟨rest, rfl⟩ := List.head?_eq_some_iff.1 hhead
      exact comparison?_angle (.inr rfl) rest h
    · rintro ⟨rest, rfl⟩
      cases h
  · rintro ⟨hgt, hlt, hne⟩
    cases h : comparison? cs with
    | none => rfl
    | some found =>
      obtain ⟨o, rest⟩ := found
      obtain ⟨rfl, hsigned⟩ := comparison?_eq_some h
      cases hsigned with
      | ne | notLike => exact absurd (List.prefix_append _ _) hne
      | gte | gt => exact absurd rfl hgt
      | lte | lt => exact absurd rfl hlt

/-- A text begins with a sign exactly if its beginning does, up to a character that is in no sign. -/
theorem comparison?_append_eq_none_iff {v : List Char} (hv : v ≠ []) {c : Char} (hc : c ≠ '=')
    (rest : List Char) : comparison? (v ++ c :: rest) = none ↔ comparison? v = none := by
  rw [comparison?_eq_none_iff, comparison?_eq_none_iff, List.head?_append_of_ne_nil _ hv]
  have hbegins : ['!', '='] <+: v ++ c :: rest ↔ ['!', '='] <+: v := by
    constructor
    · intro h
      match v, hv with
      | [d], _ =>
        obtain ⟨tail, htail⟩ := h
        simp at htail
        exact absurd htail.2.1.symm hc
      | d :: e :: v, _ =>
        obtain ⟨tail, htail⟩ := h
        simp at htail
        obtain ⟨rfl, rfl, -⟩ := htail
        exact ⟨v, rfl⟩
    · intro h
      exact h.trans (List.prefix_append _ _)
  rw [hbegins]

theorem comparison?_of_isPrefix {p cs : List Char} (h : comparison? cs = none) (hp : p <+: cs) :
    comparison? p = none := by
  rw [comparison?_eq_none_iff] at h ⊢
  obtain ⟨rest, rfl⟩ := hp
  cases p with
  | nil => simp
  | cons c p => exact ⟨h.1, h.2.1, fun hne => h.2.2 (hne.trans (List.prefix_append _ _))⟩

/-! ## The forms in their order -/

theorem not_isNullWord_of_signed {v : List Char} {o : Operator} (h : Signed v o) :
    ¬ IsNullWord (sign o ++ v) := by
  cases h with
  | ne | notLike | gte | lte =>
    exact not_isNullWord (List.mem_append_left _ (List.mem_cons_of_mem _ List.mem_cons_self))
      (by decide)
  | gt | lt => exact not_isNullWord List.mem_cons_self (by decide)

theorem readTrimmed_signed {cs rest : List Char} {o : Operator}
    (h : comparison? cs = some (o, rest)) : readTrimmed cs = single o rest := by
  obtain ⟨rfl, hsigned⟩ := comparison?_eq_some h
  obtain ⟨hnull, hnotNull⟩ := not_or.1 (not_isNullWord_of_signed hsigned)
  unfold readTrimmed
  rw [if_neg hnull, if_neg hnotNull, h]

/-- What comes after the words and the signs. -/
theorem readTrimmed_unsigned {cs : List Char} (hword : ¬ IsNullWord cs)
    (hsign : comparison? cs = none) :
    readTrimmed cs =
      if cs.contains '|' then bounds cs
      else if cs.contains ',' then values cs
      else if cs.contains wildcard then .ok ⟨.like, .single (String.ofList cs)⟩
      else single .eq cs := by
  obtain ⟨hnull, hnotNull⟩ := not_or.1 hword
  unfold readTrimmed
  rw [if_neg hnull, if_neg hnotNull, hsign]

theorem readTrimmed_bounds {cs : List Char} (h : comparison? cs = none) (hbar : '|' ∈ cs) :
    readTrimmed cs = bounds cs := by
  rw [readTrimmed_unsigned (not_isNullWord hbar (by decide)) h]
  simp [hbar]

theorem readTrimmed_values {cs : List Char} (h : comparison? cs = none) (hbar : '|' ∉ cs)
    (hcomma : ',' ∈ cs) : readTrimmed cs = values cs := by
  rw [readTrimmed_unsigned (not_isNullWord hcomma (by decide)) h]
  simp [hbar, hcomma]

theorem readTrimmed_like {cs : List Char} (h : comparison? cs = none) (hbar : '|' ∉ cs)
    (hcomma : ',' ∉ cs) (hwildcard : wildcard ∈ cs) :
    readTrimmed cs = .ok ⟨.like, .single (String.ofList cs)⟩ := by
  rw [readTrimmed_unsigned (not_isNullWord hwildcard (by decide)) h]
  simp [hbar, hcomma, hwildcard]

theorem single_visible (o : Operator) {v : List Char} (h : Visible v) :
    single o v = .ok ⟨o, .single (String.ofList v)⟩ := by
  unfold single
  rw [h.trim_eq]
  simp [h.ne_nil]

theorem readTrimmed_plain {v : List Char} (h : Plain v) :
    readTrimmed v = .ok ⟨.eq, .single (String.ofList v)⟩ := by
  rw [readTrimmed_unsigned h.notNull h.unsigned]
  simp [h.noBar, h.noComma, h.noWildcard, single_visible _ h.toVisible]

/-! ## What an expression can be read as -/

/-- The text of a value in a list or in a range. -/
structure Item (v : List Char) : Prop extends Visible v where
  noBar : '|' ∉ v

/-- Everything that an expression can be read as. -/
inductive Form : Expression → Prop
  | null : Form ⟨.null, .none⟩
  | notNull : Form ⟨.notNull, .none⟩
  | signed {o : Operator} {v : List Char} (hv : Visible v) (h : Signed v o) :
      Form ⟨o, .single (String.ofList v)⟩
  | range {low high : List Char} (hlow : Item low) (hhigh : Item high)
      (hsign : comparison? low = none) :
      Form ⟨.between, .range (String.ofList low) (String.ofList high)⟩
  | list {vs : List (List Char)} (hne : vs ≠ []) (hvs : ∀ v ∈ vs, Item v ∧ ',' ∉ v) :
      Form ⟨.isIn, .list (vs.map String.ofList)⟩
  | like {v : List Char} (hv : Visible v) (hsign : comparison? v = none) (hbar : '|' ∉ v)
      (hcomma : ',' ∉ v) (hwildcard : wildcard ∈ v) : Form ⟨.like, .single (String.ofList v)⟩
  | eq {v : List Char} (hv : Plain v) : Form ⟨.eq, .single (String.ofList v)⟩

theorem form_of_single {rest : List Char} {o : Operator} {e : Expression}
    (h : single o rest = .ok e) (hsigned : Signed rest o) : Form e := by
  unfold single at h
  dsimp only at h
  split at h
  · cases h
  · rename_i hne
    cases h
    exact .signed (visible_trim hne) hsigned.trim

/-- What is left of a piece, if anything is, holds no separator. -/
theorem visible_of_mem_pieces {sep : Char} {cs p : List Char} (hp : p ∈ pieces sep cs)
    (hne : trim p ≠ []) : Visible (trim p) ∧ sep ∉ trim p :=
  ⟨visible_trim hne, fun hmem => notMem_of_mem_pieces hp (trim_subset p hmem)⟩

theorem form_of_bounds {cs : List Char} {e : Expression} (h : bounds cs = .ok e)
    (htrim : trim cs = cs) (hsign : comparison? cs = none) : Form e := by
  unfold bounds at h
  split at h
  · rename_i low high hpieces
    split at h
    · cases h
    · rename_i hne
      rw [not_or] at hne
      cases h
      obtain ⟨p, ps, hp, rfl, hps⟩ := List.map_eq_cons_iff.1 hpieces
      obtain ⟨q, qs, rfl, rfl, hqs⟩ := List.map_eq_cons_iff.1 hps
      obtain rfl := List.map_eq_nil_iff.1 hqs
      obtain ⟨hlow, hlowBar⟩ := visible_of_mem_pieces (show p ∈ pieces '|' cs by simp [hp]) hne.1
      obtain ⟨hhigh, hhighBar⟩ := visible_of_mem_pieces (show q ∈ pieces '|' cs by simp [hp]) hne.2
      -- the lower bound begins where the text begins, and there is no sign
      have hbegins : p <+: cs := ⟨'|' :: q, (eq_of_pieces_pair hp).symm⟩
      exact .range ⟨hlow, hlowBar⟩ ⟨hhigh, hhighBar⟩
        (comparison?_of_isPrefix hsign (trim_isPrefix hbegins htrim))
  · cases h

theorem form_of_values {cs : List Char} {e : Expression} (h : values cs = .ok e)
    (hbar : '|' ∉ cs) : Form e := by
  unfold values at h
  split at h
  · cases h
  · rename_i hne
    cases h
    refine .list hne fun v hv => ?_
    obtain ⟨hv, hvne⟩ := List.mem_filter.1 hv
    obtain ⟨p, hp, rfl⟩ := List.mem_map.1 hv
    obtain ⟨hvisible, hcomma⟩ := visible_of_mem_pieces hp (by simpa using hvne)
    exact ⟨⟨hvisible, fun hmem => hbar (mem_of_mem_pieces hp (trim_subset p hmem))⟩, hcomma⟩

/-- **What has been read has one of the forms.** -/
theorem form_of_read {raw : String} {e : Expression} (h : read raw = .ok e) : Form e := by
  have htrim := trim_trim raw.toList
  unfold read at h
  generalize trim raw.toList = cs at h htrim
  by_cases hword : IsNullWord cs
  · unfold readTrimmed at h
    split at h
    · cases h
      exact .null
    · rename_i hnull
      rw [if_pos (hword.resolve_left hnull)] at h
      cases h
      exact .notNull
  · cases hsign : comparison? cs with
    | some found =>
      obtain ⟨o, rest⟩ := found
      rw [readTrimmed_signed hsign] at h
      exact form_of_single h (comparison?_eq_some hsign).2
    | none =>
      by_cases hbar : '|' ∈ cs
      · rw [readTrimmed_bounds hsign hbar] at h
        exact form_of_bounds h htrim hsign
      by_cases hcomma : ',' ∈ cs
      · rw [readTrimmed_values hsign hbar hcomma] at h
        exact form_of_values h hbar
      by_cases hwildcard : wildcard ∈ cs
      · rw [readTrimmed_like hsign hbar hcomma hwildcard] at h
        cases h
        have hne : cs ≠ [] := List.ne_nil_of_mem hwildcard
        exact .like ⟨hne, htrim⟩ hsign hbar hcomma hwildcard
      · by_cases hne : cs = []
        · subst hne
          cases h
        · have hplain : Plain cs := ⟨⟨hne, htrim⟩, hword, hsign, hbar, hcomma, hwildcard⟩
          rw [readTrimmed_plain hplain] at h
          cases h
          exact .eq hplain

/-! ## Reading back -/

/-- Whether an expression is read back from its text. -/
def isLegible (e : Expression) : Bool :=
  match e.operand with
  | .single value => !((e.operator == .gt || e.operator == .lt) && value.toList.head? == some '=')
  | .list values =>
    decide (2 ≤ values.length) && (values.head?.bind fun v => comparison? v.toList).isNone
  | .none | .range _ _ => true

theorem read_ofList {v : List Char} (hv : trim v = v) : read (String.ofList v) = readTrimmed v := by
  unfold read
  rw [String.toList_ofList, hv]

theorem operator_of_readTrimmed {cs rest : List Char} {o : Operator} {e : Expression}
    (h : comparison? cs = some (o, rest)) (he : readTrimmed cs = .ok e) : e.operator = o := by
  rw [readTrimmed_signed h] at he
  unfold single at he
  dsimp only at he
  split at he
  · cases he
  · cases he
    rfl

theorem render_signed {v : List Char} {o : Operator} (h : Signed v o) :
    render ⟨o, .single (String.ofList v)⟩ = String.ofList (sign o ++ v) := by
  rw [String.ofList_append]
  cases h <;> rfl

theorem render_list (vs : List (List Char)) :
    render ⟨.isIn, .list (vs.map String.ofList)⟩ = String.ofList (joinPieces [','] vs) := by
  rw [← String.toList_inj, String.toList_ofList, ← intercalate_eq_joinPieces]
  show (",".intercalate (vs.map String.ofList)).toList = _
  rw [String.toList_intercalate, List.map_map]
  simp [Function.comp_def]

theorem trim_sign_append {v : List Char} {o : Operator} (hv : Visible v) (h : Signed v o) :
    trim (sign o ++ v) = sign o ++ v := by
  have hsign : trim (sign o) = sign o ∧ sign o ≠ [] := by
    cases h <;> decide
  exact trim_append hsign.1 hv.trim_eq hsign.2 hv.ne_nil []

/-- A value with a sign is read back exactly if the sign does not run on into it. -/
theorem read_render_signed {v : List Char} {o : Operator} (hv : Visible v) (h : Signed v o) :
    read (render ⟨o, .single (String.ofList v)⟩) = .ok ⟨o, .single (String.ofList v)⟩ ↔
      ¬ RunsOn o v := by
  rw [render_signed h, read_ofList (trim_sign_append hv h)]
  constructor
  · rintro hread ⟨ho, hhead⟩
    obtain ⟨rest, rfl⟩ := List.head?_eq_some_iff.1 hhead
    rcases ho with rfl | rfl
    · cases operator_of_readTrimmed (show comparison? ('>' :: '=' :: rest) = some (.gte, rest) from
        rfl) hread
    · cases operator_of_readTrimmed (show comparison? ('<' :: '=' :: rest) = some (.lte, rest) from
        rfl) hread
  · intro hruns
    rw [readTrimmed_signed (comparison?_sign h hruns), single_visible o hv]

/-- A range is read back. -/
theorem read_render_range {low high : List Char} (hlow : Item low) (hhigh : Item high)
    (hsign : comparison? low = none) :
    read (render ⟨.between, .range (String.ofList low) (String.ofList high)⟩) =
      .ok ⟨.between, .range (String.ofList low) (String.ofList high)⟩ := by
  have hrender : render ⟨.between, .range (String.ofList low) (String.ofList high)⟩ =
      String.ofList (low ++ '|' :: high) := by
    rw [String.ofList_append, String.ofList_cons, ← String.append_assoc]
    rfl
  have htrim : trim (low ++ '|' :: high) = low ++ '|' :: high :=
    trim_append hlow.trim_eq hhigh.trim_eq hlow.ne_nil hhigh.ne_nil ['|']
  have hpieces : pieces '|' (low ++ '|' :: high) = [low, high] := by
    rw [pieces_append hlow.noBar, pieces_of_notMem hhigh.noBar]
  rw [hrender, read_ofList htrim, readTrimmed_bounds
    ((comparison?_append_eq_none_iff hlow.ne_nil (by decide) high).2 hsign) (by simp)]
  unfold bounds
  simp [hpieces, hlow.trim_eq, hhigh.trim_eq, hlow.ne_nil, hhigh.ne_nil]

/-- Values with commas between them are read back as a list, if there is a comma and no sign. -/
theorem values_joinPieces {vs : List (List Char)} (hne : vs ≠ [])
    (hvs : ∀ v ∈ vs, Item v ∧ ',' ∉ v) :
    values (joinPieces [','] vs) = .ok ⟨.isIn, .list (vs.map String.ofList)⟩ := by
  have htrim : vs.map trim = vs := by
    refine (List.map_congr_left fun v hv => ?_).trans (List.map_id' _)
    exact (hvs v hv).1.trim_eq
  have hfilter : vs.filter (!·.isEmpty) = vs := by
    refine List.filter_eq_self.2 fun v hv => ?_
    simp [(hvs v hv).1.ne_nil]
  unfold values
  rw [pieces_joinPieces hne fun v hv => (hvs v hv).2, htrim, hfilter]
  cases vs with
  | nil => exact absurd rfl hne
  | cons v vs => rfl

theorem trim_joinPieces {vs : List (List Char)} (hvs : ∀ v ∈ vs, Item v ∧ ',' ∉ v) :
    trim (joinPieces [','] vs) = joinPieces [','] vs := by
  induction vs with
  | nil => rfl
  | cons v vs ih =>
    have hv := (hvs v List.mem_cons_self).1
    have hrest := ih fun w hw => hvs w (List.mem_cons_of_mem _ hw)
    cases vs with
    | nil => exact hv.trim_eq
    | cons w ws =>
      have hw := (hvs w (List.mem_cons_of_mem _ List.mem_cons_self)).1
      have hne : joinPieces [','] (w :: ws) ≠ [] := by
        obtain ⟨c, rest, rfl⟩ := List.exists_cons_of_ne_nil hw.ne_nil
        exact List.ne_nil_of_mem (mem_joinPieces List.mem_cons_self List.mem_cons_self)
      rw [joinPieces, List.append_assoc]
      exact trim_append hv.trim_eq hrest hv.ne_nil hne [',']

/-- Only a text with a comma and without a sign is read as a list. -/
theorem comma_of_readTrimmed {cs : List Char} {x : RawOperand}
    (h : readTrimmed cs = .ok ⟨.isIn, x⟩) : comparison? cs = none ∧ ',' ∈ cs := by
  cases hsign : comparison? cs with
  | some found =>
    obtain ⟨o, rest⟩ := found
    have ho : Operator.isIn = o := operator_of_readTrimmed hsign h
    subst ho
    cases (comparison?_eq_some hsign).2
  | none =>
    refine ⟨rfl, ?_⟩
    by_contra hcomma
    by_cases hword : IsNullWord cs
    · unfold readTrimmed at h
      split at h
      · cases h
      · rename_i hnull
        rw [if_pos (hword.resolve_left hnull)] at h
        cases h
    · rw [readTrimmed_unsigned hword hsign] at h
      split at h
      · unfold bounds at h
        split at h
        · split at h <;> cases h
        · cases h
      · rw [if_neg (by simpa using hcomma)] at h
        split at h
        · cases h
        · unfold single at h
          dsimp only at h
          split at h <;> cases h

/-- A list is read back exactly if it has two values or more and its first value has no sign. -/
theorem read_render_list {v : List Char} {vs : List (List Char)}
    (hvs : ∀ w ∈ v :: vs, Item w ∧ ',' ∉ w) :
    read (render ⟨.isIn, .list ((v :: vs).map String.ofList)⟩) =
        .ok ⟨.isIn, .list ((v :: vs).map String.ofList)⟩ ↔
      vs ≠ [] ∧ comparison? v = none := by
  obtain ⟨hv, hcomma⟩ := hvs v List.mem_cons_self
  rw [render_list, read_ofList (trim_joinPieces hvs)]
  cases vs with
  | nil =>
    refine iff_of_false (fun hread => ?_) (fun h => h.1 rfl)
    exact hcomma (comma_of_readTrimmed hread).2
  | cons w ws =>
    have hjoin : joinPieces [','] (v :: w :: ws) = v ++ ',' :: joinPieces [','] (w :: ws) := by
      rw [joinPieces, List.append_assoc]
      rfl
    have hsign : comparison? (joinPieces [','] (v :: w :: ws)) = none ↔ comparison? v = none := by
      rw [hjoin]
      exact comparison?_append_eq_none_iff hv.ne_nil (by decide) _
    constructor
    · intro hread
      exact ⟨List.cons_ne_nil _ _, hsign.1 (comma_of_readTrimmed hread).1⟩
    · rintro ⟨-, hfirst⟩
      have hbar : '|' ∉ joinPieces [','] (v :: w :: ws) := by
        intro hmem
        obtain ⟨p, hp, hmem⟩ := of_mem_joinPieces hmem
        rcases hmem with hmem | hmem
        · exact (hvs p hp).1.noBar hmem
        · exact absurd hmem (by decide)
      rw [readTrimmed_values (hsign.2 hfirst) hbar (by simp [hjoin]),
        values_joinPieces (List.cons_ne_nil _ _) hvs]

/-- **What has been read is read back from its text exactly if it is legible.** -/
theorem read_render_iff {raw : String} {e : Expression} (h : read raw = .ok e) :
    read e.render = .ok e ↔ e.isLegible = true := by
  cases form_of_read h with
  | null => exact iff_of_true rfl rfl
  | notNull => exact iff_of_true rfl rfl
  | signed hv hsigned =>
    rw [read_render_signed hv hsigned]
    simp [isLegible, RunsOn, imp_iff_not_or]
  | range hlow hhigh hsign => exact iff_of_true (read_render_range hlow hhigh hsign) rfl
  | @list vs hne hvs =>
    obtain ⟨v, ws, rfl⟩ := List.exists_cons_of_ne_nil hne
    rw [read_render_list hvs]
    cases ws <;> simp [isLegible]
  | like hv hsign hbar hcomma hwildcard =>
    refine iff_of_true ?_ (by simp [isLegible])
    exact (read_ofList hv.trim_eq).trans (readTrimmed_like hsign hbar hcomma hwildcard)
  | eq hv =>
    refine iff_of_true ?_ (by simp [isLegible])
    exact (read_ofList hv.trim_eq).trans (readTrimmed_plain hv)

/-- A list with empty values in it and blanks around the others. -/
theorem read_render_gaps :
    read (render ⟨.isIn, .list ["1", "2"]⟩) = .ok ⟨.isIn, .list ["1", "2"]⟩ :=
  (read_render_iff (show read ", 1 ,,2" = .ok _ by rfl)).2 (by decide)

/-- A value that begins with an equals sign runs on from the sign in front of it. -/
theorem read_render_loses : ¬ ∀ raw e, read raw = .ok e → read e.render = .ok e := by
  intro h
  have hread : read ">=5" = .ok ⟨.gt, .single "=5"⟩ := h "> =5" ⟨.gt, .single "=5"⟩ rfl
  cases hread

end Expression

end FieldQuery
