import FieldQuery.Json.Reader

/-!
# What is written is read back

The text of a JSON value is read as that value.  What a word or a number stands for is left to
`word`, so that the statement holds of the reader of the program and of an exact one.

* `Written.ofJson` — what the text of a value writes;
* `Readable` — a value whose words and numbers stand for themselves;
* `Expects`, `ExpectsKey` — a state in which a value, or a key, may follow;
* `Complete` — a value has been read, as far as its end can be told.

Principal result: `readBy_compact` — the text of a readable value is read as what it writes.
-/

namespace FieldQuery.Json

open Text

mutual

/-- What the text of a value writes. -/
def Written.ofJson : Json → Written
  | .null => .null
  | .bool b => .bool b
  | .int n => .int n
  | .float x => .float x
  | .text s => .text (some s)
  | .array items => .array (Written.ofJsons items)
  | .object fields => .object (Written.ofFields fields)

/-- What the texts of items write. -/
def Written.ofJsons : List Json → List Written
  | [] => []
  | j :: js => Written.ofJson j :: Written.ofJsons js

/-- What the texts of fields write. -/
def Written.ofFields : List (String × Json) → List (Option String × Written)
  | [] => []
  | (k, j) :: fs => (some k, Written.ofJson j) :: Written.ofFields fs

end

mutual

/-- Whether the words and numbers of a value stand for themselves. -/
def Readable (word : List Char → Option Written) : Json → Prop
  | .text _ => True
  | .array items => ReadableItems word items
  | .object fields => ReadableFields word fields
  | .null => word (write .null) = some .null
  | .bool b => word (write (.bool b)) = some (.bool b)
  | .int n => word (write (.int n)) = some (.int n)
  | .float x => word (write (.float x)) = some (.float x)

/-- `Readable` for every item. -/
def ReadableItems (word : List Char → Option Written) : List Json → Prop
  | [] => True
  | j :: js => Readable word j ∧ ReadableItems word js

/-- `Readable` for every field. -/
def ReadableFields (word : List Char → Option Written) : List (String × Json) → Prop
  | [] => True
  | (_, j) :: fs => Readable word j ∧ ReadableFields word fs

end

/-! ## Words -/

/-- The characters of numbers. -/
def IsNumeral (c : Char) : Prop := isDigit c = true ∨ c = '-' ∨ c = '+' ∨ c = '.' ∨ c = 'e'

theorem endsWord_of_isDigit {c : Char} (h : isDigit c = true) : endsWord c = false := by
  have hne : ∀ d, isDigit d = false → c ≠ d := by
    rintro d hd rfl
    rw [h] at hd
    cases hd
  simp [endsWord, isSpace, mark?, hne ' ' (by decide), hne '\n' (by decide), hne '\t' (by decide),
    hne '\r' (by decide), hne '"' (by decide), hne '[' (by decide), hne ']' (by decide),
    hne '\x7b' (by decide), hne '\x7d' (by decide), hne ',' (by decide), hne ':' (by decide)]

theorem IsNumeral.endsWord {c : Char} (h : IsNumeral c) : endsWord c = false := by
  rcases h with h | rfl | rfl | rfl | rfl
  · exact endsWord_of_isDigit h
  all_goals decide

theorem isNumeral_natNumeral (n : Nat) : ∀ c ∈ natNumeral n, IsNumeral c :=
  fun c hc => .inl (List.all_eq_true.1 (all_isDigit_natNumeral n) c hc)

theorem isNumeral_intNumeral (n : Int) : ∀ c ∈ intNumeral n, IsNumeral c := by
  intro c hc
  unfold intNumeral at hc
  split at hc
  · rcases List.mem_cons.1 hc with rfl | hc
    · exact .inr (.inl rfl)
    · exact isNumeral_natNumeral _ c hc
  · exact isNumeral_natNumeral _ c hc

theorem intNumeral_ne_nil (n : Int) : intNumeral n ≠ [] := by
  unfold intNumeral
  split
  · simp
  · exact natNumeral_ne_nil _

theorem isNumeral_zeros (n : Nat) : ∀ c ∈ zeros n, IsNumeral c := by
  intro c hc
  rw [List.eq_of_mem_replicate hc]
  exact .inl (by decide)

theorem isNumeral_exponentText (e : Int) : ∀ c ∈ exponentText e, IsNumeral c := by
  intro c hc
  unfold exponentText at hc
  rcases List.mem_cons.1 hc with rfl | hc
  · exact .inr (.inr (.inr (.inr rfl)))
  · rcases List.mem_cons.1 hc with rfl | hc
    · split
      · exact .inr (.inl rfl)
      · exact .inr (.inr (.inl rfl))
    · exact isNumeral_natNumeral _ c hc

theorem isNumeral_layout {style : NumberStyle} (htail : ∀ c ∈ style.wholeTail, IsNumeral c)
    (x : Scientific) : ∀ c ∈ style.layout x, IsNumeral c := by
  have hdigits := isNumeral_natNumeral x.digits
  have hpoint : IsNumeral '.' := .inr (.inr (.inr (.inl rfl)))
  have hzero : IsNumeral '0' := .inl (by decide)
  unfold NumberStyle.layout
  dsimp only
  generalize natNumeral x.digits = ds at hdigits ⊢
  split
  · split
    · intro c hc
      rcases List.mem_append.1 hc with hc | hc
      · rcases List.mem_append.1 hc with hc | hc
        · exact hdigits c hc
        · exact isNumeral_zeros _ c hc
      · exact htail c hc
    · split
      · intro c hc
        rcases List.mem_append.1 hc with hc | hc
        · exact hdigits c (List.mem_of_mem_take hc)
        · rcases List.mem_cons.1 hc with rfl | hc
          · exact hpoint
          · exact hdigits c (List.mem_of_mem_drop hc)
      · intro c hc
        rcases List.mem_cons.1 hc with rfl | hc
        · exact hzero
        · rcases List.mem_cons.1 hc with rfl | hc
          · exact hpoint
          · rcases List.mem_append.1 hc with hc | hc
            · exact isNumeral_zeros _ c hc
            · exact hdigits c hc
  · split
    · intro c hc
      rcases List.mem_cons.1 hc with rfl | hc
      · exact hdigits _ List.mem_cons_self
      · exact isNumeral_exponentText _ c hc
    · intro c hc
      rcases List.mem_cons.1 hc with rfl | hc
      · exact hdigits _ List.mem_cons_self
      · rcases List.mem_cons.1 hc with rfl | hc
        · exact hpoint
        · rcases List.mem_append.1 hc with hc | hc
          · exact hdigits c (List.mem_cons_of_mem _ hc)
          · exact isNumeral_exponentText _ c hc
    · exact isNumeral_exponentText _

theorem layout_ne_nil (style : NumberStyle) (x : Scientific) : style.layout x ≠ [] := by
  have hdigits := natNumeral_ne_nil x.digits
  unfold NumberStyle.layout
  dsimp only
  split
  · split
    · simp [hdigits]
    · split <;> simp
  · split
    · simp
    · simp
    · simp [exponentText]

theorem isNumeral_printFinite {style : NumberStyle} (htail : ∀ c ∈ style.wholeTail, IsNumeral c)
    (x : Binary64) : ∀ c ∈ Binary64.printFinite style x, IsNumeral c := by
  intro c hc
  unfold Binary64.printFinite at hc
  dsimp only at hc
  split at hc
  · rcases List.mem_cons.1 hc with rfl | hc
    · exact .inr (.inl rfl)
    · exact isNumeral_layout htail _ c hc
  · exact isNumeral_layout htail _ c hc

theorem isNumeral_printJson (x : Binary64) : ∀ c ∈ x.printJson, IsNumeral c := by
  refine isNumeral_printFinite ?_ x
  simp [jsonStyle, IsNumeral, show isDigit '0' = true by decide]

theorem printFinite_ne_nil (style : NumberStyle) (x : Binary64) :
    Binary64.printFinite style x ≠ [] := by
  unfold Binary64.printFinite
  dsimp only
  split
  · simp
  · exact layout_ne_nil _ _

theorem printJson_ne_nil (x : Binary64) : x.printJson ≠ [] := printFinite_ne_nil jsonStyle x

section Run

variable {word : List Char → Option Written} {m m' : Machine} {stack : List Frame}

/-- A word is read up to its end. -/
theorem run_word {cs : List Char} (hcs : ∀ c ∈ cs, endsWord c = false) (done : List Char) :
    (⟨.word done, m⟩ : Reader).run word cs = some ⟨.word (cs.reverse ++ done), m⟩ := by
  induction cs generalizing done with
  | nil => rfl
  | cons c cs ih =>
    have hstep : (⟨.word done, m⟩ : Reader).step word c = some ⟨.word (c :: done), m⟩ := by
      unfold Reader.step
      simp [hcs c List.mem_cons_self]
    rw [Reader.run, hstep]
    dsimp only
    rw [ih fun d hd => hcs d (List.mem_cons_of_mem _ hd)]
    simp

/-- A word begins with its first character. -/
theorem start_word {c : Char} (hc : endsWord c = false) :
    Reader.start m c = some ⟨.word [c], m⟩ := by
  unfold endsWord at hc
  simp only [Bool.or_eq_false_iff, beq_eq_false_iff_ne] at hc
  obtain ⟨⟨hspace, hquote⟩, hmark⟩ := hc
  unfold Reader.start
  cases hfound : mark? c with
  | some t =>
    rw [hfound] at hmark
    cases hmark
  | none => simp [hspace, hquote]

theorem run_between_word {cs : List Char} (hne : cs ≠ []) (hcs : ∀ c ∈ cs, endsWord c = false) :
    (⟨.between, m⟩ : Reader).run word cs = some ⟨.word cs.reverse, m⟩ := by
  cases cs with
  | nil => exact absurd rfl hne
  | cons c cs =>
    have hstep : (⟨.between, m⟩ : Reader).step word c = some ⟨.word [c], m⟩ :=
      start_word (hcs c List.mem_cons_self)
    rw [Reader.run, hstep]
    dsimp only
    rw [run_word fun d hd => hcs d (List.mem_cons_of_mem _ hd)]
    simp

/-! ## Quoted texts -/

theorem hexValue_hexDigit : ∀ n < 16, hexValue (hexDigit n) = some n := by decide

/-- A character of a quoted text is read from its escape. -/
theorem run_escapeChar (c : Char) (done : List Nat) :
    (⟨.quoted done, m⟩ : Reader).run word (escapeChar c) = some ⟨.quoted (c.toNat :: done), m⟩ := by
  unfold escapeChar
  split
  · rename_i hc
    subst hc
    rfl
  · rename_i hquote
    split
    · rename_i hc
      subst hc
      rfl
    · rename_i hslash
      split
      · rename_i hprint
        unfold Reader.run Reader.step
        simp [hquote, hslash, Nat.not_lt.2 hprint, Reader.run]
      · rename_i hcontrol
        have hname : ∀ n, c.toNat = n → c = Char.ofNat n := fun n hn => by rw [← hn, Char.ofNat_toNat]
        split
        · rename_i hc
          rw [hc]
          rfl
        · split
          · rename_i hc
            rw [hc]
            rfl
          · split
            · rename_i hc
              rw [hc]
              rfl
            · split
              · rename_i hc
                rw [hc]
                rfl
              · split
                · rename_i hc
                  rw [hc]
                  rfl
                · have hhigh := hexValue_hexDigit (c.toNat / 16) (by omega)
                  have hlow := hexValue_hexDigit (c.toNat % 16) (by omega)
                  have hsum : 16 * (c.toNat / 16) + c.toNat % 16 = c.toNat := by omega
                  have hzero : hexValue '0' = some 0 := by decide
                  simp [Reader.run, Reader.step, hzero, hhigh, hlow, hsum]

theorem run_escaped (cs : List Char) (done : List Nat) :
    (⟨.quoted done, m⟩ : Reader).run word (cs.flatMap escapeChar) =
      some ⟨.quoted ((cs.map Char.toNat).reverse ++ done), m⟩ := by
  induction cs generalizing done with
  | nil => rfl
  | cons c cs ih =>
    rw [List.flatMap_cons, Reader.run_append, run_escapeChar, Option.bind_some, ih]
    simp

/-- A quoted text is read as the text. -/
theorem run_quote {s : String} (h : m.feed (.scalar (.text (some s))) = some m') :
    (⟨.between, m⟩ : Reader).run word (quote s) = some ⟨.between, m'⟩ := by
  have hopen : (⟨.between, m⟩ : Reader).step word '"' = some ⟨.quoted [], m⟩ := rfl
  have htext : quotedText (s.toList.map Char.toNat).reverse = .text (some s) := by
    unfold quotedText
    rw [List.reverse_reverse, joinHalves_map_toNat, Option.map_some, String.ofList_toList]
  have hclose : (⟨.quoted (s.toList.map Char.toNat).reverse, m⟩ : Reader).step word '"' =
      some ⟨.between, m'⟩ := by
    unfold Reader.step
    simp [htext, h]
  unfold quote
  rw [List.cons_append, Reader.run, hopen]
  dsimp only
  rw [Reader.run_append, run_escaped, Option.bind_some, List.append_nil, Reader.run, hclose]
  rfl

/-! ## Values -/

/-- A state in which a value may follow. -/
def Expects (m : Machine) (stack : List Frame) : Prop :=
  ∀ t, t ≠ .closeArray → m.feed t = Machine.startValue stack t

/-- A state in which a key may follow. -/
def ExpectsKey (m : Machine) (stack : List Frame) (done : List (Option String × Written)) : Prop :=
  ∀ k, m.feed (.scalar (.text k)) = some (.colon stack done k)

theorem expects_value (stack : List Frame) : Expects (.value stack) stack := fun _ _ => rfl

theorem expects_firstItem (stack : List Frame) :
    Expects (.firstItem stack) (.items [] :: stack) := by
  intro t ht
  cases t with
  | closeArray => exact absurd rfl ht
  | _ => rfl

/-- A value has been read; a word may still have to end. -/
inductive Complete (word : List Char → Option Written) (stack : List Frame) (w : Written) :
    Reader → Prop where
  | between : Complete word stack w ⟨.between, .after stack w⟩
  | word {done : List Char} {m : Machine} (hword : word done.reverse = some w)
      (hfeed : m.feed (.scalar w) = some (.after stack w)) : Complete word stack w ⟨.word done, m⟩

/-- What ends a word follows a value. -/
theorem Complete.step {r : Reader} {w : Written} (h : Complete word stack w r) {c : Char}
    (hc : endsWord c = true) : r.step word c = Reader.start (.after stack w) c := by
  cases h with
  | between => rfl
  | word hword hfeed =>
    unfold Reader.step
    simp [hc, hword, hfeed]

theorem Complete.result {r : Reader} {w : Written} (h : Complete word [] w r) :
    r.result word = some w := by
  cases h with
  | between => rfl
  | word hword hfeed =>
    unfold Reader.result
    simp [hword, hfeed, Machine.result]

/-- A mark is taken after a value. -/
theorem Complete.run_mark {r : Reader} {w : Written} (h : Complete word stack w r) {c : Char}
    {t : Token} (hc : endsWord c = true)
    (hstart : ∀ m, Reader.start m c = (m.feed t).map fun m => ⟨.between, m⟩)
    (hfeed : (Machine.after stack w).feed t = some m) (rest : List Char) :
    r.run word (c :: rest) = (⟨.between, m⟩ : Reader).run word rest := by
  rw [Reader.run, h.step hc, hstart, hfeed]
  rfl

/-- A word or a number has been read. -/
theorem complete_word {j : Json} (hne : write j ≠ []) (hnumeral : ∀ c ∈ write j, endsWord c = false)
    {w : Written} (hword : word (write j) = some w) (hm : Expects m stack) :
    ∃ r, (⟨.between, m⟩ : Reader).run word (write j) = some r ∧ Complete word stack w r := by
  refine ⟨_, run_between_word hne hnumeral, .word ?_ (hm _ (by simp))⟩
  rw [List.reverse_reverse]
  exact hword

mutual

/-- The text of a value is read. -/
theorem run_write (j : Json) (hj : Readable word j) (m : Machine) (stack : List Frame)
    (hm : Expects m stack) :
    ∃ r, (⟨.between, m⟩ : Reader).run word (write j) = some r ∧
      Complete word stack (Written.ofJson j) r := by
  match j with
  | .null => exact complete_word (by simp [write]) (by simp [write]; decide) hj hm
  | .bool b =>
    cases b with
    | true => exact complete_word (by simp [write]) (by simp [write]; decide) hj hm
    | false => exact complete_word (by simp [write]) (by simp [write]; decide) hj hm
  | .int n =>
    exact complete_word (by rw [write]; exact intNumeral_ne_nil n)
      (fun c hc => (isNumeral_intNumeral n c (by rwa [write] at hc)).endsWord) hj hm
  | .float x =>
    exact complete_word (by rw [write]; exact printJson_ne_nil x)
      (fun c hc => (isNumeral_printJson x c (by rwa [write] at hc)).endsWord) hj hm
  | .text s =>
    rw [write]
    exact ⟨_, run_quote (hm _ (by simp)), .between⟩
  | .array items =>
    refine ⟨⟨.between, .after stack (.array (Written.ofJsons items))⟩, ?_, .between⟩
    have hopen : (⟨.between, m⟩ : Reader).step word '[' = some ⟨.between, .firstItem stack⟩ := by
      show Reader.start m '[' = _
      show (m.feed .openArray).map _ = _
      rw [hm _ (by simp)]
      rfl
    rw [write, List.cons_append, Reader.run, hopen]
    dsimp only
    by_cases hempty : items = []
    · subst hempty
      rfl
    · exact run_writeItems items hempty hj _ [] stack (expects_firstItem stack)
  | .object fields =>
    refine ⟨⟨.between, .after stack (.object (Written.ofFields fields))⟩, ?_, .between⟩
    have hopen : (⟨.between, m⟩ : Reader).step word '\x7b' = some ⟨.between, .firstKey stack⟩ := by
      show Reader.start m '\x7b' = _
      show (m.feed .openObject).map _ = _
      rw [hm _ (by simp)]
      rfl
    rw [write, List.cons_append, Reader.run, hopen]
    dsimp only
    by_cases hempty : fields = []
    · subst hempty
      rfl
    · exact run_writeFields fields hempty hj _ [] stack fun _ => rfl

/-- The items of an array are read up to its end. -/
theorem run_writeItems (items : List Json) (hne : items ≠ []) (hj : ReadableItems word items)
    (m : Machine) (done : List Written) (stack : List Frame) (hm : Expects m (.items done :: stack)) :
    (⟨.between, m⟩ : Reader).run word (writeItems items ++ [']']) =
      some ⟨.between, .after stack (.array (done.reverse ++ Written.ofJsons items))⟩ := by
  match items with
  | [] => exact absurd rfl hne
  | [j] =>
    obtain ⟨r, hrun, hr⟩ := run_write j hj.1 m _ hm
    rw [writeItems, Reader.run_append, hrun, Option.bind_some,
      hr.run_mark (by decide) (fun _ => rfl) rfl]
    simp [Reader.run, Written.ofJsons]
  | j :: k :: rest =>
    obtain ⟨r, hrun, hr⟩ := run_write j hj.1 m _ hm
    have hnext := run_writeItems (k :: rest) (by simp) hj.2 (.value (.items (Written.ofJson j :: done) :: stack))
      (Written.ofJson j :: done) stack (expects_value _)
    rw [writeItems, List.append_assoc, List.cons_append, Reader.run_append, hrun, Option.bind_some,
      hr.run_mark (by decide) (fun _ => rfl) rfl, hnext]
    simp [Written.ofJsons]

/-- The fields of an object are read up to its end. -/
theorem run_writeFields (fields : List (String × Json)) (hne : fields ≠ [])
    (hf : ReadableFields word fields) (m : Machine) (done : List (Option String × Written))
    (stack : List Frame) (hm : ExpectsKey m stack done) :
    (⟨.between, m⟩ : Reader).run word (writeFields fields ++ ['\x7d']) =
      some ⟨.between, .after stack (.object (done.reverse ++ Written.ofFields fields))⟩ := by
  have hkey : ∀ k, (⟨.between, m⟩ : Reader).run word (quote k) =
      some ⟨.between, .colon stack done (some k)⟩ := fun k => run_quote (hm _)
  have hcolon : ∀ k, (⟨.between, .colon stack done (some k)⟩ : Reader).step word ':' =
      some ⟨.between, .value (.fields done (some k) :: stack)⟩ := fun _ => rfl
  match fields with
  | [] => exact absurd rfl hne
  | [(k, j)] =>
    obtain ⟨r, hrun, hr⟩ := run_write j hf.1 (.value (.fields done (some k) :: stack)) _
      (expects_value _)
    rw [writeFields, List.append_assoc, List.cons_append, Reader.run_append, hkey, Option.bind_some,
      Reader.run, hcolon]
    dsimp only
    rw [Reader.run_append, hrun, Option.bind_some, hr.run_mark (by decide) (fun _ => rfl) rfl]
    simp [Reader.run, Written.ofFields]
  | (k, j) :: g :: rest =>
    obtain ⟨r, hrun, hr⟩ := run_write j hf.1 (.value (.fields done (some k) :: stack)) _
      (expects_value _)
    have hnext := run_writeFields (g :: rest) (by simp) hf.2 (.key stack ((some k, Written.ofJson j) :: done))
      ((some k, Written.ofJson j) :: done) stack fun _ => rfl
    rw [writeFields, List.append_assoc, List.append_assoc, List.cons_append, Reader.run_append, hkey,
      Option.bind_some, Reader.run, hcolon]
    dsimp only
    rw [List.cons_append, Reader.run_append, hrun, Option.bind_some,
      hr.run_mark (by decide) (fun _ => rfl) rfl, hnext]
    simp [Written.ofFields]

end

/-- **The text of a readable value is read as what it writes.** -/
theorem readBy_compact {j : Json} (hj : Readable word j) :
    Written.readBy word j.compact = some (Written.ofJson j) := by
  obtain ⟨r, hrun, hr⟩ := run_write j hj (.value []) [] (expects_value [])
  unfold Written.readBy compact Reader.initial
  rw [String.toList_ofList, hrun]
  exact hr.result

end Run

end FieldQuery.Json
