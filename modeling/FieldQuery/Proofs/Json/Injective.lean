import FieldQuery.Proofs.Json.RoundTrip
import FieldQuery.Proofs.Number.ReadBack

/-!
# Different values have different texts

The reader of the program rounds decimals twice, so that it may take the texts of two neighbours for
one number.  An exact reading of the same words tells all finite numbers apart.

* `exactWord` — the exact reading of words and numbers;
* `Json.IsFinite` — a value whose numbers are finite.

Principal result: `compact_injective` — values with finite numbers that have the same text are the
same.
-/

namespace FieldQuery.Json

open Text

/-- A whole number with or without a minus. -/
def exactWhole : List Char → Int
  | '-' :: ds => -(foldDigits 0 ds : Int)
  | ds => foldDigits 0 ds

/-- The three words, whole numbers, and decimals read exactly. -/
def exactWord (cs : List Char) : Option Written :=
  if cs = ['n', 'u', 'l', 'l'] then some .null
  else if cs = ['t', 'r', 'u', 'e'] then some (.bool true)
  else if cs = ['f', 'a', 'l', 's', 'e'] then some (.bool false)
  else if '.' ∈ cs ∨ 'e' ∈ cs then (Binary64.read cs).map .float
  else some (.int (exactWhole cs))

mutual

/-- Whether all numbers of a value are finite. -/
def IsFinite : Json → Prop
  | .float x => x.isFinite = true
  | .array items => AllFinite items
  | .object fields => FieldsFinite fields
  | .null => True
  | .bool _ => True
  | .int _ => True
  | .text _ => True

/-- `IsFinite` for every item. -/
def AllFinite : List Json → Prop
  | [] => True
  | j :: js => IsFinite j ∧ AllFinite js

/-- `IsFinite` for every field. -/
def FieldsFinite : List (String × Json) → Prop
  | [] => True
  | (_, j) :: fs => IsFinite j ∧ FieldsFinite fs

end

/-- What consists of the characters of numbers is none of the three words. -/
theorem exactWord_numeral {cs : List Char} (hne : cs ≠ []) (h : ∀ c ∈ cs, IsNumeral c) :
    exactWord cs = if '.' ∈ cs ∨ 'e' ∈ cs then (Binary64.read cs).map .float
      else some (.int (exactWhole cs)) := by
  have hword : ∀ c ds, ¬ IsNumeral c → cs ≠ c :: ds := by
    rintro c ds hc rfl
    exact hc (h c List.mem_cons_self)
  have hn : ¬ IsNumeral 'n' := by unfold IsNumeral; decide
  have ht : ¬ IsNumeral 't' := by unfold IsNumeral; decide
  have hf : ¬ IsNumeral 'f' := by unfold IsNumeral; decide
  unfold exactWord
  rw [if_neg (hword 'n' _ hn), if_neg (hword 't' _ ht), if_neg (hword 'f' _ hf)]

theorem exactWord_intNumeral (n : Int) : exactWord (intNumeral n) = some (.int n) := by
  have hdigit : ∀ c, isDigit c = false → c ∉ natNumeral n.natAbs := by
    intro c hc hmem
    rw [List.all_eq_true.1 (all_isDigit_natNumeral _) c hmem] at hc
    cases hc
  have hpoint := hdigit '.' (by decide)
  have hexp := hdigit 'e' (by decide)
  have hminus := hdigit '-' (by decide)
  rw [exactWord_numeral (intNumeral_ne_nil n) (isNumeral_intNumeral n)]
  unfold intNumeral
  split
  · rename_i hneg
    rw [if_neg (by simp [hpoint, hexp]), exactWhole, foldDigits_natNumeral]
    congr 2
    omega
  · rename_i hnonneg
    rw [if_neg (by simp [hpoint, hexp])]
    have hwhole : exactWhole (natNumeral n.natAbs) = foldDigits 0 (natNumeral n.natAbs) := by
      unfold exactWhole
      split
      · rename_i heq
        rw [heq] at hminus
        exact absurd List.mem_cons_self hminus
      · rfl
    rw [hwhole, foldDigits_natNumeral]
    congr 2
    omega

/-- A decimal has a point or an exponent. -/
theorem mem_layout (x : Scientific) : '.' ∈ jsonStyle.layout x ∨ 'e' ∈ jsonStyle.layout x := by
  have hne := natNumeral_ne_nil x.digits
  unfold NumberStyle.layout
  dsimp only
  generalize natNumeral x.digits = ds at hne ⊢
  split
  · left
    split
    · simp [jsonStyle]
    · split <;> simp
  · right
    cases ds with
    | nil => exact absurd rfl hne
    | cons d rest => cases rest <;> simp [exponentText]

theorem exactWord_printJson {x : Binary64} (hx : x.isFinite = true) :
    exactWord x.printJson = some (.float x) := by
  have hmark : '.' ∈ x.printJson ∨ 'e' ∈ x.printJson := by
    unfold Binary64.printJson Binary64.printFinite
    dsimp only
    split
    · exact (mem_layout _).imp (List.mem_cons_of_mem _) (List.mem_cons_of_mem _)
    · exact mem_layout _
  rw [exactWord_numeral (printJson_ne_nil x) (isNumeral_printJson x), if_pos hmark,
    Binary64.read_printJson hx]
  rfl

mutual

theorem IsFinite.readable : ∀ {j : Json}, IsFinite j → Readable exactWord j
  | .null, _ => rfl
  | .bool true, _ => rfl
  | .bool false, _ => rfl
  | .int n, _ => by
    unfold Readable
    rw [write]
    exact exactWord_intNumeral n
  | .float x, h => by
    unfold Readable
    rw [write]
    exact exactWord_printJson h
  | .text _, _ => trivial
  | .array _, h => AllFinite.readable h
  | .object _, h => FieldsFinite.readable h

theorem AllFinite.readable : ∀ {js : List Json}, AllFinite js → ReadableItems exactWord js
  | [], _ => trivial
  | _ :: _, h => ⟨IsFinite.readable h.1, AllFinite.readable h.2⟩

theorem FieldsFinite.readable :
    ∀ {fs : List (String × Json)}, FieldsFinite fs → ReadableFields exactWord fs
  | [], _ => trivial
  | (_, _) :: _, h => ⟨IsFinite.readable h.1, FieldsFinite.readable h.2⟩

end

mutual

/-- What is written tells the value. -/
theorem Written.ofJson_injective : ∀ {j k : Json}, Written.ofJson j = Written.ofJson k → j = k
  | .null, .null, _ => rfl
  | .bool _, .bool _, h => by cases h; rfl
  | .int _, .int _, h => by cases h; rfl
  | .float _, .float _, h => by cases h; rfl
  | .text _, .text _, h => by cases h; rfl
  | .array _, .array _, h => congrArg _ (Written.ofJsons_injective (Written.array.inj h))
  | .object _, .object _, h => congrArg _ (Written.ofFields_injective (Written.object.inj h))

theorem Written.ofJsons_injective :
    ∀ {js ks : List Json}, Written.ofJsons js = Written.ofJsons ks → js = ks
  | [], [], _ => rfl
  | _ :: _, _ :: _, h => by
    obtain ⟨hhead, htail⟩ := List.cons.inj h
    rw [Written.ofJson_injective hhead, Written.ofJsons_injective htail]

theorem Written.ofFields_injective :
    ∀ {fs gs : List (String × Json)}, Written.ofFields fs = Written.ofFields gs → fs = gs
  | [], [], _ => rfl
  | (_, _) :: _, (_, _) :: _, h => by
    obtain ⟨hhead, htail⟩ := List.cons.inj h
    obtain ⟨hkey, hvalue⟩ := Prod.mk.inj hhead
    rw [Option.some.inj hkey, Written.ofJson_injective hvalue, Written.ofFields_injective htail]

end

/-- **Values with finite numbers that have the same text are the same.** -/
theorem compact_injective {j k : Json} (hj : IsFinite j) (hk : IsFinite k)
    (h : j.compact = k.compact) : j = k := by
  have hread := readBy_compact hj.readable
  rw [h, readBy_compact hk.readable] at hread
  exact (Written.ofJson_injective (Option.some.inj hread)).symm

end FieldQuery.Json
