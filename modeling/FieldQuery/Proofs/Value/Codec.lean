import FieldQuery.Entity
import FieldQuery.Proofs.Json.Injective
import FieldQuery.Proofs.Time.ReadBack

/-!
# Encoded values are read back

* `Value.IsKept` — every finite decimal inside a value is what its text is read as.  Decimals of many
  digits may lack this, since the reader of the program rounds twice;
* `Value.IsFinite` — every decimal inside a value is finite.

Principal results: `decode?_encode` — what an encoded value is read as, if it can be read at all, is
that value, as long as its decimals are kept; `tagged_injective` — finite values are told apart by
their tagged form; `decodeList?_encodeList` — encoded identities are read back.
-/

namespace FieldQuery

open Text Json

/-! ## Whole numbers -/

namespace Text

theorem le_foldDigits (n : Nat) (cs : List Char) : n ≤ foldDigits n cs := by
  induction cs generalizing n with
  | nil => exact Nat.le_refl n
  | cons c cs ih =>
    have := ih (10 * n + digitValue c)
    show n ≤ foldDigits (10 * n + digitValue c) cs
    omega

/-- A numeral has no leading zero. -/
theorem natNumeral_eq_cons (n : Nat) :
    ∃ c cs, natNumeral n = c :: cs ∧ (c = '0' → n = 0 ∧ cs = []) := by
  have hdigit : ∀ d, d < 10 → digitChar d = '0' → d = 0 := by decide
  rw [natNumeral]
  split
  · rename_i hsmall
    exact ⟨_, _, rfl, fun h => ⟨hdigit n hsmall h, rfl⟩⟩
  · obtain ⟨c, cs, hcs, hzero⟩ := natNumeral_eq_cons (n / 10)
    rw [hcs]
    refine ⟨c, _, rfl, fun h => ?_⟩
    have := (hzero h).1
    omega
termination_by n
decreasing_by omega

end Text

namespace Binary64

/-- Digits that fit a word are all kept. -/
theorem keepDigits_eq {n : Nat} {cs : List Char} (h : foldDigits n cs ≤ wordMax) :
    keepDigits n cs = (foldDigits n cs, 0) := by
  induction cs generalizing n with
  | nil => rfl
  | cons c cs ih =>
    have hfold : foldDigits n (c :: cs) = foldDigits (10 * n + digitValue c) cs := rfl
    rw [hfold] at h ⊢
    have := le_foldDigits (10 * n + digitValue c) cs
    rw [keepDigits, if_pos (by omega), ih h]

end Binary64

namespace Json

theorem isWhole_natNumeral (n : Nat) : isWhole (natNumeral n) = true := by
  obtain ⟨c, cs, hcs, hzero⟩ := natNumeral_eq_cons n
  rw [hcs]
  by_cases hc : c = '0'
  · rw [(hzero hc).2, hc]
    rfl
  · unfold isWhole
    split
    · rename_i heq
      cases heq
    · rfl
    · rename_i heq
      cases heq
      simpa using hc

theorem readMagnitude_natNumeral (negative : Bool) {n : Nat} (hn : n ≤ wordMax) :
    readMagnitude negative (natNumeral n) =
      if !negative then some (.int n)
      else if 0 < n ∧ minInt ≤ -(n : Int) then some (.int (-(n : Int)))
      else some (.float (Binary64.ofDigits true n 0)) := by
  obtain ⟨htake, hdrop⟩ := Binary64.takeWhile_digits (all_isDigit_natNumeral n) Binary64.noDigit_nil
  rw [List.append_nil] at htake hdrop
  have hkeep := @Binary64.keepDigits_eq 0 (natNumeral n) (by rwa [foldDigits_natNumeral])
  rw [foldDigits_natNumeral] at hkeep
  unfold readMagnitude
  simp [htake, hdrop, hkeep, isWhole_natNumeral]

/-- Whole numbers of 64 bits are read back. -/
theorem readWord_intNumeral {n : Int} (hmin : minInt ≤ n) (hmax : n ≤ maxInt) :
    readWord (intNumeral n) = some (.int n) := by
  have hword : ∀ c ds, ¬ IsNumeral c → intNumeral n ≠ c :: ds := by
    rintro c ds hc heq
    exact hc (isNumeral_intNumeral n c (by rw [heq]; exact List.mem_cons_self))
  have hn : ¬ IsNumeral 'n' := by unfold IsNumeral; decide
  have ht : ¬ IsNumeral 't' := by unfold IsNumeral; decide
  have hf : ¬ IsNumeral 'f' := by unfold IsNumeral; decide
  unfold readWord
  rw [if_neg (hword 'n' _ hn), if_neg (hword 't' _ ht), if_neg (hword 'f' _ hf)]
  have hfits : n.natAbs ≤ wordMax := by
    unfold minInt at hmin
    unfold maxInt at hmax
    unfold wordMax
    omega
  unfold intNumeral
  split
  · rename_i hneg
    show readMagnitude true (natNumeral n.natAbs) = _
    rw [readMagnitude_natNumeral true hfits]
    have hpos : 0 < n.natAbs ∧ minInt ≤ -(n.natAbs : Int) := by omega
    rw [if_neg (by decide), if_pos hpos]
    congr 2
    omega
  · rename_i hnonneg
    obtain ⟨c, cs, hcs, -⟩ := natNumeral_eq_cons n.natAbs
    have hread := readMagnitude_natNumeral false hfits
    have hdigit := all_isDigit_natNumeral n.natAbs
    rw [hcs] at hread hdigit ⊢
    unfold readNumber
    split
    · rename_i heq
      cases heq
      simp [isDigit] at hdigit
    · rw [hread, if_pos (by decide)]
      congr 2
      omega

theorem readWord_int64 (n : Int64) : readWord (intNumeral n.toInt) = some (.int n.toInt) :=
  readWord_intNumeral n.minValue_le_toInt n.toInt_le

end Json

/-! ## Values -/

namespace Value

mutual

/-- Whether every finite decimal inside a value is what its text is read as. -/
def IsKept : Value → Prop
  | .decimal x => x.isFinite = true → readWord x.printJson = some (.float x)
  | .list items => AllKept items
  | .null => True
  | .bool _ => True
  | .int _ => True
  | .text _ => True
  | .instant _ => True

/-- `IsKept` for every item. -/
def AllKept : List Value → Prop
  | [] => True
  | v :: vs => IsKept v ∧ AllKept vs

end

mutual

/-- Whether every decimal inside a value is finite. -/
def IsFinite : Value → Prop
  | .decimal x => x.isFinite = true
  | .list items => AllFinite items
  | .null => True
  | .bool _ => True
  | .int _ => True
  | .text _ => True
  | .instant _ => True

/-- `IsFinite` for every item. -/
def AllFinite : List Value → Prop
  | [] => True
  | v :: vs => IsFinite v ∧ AllFinite vs

end

/-- Tagged content can be read if the content can. -/
theorem readable_tag {word : List Char → Option Written} {k : Kind} {c : Json}
    (h : Readable word c) : Readable word (tag k c) := by
  simp [tag, Readable, ReadableFields, h]

mutual

theorem IsKept.readable : ∀ {v : Value}, IsKept v → Readable readWord v.tagged
  | .null, _ => by simp [tagged, Readable, ReadableFields]
  | .bool true, _ => readable_tag rfl
  | .bool false, _ => readable_tag rfl
  | .int n, _ => readable_tag (by rw [Readable, write]; exact readWord_int64 n)
  | .decimal x, h => by
    refine readable_tag ?_
    unfold ofBinary64
    split
    · rename_i hfinite
      rw [Readable, write]
      exact h hfinite
    · rfl
  | .text _, _ => readable_tag trivial
  | .instant _, _ => readable_tag trivial
  | .list _, h => readable_tag (AllKept.readable h)

theorem AllKept.readable : ∀ {vs : List Value}, AllKept vs → ReadableItems readWord (taggeds vs)
  | [], _ => trivial
  | _ :: _, h => ⟨IsKept.readable h.1, AllKept.readable h.2⟩

end

/-- The items of a tagged list in a text in which containers may nest `room` deep. -/
def itemsOf? : Nat → List Written → Option (List Value)
  | 0, _ => none
  | room + 1, ws => ws.mapM (ofWritten? room)

/-- Tagged content is read by its kind. -/
theorem ofWritten?_tag (room : Nat) (k : Kind) (c : Json) :
    ofWritten? (room + 1) (Written.ofJson (tag k c)) =
      ofWrittenContent? (itemsOf? room) room k (Written.ofJson c) := by
  cases room with
  | zero =>
    simp [ofWritten?, tag, Written.ofJson, Written.ofFields, relevantFields?, isRelevant,
      kindOfWritten?, Kind.ofName?_name_self]
    rfl
  | succ room =>
    simp [ofWritten?, tag, Written.ofJson, Written.ofFields, relevantFields?, isRelevant,
      kindOfWritten?, Kind.ofName?_name_self]
    rfl

theorem ofWritten?_null (room : Nat) :
    ofWritten? (room + 1) (Written.ofJson (tagged .null)) = some .null := by
  cases room with
  | zero =>
    simp [ofWritten?, tagged, Written.ofJson, Written.ofFields, relevantFields?, isRelevant,
      kindOfWritten?, Kind.ofName?_name_self]
  | succ room =>
    simp [ofWritten?, tagged, Written.ofJson, Written.ofFields, relevantFields?, isRelevant,
      kindOfWritten?, Kind.ofName?_name_self]

/-- Content without items is read as the value that it was written for. -/
theorem ofScalar?_tagged {v w : Value} {room : Nat} {k : Kind} {c : Json}
    (htag : v.tagged = tag k c) (hk : k ≠ .list)
    (h : ofWritten? (room + 1) (Written.ofJson v.tagged) = some w) :
    ((Written.ofJson c).value? room).bind (ofScalar? k) = some w := by
  rw [htag, ofWritten?_tag] at h
  unfold ofWrittenContent? at h
  split at h
  · exact absurd rfl hk
  · exact h

mutual

/-- What the tagged form of a value is read as is that value. -/
theorem ofWritten?_tagged (v : Value) {room : Nat} {w : Value}
    (h : ofWritten? (room + 1) (Written.ofJson v.tagged) = some w) : w = v := by
  match v with
  | .null =>
    rw [ofWritten?_null] at h
    exact (Option.some.inj h).symm
  | .bool b =>
    have hread := ofScalar?_tagged rfl (by decide) h
    simp [Written.ofJson, Written.value?, ofScalar?] at hread
    exact hread.symm
  | .int n =>
    have hread := ofScalar?_tagged rfl (by decide) h
    simp [Written.ofJson, Written.value?, ofScalar?, int64?_toInt] at hread
    exact hread.symm
  | .decimal x =>
    have hread := ofScalar?_tagged rfl (by decide) h
    unfold ofBinary64 at hread
    split at hread
    · rename_i hfinite
      simp [Written.ofJson, Written.value?, hfinite, ofScalar?] at hread
      exact hread.symm
    · simp [Written.ofJson, Written.value?, ofScalar?] at hread
  | .text s =>
    have hread := ofScalar?_tagged rfl (by decide) h
    simp [Written.ofJson, Written.value?, ofScalar?] at hread
    exact hread.symm
  | .instant t =>
    have hread := ofScalar?_tagged rfl (by decide) h
    simp [Written.ofJson, Written.value?, ofScalar?, Time.readRelaxed?_printZulu] at hread
    exact hread.symm
  | .list items =>
    rw [tagged, ofWritten?_tag] at h
    obtain ⟨vs, hvs, rfl⟩ : ∃ vs, itemsOf? room (Written.ofJsons (taggeds items)) = some vs ∧
        .list vs = w := Option.map_eq_some_iff.1 h
    rw [itemsOf?_taggeds items hvs]

theorem itemsOf?_taggeds (vs : List Value) {room : Nat} {ws : List Value}
    (h : itemsOf? room (Written.ofJsons (taggeds vs)) = some ws) : ws = vs := by
  match room, vs with
  | 0, _ => cases h
  | room + 1, [] =>
    cases h
    rfl
  | 1, v :: vs =>
    simp [itemsOf?, taggeds, Written.ofJsons, ofWritten?] at h
  | room + 2, v :: vs =>
    rw [taggeds, Written.ofJsons] at h
    have hmap : (Written.ofJson v.tagged :: Written.ofJsons (taggeds vs)).mapM
        (ofWritten? (room + 1)) = some ws := h
    rw [List.mapM_cons] at hmap
    obtain ⟨w, hw, hrest⟩ := Option.bind_eq_some_iff.1 hmap
    obtain ⟨ws', hws, hcons⟩ := Option.bind_eq_some_iff.1 hrest
    have hitems : itemsOf? (room + 2) (Written.ofJsons (taggeds vs)) = some ws' := hws
    rw [ofWritten?_tagged v hw, itemsOf?_taggeds vs hitems] at hcons
    exact (Option.some.inj hcons).symm

end

/-- **What an encoded value is read as is that value**, as long as its decimals are kept. -/
theorem decode?_encode {v w : Value} (hv : v.IsKept) (h : decode? v.encode = some w) : w = v := by
  unfold decode? encode Written.read at h
  rw [readBy_compact hv.readable] at h
  exact ofWritten?_tagged v h

/-! ## Tagged forms -/

mutual

/-- The tagged form has finite numbers only. -/
theorem isFinite_tagged : ∀ v : Value, Json.IsFinite v.tagged
  | .null => by simp [tagged, Json.IsFinite, FieldsFinite]
  | .bool _ => by simp [tagged, tag, Json.IsFinite, FieldsFinite]
  | .int _ => by simp [tagged, tag, Json.IsFinite, FieldsFinite]
  | .decimal x => by
    unfold tagged ofBinary64
    split
    · rename_i hfinite
      simp [tag, Json.IsFinite, FieldsFinite, hfinite]
    · simp [tag, Json.IsFinite, FieldsFinite]
  | .text _ => by simp [tagged, tag, Json.IsFinite, FieldsFinite]
  | .instant _ => by simp [tagged, tag, Json.IsFinite, FieldsFinite]
  | .list vs => by simp [tagged, tag, Json.IsFinite, FieldsFinite, allFinite_taggeds vs]

theorem allFinite_taggeds : ∀ vs : List Value, Json.AllFinite (taggeds vs)
  | [] => trivial
  | v :: vs => ⟨isFinite_tagged v, allFinite_taggeds vs⟩

end

theorem tag_injective {k k' : Kind} {c c' : Json} (h : tag k c = tag k' c') : k = k' ∧ c = c' := by
  unfold tag at h
  simp only [Json.object.injEq, List.cons.injEq, Prod.mk.injEq, true_and, and_true,
    Json.text.injEq] at h
  refine ⟨Option.some.inj ?_, h.2⟩
  rw [← Kind.ofName?_name_self, h.1, Kind.ofName?_name_self]

/-- The kind of a value. -/
def kind : Value → Kind
  | .null => .null
  | .bool _ => .bool
  | .int _ => .int
  | .decimal _ => .decimal
  | .text _ => .text
  | .instant _ => .instant
  | .list _ => .list

/-- The tagged form begins with the kind. -/
theorem tagged_eq (v : Value) : ∃ rest, v.tagged = .object (("type", .text v.kind.name) :: rest) := by
  cases v <;> exact ⟨_, rfl⟩

theorem kind_eq_of_tagged {v w : Value} (h : v.tagged = w.tagged) : v.kind = w.kind := by
  obtain ⟨rest, hv⟩ := tagged_eq v
  obtain ⟨rest', hw⟩ := tagged_eq w
  rw [hv, hw] at h
  simp only [Json.object.injEq, List.cons.injEq, Prod.mk.injEq, true_and, Json.text.injEq] at h
  refine Option.some.inj ?_
  rw [← Kind.ofName?_name_self, h.1, Kind.ofName?_name_self]

mutual

/-- **Finite values are told apart by their tagged form.** -/
theorem tagged_injective (v : Value) {w : Value} (hv : v.IsFinite) (hw : w.IsFinite)
    (h : v.tagged = w.tagged) : v = w := by
  have hkind := kind_eq_of_tagged h
  match v with
  | .null =>
    cases w with
    | null => rfl
    | _ => cases hkind
  | .bool b =>
    cases w with
    | bool b' => rw [Json.bool.inj (tag_injective h).2]
    | _ => cases hkind
  | .int n =>
    cases w with
    | int n' => rw [Int64.toInt_inj.1 (Json.int.inj (tag_injective h).2)]
    | _ => cases hkind
  | .decimal x =>
    cases w with
    | decimal y =>
      have hx : x.isFinite = true := hv
      have hy : y.isFinite = true := hw
      have hnumber := (tag_injective h).2
      unfold ofBinary64 at hnumber
      rw [if_pos hx, if_pos hy] at hnumber
      rw [Json.float.inj hnumber]
    | _ => cases hkind
  | .text s =>
    cases w with
    | text s' => rw [Json.text.inj (tag_injective h).2]
    | _ => cases hkind
  | .instant t =>
    cases w with
    | instant u =>
      have htext := String.ofList_injective (Json.text.inj (tag_injective h).2)
      rw [Time.printZulu_injective htext]
    | _ => cases hkind
  | .list vs =>
    cases w with
    | list ws => rw [taggeds_injective vs hv hw (Json.array.inj (tag_injective h).2)]
    | _ => cases hkind

/-- Lists of finite values are told apart by their tagged forms. -/
theorem taggeds_injective (vs : List Value) {ws : List Value} (hv : AllFinite vs)
    (hw : AllFinite ws) (h : taggeds vs = taggeds ws) : vs = ws := by
  match vs with
  | [] =>
    cases ws with
    | nil => rfl
    | cons w ws => cases h
  | v :: vs =>
    cases ws with
    | nil => cases h
    | cons w ws =>
      obtain ⟨hhead, htail⟩ := List.cons.inj h
      rw [tagged_injective v hv.1 hw.1 hhead, taggeds_injective vs hv.2 hw.2 htail]

end

end Value

/-! ## Identities -/

namespace EntityId

theorem readable_toJsons (ids : List EntityId) :
    ReadableItems readWord (ids.map toJson) := by
  induction ids with
  | nil => trivial
  | cons id ids ih =>
    refine ⟨?_, ih⟩
    cases id with
    | int n =>
      rw [toJson, Readable, write]
      exact readWord_int64 n
    | text s => trivial

theorem values?_toJsons (room : Nat) (ids : List EntityId) :
    Written.values? room (Written.ofJsons (ids.map toJson)) = some (ids.map toJson) := by
  induction ids with
  | nil => rfl
  | cons id ids ih => cases id <;> simp [Written.ofJsons, Written.ofJson, toJson, Written.values?,
      Written.value?, ih]

theorem ofJsons?_toJsons (ids : List EntityId) : ofJsons? (ids.map toJson) = some ids := by
  induction ids with
  | nil => rfl
  | cons id ids ih => cases id <;> simp [ofJsons?, toJson, ofJson?, int64?_toInt, ih]

/-- **Encoded identities are read back.** -/
theorem decodeList?_encodeList (ids : List EntityId) : decodeList? (encodeList ids) = some ids := by
  have hread : Json.read (encodeList ids) = some (.array (ids.map toJson)) := by
    unfold Json.read Written.read encodeList
    have hreadable : Readable readWord (.array (ids.map toJson)) := readable_toJsons ids
    rw [readBy_compact hreadable]
    show (Written.values? 126 (Written.ofJsons (ids.map toJson))).map Json.array = _
    rw [values?_toJsons]
    rfl
  unfold decodeList?
  rw [hread]
  exact ofJsons?_toJsons ids

end EntityId

end FieldQuery
