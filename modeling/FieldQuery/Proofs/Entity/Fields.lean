import FieldQuery.Entity
import FieldQuery.Proofs.Data.Except
import FieldQuery.Proofs.Data.KeyMap

/-!
# A record is what its fields are

The fields of a record are read one by one, and none of them depends on another one.  A field is an
attribute or a relation, and the record has the attributes and the relations of its fields in order.

* `Entity.Part` — what a single field of a record is read as, by `Entity.readPart`;
* `Entity.add` — the record with another field;
* `Entity.IsReadAs` — what some fields are read as;
* `Entity.attributesOf`, `Entity.relationsOf` — the attributes and the relations among parts.

Principal result: `Entity.ofJson_object_eq_ok_iff` — an object is read as a record exactly if its identity
and all its fields are read, and it is the record that has what they are read as.
-/

namespace FieldQuery

namespace Entity

/-- What a field of a record is. -/
inductive Part where
  | value (v : Value)
  | related (es : List Entity)

/-- An attribute, if the field can be one. -/
def readAttribute (entityType key : String) (j : Json) : Except RecordFault Part :=
  match Value.ofJson? j with
  | some v => .ok (.value v)
  | none => .error (.badValue entityType key)

/-- Reads a single field. -/
def readPart (entityType key : String) : Json → Except RecordFault Part
  | .object fields => (ofJson key (.object fields)).map fun r => .related [r]
  | .array items =>
    if items.any Json.isObject then (ofItems key items).map .related
    else readAttribute entityType key (.array items)
  | j => readAttribute entityType key j

/-- The record with another field. -/
def add (e : Entity) (key : String) : Part → Entity
  | .value v => e.setAttribute key v
  | .related es => e.setRelation key es

/-- The record with further fields. -/
def addAll (e : Entity) (parts : List (String × Part)) : Entity :=
  parts.foldl (fun e p => e.add p.1 p.2) e

/-- What some fields are read as. -/
def IsReadAs (entityType : String) (fields : List (String × Json)) (parts : List (String × Part)) : Prop :=
  List.Forall₂ (fun f p => p.1 = f.1 ∧ readPart entityType f.1 f.2 = .ok p.2) fields parts

theorem readAttribute_eq_ok_iff {entityType key : String} {j : Json} {p : Part} :
    readAttribute entityType key j = .ok p ↔ ∃ v, Value.ofJson? j = some v ∧ p = .value v := by
  unfold readAttribute
  cases Value.ofJson? j <;> simp [eq_comm]

/-- A field is read as an attribute, as a relation with the one record that it is, or as a relation with the
records that it lists. -/
theorem readPart_eq_ok {entityType key : String} {j : Json} {p : Part}
    (h : readPart entityType key j = .ok p) :
    (∃ v, Value.ofJson? j = some v ∧ p = .value v) ∨
      (∃ r, ofJson key j = .ok r ∧ p = .related [r]) ∨
      ∃ items es, j = .array items ∧ items.any Json.isObject = true ∧ ofItems key items = .ok es ∧
        p = .related es := by
  cases j with
  | object fields =>
    rw [readPart] at h
    obtain ⟨r, hr, rfl⟩ := Except.map_eq_ok_iff.1 h
    exact .inr (.inl ⟨r, hr, rfl⟩)
  | array items =>
    rw [readPart] at h
    split at h
    · rename_i hany
      obtain ⟨es, hes, rfl⟩ := Except.map_eq_ok_iff.1 h
      exact .inr (.inr ⟨items, es, rfl, hany, hes, rfl⟩)
    · exact .inl (readAttribute_eq_ok_iff.1 h)
  | null | bool _ | int _ | float _ | text _ =>
    exact .inl ((@readAttribute_eq_ok_iff entityType key _ _).1 h)

/-- Items are read one by one. -/
theorem ofItems_cons_eq_ok_iff {entityType : String} {j : Json} {items : List Json} {es : List Entity} :
    ofItems entityType (j :: items) = .ok es ↔
      ∃ e rest, ofJson entityType j = .ok e ∧ ofItems entityType items = .ok rest ∧ es = e :: rest := by
  rw [ofItems]
  constructor
  · intro h
    split at h
    · cases h
    · rename_i e he
      split at h
      · cases h
      · rename_i rest hrest
        cases h
        exact ⟨e, rest, he, hrest, rfl⟩
  · rintro ⟨e, rest, he, hrest, rfl⟩
    rw [he, hrest]

/-- Fields are read one by one. -/
theorem ofFields_cons (entityType key : String) (j : Json) (fields : List (String × Json)) (e : Entity) :
    ofFields entityType ((key, j) :: fields) e =
      (readPart entityType key j).bind fun p => ofFields entityType fields (e.add key p) := by
  cases j with
  | object nested =>
    rw [ofFields, readPart, ofJson]
    cases readId key nested with
    | error f => rfl
    | ok id =>
      dsimp only
      cases ofFields key nested (.mk key id [] []) <;> rfl
  | array items =>
    rw [ofFields, readPart]
    split
    · cases ofItems key items <;> rfl
    · unfold readAttribute
      cases Value.ofJson? (.array items) <;> rfl
  | null | bool _ | int _ | float _ | text _ =>
    rw [ofFields, readPart, readAttribute]
    · cases Value.ofJson? _ <;> rfl
    all_goals simp

/-- **A record is read exactly if each of its fields is, and it has what the fields are read as.** -/
theorem ofFields_eq_ok_iff {entityType : String} {fields : List (String × Json)} {e e' : Entity} :
    ofFields entityType fields e = .ok e' ↔
      ∃ parts, IsReadAs entityType fields parts ∧ e' = e.addAll parts := by
  induction fields generalizing e with
  | nil =>
    rw [ofFields]
    constructor
    · intro h
      cases h
      exact ⟨[], .nil, rfl⟩
    · rintro ⟨parts, hparts, rfl⟩
      cases hparts
      rfl
  | cons f fields ih =>
    obtain ⟨key, j⟩ := f
    rw [ofFields_cons]
    cases hpart : readPart entityType key j with
    | error fault =>
      constructor
      · intro h
        cases h
      · rintro ⟨parts, hparts, -⟩
        cases hparts with
        | cons hhead _ =>
          rw [hpart] at hhead
          cases hhead.2
    | ok p =>
      show ofFields entityType fields (e.add key p) = .ok e' ↔ _
      rw [ih]
      constructor
      · rintro ⟨parts, hparts, rfl⟩
        exact ⟨(key, p) :: parts, .cons ⟨rfl, hpart⟩ hparts, rfl⟩
      · rintro ⟨parts, hparts, rfl⟩
        cases hparts with
        | @cons _ q _ rest hhead htail =>
          obtain ⟨name, q⟩ := q
          obtain ⟨rfl, hq⟩ := hhead
          rw [hpart] at hq
          cases hq
          exact ⟨rest, htail, rfl⟩

/-! ## Attributes and relations -/

/-- The value of an attribute. -/
def Part.value? : Part → Option Value
  | .value v => some v
  | .related _ => none

/-- The records of a relation. -/
def Part.related? : Part → Option (List Entity)
  | .value _ => none
  | .related es => some es

/-- The attributes among parts. -/
def attributesOf (parts : List (String × Part)) : List (String × Value) :=
  parts.filterMap fun p => p.2.value?.map (p.1, ·)

/-- The relations among parts. -/
def relationsOf (parts : List (String × Part)) : List (String × List Entity) :=
  parts.filterMap fun p => p.2.related?.map (p.1, ·)

theorem Part.value?_eq_some_iff {p : Part} {v : Value} : p.value? = some v ↔ p = .value v := by
  cases p <;> simp [Part.value?]

theorem Part.related?_eq_some_iff {p : Part} {es : List Entity} :
    p.related? = some es ↔ p = .related es := by
  cases p <;> simp [Part.related?]

/-- What is found under a name is made of a part under this name. -/
theorem mem_filterMap_part {α : Type} {f : Part → Option α} {parts : List (String × Part)} {key : String}
    {a : α} : (key, a) ∈ parts.filterMap (fun p => (f p.2).map (p.1, ·)) ↔
      ∃ p, (key, p) ∈ parts ∧ f p = some a := by
  rw [List.mem_filterMap]
  constructor
  · rintro ⟨⟨name, p⟩, hmem, hsome⟩
    obtain ⟨b, hb, heq⟩ := Option.map_eq_some_iff.1 hsome
    cases heq
    exact ⟨p, hmem, hb⟩
  · rintro ⟨p, hmem, ha⟩
    exact ⟨(key, p), hmem, congrArg (Option.map (key, ·)) ha⟩

theorem mem_attributesOf {parts : List (String × Part)} {key : String} {v : Value} :
    (key, v) ∈ attributesOf parts ↔ (key, .value v) ∈ parts := by
  unfold attributesOf
  simp only [mem_filterMap_part, Part.value?_eq_some_iff, exists_eq_right]

theorem mem_relationsOf {parts : List (String × Part)} {key : String} {es : List Entity} :
    (key, es) ∈ relationsOf parts ↔ (key, .related es) ∈ parts := by
  unfold relationsOf
  simp only [mem_filterMap_part, Part.related?_eq_some_iff, exists_eq_right]

/-- Names of parts of one kind are names of parts. -/
theorem keys_filterMap_sublist {α : Type} (f : Part → Option α) (parts : List (String × Part)) :
    (KeyMap.keys (parts.filterMap fun p => (f p.2).map (p.1, ·))).Sublist (KeyMap.keys parts) := by
  induction parts with
  | nil => exact List.Sublist.slnil
  | cons p parts ih =>
    cases h : f p.2 with
    | none =>
      rw [List.filterMap_cons_none (by rw [h]; rfl)]
      exact ih.cons _
    | some a =>
      rw [List.filterMap_cons_some (by rw [h]; rfl)]
      exact ih.cons_cons _

theorem nodup_attributesOf {parts : List (String × Part)} (h : (KeyMap.keys parts).Nodup) :
    (KeyMap.keys (attributesOf parts)).Nodup := h.sublist (keys_filterMap_sublist _ parts)

theorem nodup_relationsOf {parts : List (String × Part)} (h : (KeyMap.keys parts).Nodup) :
    (KeyMap.keys (relationsOf parts)).Nodup := h.sublist (keys_filterMap_sublist _ parts)

/-- The attribute under a name is the part under it. -/
theorem get?_attributesOf {parts : List (String × Part)} (h : (KeyMap.keys parts).Nodup) {key : String}
    {v : Value} :
    KeyMap.get? key (KeyMap.ofPairs (attributesOf parts)) = some v ↔ (key, .value v) ∈ parts := by
  rw [KeyMap.get?_ofPairs (nodup_attributesOf h), mem_attributesOf]

/-- The relation under a name is the part under it. -/
theorem get?_relationsOf {parts : List (String × Part)} (h : (KeyMap.keys parts).Nodup) {key : String}
    {es : List Entity} :
    KeyMap.get? key (KeyMap.ofPairs (relationsOf parts)) = some es ↔ (key, .related es) ∈ parts := by
  rw [KeyMap.get?_ofPairs (nodup_relationsOf h), mem_relationsOf]

/-- Attributes and relations are added each to their own. -/
theorem addAll_eq (e : Entity) (parts : List (String × Part)) :
    e.addAll parts = .mk e.entityType e.id
      ((attributesOf parts).foldl (fun m a => KeyMap.insert a.1 a.2 m) e.attributes)
      ((relationsOf parts).foldl (fun m r => KeyMap.insert r.1 r.2 m) e.relations) := by
  induction parts generalizing e with
  | nil =>
    cases e
    rfl
  | cons p parts ih =>
    obtain ⟨key, p⟩ := p
    have hstep : e.addAll ((key, p) :: parts) = (e.add key p).addAll parts := rfl
    rw [hstep, ih]
    cases p <;> rfl

/-- The names of the fields are those of the parts. -/
theorem IsReadAs.keys_eq {entityType : String} {fields : List (String × Json)}
    {parts : List (String × Part)} (h : IsReadAs entityType fields parts) :
    KeyMap.keys parts = KeyMap.keys fields := by
  unfold KeyMap.keys
  induction h with
  | nil => rfl
  | cons hhead _ ih => rw [List.map_cons, List.map_cons, hhead.1, ih]

theorem IsReadAs.nodup_keys {entityType : String} {fields : List (String × Json)}
    {parts : List (String × Part)} (h : IsReadAs entityType fields parts)
    (hnodup : (KeyMap.keys fields).Nodup) : (KeyMap.keys parts).Nodup := by
  rw [h.keys_eq]
  exact hnodup

/-- Every part is read from a field. -/
theorem IsReadAs.exists_field {entityType : String} {fields : List (String × Json)}
    {parts : List (String × Part)} (h : IsReadAs entityType fields parts) {key : String} {p : Part}
    (hp : (key, p) ∈ parts) : ∃ j, (key, j) ∈ fields ∧ readPart entityType key j = .ok p := by
  induction h with
  | nil => cases hp
  | @cons f q fields parts hhead _ ih =>
    rcases List.mem_cons.1 hp with rfl | hp
    · obtain ⟨hkey, hread⟩ := hhead
      obtain rfl : key = f.1 := hkey
      exact ⟨f.2, List.mem_cons_self, hread⟩
    · obtain ⟨j, hj, hread⟩ := ih hp
      exact ⟨j, List.mem_cons_of_mem _ hj, hread⟩

/-- Every field is read as a part. -/
theorem IsReadAs.exists_part {entityType : String} {fields : List (String × Json)}
    {parts : List (String × Part)} (h : IsReadAs entityType fields parts) {key : String} {j : Json}
    (hj : (key, j) ∈ fields) : ∃ p, (key, p) ∈ parts ∧ readPart entityType key j = .ok p := by
  induction h with
  | nil => cases hj
  | @cons f q fields parts hhead _ ih =>
    rcases List.mem_cons.1 hj with rfl | hj
    · obtain ⟨hkey, hread⟩ := hhead
      obtain rfl : q.1 = key := hkey
      exact ⟨q.2, List.mem_cons_self, hread⟩
    · obtain ⟨p, hp, hread⟩ := ih hj
      exact ⟨p, List.mem_cons_of_mem _ hp, hread⟩

/-- **An object is read as a record exactly if its identity and all its fields are read**, and it is the
record that has what they are read as. -/
theorem ofJson_object_eq_ok_iff {entityType : String} {fields : List (String × Json)} {e : Entity} :
    ofJson entityType (.object fields) = .ok e ↔
      ∃ id parts, readId entityType fields = .ok id ∧ IsReadAs entityType fields parts ∧
        e = .mk entityType id (KeyMap.ofPairs (attributesOf parts))
          (KeyMap.ofPairs (relationsOf parts)) := by
  rw [ofJson]
  constructor
  · intro h
    split at h
    · cases h
    · rename_i id hid
      obtain ⟨parts, hparts, rfl⟩ := ofFields_eq_ok_iff.1 h
      exact ⟨id, parts, hid, hparts, addAll_eq _ parts⟩
  · rintro ⟨id, parts, hid, hparts, rfl⟩
    rw [hid]
    exact ofFields_eq_ok_iff.2 ⟨parts, hparts, (addAll_eq (.mk entityType id [] []) parts).symm⟩

end Entity

end FieldQuery
