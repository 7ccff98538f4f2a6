import FieldQuery.Proofs.Entity.Fields
import FieldQuery.Proofs.Json.Parsed
import FieldQuery.Proofs.Listing.Views

/-!
# Records that are read have one form in JSON

A record may be written in several ways: a relation with one record as an object or as an array, a number
beyond 64 bits as a whole number or as a decimal.  Once it has been read, there is one way left, and this is
read as the same record.

* `Entity.Sound` — what the attributes and relations of a record have in common with one that was read;
* `Entity.IsRecord` — a record that is sound, and whose relations hold such records of their own type.

Principal results: `isRecord_of_ofJson` — records that are read are of this kind, `ofJson_toJson` — all
records of this kind are read back from what they are written as, and `ofJson_normalForm` for both together.
-/

namespace FieldQuery

namespace Entity

open Json

/-- Attributes and relations stand in order and under different names, attributes are what their natural
form says, and one of them is the identity. -/
structure Sound (e : Entity) : Prop where
  attributes_sorted : KeyMap.Sorted e.attributes
  relations_sorted : KeyMap.Sorted e.relations
  plain : ∀ {key v}, e.attribute? key = some v → v.IsPlain
  identity : e.attribute? "id" = some e.id.toValue
  apart : ∀ {key v}, e.attribute? key = some v → e.relation? key = none

mutual

/-- A record that is sound, and so are the records of its relations. -/
def IsRecord : Entity → Prop
  | .mk t id attributes relations => (Entity.mk t id attributes relations).Sound ∧ AreRelations relations

/-- No relation is without records, and those of a relation have its name as their type. -/
def AreRelations : List (String × List Entity) → Prop
  | [] => True
  | (key, es) :: rest => es ≠ [] ∧ AreRecordsOf key es ∧ AreRelations rest

/-- Records of one type. -/
def AreRecordsOf (entityType : String) : List Entity → Prop
  | [] => True
  | e :: es => (e.entityType = entityType ∧ IsRecord e) ∧ AreRecordsOf entityType es

end

theorem areRelations_iff {relations : List (String × List Entity)} :
    AreRelations relations ↔ ∀ r ∈ relations, r.2 ≠ [] ∧ AreRecordsOf r.1 r.2 := by
  induction relations with
  | nil => simp [AreRelations]
  | cons r relations ih =>
    rw [List.forall_mem_cons, ← ih, and_assoc]
    rfl

/-! ## What is read is a record -/

theorem entityType_of_ofJson {entityType : String} {j : Json} {e : Entity}
    (h : ofJson entityType j = .ok e) : e.entityType = entityType := by
  cases j with
  | object fields =>
    obtain ⟨id, parts, -, -, rfl⟩ := ofJson_object_eq_ok_iff.1 h
    rfl
  | null | bool _ | int _ | float _ | text _ | array _ =>
    rw [ofJson] at h
    cases h

/-- What is read as an identity is an attribute of the same value. -/
theorem readId_eq_ok {entityType : String} {fields : List (String × Json)} {id : EntityId}
    (h : readId entityType fields = .ok id) :
    ∃ j, ("id", j) ∈ fields ∧ readPart entityType "id" j = .ok (.value id.toValue) := by
  unfold readId at h
  split at h
  · rename_i n hn
    split at h
    · rename_i i hi
      cases h
      refine ⟨_, KeyMap.mem_of_get? hn, ?_⟩
      rw [readPart, readAttribute, Value.ofJson?, hi]
      all_goals simp [EntityId.toValue]
    · cases h
  · cases h
  · rename_i s hs
    cases h
    refine ⟨_, KeyMap.mem_of_get? hs, ?_⟩
    rw [readPart, readAttribute, Value.ofJson?]
    all_goals simp [EntityId.toValue]
  · cases h

/-- The record of some fields is sound. -/
theorem sound_of_isReadAs {entityType : String} {fields : List (String × Json)}
    {parts : List (String × Part)} {id : EntityId} (hnodup : (KeyMap.keys fields).Nodup)
    (hfields : FieldsWellFormed fields) (hid : readId entityType fields = .ok id)
    (hparts : IsReadAs entityType fields parts) :
    (Entity.mk entityType id (KeyMap.ofPairs (attributesOf parts))
      (KeyMap.ofPairs (relationsOf parts))).Sound := by
  have hkeys := hparts.nodup_keys hnodup
  refine ⟨KeyMap.sorted_ofPairs _, KeyMap.sorted_ofPairs _, ?_, ?_, ?_⟩
  · intro key v hv
    obtain ⟨j, hj, hread⟩ := hparts.exists_field ((get?_attributesOf hkeys).1 hv)
    rcases readPart_eq_ok hread with ⟨w, hw, heq⟩ | ⟨r, -, heq⟩ | ⟨items, es, -, -, -, heq⟩
    · cases heq
      exact Value.isPlain_of_ofJson? (fieldsWellFormed_iff.1 hfields _ hj) hw
    · cases heq
    · cases heq
  · obtain ⟨j, hj, hread⟩ := readId_eq_ok hid
    obtain ⟨p, hp, hread'⟩ := hparts.exists_part hj
    rw [hread] at hread'
    cases hread'
    exact (get?_attributesOf hkeys).2 hp
  · intro key v hv
    refine Option.eq_none_iff_forall_ne_some.2 fun es hes => ?_
    -- one name would have two parts
    have hsame := List.inj_on_of_nodup_map hkeys ((get?_attributesOf hkeys).1 hv)
      ((get?_relationsOf hkeys).1 hes) rfl
    cases hsame

mutual

/-- **What is read is a record.** -/
theorem isRecord_of_ofJson {entityType : String} {j : Json} {e : Entity} (hj : j.WellFormed)
    (h : ofJson entityType j = .ok e) : e.IsRecord := by
  match j with
  | .object fields =>
    obtain ⟨id, parts, hid, hparts, rfl⟩ := ofJson_object_eq_ok_iff.1 h
    refine ⟨sound_of_isReadAs hj.1 hj.2 hid hparts, areRelations_iff.2 fun r hr => ?_⟩
    have hpart := (get?_relationsOf (hparts.nodup_keys hj.1)).1 ((KeyMap.sorted_ofPairs _).get?_of_mem hr)
    obtain ⟨j, hfield, hread⟩ := hparts.exists_field hpart
    exact areRecords_of_readPart hj.2 hfield hread
  | .null | .bool _ | .int _ | .float _ | .text _ | .array _ =>
    rw [ofJson] at h
    cases h

/-- A relation that is read from a field has records. -/
theorem areRecords_of_readPart {entityType key : String} {fields : List (String × Json)} {j : Json}
    {es : List Entity} (hfields : FieldsWellFormed fields) (hj : (key, j) ∈ fields)
    (h : readPart entityType key j = .ok (.related es)) : es ≠ [] ∧ AreRecordsOf key es := by
  match fields with
  | [] => cases hj
  | (name, j') :: rest =>
    rcases List.mem_cons.1 hj with heq | hj
    · cases heq
      rcases readPart_eq_ok h with ⟨v, -, heq⟩ | ⟨r, hr, heq⟩ | ⟨items, es', rfl, hany, hes', heq⟩
      · cases heq
      · cases heq
        exact ⟨List.cons_ne_nil r [], ⟨entityType_of_ofJson hr, isRecord_of_ofJson hfields.1 hr⟩, trivial⟩
      · cases heq
        refine ⟨?_, areRecords_of_ofItems hfields.1 hes'⟩
        cases items with
        | nil => cases hany
        | cons item items =>
          obtain ⟨e, rest, -, -, rfl⟩ := ofItems_cons_eq_ok_iff.1 hes'
          exact List.cons_ne_nil e rest
    · exact areRecords_of_readPart hfields.2 hj h

theorem areRecords_of_ofItems {entityType : String} {items : List Json} {es : List Entity}
    (hitems : ItemsWellFormed items) (h : ofItems entityType items = .ok es) :
    AreRecordsOf entityType es := by
  match items with
  | [] =>
    rw [ofItems] at h
    cases h
    trivial
  | j :: items =>
    obtain ⟨e, rest, he, hrest, rfl⟩ := ofItems_cons_eq_ok_iff.1 h
    exact ⟨⟨entityType_of_ofJson he, isRecord_of_ofJson hitems.1 he⟩,
      areRecords_of_ofItems hitems.2 hrest⟩

end

/-! ## Records are read back -/

/-- What is no object and lists none is read as an attribute. -/
theorem readPart_eq_readAttribute {entityType key : String} {j : Json} (hj : j.isObject = false)
    (hitems : ∀ items, j = .array items → items.any Json.isObject = false) :
    readPart entityType key j = readAttribute entityType key j := by
  cases j with
  | object fields => cases hj
  | array items =>
    rw [readPart, hitems items rfl]
    rfl
  | null | bool _ | int _ | float _ | text _ => rfl

theorem isObject_toJson (v : Value) : v.toJson.isObject = false := by
  cases v with
  | decimal x =>
    unfold Value.toJson ofBinary64
    split <;> rfl
  | null | bool _ | int _ | text _ | instant _ | list _ => rfl

theorem any_isObject_toJsons (vs : List Value) : (Value.toJsons vs).any Json.isObject = false := by
  induction vs with
  | nil => rfl
  | cons v vs ih => rw [Value.toJsons, List.any_cons, isObject_toJson, ih, Bool.or_self]

/-- A plain value is read as an attribute with this value. -/
theorem readPart_toJson {v : Value} (hplain : v.IsPlain) (entityType key : String) :
    readPart entityType key v.toJson = .ok (.value v) := by
  rw [readPart_eq_readAttribute (isObject_toJson v), readAttribute_eq_ok_iff]
  · refine ⟨v, ?_, rfl⟩
    rw [Value.ofJson?_toJson, hplain]
  · intro items hitems
    cases v with
    | list vs =>
      cases hitems
      exact any_isObject_toJsons vs
    | decimal x =>
      unfold Value.toJson ofBinary64 at hitems
      split at hitems <;> cases hitems
    | null | bool _ | int _ | text _ | instant _ => cases hitems

/-- Records that are listed are read as a relation. -/
theorem readPart_records {key : String} {es : List Entity} (hne : es ≠ [])
    (hes : ofItems key (es.map toJson) = .ok es) (entityType : String) :
    readPart entityType key (.array (es.map toJson)) = .ok (.related es) := by
  have hany : (es.map toJson).any Json.isObject = true := by
    obtain ⟨e, rest, rfl⟩ := List.exists_cons_of_ne_nil hne
    rfl
  rw [readPart, if_pos hany, hes]
  rfl

/-- An identity is read back. -/
theorem readId_toJson {fields : List (String × Json)} {id : EntityId}
    (h : KeyMap.get? "id" fields = some id.toValue.toJson) (entityType : String) :
    readId entityType fields = .ok id := by
  unfold readId
  rw [h]
  cases id with
  | int n =>
    simp only [EntityId.toValue, Value.toJson]
    rw [int64?_toInt]
  | text s => rfl

/-- What a sound record has under a name. -/
def part (e : Entity) (key : String) : Part :=
  match e.relation? key with
  | some es => .related es
  | none => .value ((e.attribute? key).getD .null)

/-- What a sound record has under the names of its fields. -/
def parts (e : Entity) : List (String × Part) := e.toFields.map fun f => (f.1, e.part f.1)

theorem mem_parts {e : Entity} {key : String} {p : Part} :
    (key, p) ∈ e.parts ↔ key ∈ KeyMap.keys e.toFields ∧ p = e.part key := by
  unfold parts
  rw [List.mem_map]
  constructor
  · rintro ⟨f, hf, heq⟩
    cases heq
    exact ⟨List.mem_map_of_mem hf, rfl⟩
  · rintro ⟨hkey, rfl⟩
    obtain ⟨f, hf, rfl⟩ := List.mem_map.1 hkey
    exact ⟨f, hf, rfl⟩

theorem nodup_parts (e : Entity) : (KeyMap.keys e.parts).Nodup := by
  unfold parts KeyMap.keys
  rw [List.map_map]
  exact (sorted_toFields e).nodup_keys

namespace Sound

variable {e : Entity}

/-- What is written under a name: a relation or an attribute. -/
theorem get?_toFields_eq_some (h : e.Sound) {key : String} {j : Json}
    (hj : KeyMap.get? key e.toFields = some j) :
    (∃ es, e.relation? key = some es ∧ j = .array (es.map toJson)) ∨
      ∃ v, e.relation? key = none ∧ e.attribute? key = some v ∧ j = v.toJson := by
  rw [get?_toFields h.attributes_sorted.nodup_keys h.relations_sorted.nodup_keys] at hj
  cases hrelation : e.relation? key with
  | some es =>
    rw [hrelation] at hj
    exact .inl ⟨es, rfl, (Option.some.inj hj).symm⟩
  | none =>
    cases hattribute : e.attribute? key with
    | some v =>
      rw [hrelation, hattribute] at hj
      exact .inr ⟨v, rfl, rfl, (Option.some.inj hj).symm⟩
    | none =>
      -- then the identity is written there, but this is an attribute
      rw [hrelation, hattribute] at hj
      by_cases hkey : key = "id"
      · rw [hkey, h.identity] at hattribute
        cases hattribute
      · simp [hkey] at hj

/-- What is written is read as the parts of the record, if its relations are. -/
theorem isReadAs (h : e.Sound)
    (hrelations : ∀ {key es}, e.relation? key = some es →
      es ≠ [] ∧ ofItems key (es.map toJson) = .ok es) (entityType : String) :
    IsReadAs entityType e.toFields e.parts := by
  unfold IsReadAs parts
  rw [List.forall₂_map_right_iff, List.forall₂_same]
  intro f hf
  refine ⟨rfl, ?_⟩
  have hget := (sorted_toFields e).get?_of_mem hf
  unfold part
  rcases h.get?_toFields_eq_some hget with ⟨es, hes, hj⟩ | ⟨v, hnone, hv, hj⟩
  · obtain ⟨hne, hread⟩ := hrelations hes
    rw [hes, hj]
    exact readPart_records hne hread entityType
  · rw [hnone, hv, hj]
    exact readPart_toJson (h.plain hv) entityType f.1

theorem mem_toFields_of_relation {key : String} {es : List Entity} (h : e.Sound)
    (hes : e.relation? key = some es) : (key, .array (es.map toJson)) ∈ e.toFields := by
  refine KeyMap.mem_of_get? ?_
  rw [get?_toFields h.attributes_sorted.nodup_keys h.relations_sorted.nodup_keys, hes]
  rfl

theorem mem_toFields_of_attribute {key : String} {v : Value} (h : e.Sound)
    (hv : e.attribute? key = some v) : (key, v.toJson) ∈ e.toFields := by
  refine KeyMap.mem_of_get? ?_
  rw [get?_toFields h.attributes_sorted.nodup_keys h.relations_sorted.nodup_keys, h.apart hv, hv]
  rfl

/-- The attributes are those of the parts. -/
theorem ofPairs_attributes (h : e.Sound) :
    KeyMap.ofPairs (attributesOf e.parts) = e.attributes := by
  refine (KeyMap.sorted_ofPairs _).ext h.attributes_sorted fun key v => ?_
  rw [get?_attributesOf e.nodup_parts, mem_parts]
  constructor
  · rintro ⟨hkey, hpart⟩
    obtain ⟨f, hf, rfl⟩ := List.mem_map.1 hkey
    rcases h.get?_toFields_eq_some ((sorted_toFields e).get?_of_mem hf) with
      ⟨es, hes, -⟩ | ⟨w, hnone, hw, -⟩
    · unfold part at hpart
      rw [hes] at hpart
      cases hpart
    · unfold part at hpart
      rw [hnone, hw] at hpart
      cases hpart
      exact hw
  · intro hv
    refine ⟨List.mem_map_of_mem (h.mem_toFields_of_attribute hv), ?_⟩
    have hv' : e.attribute? key = some v := hv
    unfold part
    rw [h.apart hv, hv']
    rfl

/-- The relations are those of the parts. -/
theorem ofPairs_relations (h : e.Sound) :
    KeyMap.ofPairs (relationsOf e.parts) = e.relations := by
  refine (KeyMap.sorted_ofPairs _).ext h.relations_sorted fun key es => ?_
  rw [get?_relationsOf e.nodup_parts, mem_parts]
  constructor
  · rintro ⟨hkey, hpart⟩
    unfold part at hpart
    cases hrelation : e.relation? key with
    | some es' =>
      rw [hrelation] at hpart
      cases hpart
      exact hrelation
    | none =>
      rw [hrelation] at hpart
      cases hpart
  · intro hes
    have hes' : e.relation? key = some es := hes
    refine ⟨List.mem_map_of_mem (h.mem_toFields_of_relation hes), ?_⟩
    unfold part
    rw [hes']

/-- A sound record is read back if its relations are. -/
theorem ofJson_toJson (h : e.Sound)
    (hrelations : ∀ {key es}, e.relation? key = some es →
      es ≠ [] ∧ ofItems key (es.map toJson) = .ok es) :
    ofJson e.entityType e.toJson = .ok e := by
  unfold toJson
  refine ofJson_object_eq_ok_iff.2 ⟨e.id, _, ?_, h.isReadAs hrelations e.entityType, ?_⟩
  · exact readId_toJson ((sorted_toFields e).get?_of_mem (h.mem_toFields_of_attribute h.identity)) _
  · rw [h.ofPairs_attributes, h.ofPairs_relations]
    cases e
    rfl

end Sound

mutual

/-- **A record is read back from what it is written as.** -/
theorem ofJson_toJson : ∀ {e : Entity}, e.IsRecord → ofJson e.entityType e.toJson = .ok e
  | .mk _ _ _ relations, h => by
    refine h.1.ofJson_toJson fun {key es} hes => ?_
    have hmem : (key, es) ∈ relations := KeyMap.mem_of_get? hes
    exact ofItems_relation h.2 hmem

/-- The records of a relation are read back. -/
theorem ofItems_relation {key : String} {es : List Entity} :
    ∀ {relations : List (String × List Entity)}, AreRelations relations → (key, es) ∈ relations →
      es ≠ [] ∧ ofItems key (es.map toJson) = .ok es
  | [], _, hmem => nomatch hmem
  | (name, es') :: rest, h, hmem => by
    rcases List.mem_cons.1 hmem with heq | hmem
    · cases heq
      exact ⟨h.1, ofItems_toJson h.2.1⟩
    · exact ofItems_relation h.2.2 hmem

theorem ofItems_toJson {entityType : String} :
    ∀ {es : List Entity}, AreRecordsOf entityType es → ofItems entityType (es.map toJson) = .ok es
  | [], _ => by
    rw [List.map_nil, ofItems]
  | e :: es, h => by
    obtain ⟨⟨hentityType, hrecord⟩, hrest⟩ := h
    have hread := ofJson_toJson hrecord
    rw [hentityType] at hread
    rw [List.map_cons]
    exact ofItems_cons_eq_ok_iff.2 ⟨e, es, hread, ofItems_toJson hrest, rfl⟩

end

/-! ## The normal form -/

/-- A single record under a name is written as a relation with this record. -/
theorem relation_of_object {entityType key : String} {j : Json} {fields : List (String × Json)} {e : Entity}
    (hj : j.WellFormed) (h : ofJson entityType j = .ok e) (hkey : j.field? key = some (.object fields)) :
    ∃ r, ofJson key (.object fields) = .ok r ∧ e.relation? key = some [r] ∧
      e.toJson.field? key = some (.array [r.toJson]) := by
  cases j with
  | object record =>
    have hrecord := isRecord_of_ofJson hj h
    obtain ⟨id, parts, -, hparts, rfl⟩ := ofJson_object_eq_ok_iff.1 h
    obtain ⟨p, hp, hread⟩ := hparts.exists_part (KeyMap.mem_of_get? hkey)
    rw [readPart] at hread
    obtain ⟨r, hr, rfl⟩ := Except.map_eq_ok_iff.1 hread
    have hrelation := (get?_relationsOf (hparts.nodup_keys hj.1)).2 hp
    refine ⟨r, hr, hrelation, ?_⟩
    exact (sorted_toFields _).get?_of_mem (hrecord.1.mem_toFields_of_relation hrelation)
  | null | bool _ | int _ | float _ | text _ | array _ => cases hkey

/-- **Records and values have a normal form.**  Take any well-formed tree that is read as a record, such as
any tree that is parsed.  What the record is written as is read as the same record, with the same identity,
attributes and relations, those of related records included; and where the tree has a single record under a
name, the record is written as the only one of a list.  A value that is read from a well-formed tree is read
back from its natural form, too. -/
theorem ofJson_normalForm :
    (∀ {entityType : String} {j : Json} {e : Entity}, j.WellFormed → ofJson entityType j = .ok e →
      ofJson entityType e.toJson = .ok e ∧
        ∀ {key : String} {fields : List (String × Json)}, j.field? key = some (.object fields) →
          ∃ r, ofJson key (.object fields) = .ok r ∧ e.relation? key = some [r] ∧
            e.toJson.field? key = some (.array [r.toJson])) ∧
    (∀ {j : Json} {v : Value}, j.WellFormed → Value.ofJson? j = some v →
      Value.ofJson? v.toJson = some v) ∧
    (∀ {text : String} {j : Json}, Json.parse text = some j → j.WellFormed) := by
  refine ⟨fun {entityType j e} hj h => ⟨?_, relation_of_object hj h⟩, Value.ofJson?_toJson_of_ofJson?,
    wellFormed_parse⟩
  have hread := ofJson_toJson (isRecord_of_ofJson hj h)
  rwa [entityType_of_ofJson h] at hread

/-- A record with a whole number beyond 64 bits, with nulls and lists in lists, and with relations that are
written in both ways. -/
def bookText : String :=
  "\x7b\"tags\":[null,[\"a\",[]]],\"id\":7,\"copies\":18446744073709551615,"
    ++ "\"author\":\x7b\"id\":\"x\",\"born\":null\x7d,\"notes\":[\x7b\"id\":1\x7d,\x7b\"id\":2\x7d]\x7d"

/-- The record is read back from what it is written as, where its author stands in a list. -/
theorem ofJson_normalForm_book :
    ∃ j e author, Json.parse bookText = some j ∧ ofJson "books" j = .ok e ∧
      ofJson "books" e.toJson = .ok e ∧ e.relation? "author" = some [author] ∧
      e.toJson.field? "author" = some (.array [author.toJson]) ∧
      Value.ofJson? (.int 18446744073709551615) = some (.decimal (.ofInt 18446744073709551615)) ∧
      Value.ofJson? (Value.decimal (.ofInt 18446744073709551615)).toJson =
        some (.decimal (.ofInt 18446744073709551615)) := by
  obtain ⟨hrecords, hvalues, hparsed⟩ := ofJson_normalForm
  have hread : ((Json.parse bookText).any fun j => (ofJson "books" j).toOption.isSome &&
      (j.field? "author").any Json.isObject) = true := by
    decide +kernel
  obtain ⟨j, hj, hboth⟩ := (Option.any_eq_true _ _).1 hread
  rw [Bool.and_eq_true] at hboth
  obtain ⟨hrecord, hauthor⟩ := hboth
  obtain ⟨e, hok⟩ : ∃ e, ofJson "books" j = .ok e := by
    cases hresult : ofJson "books" j with
    | error fault =>
      rw [hresult] at hrecord
      cases hrecord
    | ok e => exact ⟨e, rfl⟩
  obtain ⟨fields, hfields⟩ : ∃ fields, j.field? "author" = some (.object fields) := by
    cases hfield : j.field? "author" with
    | none =>
      rw [hfield] at hauthor
      cases hauthor
    | some a =>
      rw [hfield] at hauthor
      cases a <;> first | exact ⟨_, rfl⟩ | cases hauthor
  obtain ⟨hback, hsingle⟩ := hrecords (hparsed hj) hok
  obtain ⟨author, -, hrelation, hwritten⟩ := hsingle hfields
  have hbig : Value.ofJson? (.int 18446744073709551615) =
      some (.decimal (.ofInt 18446744073709551615)) := rfl
  have hfits : (Json.int 18446744073709551615).WellFormed := ⟨by decide, by decide⟩
  exact ⟨j, e, author, hj, hok, hback, hrelation, hwritten, hbig, hvalues hfits hbig⟩

end Entity

end FieldQuery
