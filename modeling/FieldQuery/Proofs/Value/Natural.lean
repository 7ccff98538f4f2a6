import FieldQuery.Entity
import FieldQuery.Proofs.Json.Injective

/-!
# What the natural form keeps

The natural form of a value is the one of responses and of the names of cached values.  It does not keep
every kind: an instant stands there as its text, and a decimal that is not finite as null.  All else is
kept, through any nesting of lists.

* `Value.plain` — the value with what the natural form loses taken away;
* `Value.IsPlain` — a value that loses nothing.

Principal results: `ofJson?_toJson` — the natural form is read as the plain value; `toJson_eq_iff` — values
have one natural form exactly if their plain values are the same; `isFinite_toJson` — natural forms, those
of records too, can be written.
-/

namespace FieldQuery

open Json

namespace Value

mutual

/-- The value with instants as texts, and with null for decimals that are not finite. -/
def plain : Value → Value
  | .decimal x => if x.isFinite then .decimal x else .null
  | .instant t => .text t.text
  | .list items => .list (plains items)
  | .null => .null
  | .bool b => .bool b
  | .int n => .int n
  | .text s => .text s

/-- `plain` for every item. -/
def plains : List Value → List Value
  | [] => []
  | v :: vs => plain v :: plains vs

end

/-- A value of which the natural form loses nothing. -/
def IsPlain (v : Value) : Prop := v.plain = v

mutual

/-- **The natural form is read as the plain value.** -/
theorem ofJson?_toJson : ∀ v : Value, ofJson? v.toJson = some v.plain
  | .null => rfl
  | .bool _ => rfl
  | .int n => by simp [toJson, ofJson?, plain, int64?_toInt]
  | .decimal x => by
    unfold toJson ofBinary64 plain
    split <;> rfl
  | .text _ => rfl
  | .instant _ => rfl
  | .list vs => by rw [toJson, ofJson?, ofJsons?_toJsons vs, plain, Option.map_some]

theorem ofJsons?_toJsons : ∀ vs : List Value, ofJsons? (toJsons vs) = some (plains vs)
  | [] => rfl
  | v :: vs => by rw [toJsons, ofJsons?, ofJson?_toJson v, ofJsons?_toJsons vs, plains]

end

mutual

/-- A plain value has the natural form of the value. -/
theorem toJson_plain : ∀ v : Value, v.plain.toJson = v.toJson
  | .null => rfl
  | .bool _ => rfl
  | .int _ => rfl
  | .decimal x => by
    unfold plain
    split
    · rfl
    · rename_i hfinite
      rw [toJson, toJson, ofBinary64, if_neg hfinite]
  | .text _ => rfl
  | .instant _ => rfl
  | .list vs => by rw [plain, toJson, toJson, toJsons_plains vs]

theorem toJsons_plains : ∀ vs : List Value, toJsons (plains vs) = toJsons vs
  | [] => rfl
  | v :: vs => by rw [plains, toJsons, toJsons, toJson_plain v, toJsons_plains vs]

end

/-- **Values have one natural form exactly if their plain values are the same.** -/
theorem toJson_eq_iff {v w : Value} : v.toJson = w.toJson ↔ v.plain = w.plain := by
  constructor
  · intro h
    have hread := ofJson?_toJson v
    rw [h, ofJson?_toJson w] at hread
    exact (Option.some.inj hread).symm
  · intro h
    rw [← toJson_plain v, h, toJson_plain w]

/-! ## Finite numbers -/

mutual

/-- The natural form has finite numbers only. -/
theorem isFinite_toJson : ∀ v : Value, Json.IsFinite v.toJson
  | .null => trivial
  | .bool _ => trivial
  | .int _ => trivial
  | .decimal x => by
    unfold toJson ofBinary64
    split
    · rename_i hfinite
      exact hfinite
    · trivial
  | .text _ => trivial
  | .instant _ => trivial
  | .list vs => allFinite_toJsons vs

theorem allFinite_toJsons : ∀ vs : List Value, Json.AllFinite (toJsons vs)
  | [] => trivial
  | v :: vs => ⟨isFinite_toJson v, allFinite_toJsons vs⟩

end

end Value

theorem Json.fieldsFinite_iff {fs : List (String × Json)} :
    FieldsFinite fs ↔ ∀ f ∈ fs, IsFinite f.2 := by
  induction fs with
  | nil =>
    constructor
    · intro _ f hf
      cases hf
    · intro _
      trivial
  | cons f fs ih =>
    rw [List.forall_mem_cons, ← ih]
    rfl

/-- A field with a finite value may be set. -/
theorem Json.FieldsFinite.insert {m : KeyMap Json} (hm : FieldsFinite m) {j : Json} (hj : IsFinite j)
    (k : String) : FieldsFinite (KeyMap.insert k j m) := by
  rw [fieldsFinite_iff] at hm ⊢
  intro f hf
  rcases KeyMap.mem_insert hf with rfl | hf
  · exact hj
  · exact hm f hf

namespace Entity

theorem fieldsFinite_attributeFields (attributes : List (String × Value)) {fields : KeyMap Json}
    (h : FieldsFinite fields) : FieldsFinite (attributeFields attributes fields) := by
  unfold attributeFields
  induction attributes generalizing fields with
  | nil => exact h
  | cons a attributes ih => exact ih (h.insert a.2.isFinite_toJson a.1)

mutual

theorem fieldsFinite_toFields : ∀ e : Entity, FieldsFinite e.toFields
  | .mk _ id attributes relations => by
    have hid : FieldsFinite [("id", id.toJson)] := by
      cases id <;> exact ⟨trivial, trivial⟩
    rw [toFields]
    exact fieldsFinite_relationFields relations (fieldsFinite_attributeFields attributes hid)

theorem fieldsFinite_relationFields : ∀ (relations : List (String × List Entity))
    {fields : KeyMap Json}, FieldsFinite fields → FieldsFinite (relationFields relations fields)
  | [], _, h => by rwa [relationFields]
  | (k, related) :: rest, _, h => by
    rw [relationFields]
    have hrelated : IsFinite (.array (toJsons related)) := allFinite_toJsons related
    exact fieldsFinite_relationFields rest (h.insert hrelated k)

theorem allFinite_toJsons : ∀ es : List Entity, AllFinite (toJsons es)
  | [] => by
    rw [toJsons]
    trivial
  | e :: es => by
    rw [toJsons]
    exact ⟨fieldsFinite_toFields e, allFinite_toJsons es⟩

end

/-- A record in JSON has finite numbers only. -/
theorem isFinite_toJson (e : Entity) : IsFinite e.toJson := fieldsFinite_toFields e

end Entity

end FieldQuery
