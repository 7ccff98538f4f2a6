import FieldQuery.Proofs.Number.Rounding
import FieldQuery.Proofs.Value.Natural

/-!
# Well-formed JSON values, and the values that are read from them

A JSON tree of the program is no tree of all that there are: no object has a key twice, whole numbers fit a
word, with a sign or without one, and other numbers are finite.

* `Json.WellFormed` — a tree with these properties.

Principal results: `Value.isPlain_of_ofJson?` — what is read from a well-formed tree has a natural form that
loses nothing, and `Value.ofJson?_toJson_of_ofJson?` — so it is read back from that form.
-/

namespace FieldQuery

namespace Json

mutual

/-- Keys stand once, whole numbers fit a word, and other numbers are finite. -/
def WellFormed : Json → Prop
  | .int n => minInt ≤ n ∧ n ≤ wordMax
  | .float x => x.isFinite = true
  | .array items => ItemsWellFormed items
  | .object fields => (KeyMap.keys fields).Nodup ∧ FieldsWellFormed fields
  | .null => True
  | .bool _ => True
  | .text _ => True

/-- `WellFormed` for every item. -/
def ItemsWellFormed : List Json → Prop
  | [] => True
  | j :: js => WellFormed j ∧ ItemsWellFormed js

/-- `WellFormed` for every field. -/
def FieldsWellFormed : List (String × Json) → Prop
  | [] => True
  | (_, j) :: fs => WellFormed j ∧ FieldsWellFormed fs

end

theorem fieldsWellFormed_iff {fs : List (String × Json)} :
    FieldsWellFormed fs ↔ ∀ f ∈ fs, WellFormed f.2 := by
  induction fs with
  | nil => simp [FieldsWellFormed]
  | cons f fs ih =>
    rw [List.forall_mem_cons, ← ih]
    rfl

end Json

namespace Binary64

/-- The number nearest to a whole number of a word is finite. -/
theorem isFinite_ofInt {n : Int} (hmin : minInt ≤ n) (hmax : n ≤ wordMax) : (ofInt n).isFinite = true := by
  have hfits : n.natAbs ≤ wordMax := by
    unfold minInt at hmin
    unfold wordMax at hmax ⊢
    omega
  have htop : nearestMagnitude wordMax 1 < infinityMagnitude := by decide +kernel
  exact decide_eq_true (Nat.lt_of_le_of_lt (nearestMagnitude_mono hfits) htop)

end Binary64

namespace Value

open Json

mutual

/-- **What is read from a well-formed tree loses nothing in its natural form.** -/
theorem isPlain_of_ofJson? {j : Json} {v : Value} (hj : j.WellFormed) (h : ofJson? j = some v) :
    v.IsPlain := by
  match j with
  | .null | .bool _ | .text _ =>
    obtain rfl := Option.some.inj h
    rfl
  | .int n =>
    unfold ofJson? at h
    split at h
    · obtain rfl := Option.some.inj h
      rfl
    · obtain rfl := Option.some.inj h
      unfold IsPlain plain
      rw [if_pos (Binary64.isFinite_ofInt hj.1 hj.2)]
  | .float x =>
    obtain rfl := Option.some.inj h
    unfold IsPlain plain
    rw [if_pos (show x.isFinite = true from hj)]
  | .array items =>
    unfold ofJson? at h
    obtain ⟨vs, hvs, rfl⟩ := Option.map_eq_some_iff.1 h
    unfold IsPlain plain
    rw [plains_of_ofJsons? hj hvs]
  | .object _ => cases h

theorem plains_of_ofJsons? {js : List Json} {vs : List Value} (hjs : ItemsWellFormed js)
    (h : ofJsons? js = some vs) : plains vs = vs := by
  match js with
  | [] =>
    obtain rfl := Option.some.inj h
    rfl
  | j :: js =>
    unfold ofJsons? at h
    split at h
    · rename_i v vs hv hvs
      obtain rfl := Option.some.inj h
      have hplain : v.plain = v := isPlain_of_ofJson? hjs.1 hv
      rw [plains, hplain, plains_of_ofJsons? hjs.2 hvs]
    · cases h

end

/-- **What is read from a well-formed tree is read back from its natural form.** -/
theorem ofJson?_toJson_of_ofJson? {j : Json} {v : Value} (hj : j.WellFormed) (h : ofJson? j = some v) :
    ofJson? v.toJson = some v := by
  have hplain : v.plain = v := isPlain_of_ofJson? hj h
  rw [ofJson?_toJson, hplain]

mutual

/-- The natural form of a value is well-formed. -/
theorem wellFormed_toJson : ∀ v : Value, v.toJson.WellFormed
  | .null => trivial
  | .bool _ => trivial
  | .int n => by
    have hmin : minInt ≤ n.toInt := n.minValue_le_toInt
    have hmax : n.toInt ≤ maxInt := n.toInt_le
    refine ⟨hmin, ?_⟩
    unfold wordMax
    unfold maxInt at hmax
    omega
  | .decimal x => by
    unfold toJson ofBinary64
    split
    · rename_i hfinite
      exact hfinite
    · trivial
  | .text _ => trivial
  | .instant _ => trivial
  | .list vs => itemsWellFormed_toJsons vs

theorem itemsWellFormed_toJsons : ∀ vs : List Value, ItemsWellFormed (toJsons vs)
  | [] => trivial
  | v :: vs => ⟨wellFormed_toJson v, itemsWellFormed_toJsons vs⟩

end

end Value

end FieldQuery
