import FieldQuery.Proofs.Value.Codec

/-!
# Values that are read back

* `Value.depth` — how deep the lists of a value nest.

Principal result: `decode?_encode_self` — a value is read back from its text if its decimals are finite and
kept, and its lists nest at most 63 deep: each of them takes two of the 127 levels that the reader has.  A
decimal that is not finite is not read back, see `decode?_infinite`.
-/

namespace FieldQuery

namespace Value

open Json

mutual

/-- How deep lists nest. -/
def depth : Value → Nat
  | .list items => depths items + 1
  | .null => 0
  | .bool _ => 0
  | .int _ => 0
  | .decimal _ => 0
  | .text _ => 0
  | .instant _ => 0

/-- How deep lists nest in any of some items. -/
def depths : List Value → Nat
  | [] => 0
  | v :: vs => max (depth v) (depths vs)

end

/-- Content without items is read as what it stands for. -/
theorem ofWritten?_scalar {k : Kind} {c : Json} {v : Value} {room : Nat} (hk : k ≠ .list)
    (h : ((Written.ofJson c).value? room).bind (ofScalar? k) = some v) :
    ofWritten? (room + 1) (Written.ofJson (tag k c)) = some v := by
  rw [ofWritten?_tag]
  unfold ofWrittenContent?
  split
  · exact absurd rfl hk
  · exact h

mutual

/-- The tagged form is read back if there is room for it. -/
theorem ofWritten?_tagged_self (v : Value) {room : Nat} (hfinite : v.IsFinite)
    (hroom : 2 * v.depth ≤ room) : ofWritten? (room + 1) (Written.ofJson v.tagged) = some v := by
  match v with
  | .null => exact ofWritten?_null room
  | .bool b => exact ofWritten?_scalar (by decide) rfl
  | .int n =>
    refine ofWritten?_scalar (by decide) ?_
    simp [Written.ofJson, Written.value?, ofScalar?, int64?_toInt]
  | .decimal x =>
    have hx : x.isFinite = true := hfinite
    refine ofWritten?_scalar (by decide) ?_
    simp [ofBinary64, hx, Written.ofJson, Written.value?, ofScalar?]
  | .text s => exact ofWritten?_scalar (by decide) rfl
  | .instant t =>
    refine ofWritten?_scalar (by decide) ?_
    simp [Written.ofJson, Written.value?, ofScalar?, Time.readRelaxed?_printZulu]
  | .list items =>
    rw [depth] at hroom
    obtain ⟨room, rfl⟩ : ∃ r, room = r + 2 := ⟨room - 2, by omega⟩
    have hitems : itemsOf? (room + 2) (Written.ofJsons (taggeds items)) = some items :=
      itemsOf?_taggeds_self items hfinite (by omega)
    rw [tagged, ofWritten?_tag]
    show (itemsOf? (room + 2) (Written.ofJsons (taggeds items))).map Value.list = _
    rw [hitems]
    rfl

theorem itemsOf?_taggeds_self (vs : List Value) {room : Nat} (hfinite : AllFinite vs)
    (hroom : 2 * depths vs ≤ room) :
    itemsOf? (room + 2) (Written.ofJsons (taggeds vs)) = some vs := by
  match vs with
  | [] => rfl
  | v :: vs =>
    rw [depths] at hroom
    have hfirst : ofWritten? (room + 1) (Written.ofJson v.tagged) = some v :=
      ofWritten?_tagged_self v hfinite.1 (by omega)
    have hrest : (Written.ofJsons (taggeds vs)).mapM (ofWritten? (room + 1)) = some vs :=
      itemsOf?_taggeds_self vs hfinite.2 (by omega)
    show (Written.ofJson v.tagged :: Written.ofJsons (taggeds vs)).mapM (ofWritten? (room + 1)) = _
    rw [List.mapM_cons, hfirst, Option.bind_eq_bind, Option.bind_some, hrest]
    rfl

end

/-- **A value is read back from its text**, if its decimals are finite and kept and its lists do not nest
too deep. -/
theorem decode?_encode_self {v : Value} (hkept : v.IsKept) (hfinite : v.IsFinite)
    (hdepth : v.depth ≤ 63) : decode? v.encode = some v := by
  unfold decode? encode Written.read
  rw [readBy_compact hkept.readable]
  exact ofWritten?_tagged_self v hfinite (by omega)

/-- A decimal that is not finite is not read back: its text has null where the number should be. -/
theorem decode?_infinite {x : Binary64} (hx : x.isFinite = false) :
    decode? (encode (.decimal x)) = none := by
  have hkept : (Value.decimal x).IsKept := fun h => by
    rw [hx] at h
    cases h
  cases h : decode? (encode (.decimal x)) with
  | none => rfl
  | some w =>
    unfold decode? encode Written.read at h
    rw [readBy_compact hkept.readable] at h
    have hread := ofScalar?_tagged (v := .decimal x) rfl (by decide) h
    simp [ofBinary64, hx, Written.ofJson, Written.value?, ofScalar?] at hread

end Value

end FieldQuery
