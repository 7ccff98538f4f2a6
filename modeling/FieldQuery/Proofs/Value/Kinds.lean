import FieldQuery.Proofs.Json.FirstField
import FieldQuery.Proofs.Value.Codec

/-!
# Encoded values keep their kinds

A value that has been encoded is not always read back: decimals may be rounded, and what is not finite is
lost.  Its kind stands first in the text, however, and nothing after it can change that.

Principal results: `kind_eq_of_decode?` — what an encoded value is read as has its kind, and
`decode?_encodeList_ne_null` — encoded identities are never read as the null value.
-/

namespace FieldQuery

open Json

namespace Value

theorem kind_of_ofScalar? {k : Kind} {j : Json} {w : Value} (h : ofScalar? k j = some w) :
    w.kind = k := by
  unfold ofScalar? at h
  split at h
  · cases h
    rfl
  · cases h
    rfl
  · obtain ⟨n, -, rfl⟩ := Option.map_eq_some_iff.1 h
    rfl
  · cases h
    rfl
  · cases h
    rfl
  · cases h
    rfl
  · obtain ⟨t, -, rfl⟩ := Option.map_eq_some_iff.1 h
    rfl
  · cases h

/-- Content is read as a value of the kind that it is read for. -/
theorem kind_of_ofWrittenContent? {list : List Written → Option (List Value)} {room : Nat} {k : Kind}
    {c : Written} {w : Value} (h : ofWrittenContent? list room k c = some w) : w.kind = k := by
  unfold ofWrittenContent? at h
  split at h
  · obtain ⟨items, -, rfl⟩ := Option.map_eq_some_iff.1 h
    rfl
  · obtain ⟨j, -, hscalar⟩ := Option.bind_eq_some_iff.1 h
    exact kind_of_ofScalar? hscalar

/-- The first field is one that is read. -/
theorem relevantFields?_type {t : Written} {rest : List (Option String × Written)}
    {fields : List (String × Written)}
    (h : relevantFields? ((some "type", t) :: rest) = some fields) :
    ∃ rest', fields = ("type", t) :: rest' := by
  unfold relevantFields? at h
  dsimp only at h
  rw [List.mapM_cons] at h
  obtain ⟨named, hnamed, rfl⟩ := Option.map_eq_some_iff.1 h
  obtain ⟨first, hfirst, hrest⟩ := Option.bind_eq_some_iff.1 hnamed
  obtain ⟨named', -, hcons⟩ := Option.bind_eq_some_iff.1 hrest
  cases hfirst
  cases hcons
  exact ⟨named'.filter fun f => isRelevant f.1, rfl⟩

/-- An object that begins with a kind is read as a value of that kind. -/
theorem kind_of_ofWritten? {room : Nat} {k : Kind} {rest : List (Option String × Written)} {w : Value}
    (h : ofWritten? room (.object ((some "type", .text (some k.name)) :: rest)) = some w) :
    w.kind = k := by
  cases room with
  | zero =>
    rw [ofWritten?] at h
    cases h
  | succ room =>
    have hkind : kindOfWritten? room (.text (some k.name)) = some k := Kind.ofName?_name_self k
    unfold ofWritten? at h
    dsimp only at h
    split at h
    · rename_i t hfields
      obtain ⟨rest', hrest⟩ := relevantFields?_type hfields
      cases hrest
      rw [hkind] at h
      split at h
      · rename_i hnull
        cases h
        cases hnull
        rfl
      · cases h
    · rename_i t c hfields
      obtain ⟨rest', hrest⟩ := relevantFields?_type hfields
      cases hrest
      rw [hkind] at h
      exact kind_of_ofWrittenContent? h
    · rename_i c t hfields
      obtain ⟨rest', hrest⟩ := relevantFields?_type hfields
      simp at hrest
    · cases h

/-- **What an encoded value is read as has its kind**, also if its decimals are rounded. -/
theorem kind_eq_of_decode? {v w : Value} (h : decode? v.encode = some w) : w.kind = v.kind := by
  obtain ⟨fields, hfields⟩ := tagged_eq v
  unfold decode? encode at h
  rw [hfields] at h
  obtain ⟨written, hread, hwritten⟩ := Option.bind_eq_some_iff.1 h
  obtain ⟨rest, rfl⟩ := first_of_readBy hread
  exact kind_of_ofWritten? hwritten

theorem kind_eq_null_iff {v : Value} : v.kind = .null ↔ v = .null := by
  cases v <;> simp [kind]

/-- A value that is not null is not read as null. -/
theorem decode?_encode_ne_null {v : Value} (hv : v ≠ .null) : decode? v.encode ≠ some .null :=
  fun h => hv (kind_eq_null_iff.1 (kind_eq_of_decode? h).symm)

/-- **Encoded identities are not read as the null value**: none of them is null itself. -/
theorem decode?_encodeList_ne_null (ids : List EntityId) :
    decode? (EntityId.encodeList ids) ≠ some .null := by
  intro h
  have hreadable : Readable readWord (.array (ids.map EntityId.toJson)) := EntityId.readable_toJsons ids
  have hitem : ∀ c ∈ Written.ofJsons (ids.map EntityId.toJson), ∀ room, c.value? room ≠ some .null := by
    clear h hreadable
    induction ids with
    | nil => exact fun c hc => absurd hc List.not_mem_nil
    | cons id ids ih =>
      refine List.forall_mem_cons.2 ⟨fun room => ?_, ih⟩
      cases id <;> simp [EntityId.toJson, Written.ofJson, Written.value?]
  unfold decode? EntityId.encodeList Written.read at h
  rw [readBy_compact hreadable, Option.bind_some, Written.ofJson, maxDepth] at h
  unfold ofWritten? at h
  generalize Written.ofJsons (ids.map EntityId.toJson) = items at h hitem
  dsimp only at h
  split at h
  · rename_i heq
    cases heq
  · rename_i s c heq
    cases heq
    obtain ⟨k, -, hcontent⟩ := Option.bind_eq_some_iff.1 h
    obtain rfl : Kind.null = k := kind_of_ofWrittenContent? hcontent
    obtain ⟨j, hj, hscalar⟩ := Option.bind_eq_some_iff.1 hcontent
    cases j with
    | null => exact hitem c (by simp) _ hj
    | _ => cases hscalar
  · cases h

end Value

end FieldQuery
