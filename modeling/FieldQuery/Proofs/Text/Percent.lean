import FieldQuery.Text.Percent
import Mathlib.Data.UInt

/-!
# Percent encoding is read back

A character is written as itself, or as one triple for each of its bytes; either way the reader gets
its bytes. So the bytes of an encoded text are the UTF-8 form of the text, and that is read back
character by character.

* `Utf8.decodeFrom_encodeChar` — one character is read from its bytes, whatever follows;
* `Percent.bytes_encodeChar` — one character comes to its bytes;
* `Percent.IsWritten` — the characters of an encoded text: unreserved ones and percent signs.

Principal results: `Utf8.decode_encode`, `Percent.decode_encode`.
-/

namespace FieldQuery.Text

/-! ## UTF-8 -/

namespace Utf8

theorem toNat_byte {n : Nat} (h : n < 256) : (byte n).toNat = n := by
  unfold byte
  simp
  omega

/-- A code point is no surrogate, and not above U+10FFFF. -/
theorem toNat_bounds (c : Char) :
    c.toNat < 0xD800 ∨ 0xDFFF < c.toNat ∧ c.toNat < 0x110000 := c.valid

/-- The bits of a character make it, if its length is the least possible. -/
theorem finish_toNat {c : Char} {least : Nat} (h : least ≤ c.toNat) :
    finish c.toNat least = some c := by
  unfold finish
  rw [if_pos ⟨h, toNat_bounds c⟩, Char.ofNat_toNat]

theorem start_ascii {n : Nat} (h : n < 0x80) : start n = some (.inl (Char.ofNat n)) := if_pos h

theorem start_two {n : Nat} (h : n < 32) : start (0xC0 + n) = some (.inr ⟨1, n, 0x80⟩) := by
  unfold start
  rw [if_neg (by omega), if_pos (by omega), Nat.add_sub_cancel_left]

theorem start_three {n : Nat} (h : n < 16) : start (0xE0 + n) = some (.inr ⟨2, n, 0x800⟩) := by
  unfold start
  rw [if_neg (by omega), if_neg (by omega), if_pos (by omega), Nat.add_sub_cancel_left]

theorem start_four {n : Nat} (h : n < 8) : start (0xF0 + n) = some (.inr ⟨3, n, 0x10000⟩) := by
  unfold start
  rw [if_neg (by omega), if_neg (by omega), if_neg (by omega), if_pos (by omega),
    Nat.add_sub_cancel_left]

/-- A byte in the middle of a character adds six bits. -/
theorem decodeFrom_more {missing bits least n : Nat} (hn : n < 64) (hmissing : 1 < missing)
    (bs : List UInt8) :
    decodeFrom (some ⟨missing, bits, least⟩) (byte (0x80 + n) :: bs) =
      decodeFrom (some ⟨missing - 1, bits * 64 + n, least⟩) bs := by
  have hbyte := toNat_byte (show 0x80 + n < 256 by omega)
  simp only [decodeFrom, hbyte]
  rw [if_pos (by omega), if_neg (by omega), Nat.add_sub_cancel_left]

/-- The last byte of a character completes its bits. -/
theorem decodeFrom_last {bits least n : Nat} {c : Char} (hn : n < 64)
    (hbits : bits * 64 + n = c.toNat) (hleast : least ≤ c.toNat) (bs : List UInt8) :
    decodeFrom (some ⟨1, bits, least⟩) (byte (0x80 + n) :: bs) =
      (decodeFrom none bs).map (c :: ·) := by
  have hbyte := toNat_byte (show 0x80 + n < 256 by omega)
  simp only [decodeFrom, hbyte]
  rw [if_pos (by omega), if_pos (by omega), Nat.add_sub_cancel_left, hbits, finish_toNat hleast]

theorem decodeFrom_start {n : Nat} (hn : n < 256) {p : Pending} (h : start n = some (.inr p))
    (bs : List UInt8) : decodeFrom none (byte n :: bs) = decodeFrom (some p) bs := by
  simp only [decodeFrom, toNat_byte hn, h]

/-- One character is read from its bytes, whatever follows them. -/
theorem decodeFrom_encodeChar (c : Char) (bs : List UInt8) :
    decodeFrom none (encodeChar c ++ bs) = (decodeFrom none bs).map (c :: ·) := by
  have hbound : c.toNat < 0x110000 := by
    have := toNat_bounds c
    omega
  unfold encodeChar
  dsimp only
  split
  · rename_i hone
    have hbyte := toNat_byte (show c.toNat < 256 by omega)
    rw [List.singleton_append]
    simp only [decodeFrom, hbyte, start_ascii hone, Char.ofNat_toNat]
  · split
    · rename_i hone htwo
      simp only [List.cons_append, List.nil_append]
      rw [decodeFrom_start (by omega) (start_two (by omega)),
        decodeFrom_last (c := c) (by omega) (by omega) (by omega)]
    · split
      · rename_i hone htwo hthree
        simp only [List.cons_append, List.nil_append]
        rw [decodeFrom_start (by omega) (start_three (by omega)),
          decodeFrom_more (by omega) (by omega),
          decodeFrom_last (c := c) (by omega) (by omega) (by omega)]
      · rename_i hone htwo hthree
        simp only [List.cons_append, List.nil_append]
        rw [decodeFrom_start (by omega) (start_four (by omega)),
          decodeFrom_more (by omega) (by omega), decodeFrom_more (by omega) (by omega),
          decodeFrom_last (c := c) (by omega) (by omega) (by omega)]

/-- **A text is read back from its bytes.** -/
theorem decode_encode (cs : List Char) : decode (encode cs) = some cs := by
  unfold decode encode
  induction cs with
  | nil => rfl
  | cons c cs ih => rw [List.flatMap_cons, decodeFrom_encodeChar, ih, Option.map_some]

end Utf8

/-! ## Percent signs -/

namespace Percent

theorem hexValue_hexDigit : ∀ n, n < 16 → hexValue (hexDigit n) = some n := by decide

theorem isUnreserved_hexDigit : ∀ n, n < 16 → isUnreserved (hexDigit n) = true := by decide

/-- A triple is read as its byte. -/
theorem bytes_encodeByte (b : UInt8) (cs : List Char) :
    bytes (encodeByte b ++ cs) = b :: bytes cs := by
  have hb := b.toNat_lt
  have hhigh := hexValue_hexDigit (b.toNat / 16) (by omega)
  have hlow := hexValue_hexDigit (b.toNat % 16) (by omega)
  have hsum : 16 * (b.toNat / 16) + b.toNat % 16 = b.toNat := Nat.div_add_mod _ _
  simp only [encodeByte, List.cons_append, List.nil_append, bytes, hhigh, hlow, hsum,
    UInt8.ofNat_toNat]

theorem bytes_encodeBytes (bs : List UInt8) (cs : List Char) :
    bytes (bs.flatMap encodeByte ++ cs) = bs ++ bytes cs := by
  induction bs with
  | nil => rfl
  | cons b bs ih =>
    rw [List.flatMap_cons, List.append_assoc, bytes_encodeByte, ih, List.cons_append]

/-- Any other character than a percent sign stands for its bytes. -/
theorem bytes_of_ne {c : Char} (h : c ≠ '%') (cs : List Char) :
    bytes (c :: cs) = Utf8.encodeChar c ++ bytes cs := by
  rw [bytes.eq_def]
  split
  · rename_i heq
    exact absurd (List.cons.inj heq).1 h
  · rename_i heq
    rw [(List.cons.inj heq).1, (List.cons.inj heq).2]
  · rename_i heq
    cases heq

/-- One character comes to its bytes, written as itself or as triples. -/
theorem bytes_encodeChar (c : Char) (cs : List Char) :
    bytes (encodeChar c ++ cs) = Utf8.encodeChar c ++ bytes cs := by
  unfold encodeChar
  split
  · rename_i hunreserved
    rw [List.singleton_append]
    refine bytes_of_ne ?_ cs
    rintro rfl
    exact absurd hunreserved (by decide)
  · exact bytes_encodeBytes _ cs

theorem bytes_encode (cs : List Char) : bytes (encode cs) = Utf8.encode cs := by
  unfold encode Utf8.encode
  induction cs with
  | nil => rfl
  | cons c cs ih => rw [List.flatMap_cons, List.flatMap_cons, bytes_encodeChar, ih]

/-- **A text is read back from its percent encoding.** -/
theorem decode_encode (cs : List Char) : decode (encode cs) = some cs := by
  rw [decode, bytes_encode, Utf8.decode_encode]

/-- The characters that an encoded text is written with. -/
def IsWritten (c : Char) : Prop := isUnreserved c = true ∨ c = '%'

theorem isWritten_encode {cs : List Char} : ∀ c ∈ encode cs, IsWritten c := by
  intro c hc
  obtain ⟨d, -, hd⟩ := List.mem_flatMap.1 hc
  unfold encodeChar at hd
  split at hd
  · rename_i hunreserved
    obtain rfl := List.mem_singleton.1 hd
    exact .inl hunreserved
  · obtain ⟨b, -, hb⟩ := List.mem_flatMap.1 hd
    have hlt := b.toNat_lt
    simp only [encodeByte, List.mem_cons, List.not_mem_nil, or_false] at hb
    rcases hb with rfl | rfl | rfl
    · exact .inr rfl
    · exact .inl (isUnreserved_hexDigit _ (by omega))
    · exact .inl (isUnreserved_hexDigit _ (by omega))

/-- A character that is written as triples does not stand in an encoded text. -/
theorem notMem_encode {c : Char} (h : ¬ IsWritten c) (cs : List Char) : c ∉ encode cs :=
  fun hc => h (isWritten_encode c hc)

instance (c : Char) : Decidable (IsWritten c) := inferInstanceAs (Decidable (_ ∨ _))

end Percent

end FieldQuery.Text
