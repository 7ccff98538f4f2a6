/-!
# UTF-8

`encode` writes a text as bytes; `decode` reads bytes and refuses what `encode` cannot have
written: stray or missing continuation bytes, overlong forms, surrogates and code points above
U+10FFFF.
-/

namespace FieldQuery.Text.Utf8

/-- A byte of a code point, from its low bits. -/
def byte (n : Nat) : UInt8 := UInt8.ofNat n

/-- The bytes of one character. -/
def encodeChar (c : Char) : List UInt8 :=
  let n := c.toNat
  if n < 0x80 then [byte n]
  else if n < 0x800 then [byte (0xC0 + n / 64), byte (0x80 + n % 64)]
  else if n < 0x10000 then
    [byte (0xE0 + n / 4096), byte (0x80 + n / 64 % 64), byte (0x80 + n % 64)]
  else
    [byte (0xF0 + n / 262144), byte (0x80 + n / 4096 % 64), byte (0x80 + n / 64 % 64),
      byte (0x80 + n % 64)]

/-- The bytes of a text. -/
def encode (cs : List Char) : List UInt8 := cs.flatMap encodeChar

/-- The bytes of a string. -/
def ofString (s : String) : List UInt8 := encode s.toList

/-- The number of bytes of a character. -/
def width (c : Char) : Nat :=
  let n := c.toNat
  if n < 0x80 then 1 else if n < 0x800 then 2 else if n < 0x10000 then 3 else 4

/-- The number of bytes of a text. -/
def size : List Char → Nat
  | [] => 0
  | c :: cs => width c + size cs

/-- What remains of a sequence: how many bytes are to come, the bits so far, and the least code
point that may be written with so many bytes. -/
structure Pending where
  missing : Nat
  bits : Nat
  least : Nat
  deriving DecidableEq, Repr

/-- The character of a finished sequence, unless it is overlong, a surrogate or too large. -/
def finish (bits least : Nat) : Option Char :=
  if least ≤ bits ∧ (bits < 0xD800 ∨ (0xDFFF < bits ∧ bits < 0x110000)) then
    some (Char.ofNat bits)
  else none

/-- Starts a sequence. -/
def start (b : Nat) : Option (Char ⊕ Pending) :=
  if b < 0x80 then some (.inl (Char.ofNat b))
  else if 0xC0 ≤ b ∧ b < 0xE0 then some (.inr ⟨1, b - 0xC0, 0x80⟩)
  else if 0xE0 ≤ b ∧ b < 0xF0 then some (.inr ⟨2, b - 0xE0, 0x800⟩)
  else if 0xF0 ≤ b ∧ b < 0xF8 then some (.inr ⟨3, b - 0xF0, 0x10000⟩)
  else none

/-- Reads bytes in the middle of a sequence, or between two when there is none pending. -/
def decodeFrom : Option Pending → List UInt8 → Option (List Char)
  | none, [] => some []
  | some _, [] => none
  | none, b :: bs =>
    match start b.toNat with
    | none => none
    | some (.inl c) => (decodeFrom none bs).map (c :: ·)
    | some (.inr p) => decodeFrom (some p) bs
  | some p, b :: bs =>
    let n := b.toNat
    if 0x80 ≤ n ∧ n < 0xC0 then
      let bits := p.bits * 64 + (n - 0x80)
      if p.missing ≤ 1 then
        match finish bits p.least with
        | none => none
        | some c => (decodeFrom none bs).map (c :: ·)
      else decodeFrom (some ⟨p.missing - 1, bits, p.least⟩) bs
    else none

/-- The text that the bytes write, if they are UTF-8. -/
def decode (bs : List UInt8) : Option (List Char) := decodeFrom none bs

end FieldQuery.Text.Utf8
