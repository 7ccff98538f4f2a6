import FieldQuery.Text.Utf8

/-!
# Percent encoding

* `encode` — every byte of the UTF-8 form outside the unreserved set (letters, digits and
  `-._~`) is written as a percent sign and two capital hexadecimal digits;
* `decode` — reads such triples back; a percent sign without two hexadecimal digits after it
  stands for itself, and bytes that are not UTF-8 have no decoding.
-/

namespace FieldQuery.Text.Percent

/-- The characters that are written as themselves. -/
def isUnreserved (c : Char) : Bool :=
  ('A' ≤ c && c ≤ 'Z') || ('a' ≤ c && c ≤ 'z') || ('0' ≤ c && c ≤ '9') ||
    c == '-' || c == '.' || c == '_' || c == '~'

/-- A capital hexadecimal digit. -/
def hexDigit (n : Nat) : Char :=
  if n < 10 then Char.ofNat (48 + n) else Char.ofNat (55 + n)

/-- What a hexadecimal digit of either case stands for. -/
def hexValue (c : Char) : Option Nat :=
  if '0' ≤ c ∧ c ≤ '9' then some (c.toNat - 48)
  else if 'A' ≤ c ∧ c ≤ 'F' then some (c.toNat - 55)
  else if 'a' ≤ c ∧ c ≤ 'f' then some (c.toNat - 87)
  else none

/-- The triple of a byte. -/
def encodeByte (b : UInt8) : List Char :=
  ['%', hexDigit (b.toNat / 16), hexDigit (b.toNat % 16)]

/-- The encoding of one character. -/
def encodeChar (c : Char) : List Char :=
  if isUnreserved c then [c] else (Utf8.encodeChar c).flatMap encodeByte

/-- The encoding of a text. -/
def encode (cs : List Char) : List Char := cs.flatMap encodeChar

/-- The bytes that an encoded text stands for. -/
def bytes : List Char → List UInt8
  | '%' :: a :: b :: rest =>
    match hexValue a, hexValue b with
    | some x, some y => UInt8.ofNat (16 * x + y) :: bytes rest
    | _, _ => Utf8.encodeChar '%' ++ bytes (a :: b :: rest)
  | c :: rest => Utf8.encodeChar c ++ bytes rest
  | [] => []

/-- The text that an encoded text stands for. -/
def decode (cs : List Char) : Option (List Char) := Utf8.decode (bytes cs)

end FieldQuery.Text.Percent
