import FieldQuery.Number.Binary64
import FieldQuery.Text.Numeral

/-!
# Decimals in two roundings

A quick way from digits to a binary number: the digits that fit a word of 64 bits are rounded to a
binary number, and that is multiplied with a power of ten or divided by one, which rounds again. For
decimals of more than fifteen digits the outcome can be a neighbour of the nearest number.

* `keepDigits` — the digits that fit a word, and how many do not;
* `times`, `dividedBy` — the rounded product and the rounded quotient, without signs;
* `ofDigits` — a number from its digits and a power of ten. Beyond all bounds it is infinite.
-/

namespace FieldQuery.Binary64

open Text

/-- The number that digits continue, as long as it fits a word, and the number of digits left. -/
def keepDigits : Nat → List Char → Nat × Nat
  | n, [] => (n, 0)
  | n, c :: cs =>
    if 10 * n + digitValue c ≤ wordMax then keepDigits (10 * n + digitValue c) cs
    else (n, cs.length + 1)

/-- The rounded product, without sign. -/
def times (x y : Binary64) : Binary64 :=
  nearest false (units x.magnitude * units y.magnitude) (Nat.pow 2 2148)

/-- The rounded quotient, without sign. -/
def dividedBy (x y : Binary64) : Binary64 := nearest false (units x.magnitude) (units y.magnitude)

/-- The number nearest to a power of ten. -/
def tenPower (n : Nat) : Binary64 := nearest false (Nat.pow 10 n) 1

/-- The largest power of ten among the binary numbers. -/
def lastPower : Nat := 308

/-- Divides by the largest power of ten, as often as given or until nothing is left. -/
def shrink (x : Binary64) : Nat → Binary64
  | 0 => x
  | steps + 1 => if x.magnitude = 0 then x else shrink (x.dividedBy (tenPower lastPower)) steps

/-- Divides by a power of ten, in steps of the largest power that there is. -/
def scaleDown (x : Binary64) (n : Nat) : Binary64 :=
  let steps := (n - 1) / lastPower
  (shrink x steps).dividedBy (tenPower (n - lastPower * steps))

/-- Multiplies with a power of ten. -/
def scaleUp (x : Binary64) (n : Nat) : Binary64 :=
  if n ≤ lastPower then x.times (tenPower n)
  else if x.magnitude = 0 then x
  else infinity false

/-- A number from digits that fit a word and a power of ten. -/
def ofDigits (negative : Bool) (digits : Nat) (exponent : Int) : Binary64 :=
  let x := ofInt digits
  let scaled := if 0 ≤ exponent then scaleUp x exponent.toNat else scaleDown x (-exponent).toNat
  { scaled with negative := negative }

end FieldQuery.Binary64
