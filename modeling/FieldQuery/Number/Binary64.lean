/-!
# Binary numbers of 64 bits

The numbers of IEEE 754 binary64, held as a sign and the other sixty-three bits. All arithmetic
is exact: a finite number is a whole multiple of `2 ^ -1074`, and a result is rounded once.

* `units` — the size of a finite number as a multiple of `2 ^ -1074`;
* `nearestMagnitude` — the number nearest to a fraction, a tie going to the even neighbour;
* `ofInt`, `ofScientific`, `add` — rounded conversions and the rounded sum;
* `compare?` — the order of numbers, which has no place for what is not a number;
* `totalCompare` — the total order, in which `-0` comes before `0`.

Principal results: `compare?_isSome`, and `totalCompare` as the order of `orderKey`, so that it is
reflexive, total and transitive without further ado.
-/

namespace FieldQuery

/-- A binary number of 64 bits: sign, and the bits of exponent and fraction as one number. -/
structure Binary64 where
  negative : Bool
  magnitude : Nat
  magnitude_lt : magnitude < 0x8000000000000000
  deriving DecidableEq, Repr

namespace Binary64

/-- The numbers of one exponent, `2 ^ 52`. -/
def binade : Nat := 0x10000000000000

/-- The magnitude of the infinities; larger ones are not numbers. -/
def infinityMagnitude : Nat := 0x7FF0000000000000

/-- Infinity of either sign. -/
def infinity (negative : Bool) : Binary64 := ⟨negative, infinityMagnitude, by decide⟩

/-- Zero of either sign. -/
def zero (negative : Bool) : Binary64 := ⟨negative, 0, by decide⟩

/-- The result of an operation without result. -/
def nan : Binary64 := ⟨false, 0x7FF8000000000000, by decide⟩

/-- Whether this is not a number. -/
def isNaN (x : Binary64) : Bool := infinityMagnitude < x.magnitude

/-- Whether this is one of the infinities. -/
def isInfinite (x : Binary64) : Bool := x.magnitude == infinityMagnitude

/-- Whether this is a number other than the infinities. -/
def isFinite (x : Binary64) : Bool := x.magnitude < infinityMagnitude

/-- The same number with the sign turned. -/
def neg (x : Binary64) : Binary64 := { x with negative := !x.negative }

/-- The size that a magnitude stands for, in multiples of `2 ^ -1074`. -/
def units (magnitude : Nat) : Nat :=
  if magnitude / binade = 0 then magnitude % binade
  else (binade + magnitude % binade) * Nat.pow 2 (magnitude / binade - 1)

/-- The size with its sign. -/
def signedUnits (x : Binary64) : Int :=
  if x.negative then -(units x.magnitude : Int) else units x.magnitude

/-- The quotient rounded to the nearest whole number, a tie going to the even one. -/
def roundHalfEven (num den : Nat) : Nat :=
  let q := num / den
  let r := num % den
  if 2 * r < den then q else if den < 2 * r then q + 1 else q + q % 2

/-- The magnitude of the number nearest to `num / den`. The spacing of the numbers around the
quotient is `2 ^ e` units; rounding up to the next power of two moves on to the next exponent by
itself. -/
def nearestMagnitude (num den : Nat) : Nat :=
  let scaled := num * Nat.pow 2 1074
  let e := (scaled / den).log2 - 52
  min infinityMagnitude (e * binade + roundHalfEven scaled (den * Nat.pow 2 e))

theorem nearestMagnitude_lt (num den : Nat) : nearestMagnitude num den < 0x8000000000000000 :=
  Nat.lt_of_le_of_lt (Nat.min_le_left _ _) (by decide)

/-- The number nearest to a fraction with a sign. -/
def nearest (negative : Bool) (num den : Nat) : Binary64 :=
  ⟨negative, nearestMagnitude num den, nearestMagnitude_lt num den⟩

/-- The number nearest to an integer. -/
def ofInt (n : Int) : Binary64 := nearest (n < 0) n.natAbs 1

/-- The number nearest to `digits * 10 ^ exponent`. Beyond four hundred places on either side
the outcome is settled without the power. -/
def ofScientific (negative : Bool) (digits : Nat) (exponent : Int) : Binary64 :=
  if digits = 0 then zero negative
  else if 400 < exponent then infinity negative
  else if 0 ≤ exponent then nearest negative (digits * Nat.pow 10 exponent.toNat) 1
  else if exponent + digits.log2 < -2000 then zero negative
  else nearest negative digits (Nat.pow 10 (-exponent).toNat)

/-- The rounded sum. -/
def add (x y : Binary64) : Binary64 :=
  if x.isNaN || y.isNaN then nan
  else if x.isInfinite then (if y.isInfinite && x.negative != y.negative then nan else x)
  else if y.isInfinite then y
  else
    let s := x.signedUnits + y.signedUnits
    if s = 0 then zero (x.negative && y.negative)
    else nearest (s < 0) s.natAbs (Nat.pow 2 1074)

/-- The magnitude with its sign; larger for larger numbers, and the same for both zeros. -/
def signedMagnitude (x : Binary64) : Int :=
  if x.negative then -(x.magnitude : Int) else x.magnitude

/-- The order of numbers. -/
def compare? (x y : Binary64) : Option Ordering :=
  if x.isNaN || y.isNaN then none else some (compare x.signedMagnitude y.signedMagnitude)

/-- A key for the total order: negative numbers by falling magnitude, then the others. -/
def orderKey (x : Binary64) : Int :=
  if x.negative then -(x.magnitude : Int) - 1 else x.magnitude

/-- The total order. -/
def totalCompare (x y : Binary64) : Ordering := compare x.orderKey y.orderKey

/-- Equality of numbers: the zeros are equal, and what is not a number equals nothing. -/
def equals (x y : Binary64) : Bool := compare? x y == some .eq

theorem compare?_isSome {x y : Binary64} :
    (compare? x y).isSome = true ↔ x.isNaN = false ∧ y.isNaN = false := by
  unfold compare?
  cases x.isNaN <;> cases y.isNaN <;> simp

theorem totalCompare_eq_eq_iff {x y : Binary64} : totalCompare x y = .eq ↔ x = y := by
  unfold totalCompare
  rw [Int.compare_eq_eq]
  unfold orderKey
  obtain ⟨sx, mx, hx⟩ := x
  obtain ⟨sy, my, hy⟩ := y
  cases sx <;> cases sy <;> simp [Binary64.mk.injEq] <;> omega

end Binary64

end FieldQuery
