import FieldQuery.Number.Binary64

/-!
# The shortest decimal that reads back

Every decimal in the interval around a binary number, up to half the gap to its two neighbours,
rounds to that number; the ends belong to the interval when the magnitude is even. `shortest`
looks for the coarsest power of ten that has a multiple in the interval. If there is one, then
one of the two multiples next to the number is in it; of two the nearer is taken, and of two
equally near ones the even one.
-/

namespace FieldQuery

/-- The decimal `digits * 10 ^ exponent`. -/
structure Scientific where
  digits : Nat
  exponent : Int
  deriving DecidableEq, Repr

namespace Binary64

/-- The numbers that round to one magnitude, in multiples of `2 ^ -1075`. -/
structure Interval where
  low : Nat
  mid : Nat
  high : Nat
  closed : Bool
  deriving DecidableEq, Repr

/-- The interval of a magnitude that is not zero. -/
def interval (magnitude : Nat) : Interval where
  low := units (magnitude - 1) + units magnitude
  mid := 2 * units magnitude
  high := units magnitude + units (magnitude + 1)
  closed := magnitude % 2 == 0

/-- A power of ten as the fraction `up / down`, in multiples of `2 ^ -1075`. -/
def gridStep (exponent : Int) : Nat × Nat :=
  if 0 ≤ exponent then (Nat.pow 10 exponent.toNat * Nat.pow 2 1075, 1)
  else (Nat.pow 2 1075, Nat.pow 10 (-exponent).toNat)

/-- Whether `d * up / down` lies in the interval. -/
def Interval.holds (i : Interval) (up down d : Nat) : Bool :=
  if i.closed then i.low * down ≤ d * up && d * up ≤ i.high * down
  else i.low * down < d * up && d * up < i.high * down

/-- The multiple of a power of ten that stands for the interval, if there is one. -/
def Interval.onGrid (i : Interval) (exponent : Int) : Option Nat :=
  let (up, down) := gridStep exponent
  let below := i.mid * down / up
  let above := below + 1
  match i.holds up down below, i.holds up down above with
  | true, true =>
    let twice := 2 * (i.mid * down)
    let middle := (below + above) * up
    if twice < middle then some below
    else if middle < twice then some above
    else some (below + below % 2)
  | true, false => some below
  | false, true => some above
  | false, false => none

/-- Tries one power of ten after the other, from coarse to fine. At the end of the powers stands
the number itself, which is a multiple of `10 ^ -1075`. -/
def Interval.search (i : Interval) : Nat → Int → Scientific
  | 0, _ => ⟨i.mid * Nat.pow 5 1075, -1075⟩
  | fuel + 1, exponent =>
    match i.onGrid exponent with
    | some d => ⟨d, exponent⟩
    | none => i.search fuel (exponent - 1)

/-- A power of ten above the interval's middle: `2 ^ 10` is less than `10 ^ 3.0103`. -/
def Interval.topExponent (i : Interval) : Int :=
  ((i.mid.log2 : Int) - 1074) * 30103 / 100000 + 1

/-- The shortest decimal for a magnitude. -/
def shortest (magnitude : Nat) : Scientific :=
  if magnitude = 0 then ⟨0, 0⟩
  else
    let i := interval magnitude
    i.search (i.topExponent + 1075).toNat i.topExponent

end Binary64

end FieldQuery
