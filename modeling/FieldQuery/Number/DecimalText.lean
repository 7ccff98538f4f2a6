import FieldQuery.Number.Shortest
import FieldQuery.Text.Numeral
import FieldQuery.Text.LowerCase

/-!
# Numbers as text

* `Style` — which numbers are written positionally and what follows a whole number;
* `plainStyle` — always positional, whole numbers bare: `120`, `0.1`, `-0`;
* `jsonStyle` — whole numbers end in `.0`, exponents outside `10 ^ -5 … 10 ^ 16`: `1e+16`;
* `Binary64.print`, `Binary64.printJson` — the shortest decimal in either style;
* `Binary64.read` — reads decimals with optional sign, fraction and exponent, and the words
  `inf`, `infinity` and `nan` in letters of any case.
-/

namespace FieldQuery

open Text

/-- How a decimal is laid out. `pointAt` counts the digits before the point. -/
structure NumberStyle where
  positional : (pointAt : Int) → Bool
  wholeTail : List Char

/-- Positional notation without limits. -/
def plainStyle : NumberStyle := ⟨fun _ => true, []⟩

/-- Positional notation for up to sixteen digits before the point and four zeros after it. -/
def jsonStyle : NumberStyle := ⟨fun p => -5 < p && p ≤ 16, ['.', '0']⟩

/-- A row of zeros. -/
def zeros (n : Nat) : List Char := List.replicate n '0'

/-- An exponent with its sign. -/
def exponentText (e : Int) : List Char :=
  'e' :: (if e < 0 then '-' else '+') :: natNumeral e.natAbs

/-- Writes a decimal without sign. -/
def NumberStyle.layout (style : NumberStyle) (x : Scientific) : List Char :=
  let ds := natNumeral x.digits
  let pointAt := (ds.length : Int) + x.exponent
  if style.positional pointAt then
    if 0 ≤ x.exponent then ds ++ zeros x.exponent.toNat ++ style.wholeTail
    else if 0 < pointAt then ds.take pointAt.toNat ++ '.' :: ds.drop pointAt.toNat
    else '0' :: '.' :: zeros (-pointAt).toNat ++ ds
  else
    match ds with
    | [d] => d :: exponentText (pointAt - 1)
    | d :: rest => d :: '.' :: rest ++ exponentText (pointAt - 1)
    | [] => exponentText (pointAt - 1)

namespace Binary64

/-- The shortest decimal of a finite number in a style. -/
def printFinite (style : NumberStyle) (x : Binary64) : List Char :=
  let body := style.layout (shortest x.magnitude)
  if x.negative then '-' :: body else body

/-- The number in plain style; `NaN`, `inf` and `-inf` for the rest. -/
def print (x : Binary64) : List Char :=
  if x.isNaN then ['N', 'a', 'N']
  else if x.isInfinite then (if x.negative then ['-', 'i', 'n', 'f'] else ['i', 'n', 'f'])
  else printFinite plainStyle x

/-- A finite number as it stands in JSON. -/
def printJson (x : Binary64) : List Char := printFinite jsonStyle x

/-- The text of `print`. -/
def text (x : Binary64) : String := String.ofList x.print

/-- The exponent after the digits: nothing, or the letter `e` and a whole number. -/
def readExponent : List Char → Option Int
  | [] => some 0
  | e :: rest =>
    if e = 'e' ∨ e = 'E' then
      match rest with
      | '+' :: ds => (readDigits ds).map Int.ofNat
      | '-' :: ds => (readDigits ds).map fun n => -(n : Int)
      | ds => (readDigits ds).map Int.ofNat
    else none

/-- Digits with a fraction and an exponent; one digit at least. -/
def readDecimal (negative : Bool) (cs : List Char) : Option Binary64 :=
  let whole := cs.takeWhile isDigit
  let rest := cs.dropWhile isDigit
  let (fraction, rest) := match rest with
    | '.' :: r => (r.takeWhile isDigit, r.dropWhile isDigit)
    | r => ([], r)
  if whole = [] ∧ fraction = [] then none
  else (readExponent rest).map fun e =>
    ofScientific negative (foldDigits (foldDigits 0 whole) fraction) (e - fraction.length)

/-- A number without its sign. -/
def readUnsigned (negative : Bool) (cs : List Char) : Option Binary64 :=
  let word := cs.map asciiLowerChar
  if word = ['i', 'n', 'f'] ∨ word = ['i', 'n', 'f', 'i', 'n', 'i', 't', 'y'] then
    some (infinity negative)
  else if word = ['n', 'a', 'n'] then some (if negative then nan.neg else nan)
  else readDecimal negative cs

/-- Reads a number. -/
def read : List Char → Option Binary64
  | '+' :: cs => readUnsigned false cs
  | '-' :: cs => readUnsigned true cs
  | cs => readUnsigned false cs

end Binary64

end FieldQuery
