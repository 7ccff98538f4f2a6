import FieldQuery.Text.Numeral
import FieldQuery.Time.Calendar

/-!
# Instants

An instant of universal time: a day, the second of the day and the nanoseconds after it. A leap
second is a second of more than `10 ^ 9` nanoseconds, so that it comes after the second before
it and before the next one. Only the last second of a minute may be one.

* `Instant.compare` — the order of instants;
* `Instant.atOffset?` — the instant that a local clock shows at an offset from universal time;
* `Instant.print` — RFC 3339, with a fraction of three, six or nine digits if there is one.
-/

namespace FieldQuery

open Text

/-- An instant of universal time. -/
structure Instant where
  date : Date
  second : Nat
  nanos : Nat
  second_lt : second < 86400
  nanos_lt : nanos < 2000000000
  leap_last : 1000000000 ≤ nanos → second % 60 = 59
  deriving DecidableEq, Repr

namespace Instant

/-- The order of instants. -/
def compare (a b : Instant) : Ordering :=
  (Date.compare a.date b.date).then
    ((Ord.compare a.second b.second).then (Ord.compare a.nanos b.nanos))

/-- The start of a day. -/
def midnight (d : Date) : Instant := ⟨d, 0, 0, by decide, by decide, by decide⟩

/-- An instant from its parts. -/
def ofParts? (date : Date) (second nanos : Nat) : Option Instant :=
  if hs : second < 86400 then
    if hn : nanos < 2000000000 then
      if hl : 1000000000 ≤ nanos → second % 60 = 59 then some ⟨date, second, nanos, hs, hn, hl⟩
      else none
    else none
  else none

/-- The instant at which a clock that is `offset` seconds ahead shows the given parts. The offset
is less than a day. -/
def atOffset? (date : Date) (second nanos : Nat) (offset : Int) : Option Instant :=
  let total := (second : Int) - offset
  if total < 0 then date.previous?.bind fun d => ofParts? d (total + 86400).toNat nanos
  else if total < 86400 then ofParts? date total.toNat nanos
  else date.next?.bind fun d => ofParts? d (total - 86400).toNat nanos

/-- A number with at least `width` digits. -/
def padded (width n : Nat) : List Char :=
  let ds := natNumeral n
  List.replicate (width - ds.length) '0' ++ ds

/-- A year: four digits, or a sign and at least four digits outside the years 0 to 9999. -/
def yearText (year : Int) : List Char :=
  if 0 ≤ year ∧ year ≤ 9999 then padded 4 year.toNat
  else (if year < 0 then '-' else '+') :: padded 4 year.natAbs

/-- The fraction of a second, in three, six or nine digits; nothing for a whole second. -/
def fractionText (nanos : Nat) : List Char :=
  if nanos = 0 then []
  else if nanos % 1000000 = 0 then '.' :: padded 3 (nanos / 1000000)
  else if nanos % 1000 = 0 then '.' :: padded 6 (nanos / 1000)
  else '.' :: padded 9 nanos

/-- The instant without its offset. -/
def localText (t : Instant) : List Char :=
  yearText t.date.year ++ '-' :: padded 2 t.date.month ++ '-' :: padded 2 t.date.day ++
    'T' :: padded 2 (t.second / 3600) ++ ':' :: padded 2 (t.second / 60 % 60) ++
    ':' :: padded 2 (t.second % 60 + t.nanos / 1000000000) ++
    fractionText (t.nanos % 1000000000)

/-- The instant with a numeric offset. -/
def print (t : Instant) : List Char := t.localText ++ ['+', '0', '0', ':', '0', '0']

/-- The instant with the letter for universal time. -/
def printZulu (t : Instant) : List Char := t.localText ++ ['Z']

/-- The text of `print`. -/
def text (t : Instant) : String := String.ofList t.print

end Instant

end FieldQuery
