import FieldQuery.Text.Blank
import FieldQuery.Time.Instant

/-!
# Reading dates and times

A layout is a row of `Item`s: numbers of the calendar and the clock, fixed characters and
blanks. Reading a text along a layout fills in `Parts`, and the parts make an instant.

* `readPattern?` — a text in a layout written with percent signs (`%Y-%m-%d`), at universal time;
* `readStrict?` — RFC 3339;
* `readRelaxed?` — RFC 3339 with signed years, blanks and short numbers allowed.

A number is read after blanks. The year takes four digits, or any number after a sign; all else
takes one digit or two. Second 60 is a leap second.
-/

namespace FieldQuery.Time

open Text

/-- One element of a layout. -/
inductive Item where
  | year
  | month
  | day
  | hour
  | minute
  | second
  | fraction
  | char (c : Char)
  | blanks
  deriving DecidableEq, Repr

/-- What has been read so far. -/
structure Parts where
  year : Option Int := none
  month : Option Nat := none
  day : Option Nat := none
  hour : Option Nat := none
  minute : Option Nat := none
  second : Option Nat := none
  nanos : Option Nat := none
  deriving DecidableEq, Repr

/-- A part that is set twice must be set to the same number. -/
def agree {α : Type} [DecidableEq α] (old : Option α) (new : α) : Option (Option α) :=
  match old with
  | none => some (some new)
  | some o => if o = new then some (some new) else none

/-- A number of `least` to `most` digits, and what follows it. -/
def readNumber (least most : Nat) (cs : List Char) : Option (Nat × List Char) :=
  let ds := (cs.takeWhile isDigit).take most
  if ds.length < least then none else some (foldDigits 0 ds, cs.drop ds.length)

/-- A number after blanks, not above `most`. -/
def readSmall (least most : Nat) (cs : List Char) : Option (Nat × List Char) :=
  (readNumber 1 2 (trimStart cs)).bind fun (n, rest) =>
    if least ≤ n ∧ n ≤ most then some (n, rest) else none

/-- A year: up to four digits, or a sign and any number of digits. -/
def readYear (cs : List Char) : Option (Int × List Char) :=
  match trimStart cs with
  | '-' :: rest => (readNumber 1 rest.length rest).map fun (n, rest) => (-(n : Int), rest)
  | '+' :: rest => (readNumber 1 rest.length rest).map fun (n, rest) => ((n : Int), rest)
  | rest => (readNumber 1 4 rest).map fun (n, rest) => ((n : Int), rest)

/-- The digits of a fraction as nanoseconds; digits beyond the ninth are passed over. -/
def readNanos (cs : List Char) : Option (Nat × List Char) :=
  let ds := cs.takeWhile isDigit
  if ds = [] then none
  else
    let kept := ds.take 9
    some (foldDigits 0 kept * Nat.pow 10 (9 - kept.length), cs.dropWhile isDigit)

/-- Reads one element. -/
def Item.read (p : Parts) (cs : List Char) : Item → Option (Parts × List Char)
  | .year => (readYear cs).bind fun (n, rest) =>
    (agree p.year n).map fun y => ({ p with year := y }, rest)
  | .month => (readSmall 1 12 cs).bind fun (n, rest) =>
    (agree p.month n).map fun m => ({ p with month := m }, rest)
  | .day => (readSmall 1 31 cs).bind fun (n, rest) =>
    (agree p.day n).map fun d => ({ p with day := d }, rest)
  | .hour => (readSmall 0 23 cs).bind fun (n, rest) =>
    (agree p.hour n).map fun h => ({ p with hour := h }, rest)
  | .minute => (readSmall 0 59 cs).bind fun (n, rest) =>
    (agree p.minute n).map fun m => ({ p with minute := m }, rest)
  | .second => (readSmall 0 60 cs).bind fun (n, rest) =>
    (agree p.second n).map fun s => ({ p with second := s }, rest)
  | .fraction => match cs with
    | '.' :: rest => (readNanos rest).bind fun (n, rest) =>
      (agree p.nanos n).map fun n => ({ p with nanos := n }, rest)
    | cs => some (p, cs)
  | .char c => match cs with
    | d :: rest => if c = d then some (p, rest) else none
    | [] => none
  | .blanks => some (p, trimStart cs)

/-- Reads a text along a layout; the rest of the text comes back. -/
def readItems (p : Parts) (cs : List Char) : List Item → Option (Parts × List Char)
  | [] => some (p, cs)
  | i :: is =>
    match i.read p cs with
    | some (p, rest) => readItems p rest is
    | none => none

/-- The day that the parts name. -/
def Parts.date? (p : Parts) : Option Date :=
  match p.year, p.month, p.day with
  | some y, some m, some d => Date.ofNumbers? y m d
  | _, _, _ => none

/-- The second of the day and the nanoseconds that the parts name. Hour and minute are needed. -/
def Parts.clock? (p : Parts) : Option (Nat × Nat) :=
  match p.hour, p.minute with
  | some h, some m =>
    let s := p.second.getD 0
    let nanos := p.nanos.getD 0
    if s = 60 then some (h * 3600 + m * 60 + 59, 1000000000 + nanos)
    else some (h * 3600 + m * 60 + s, nanos)
  | _, _ => none

/-- The instant that the parts name on a clock with an offset. -/
def Parts.instant? (p : Parts) (offset : Int) : Option Instant :=
  match p.date?, p.clock? with
  | some date, some (second, nanos) => Instant.atOffset? date second nanos offset
  | _, _ => none

/-- The layout that a pattern writes. A percent sign with any other letter than those of the
calendar and the clock makes the pattern unreadable. -/
def layout? : List Char → Option (List Item)
  | [] => some []
  | '%' :: c :: rest =>
    let item : Option Item :=
      if c = 'Y' then some .year
      else if c = 'm' then some .month
      else if c = 'd' then some .day
      else if c = 'H' then some .hour
      else if c = 'M' then some .minute
      else if c = 'S' then some .second
      else if c = '%' then some (.char '%')
      else none
    match item, layout? rest with
    | some i, some is => some (i :: is)
    | _, _ => none
  | ['%'] => none
  | c :: rest => (layout? rest).map fun is => (if isBlank c then .blanks else .char c) :: is

/-- A text in the layout of a pattern: an instant if the clock is read too, else the start of the
day. -/
def readPattern? (pattern text : List Char) : Option Instant :=
  match (layout? pattern).bind (readItems {} text) with
  | some (p, []) =>
    match p.instant? 0 with
    | some t => some t
    | none => p.date?.map Instant.midnight
  | _ => none

/-- Two digits for the hours and two for the minutes, as seconds; `separator` takes what stands
between them. -/
def readHoursAndMinutes (separator : List Char → Option (List Char)) (cs : List Char) :
    Option (Int × List Char) :=
  match readNumber 2 2 cs with
  | none => none
  | some (h, rest) =>
    match separator rest with
    | none => none
    | some rest =>
      match readNumber 2 2 rest with
      | none => none
      | some (m, rest) => if m ≤ 59 then some (h * 3600 + m * 60, rest) else none

/-- The seconds of an offset: none behind a `Z`, hours and minutes behind a sign. -/
def readOffset (separator : List Char → Option (List Char)) : List Char →
    Option (Int × List Char)
  | [] => none
  | c :: rest =>
    if c = 'Z' ∨ c = 'z' then some (0, rest)
    else if c = '+' then readHoursAndMinutes separator rest
    else if c = '-' ∨ c = Char.ofNat 0x2212 then
      (readHoursAndMinutes separator rest).map fun (s, rest) => (-s, rest)
    else none

/-- One colon. -/
def colon? : List Char → Option (List Char)
  | ':' :: rest => some rest
  | _ => none

/-- Any run of colons and blanks. -/
def colonsOrBlanks (cs : List Char) : Option (List Char) :=
  some (cs.dropWhile fun c => c == ':' || isBlank c)

/-- A number of exactly `width` digits from `least` to `most`. -/
def readFixed (width least most : Nat) (cs : List Char) : Option (Nat × List Char) :=
  (readNumber width width cs).bind fun (n, rest) =>
    if least ≤ n ∧ n ≤ most then some (n, rest) else none

/-- One given character. -/
def readChar (c : Char) : List Char → Option (List Char)
  | d :: rest => if c = d then some rest else none
  | [] => none

/-- Whether a character may stand between day and time. -/
def isDateTimeMark (c : Char) : Bool := c == 'T' || c == 't' || c == ' '

/-- What follows the mark between day and time. -/
def readMark : List Char → Option (List Char)
  | c :: rest => if isDateTimeMark c then some rest else none
  | [] => none

/-- The optional fraction of a second. -/
def readFraction : List Char → Option (Nat × List Char)
  | '.' :: rest => readNanos rest
  | rest => some (0, rest)

/-- Reads RFC 3339. -/
def readStrict? (cs : List Char) : Option Instant := do
  let (year, cs) ← readFixed 4 0 9999 cs
  let cs ← readChar '-' cs
  let (month, cs) ← readFixed 2 1 12 cs
  let cs ← readChar '-' cs
  let (day, cs) ← readFixed 2 1 31 cs
  let cs ← readMark cs
  let (hour, cs) ← readFixed 2 0 23 cs
  let cs ← readChar ':' cs
  let (minute, cs) ← readFixed 2 0 59 cs
  let cs ← readChar ':' cs
  let (second, cs) ← readFixed 2 0 60 cs
  let (nanos, cs) ← readFraction cs
  let (offset, cs) ← readOffset colon? cs
  if cs ≠ [] ∨ 86400 ≤ offset.natAbs then none
  else
    Parts.instant?
      ⟨some year, some month, some day, some hour, some minute, some second, some nanos⟩ offset

/-- The layout of a day in the relaxed form. -/
def relaxedDate : List Item := [.year, .blanks, .char '-', .month, .blanks, .char '-', .day]

/-- The layout of a time in the relaxed form. -/
def relaxedTime : List Item :=
  [.hour, .blanks, .char ':', .minute, .blanks, .char ':', .second, .fraction, .blanks]

/-- An offset, or the three letters of universal time in either case. -/
def readRelaxedOffset (cs : List Char) : Option (Int × List Char) :=
  if asciiUpper (cs.take 3) = ['U', 'T', 'C'] then some (0, cs.drop 3)
  else readOffset colonsOrBlanks cs
where
  /-- Capital letters. -/
  asciiUpper (cs : List Char) : List Char :=
    cs.map fun c => if 'a' ≤ c ∧ c ≤ 'z' then Char.ofNat (c.toNat - 32) else c

/-- Reads the relaxed form of RFC 3339. -/
def readRelaxed? (cs : List Char) : Option Instant := do
  let (p, cs) ← readItems {} cs relaxedDate
  let cs ← readMark cs
  let (p, cs) ← readItems p cs relaxedTime
  let (offset, cs) ← readRelaxedOffset (trimStart cs)
  if trimStart cs ≠ [] ∨ 86400 ≤ offset.natAbs then none
  else p.instant? offset

/-- The reserved name of RFC 3339 among the layouts. -/
def rfc3339Name : String := "rfc3339"

end FieldQuery.Time
