import FieldQuery.Document.Basic
import FieldQuery.Time.Calendar

/-!
# TOML

Reads TOML texts into documents: tables and arrays of tables under headers, dotted and quoted
keys, texts of all four kinds, numbers in four bases, arrays and inline tables. A key that is set
twice, a table that is opened twice, a value that is used as a table and values that nest
`maxDepth` deep make the text unreadable.

* `Toml.read` — the table that a text writes.

Dates and times are kept as a table with one reserved key.
-/

namespace FieldQuery.Toml

open Text

/-- How a table came about, which decides who may add to it. -/
inductive Origin where
  /-- Passed through by a header of a table inside it. -/
  | implied
  /-- Opened by its own header. -/
  | header
  /-- Made by a dotted key. -/
  | dotted
  deriving DecidableEq, Repr

/-- A node while the text is being read. -/
inductive Node where
  | value (d : Document)
  | table (origin : Origin) (entries : List (String × Node))
  | tables (closed : List (List (String × Node))) (last : List (String × Node))

/-- The entries of a table. -/
abbrev Entries := List (String × Node)

/-- Looks an entry up. -/
def entry? (k : String) : Entries → Option Node
  | [] => none
  | (k', n) :: rest => if k = k' then some n else entry? k rest

/-- Sets an entry in its place, a new one at the end. -/
def setEntry (k : String) (n : Node) : Entries → Entries
  | [] => [(k, n)]
  | (k', n') :: rest => if k = k' then (k, n) :: rest else (k', n') :: setEntry k n rest

/-- Goes down a path of headers and applies `f` to the entries at its end. -/
def underHeader (f : Entries → Option Entries) : List String → Entries → Option Entries
  | [], entries => f entries
  | k :: ks, entries =>
    match entry? k entries with
    | none => (underHeader f ks []).map fun es => setEntry k (.table .implied es) entries
    | some (.table origin es) =>
      (underHeader f ks es).map fun es => setEntry k (.table origin es) entries
    | some (.tables closed last) =>
      (underHeader f ks last).map fun es => setEntry k (.tables closed es) entries
    | some (.value _) => none

/-- Opens a table by its header. -/
def openTable (k : String) (entries : Entries) : Option Entries :=
  match entry? k entries with
  | none => some (setEntry k (.table .header []) entries)
  | some (.table .implied es) => some (setEntry k (.table .header es) entries)
  | _ => none

/-- Opens the next table of an array by its header. -/
def openNext (k : String) (entries : Entries) : Option Entries :=
  match entry? k entries with
  | none => some (setEntry k (.tables [] []) entries)
  | some (.tables closed last) => some (setEntry k (.tables (closed ++ [last]) []) entries)
  | _ => none

/-- Sets a value under a dotted key. The path may pass through tables without a header of their
own and through the last table of an array, but the table at its end must be made by dotted keys;
`isOpen` tells whether it is. -/
def setUnder (d : Document) (isOpen : Bool) : List String → Entries → Option Entries
  | [], _ => none
  | [k], entries =>
    match isOpen, entry? k entries with
    | true, none => some (setEntry k (.value d) entries)
    | _, _ => none
  | k :: ks, entries =>
    match entry? k entries with
    | none => (setUnder d true ks []).map fun es => setEntry k (.table .dotted es) entries
    | some (.table .dotted es) =>
      (setUnder d true ks es).map fun es => setEntry k (.table .dotted es) entries
    | some (.table .implied es) =>
      (setUnder d false ks es).map fun es => setEntry k (.table .implied es) entries
    | some (.tables closed last) =>
      (setUnder d false ks last).map fun es => setEntry k (.tables closed es) entries
    | some _ => none

/-- Sets a value under a dotted key of the table in force. -/
def setValue (d : Document) : List String → Entries → Option Entries := setUnder d true

mutual

/-- The finished node. -/
def Node.document : Node → Document
  | .value d => d
  | .table _ entries => .table true (documents entries)
  | .tables closed last => .list true (tableList closed ++ [.table true (documents last)])

/-- The finished entries. -/
def documents : List (String × Node) → List (String × Document)
  | [] => []
  | (k, n) :: rest => (k, n.document) :: documents rest

/-- The finished tables of an array. -/
def tableList : List (List (String × Node)) → List Document
  | [] => []
  | t :: ts => .table true (documents t) :: tableList ts

end

/-- Blanks inside a line. -/
def skipBlanks (cs : List Char) : List Char := cs.dropWhile fun c => c == ' ' || c == '\t'

/-- Whether a character may stand in a comment and in a text of one line. -/
def isTextChar (c : Char) : Bool := c == '\t' || (0x20 ≤ c.toNat && c.toNat != 0x7F)

/-- A comment up to the end of its line, or up to what may not stand in it. -/
def skipComment : List Char → List Char
  | '#' :: rest => rest.dropWhile isTextChar
  | cs => cs

/-- The end of a line, after blanks and a comment; the end of the text counts too. -/
def endOfLine (cs : List Char) : Option (List Char) :=
  match skipComment (skipBlanks cs) with
  | [] => some []
  | '\n' :: rest => some rest
  | _ => none

/-- Blanks, comments and line ends. -/
def skipLines : Nat → List Char → List Char
  | 0, cs => cs
  | fuel + 1, cs =>
    match skipComment (skipBlanks cs) with
    | '\n' :: rest => skipLines fuel rest
    | rest => rest

/-- The characters of keys without quotes. -/
def isKeyChar (c : Char) : Bool :=
  ('A' ≤ c && c ≤ 'Z') || ('a' ≤ c && c ≤ 'z') || isDigit c || c == '_' || c == '-'

/-- A number of `count` hexadecimal digits. -/
def hexNumber (count : Nat) (cs : List Char) : Option (Nat × List Char) :=
  if (cs.take count).length < count then none
  else (Document.readBase 16 (cs.take count)).map fun n => (n, cs.drop count)

/-- The character of a code point, surrogates excepted. -/
def scalar? (n : Nat) : Option Char :=
  if n < 0xD800 ∨ (0xDFFF < n ∧ n < 0x110000) then some (Char.ofNat n) else none

/-- What follows a backslash: one character. -/
def escape? : List Char → Option (Char × List Char)
  | 'b' :: r => some (Char.ofNat 8, r)
  | 't' :: r => some ('\t', r)
  | 'n' :: r => some ('\n', r)
  | 'f' :: r => some (Char.ofNat 12, r)
  | 'r' :: r => some ('\r', r)
  | '"' :: r => some ('"', r)
  | '\\' :: r => some ('\\', r)
  | 'u' :: r => (hexNumber 4 r).bind fun (n, r) => (scalar? n).map fun c => (c, r)
  | 'U' :: r => (hexNumber 8 r).bind fun (n, r) => (scalar? n).map fun c => (c, r)
  | _ => none

/-- A text in double quotes, after the first quote. -/
def basicText : Nat → List Char → List Char → Option (List Char × List Char)
  | 0, _, _ => none
  | _ + 1, _, [] => none
  | fuel + 1, done, c :: rest =>
    if c = '"' then some (done.reverse, rest)
    else if c = '\\' then (escape? rest).bind fun (e, rest) => basicText fuel (e :: done) rest
    else if isTextChar c then basicText fuel (c :: done) rest
    else none

/-- A text in single quotes, after the first quote. -/
def literalText : List Char → List Char → Option (List Char × List Char)
  | _, [] => none
  | done, c :: rest =>
    if c = '\'' then some (done.reverse, rest)
    else if isTextChar c then literalText (c :: done) rest
    else none

/-- A text in three double quotes, after them. Up to two quotes may stand before the end. -/
def basicLines : Nat → List Char → List Char → Option (List Char × List Char)
  | 0, _, _ => none
  | _ + 1, done, '"' :: '"' :: '"' :: '"' :: '"' :: rest =>
    some (('"' :: '"' :: done).reverse, rest)
  | _ + 1, done, '"' :: '"' :: '"' :: '"' :: rest => some (('"' :: done).reverse, rest)
  | _ + 1, done, '"' :: '"' :: '"' :: rest => some (done.reverse, rest)
  | _ + 1, _, [] => none
  | fuel + 1, done, '\\' :: rest =>
    match escape? rest with
    | some (e, rest) => basicLines fuel (e :: done) rest
    | none =>
      match skipBlanks rest with
      | '\n' :: more =>
        basicLines fuel done (more.dropWhile fun c => c == ' ' || c == '\t' || c == '\n')
      | _ => none
  | fuel + 1, done, c :: rest =>
    if isTextChar c ∨ c = '\n' then basicLines fuel (c :: done) rest else none

/-- A text in three single quotes, after them. Up to two quotes may stand before the end. -/
def literalLines : Nat → List Char → List Char → Option (List Char × List Char)
  | 0, _, _ => none
  | _ + 1, done, '\'' :: '\'' :: '\'' :: '\'' :: '\'' :: rest =>
    some (('\'' :: '\'' :: done).reverse, rest)
  | _ + 1, done, '\'' :: '\'' :: '\'' :: '\'' :: rest => some (('\'' :: done).reverse, rest)
  | _ + 1, done, '\'' :: '\'' :: '\'' :: rest => some (done.reverse, rest)
  | _ + 1, _, [] => none
  | fuel + 1, done, c :: rest =>
    if isTextChar c ∨ c = '\n' then literalLines fuel (c :: done) rest else none

/-- The text without a line end at its start. -/
def dropLineEnd : List Char → List Char
  | '\n' :: rest => rest
  | cs => cs

/-- One part of a key. -/
def keyPart (cs : List Char) : Option (String × List Char) :=
  match cs with
  | '"' :: rest => (basicText (rest.length + 1) [] rest).map fun (s, r) => (String.ofList s, r)
  | '\'' :: rest => (literalText [] rest).map fun (s, r) => (String.ofList s, r)
  | cs =>
    let k := cs.takeWhile isKeyChar
    if k = [] then none else some (String.ofList k, cs.dropWhile isKeyChar)

/-- A key with its dots. -/
def dottedKey : Nat → List Char → Option (List String × List Char)
  | 0, _ => none
  | fuel + 1, cs =>
    (keyPart (skipBlanks cs)).bind fun (k, rest) =>
      match skipBlanks rest with
      | '.' :: more => (dottedKey fuel more).map fun (ks, r) => (k :: ks, r)
      | more => some ([k], more)

/-- How many parts a key has at most, and how many containers of a value stand in each other, is
below this. -/
def maxDepth : Nat := 80

/-- A key of a bounded number of parts. -/
def wholeKey (cs : List Char) : Option (List String × List Char) :=
  (dottedKey (cs.length + 1) cs).filter fun (ks, _) => ks.length < maxDepth

/-- The characters of a number without the underscores, each of which stands between two digits. -/
def dropUnderscores (isDigit : Char → Bool) : List Char → Option (List Char)
  | [] => some []
  | '_' :: _ => none
  | c :: '_' :: d :: rest =>
    if isDigit c && isDigit d then (dropUnderscores isDigit (d :: rest)).map (c :: ·) else none
  | c :: rest => (dropUnderscores isDigit rest).map (c :: ·)

/-- A whole number in base ten, without sign and leading zeros. -/
def decimalDigits? (cs : List Char) : Option Nat :=
  (dropUnderscores isDigit cs).bind fun ds =>
    match ds with
    | ['0'] => some 0
    | '0' :: _ => none
    | ds => readDigits ds

/-- A whole number of 64 bits. -/
def integer? (cs : List Char) : Option Int :=
  let based (base : Nat) (ds : List Char) : Option Int :=
    (dropUnderscores (fun c => (Document.digitIn? base c).isSome) ds).bind fun ds =>
      (Document.readBase base ds).map Int.ofNat
  let found := match cs with
    | '0' :: 'x' :: ds => based 16 ds
    | '0' :: 'o' :: ds => based 8 ds
    | '0' :: 'b' :: ds => based 2 ds
    | '+' :: ds => (decimalDigits? ds).map Int.ofNat
    | '-' :: ds => (decimalDigits? ds).map fun n => -(n : Int)
    | ds => (decimalDigits? ds).map Int.ofNat
  found.filter fun n => minInt ≤ n && n ≤ maxInt

/-- A number with fraction or exponent, or one of the words for what is not finite. A number too
large is refused; one too small is infinite. -/
def float? (cs : List Char) : Option Binary64 :=
  let body := match cs with
    | '+' :: r => r
    | '-' :: r => r
    | r => r
  if body = ['i', 'n', 'f'] ∨ body = ['n', 'a', 'n'] then Binary64.read cs
  else (dropUnderscores isDigit body).bind fun ds =>
    let whole := ds.takeWhile isDigit
    let wholeFits := match whole with
      | [] => false
      | ['0'] => true
      | c :: _ => c != '0'
    let fractionFits := match ds.dropWhile isDigit with
      | '.' :: r => (r.headD ' ' |> isDigit)
      | 'e' :: _ => true
      | 'E' :: _ => true
      | _ => false
    if wholeFits && fractionFits then
      (Binary64.readDecimal (cs.head? == some '-') ds).filter (· != .infinity false)
    else none

/-- A number of two digits that is not above `most`. -/
def twoDigits (least most : Nat) : List Char → Option (Nat × List Char)
  | a :: b :: rest =>
    if isDigit a && isDigit b then
      let n := foldDigits 0 [a, b]
      if least ≤ n && n ≤ most then some (n, rest) else none
    else none
  | _ => none

/-- What follows a certain character. -/
def after (c : Char) : List Char → Option (List Char)
  | d :: rest => if d = c then some rest else none
  | [] => none

/-- A date; yields what follows it. -/
def date? (cs : List Char) : Option (List Char) := do
  let (high, rest) ← twoDigits 0 99 cs
  let (low, rest) ← twoDigits 0 99 rest
  let (month, rest) ← twoDigits 1 12 (← after '-' rest)
  let (day, rest) ← twoDigits 1 31 (← after '-' rest)
  if day ≤ daysInMonth (100 * high + low) month then some rest else none

/-- A time of day; yields what follows it. -/
def timeOfDay? (cs : List Char) : Option (List Char) := do
  let (_, rest) ← twoDigits 0 23 cs
  let (_, rest) ← twoDigits 0 59 (← after ':' rest)
  let (_, rest) ← twoDigits 0 60 (← after ':' rest)
  match rest with
  | '.' :: d :: more => if isDigit d then some (more.dropWhile isDigit) else none
  | '.' :: _ => none
  | rest => some rest

/-- What follows the offset of a time, if it has one. -/
def skipOffset (cs : List Char) : Option (List Char) :=
  let hoursAndMinutes (cs : List Char) : Option (List Char) := do
    let (_, rest) ← twoDigits 0 23 cs
    let (_, rest) ← twoDigits 0 59 (← after ':' rest)
    return rest
  match cs with
  | 'Z' :: rest => some rest
  | 'z' :: rest => some rest
  | '+' :: rest => hoursAndMinutes rest
  | '-' :: rest => hoursAndMinutes rest
  | rest => some rest

/-- A date, a time of day or both; yields what follows. -/
def dateTime? (cs : List Char) : Option (List Char) :=
  match date? cs with
  | none => timeOfDay? cs
  | some (x :: rest) =>
    if x = 'T' ∨ x = 't' then (timeOfDay? rest).bind skipOffset
    else if x = ' ' then
      match timeOfDay? rest with
      | some rest => skipOffset rest
      | none => some (x :: rest)
    else some (x :: rest)
  | some [] => some []

/-- A word without quotes. -/
def word? (cs : List Char) : Option Document :=
  if cs = ['t', 'r', 'u', 'e'] then some (.bool true)
  else if cs = ['f', 'a', 'l', 's', 'e'] then some (.bool false)
  else match integer? cs with
    | some n => some (.int n)
    | none => (float? cs).map .float

/-- Whether a character ends a word. -/
def endsWord (c : Char) : Bool :=
  c == ' ' || c == '\t' || c == '\n' || c == ',' || c == ']' || c == '}' || c == '#'

/-- A date, a time or a word without quotes. -/
def bare (cs : List Char) : Option (Document × List Char) :=
  match dateTime? cs with
  | some rest =>
    let text := cs.take (cs.length - rest.length)
    some (.table true [("$__toml_private_datetime", .text (String.ofList text))], rest)
  | none =>
    (word? (cs.takeWhile fun c => !endsWord c)).map fun d =>
      (d, cs.dropWhile fun c => !endsWord c)

mutual

/-- A value; containers may nest `room` deep. -/
def value : Nat → Nat → List Char → Option (Document × List Char)
  | 0, _, _ => none
  | fuel + 1, room, cs =>
    match cs with
    | '"' :: '"' :: '"' :: rest =>
      (basicLines (rest.length + 1) [] (dropLineEnd rest)).map fun (s, r) =>
        (.text (String.ofList s), r)
    | '\'' :: '\'' :: '\'' :: rest =>
      (literalLines (rest.length + 1) [] (dropLineEnd rest)).map fun (s, r) =>
        (.text (String.ofList s), r)
    | '"' :: rest =>
      (basicText (rest.length + 1) [] rest).map fun (s, r) => (.text (String.ofList s), r)
    | '\'' :: rest => (literalText [] rest).map fun (s, r) => (.text (String.ofList s), r)
    | '[' :: rest =>
      if room = 0 then none
      else (items fuel (room - 1) [] rest).map fun (ds, r) => (.list true ds, r)
    | '{' :: rest =>
      if room = 0 then none
      else match skipBlanks rest with
        | '}' :: r => some (.table true [], r)
        | r => (inline fuel (room - 1) [] r).map fun (es, r) => (.table true (documents es), r)
    | cs => bare cs

/-- The items of an array, after its bracket or a comma. -/
def items : Nat → Nat → List Document → List Char → Option (List Document × List Char)
  | 0, _, _, _ => none
  | fuel + 1, room, done, cs =>
    match skipLines (cs.length + 1) cs with
    | ']' :: rest => some (done.reverse, rest)
    | cs =>
      match value fuel room cs with
      | none => none
      | some (d, rest) =>
        match skipLines (rest.length + 1) rest with
        | ',' :: rest => items fuel room (d :: done) rest
        | ']' :: rest => some ((d :: done).reverse, rest)
        | _ => none

/-- The entries of an inline table. -/
def inline : Nat → Nat → Entries → List Char → Option (Entries × List Char)
  | 0, _, _, _ => none
  | fuel + 1, room, done, cs =>
    match wholeKey cs with
    | some (ks, '=' :: rest) =>
      match value fuel room (skipBlanks rest) with
      | none => none
      | some (d, rest) =>
        match setValue d ks done, skipBlanks rest with
        | some es, ',' :: rest => inline fuel room es rest
        | some es, '}' :: rest => some (es, rest)
        | _, _ => none
    | _ => none

end

/-- The state between two lines: the whole table, and the path of the header in force. -/
structure State where
  root : Entries
  path : List String

/-- One header or one key with its value. -/
def line (s : State) (cs : List Char) : Option (State × List Char) :=
  match cs with
  | '[' :: '[' :: rest =>
    match wholeKey rest with
    | some (ks, ']' :: ']' :: rest) =>
      match ks.getLast? with
      | none => none
      | some k => (underHeader (openNext k) ks.dropLast s.root).map fun root =>
          (⟨root, ks⟩, rest)
    | _ => none
  | '[' :: rest =>
    match wholeKey rest with
    | some (ks, ']' :: rest) =>
      match ks.getLast? with
      | none => none
      | some k => (underHeader (openTable k) ks.dropLast s.root).map fun root =>
          (⟨root, ks⟩, rest)
    | _ => none
  | cs =>
    match wholeKey cs with
    | some (ks, '=' :: rest) =>
      match value (rest.length + 1) (maxDepth - 1) (skipBlanks rest) with
      | none => none
      | some (d, rest) => (underHeader (setValue d ks) s.path s.root).map fun root =>
          (⟨root, s.path⟩, rest)
    | _ => none

/-- All lines. -/
def lines : Nat → State → List Char → Option State
  | 0, _, _ => none
  | fuel + 1, s, cs =>
    match skipLines (cs.length + 1) cs with
    | [] => some s
    | cs =>
      match line s cs with
      | none => none
      | some (s, rest) => (endOfLine rest).bind fun rest => lines fuel s rest

/-- The text without a byte order mark. -/
def dropMark : List Char → List Char
  | c :: cs => if c.toNat = 0xFEFF then cs else c :: cs
  | [] => []

/-- Line ends of both kinds as one kind; a carriage return stands nowhere else. -/
def unifyEnds : List Char → Option (List Char)
  | [] => some []
  | '\r' :: '\n' :: rest => (unifyEnds rest).map ('\n' :: ·)
  | '\r' :: _ => none
  | c :: rest => (unifyEnds rest).map (c :: ·)

/-- The table that a text writes. -/
def read (text : String) : Option Document := do
  let cs ← unifyEnds (dropMark text.toList)
  let s ← lines (cs.length + 1) ⟨[], []⟩ cs
  return .table true (documents s.root)

end FieldQuery.Toml
