import FieldQuery.Document.Basic
import FieldQuery.Text.Blank

/-!
# YAML

Reads YAML texts into documents: block mappings and sequences, flow mappings and sequences, plain
and quoted scalars, comments, and one document of a text. Anchors, tags, block scalars, keys that
are no scalars and collections that nest more than `maxDepth` deep make the text unreadable.

* `Yaml.read` — the node that a text writes.

A `Cursor` is a place in the text with its column. Block structure follows from columns alone:
an entry of a collection stands in the column of the first one, what belongs to it stands
further right, and only the sequence under a key may stand in the column of the key.
-/

namespace FieldQuery.Yaml

open Text

/-- A place in the text. -/
structure Cursor where
  /-- How many characters stand before it on its line. -/
  col : Nat
  rest : List Char
  /-- Whether nothing but blanks stands before it on its line. -/
  fresh : Bool
  deriving Inhabited

/-- The place after the characters that are missing in `rest`. -/
def Cursor.upTo (c : Cursor) (rest : List Char) : Cursor :=
  let passed := c.rest.take (c.rest.length - rest.length)
  let col := passed.foldl (fun n x => if x = '\n' then 0 else n + 1) c.col
  ⟨col, rest, false⟩

/-- The next place that is no blank, no comment and no end of a line. A tab is a blank only inside
a line, unless `flow` holds. -/
def seekFrom (flow comment fresh : Bool) (col : Nat) : List Char → Cursor
  | [] => ⟨col, [], true⟩
  | x :: rest =>
    if x = '\n' then seekFrom flow false true 0 rest
    else if comment ∨ x = ' ' ∨ (x = '\t' ∧ (flow ∨ !fresh)) then
      seekFrom flow comment fresh (col + 1) rest
    else if x = '#' then seekFrom flow true fresh (col + 1) rest
    else ⟨col, x :: rest, fresh⟩

/-- `seekFrom` at a cursor. -/
def Cursor.seek (flow : Bool) (c : Cursor) : Cursor := seekFrom flow false c.fresh c.col c.rest

/-- Whether an indicator before these characters stands alone. -/
def standsAlone : List Char → Bool
  | [] => true
  | x :: _ => x == ' ' || x == '\t' || x == '\n'

/-- The characters that end a plain scalar inside a flow collection. -/
def isFlowIndicator (x : Char) : Bool :=
  x == ',' || x == '[' || x == ']' || x == '{' || x == '}'

/-- The characters that start something else than a plain scalar. -/
def isIndicator (x : Char) : Bool :=
  isFlowIndicator x || "-?:#&*!|>'\"%@".toList.contains x || x.toNat == 0x60

/-- Whether a plain scalar starts here. -/
def startsPlain (flow : Bool) : List Char → Bool
  | [] => false
  | x :: rest =>
    if x = '-' then !standsAlone rest
    else if x = '?' ∨ x = ':' then !flow && !standsAlone rest
    else !standsAlone [x] && !isIndicator x

/-- The part of a plain scalar that stands on one line, last character first. -/
def plainLine (flow : Bool) (done : List Char) : List Char → Option (List Char × List Char)
  | [] => some (done, [])
  | x :: rest =>
    if x = '\n' ∨ (x = ':' ∧ standsAlone rest) ∨ (flow ∧ isFlowIndicator x) ∨
        (x = '#' ∧ standsAlone (done.take 1)) then some (done, x :: rest)
    else if flow ∧ x = ':' ∧ (rest.take 1).any (fun y => isFlowIndicator y || y == '?') then none
    else plainLine flow (x :: done) rest

/-- Blanks inside a line. -/
def isInner (x : Char) : Bool := x == ' ' || x == '\t'

/-- What a run of line ends is folded to: one to a blank, more to all but the first. -/
def folded (ends : Nat) : List Char := if ends ≤ 1 then [' '] else List.replicate (ends - 1) '\n'

/-- The rest of a plain scalar on further lines that start in column `low` at least. -/
def plainMore (flow : Bool) (low : Nat) : Nat → List Char → List Char →
    Option (List Char × List Char)
  | 0, done, rest => some (done, rest)
  | fuel + 1, done, rest =>
    let run := rest.takeWhile fun x => isInner x || x == '\n'
    let next := rest.drop run.length
    let ends := run.count '\n'
    let col := (run.reverse.takeWhile (· != '\n')).length
    if ends = 0 ∨ next = [] ∨ next.head? = some '#' ∨ (!flow ∧ col < low) then some (done, rest)
    else
      match plainLine flow [] next with
      | none => none
      | some ([], _) => some (done, rest)
      | some (line, rest) =>
        plainMore flow low fuel (line.dropWhile isInner ++ folded ends ++ done) rest

/-- A plain scalar. -/
def plainScalar (flow : Bool) (low : Nat) (c : Cursor) : Option (String × Cursor) :=
  match plainLine flow [] c.rest with
  | none => none
  | some (line, rest) =>
    (plainMore flow low (rest.length + 1) (line.dropWhile isInner) rest).map fun (done, rest) =>
      (String.ofList done.reverse, c.upTo rest)

/-- A number of `count` hexadecimal digits as a character. -/
def codePoint (count : Nat) (cs : List Char) : Option (Char × List Char) :=
  if (cs.take count).length < count then none
  else (Document.readBase 16 (cs.take count)).bind fun n =>
    if n < 0xD800 ∨ (0xDFFF < n ∧ n < 0x110000) then some (Char.ofNat n, cs.drop count) else none

/-- What follows a backslash: one character. -/
def escape? : List Char → Option (Char × List Char)
  | [] => none
  | 'x' :: r => codePoint 2 r
  | 'u' :: r => codePoint 4 r
  | 'U' :: r => codePoint 8 r
  | x :: r =>
    (List.lookup x [('0', 0), ('a', 7), ('b', 8), ('t', 9), ('\t', 9), ('n', 10), ('v', 11),
      ('f', 12), ('r', 13), ('e', 27), (' ', 32), ('"', 34), ('/', 47), ('\\', 92),
      ('N', 0x85), ('_', 0xA0), ('L', 0x2028), ('P', 0x2029)]).map fun n => (Char.ofNat n, r)

/-- A scalar after its opening quote; `double` tells the kind of quote. -/
def quoted (double : Bool) : Nat → List Char → List Char → Option (String × List Char)
  | 0, _, _ => none
  | _ + 1, _, [] => none
  | fuel + 1, done, x :: rest =>
    if x = '\n' then
      let run := rest.takeWhile fun y => isInner y || y == '\n'
      quoted double fuel (folded (run.count '\n' + 1) ++ done.dropWhile isInner)
        (rest.drop run.length)
    else if double ∧ x = '"' then some (String.ofList done.reverse, rest)
    else if double ∧ x = '\\' ∧ rest.head? = some '\n' then
      quoted double fuel done (rest.tail.dropWhile isInner)
    else if double ∧ x = '\\' then
      (escape? rest).bind fun (y, rest) => quoted double fuel (y :: done) rest
    else if !double ∧ x = '\'' then
      match rest with
      | '\'' :: rest => quoted double fuel ('\'' :: done) rest
      | rest => some (String.ofList done.reverse, rest)
    else quoted double fuel (x :: done) rest

/-- A quoted scalar, if one starts here. -/
def quotedScalar (c : Cursor) : Option (String × Cursor) :=
  match c.rest with
  | '"' :: rest => (quoted true (rest.length + 1) [] rest).map fun (s, rest) => (s, c.upTo rest)
  | '\'' :: rest => (quoted false (rest.length + 1) [] rest).map fun (s, rest) => (s, c.upTo rest)
  | _ => none

/-- A scalar. -/
def scalar (flow : Bool) (low : Nat) (c : Cursor) : Option (Document × Cursor) :=
  if startsPlain flow c.rest then
    (plainScalar flow low c).map fun (s, c) => (.plain s, c)
  else (quotedScalar c).map fun (s, c) => (.text s, c)

/-- The text of a key. -/
def keyText? : Document → Option String
  | .plain s => some s
  | .text s => some s
  | _ => none

mutual

/-- A node inside a flow collection. -/
def flowNode : Nat → Cursor → Option (Document × Cursor)
  | 0, _ => none
  | fuel + 1, c =>
    match c.rest with
    | '[' :: rest => flowItems fuel [] (c.upTo rest)
    | '{' :: rest => flowEntries fuel [] (c.upTo rest)
    | _ => scalar true 0 c

/-- The node after a colon; nothing may stand there. -/
def flowValue : Nat → Cursor → Option (Document × Cursor)
  | 0, _ => none
  | fuel + 1, c =>
    let c := c.seek true
    match c.rest with
    | ',' :: _ => some (.plain "", c)
    | ']' :: _ => some (.plain "", c)
    | '}' :: _ => some (.plain "", c)
    | _ => flowNode fuel c

/-- The items of a flow sequence after its bracket or a comma. An item with a colon is a mapping
of one entry. -/
def flowItems : Nat → List Document → Cursor → Option (Document × Cursor)
  | 0, _, _ => none
  | fuel + 1, done, c =>
    let c := c.seek true
    match c.rest with
    | ']' :: rest => some (.list false done.reverse, c.upTo rest)
    | _ =>
      match flowNode fuel c with
      | none => none
      | some (d, c) =>
        let c := c.seek true
        let item := match c.rest with
          | ':' :: rest =>
            match keyText? d, flowValue fuel (c.upTo rest) with
            | some k, some (v, c) => some (Document.table false [(k, v)], c.seek true)
            | _, _ => none
          | _ => some (d, c)
        match item with
        | none => none
        | some (d, c) =>
          match c.rest with
          | ',' :: rest => flowItems fuel (d :: done) (c.upTo rest)
          | ']' :: rest => some (.list false (d :: done).reverse, c.upTo rest)
          | _ => none

/-- The entries of a flow mapping after its brace or a comma. -/
def flowEntries : Nat → List (String × Document) → Cursor → Option (Document × Cursor)
  | 0, _, _ => none
  | fuel + 1, done, c =>
    let c := c.seek true
    match c.rest with
    | '}' :: rest => some (.table false done.reverse, c.upTo rest)
    | _ =>
      match flowNode fuel c with
      | none => none
      | some (d, c) =>
        let c := c.seek true
        let value : Option (Document × Cursor) := match c.rest with
          | ':' :: rest => (flowValue fuel (c.upTo rest)).map fun (v, c) => (v, Cursor.seek true c)
          | _ => some (.plain "", c)
        match keyText? d, value with
        | some k, some (v, c) =>
          match c.rest with
          | ',' :: rest => flowEntries fuel ((k, v) :: done) (c.upTo rest)
          | '}' :: rest => some (.table false ((k, v) :: done).reverse, c.upTo rest)
          | _ => none
        | _, _ => none

end

/-- The key of an entry of a block mapping, up to its colon. It stands on one line. -/
def blockKey (c : Cursor) : Option (String × Cursor) :=
  let found :=
    if startsPlain false c.rest then
      (plainLine false [] c.rest).map fun (line, rest) =>
        (String.ofList (line.dropWhile isInner).reverse, rest)
    else (quotedScalar c).bind fun (s, after) =>
      if (c.rest.take (c.rest.length - after.rest.length)).contains '\n' then none
      else some (s, after.rest.dropWhile isInner)
  match found with
  | some (k, ':' :: rest) => if standsAlone rest then some (k, c.upTo rest) else none
  | _ => none

/-- A node that is no block collection; nothing may follow it on its line. -/
def leaf (low : Nat) (c : Cursor) : Option (Document × Cursor) :=
  let found := match c.rest with
    | '[' :: _ => flowNode (2 * c.rest.length + 2) c
    | '{' :: _ => flowNode (2 * c.rest.length + 2) c
    | _ => scalar false low c
  match found with
  | none => none
  | some (d, c) =>
    let c := c.seek false
    if c.fresh then some (d, c) else none

/-- Whether an item of a block sequence starts here. -/
def startsItem : List Char → Bool
  | '-' :: rest => standsAlone rest
  | _ => false

mutual

/-- A node that starts in a place of its own, in column `low` at least. -/
def block : Nat → Nat → Cursor → Option (Document × Cursor)
  | 0, _, _ => none
  | fuel + 1, low, c =>
    if startsItem c.rest then blockItems fuel c.col [] c
    else match blockKey c with
      | some _ => blockEntries fuel c.col [] c
      | none => leaf low c

/-- The items of a block sequence in column `col`. -/
def blockItems : Nat → Nat → List Document → Cursor → Option (Document × Cursor)
  | 0, _, _, _ => none
  | fuel + 1, col, done, c =>
    let inner := { c.upTo c.rest.tail with fresh := true }.seek false
    let item :=
      if inner.rest = [] ∨ inner.col ≤ col then some (.plain "", inner)
      else block fuel (col + 1) inner
    match item with
    | none => none
    | some (d, c) =>
      if c.rest ≠ [] ∧ c.col = col ∧ startsItem c.rest then blockItems fuel col (d :: done) c
      else some (.list false (d :: done).reverse, c)

/-- The entries of a block mapping in column `col`. -/
def blockEntries : Nat → Nat → List (String × Document) → Cursor → Option (Document × Cursor)
  | 0, _, _, _ => none
  | fuel + 1, col, done, c =>
    match blockKey c with
    | none => none
    | some (k, after) =>
      let inner := after.seek false
      let value :=
        if inner.rest = [] then some (.plain "", inner)
        else if !inner.fresh then leaf (col + 1) inner
        else if col < inner.col then block fuel (col + 1) inner
        else if inner.col = col ∧ startsItem inner.rest then blockItems fuel col [] inner
        else some (.plain "", inner)
      match value with
      | none => none
      | some (d, c) =>
        if c.rest = [] ∨ c.col < col then some (.table false ((k, d) :: done).reverse, c)
        else if c.col = col then blockEntries fuel col ((k, d) :: done) c
        else none

end

/-- Line ends of all kinds as one kind. -/
def unifyEnds : List Char → List Char
  | [] => []
  | x :: rest =>
    if x = '\r' then
      match rest with
      | '\n' :: more => '\n' :: unifyEnds more
      | rest => '\n' :: unifyEnds rest
    else if x.toNat = 0x85 then '\n' :: unifyEnds rest
    else x :: unifyEnds rest

/-- The characters that a text may hold. -/
def isAllowed (x : Char) : Bool :=
  let n := x.toNat
  n == 9 || n == 10 || n == 13 || (0x20 ≤ n && n ≤ 0x7E) || n == 0x85 ||
    (0xA0 ≤ n && n ≤ 0xD7FF) || (0xE000 ≤ n && n ≤ 0xFFFD && n != 0xFEFF) || 0x10000 ≤ n

/-- Whether a line marks the start or the end of a document. -/
def isMarker (mark : Char) : List Char → Bool
  | a :: b :: c :: rest => a == mark && b == mark && c == mark && standsAlone rest
  | _ => false

/-- The lines of the first document, or nothing if there is a second one. -/
def onlyDocument : List (List Char) → Option (List (List Char))
  | [] => some []
  | l :: ls =>
    if isMarker '-' l then none
    else if isMarker '.' l then
      if ls.all fun l => (seekFrom false false true 0 l).rest = [] then some [] else none
    else (onlyDocument ls).map (l :: ·)

/-- How deep collections may nest. -/
def maxDepth : Nat := 128

/-- The node that a text writes. -/
def read (text : String) : Option Document :=
  let cs := match text.toList with
    | x :: rest => if x.toNat = 0xFEFF then rest else x :: rest
    | [] => []
  if !cs.all isAllowed then none
  else
    let start := Cursor.seek false ⟨0, unifyEnds cs, true⟩
    let opened := if isMarker '-' start.rest ∧ start.col = 0 then
        ⟨3, start.rest.drop 3, false⟩
      else start
    match onlyDocument (pieces '\n' opened.rest) with
    | none => none
    | some lines =>
      let c := Cursor.seek false { opened with rest := joinPieces ['\n'] lines }
      if c.rest = [] then some (.plain "")
      else
        match block (2 * c.rest.length + 2) 0 c with
        | some (d, c) => if c.rest = [] ∧ d.depth ≤ maxDepth then some d else none
        | none => none

end FieldQuery.Yaml
