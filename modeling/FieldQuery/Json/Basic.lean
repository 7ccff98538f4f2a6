import FieldQuery.Data.KeyMap
import FieldQuery.Number.DecimalText

/-!
# JSON values

* `Json` — a tree; whole numbers and other numbers are kept apart, and the fields of an object
  stand in the order in which they are written;
* `Json.write`, `Json.pretty` — the text without blanks, and on lines with two blanks of indent;
* `Json.normal` — every object with its fields in the order of their keys, the last of equal
  keys remaining.
-/

namespace FieldQuery

open Text

/-- A JSON value. Numbers that are not whole are finite. -/
inductive Json where
  | null
  | bool (b : Bool)
  | int (n : Int)
  | float (x : Binary64)
  | text (s : String)
  | array (items : List Json)
  | object (fields : List (String × Json))
  deriving Repr, Inhabited

namespace Json

/-- A small hexadecimal digit. -/
def hexDigit (n : Nat) : Char :=
  if n < 10 then Char.ofNat (48 + n) else Char.ofNat (87 + n)

/-- A character inside a quoted text. -/
def escapeChar (c : Char) : List Char :=
  if c = '"' then ['\\', '"']
  else if c = '\\' then ['\\', '\\']
  else if 0x20 ≤ c.toNat then [c]
  else if c.toNat = 8 then ['\\', 'b']
  else if c.toNat = 9 then ['\\', 't']
  else if c.toNat = 10 then ['\\', 'n']
  else if c.toNat = 12 then ['\\', 'f']
  else if c.toNat = 13 then ['\\', 'r']
  else ['\\', 'u', '0', '0', hexDigit (c.toNat / 16), hexDigit (c.toNat % 16)]

/-- A quoted text. -/
def quote (s : String) : List Char := '"' :: s.toList.flatMap escapeChar ++ ['"']

mutual

/-- The text of a value, without blanks. -/
def write : Json → List Char
  | .null => ['n', 'u', 'l', 'l']
  | .bool true => ['t', 'r', 'u', 'e']
  | .bool false => ['f', 'a', 'l', 's', 'e']
  | .int n => intNumeral n
  | .float x => x.printJson
  | .text s => quote s
  | .array items => '[' :: writeItems items ++ [']']
  | .object fields => '{' :: writeFields fields ++ ['}']

/-- Items with commas between them. -/
def writeItems : List Json → List Char
  | [] => []
  | [j] => write j
  | j :: k :: rest => write j ++ ',' :: writeItems (k :: rest)

/-- Fields with commas between them. -/
def writeFields : List (String × Json) → List Char
  | [] => []
  | [(k, j)] => quote k ++ ':' :: write j
  | (k, j) :: f :: rest => quote k ++ ':' :: write j ++ ',' :: writeFields (f :: rest)

end

/-- A new line with two blanks per level. -/
def newLine (level : Nat) : List Char := '\n' :: List.replicate (2 * level) ' '

mutual

/-- The text of a value on lines of its own. -/
def prettyAt (level : Nat) : Json → List Char
  | .array [] => ['[', ']']
  | .object [] => ['{', '}']
  | .array (j :: rest) => '[' :: prettyItems (level + 1) (j :: rest) ++ newLine level ++ [']']
  | .object (f :: rest) => '{' :: prettyFields (level + 1) (f :: rest) ++ newLine level ++ ['}']
  | .null => write .null
  | .bool b => write (.bool b)
  | .int n => write (.int n)
  | .float x => write (.float x)
  | .text s => write (.text s)

/-- Items, each on its line. -/
def prettyItems (level : Nat) : List Json → List Char
  | [] => []
  | [j] => newLine level ++ prettyAt level j
  | j :: k :: rest =>
    newLine level ++ prettyAt level j ++ ',' :: prettyItems level (k :: rest)

/-- Fields, each on its line. -/
def prettyFields (level : Nat) : List (String × Json) → List Char
  | [] => []
  | [(k, j)] => newLine level ++ quote k ++ ':' :: ' ' :: prettyAt level j
  | (k, j) :: f :: rest =>
    newLine level ++ quote k ++ ':' :: ' ' :: prettyAt level j ++
      ',' :: prettyFields level (f :: rest)

end

/-- The text of a value, without blanks. -/
def compact (j : Json) : String := String.ofList j.write

/-- The text of a value on indented lines. -/
def pretty (j : Json) : String := String.ofList (prettyAt 0 j)

mutual

/-- Objects put in the order of their keys, the last of equal keys remaining. -/
def normal : Json → Json
  | .array items => .array (normalItems items)
  | .object fields => .object (KeyMap.ofPairs (normalFields fields))
  | .null => .null
  | .bool b => .bool b
  | .int n => .int n
  | .float x => .float x
  | .text s => .text s

/-- `normal` on every item. -/
def normalItems : List Json → List Json
  | [] => []
  | j :: rest => normal j :: normalItems rest

/-- `normal` on every field. -/
def normalFields : List (String × Json) → List (String × Json)
  | [] => []
  | (k, j) :: rest => (k, normal j) :: normalFields rest

end

/-- A number, or null for what JSON cannot write. -/
def ofBinary64 (x : Binary64) : Json := if x.isFinite then .float x else .null

/-- A text or null. -/
def ofOption {α : Type} (f : α → Json) : Option α → Json
  | some a => f a
  | none => .null

/-- A list of texts. -/
def ofStrings (ss : List String) : Json := .array (ss.map .text)

/-- A natural number. -/
def ofNat (n : Nat) : Json := .int n

/-- The value of a field of an object. -/
def field? (k : String) : Json → Option Json
  | .object fields => KeyMap.get? k fields
  | _ => none

/-- Whether the value is an object. -/
def isObject : Json → Bool
  | .object _ => true
  | _ => false

end Json

end FieldQuery
