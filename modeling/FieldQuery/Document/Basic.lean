import FieldQuery.Json.Reader

/-!
# Documents

What a configuration text says, before it is known what it should say: a tree of scalars, lists
and tables. An unquoted scalar of a format that leaves its kind open stays `plain`; it is read as
whatever is asked for. Lists and tables of a format without null are `loose`: an empty one may
stand for nothing, and the last items of a list may be left over.

* `asBool?`, `asCount?`, `asText?`, `asOption?`, `asList?`, `asTable?` — what a node says when a
  certain kind of thing is asked for;
* `fields?` — a node as the fields of a record: a table whose keys are all known and stand there
  once, or a list of the first fields in their order;
* `toJson?` — a node as a JSON value;
* `depth` — how deep lists and tables nest.
-/

namespace FieldQuery

open Text

/-- A node of a configuration text. -/
inductive Document where
  | null
  | bool (b : Bool)
  | int (n : Int)
  | float (x : Binary64)
  | text (s : String)
  | plain (s : String)
  | list (loose : Bool) (items : List Document)
  | table (loose : Bool) (entries : List (String × Document))
  deriving Repr, Inhabited

namespace Document

mutual

/-- A JSON value as a document. -/
def ofJson : Json → Document
  | .null => .null
  | .bool b => .bool b
  | .int n => .int n
  | .float x => .float x
  | .text s => .text s
  | .array items => .list false (ofJsons items)
  | .object fields => .table false (ofFields fields)

/-- Every item. -/
def ofJsons : List Json → List Document
  | [] => []
  | j :: js => ofJson j :: ofJsons js

/-- Every field. -/
def ofFields : List (String × Json) → List (String × Document)
  | [] => []
  | (k, j) :: rest => (k, ofJson j) :: ofFields rest

end

/-- Whether an unquoted scalar is null. -/
def isPlainNull (s : String) : Bool :=
  s == "" || s == "null" || s == "Null" || s == "NULL" || s == "~"

/-- An unquoted scalar as a truth value. -/
def plainBool? (s : String) : Option Bool :=
  if s = "true" ∨ s = "True" ∨ s = "TRUE" then some true
  else if s = "false" ∨ s = "False" ∨ s = "FALSE" then some false
  else none

/-- What a hexadecimal digit stands for. -/
def digitIn? (base : Nat) (c : Char) : Option Nat :=
  (Json.hexValue c).filter (· < base)

/-- Digits of a base, one at least. -/
def readBase (base : Nat) (cs : List Char) : Option Nat :=
  if cs = [] then none
  else cs.foldlM (fun n c => (digitIn? base c).map fun d => base * n + d) 0

/-- A number without its sign: with the mark of another base, or in base ten without a leading
zero. -/
def plainMagnitude? : List Char → Option Nat
  | '0' :: 'x' :: ds => readBase 16 ds
  | '0' :: 'o' :: ds => readBase 8 ds
  | '0' :: 'b' :: ds => readBase 2 ds
  | ['0'] => some 0
  | '0' :: _ => none
  | ds => readDigits ds

/-- An unquoted scalar as a whole number; the sign is optional. -/
def plainInt? (s : String) : Option Int :=
  match s.toList with
  | '+' :: ds => (plainMagnitude? ds).map Int.ofNat
  | '-' :: ds => (plainMagnitude? ds).map fun n => -(n : Int)
  | ds => (plainMagnitude? ds).map Int.ofNat

/-- Whether an unquoted scalar has a leading zero before other digits, which makes it a text. -/
def hasLeadingZero (s : String) : Bool :=
  let digits := match s.toList with
    | '+' :: ds => ds
    | '-' :: ds => ds
    | ds => ds
  match digits with
  | '0' :: d :: ds => (d :: ds).all isDigit
  | _ => false

/-- An unquoted scalar as a binary number. -/
def plainFloat? (s : String) : Option Binary64 :=
  if s = ".inf" ∨ s = ".Inf" ∨ s = ".INF" ∨ s = "+.inf" ∨ s = "+.Inf" ∨ s = "+.INF" then
    some (.infinity false)
  else if s = "-.inf" ∨ s = "-.Inf" ∨ s = "-.INF" then some (.infinity true)
  else if s = ".nan" ∨ s = ".NaN" ∨ s = ".NAN" then some .nan
  else (Binary64.read s.toList).filter Binary64.isFinite

/-- A truth value. -/
def asBool? : Document → Option Bool
  | .bool b => some b
  | .plain s => plainBool? s
  | _ => none

/-- A number of at most 64 bits without sign. -/
def asCount? : Document → Option Nat
  | .int n => if 0 ≤ n ∧ n ≤ wordMax then some n.toNat else none
  | .plain s =>
    if s.startsWith "-" then none
    else (plainInt? s).bind fun n => if 0 ≤ n ∧ n ≤ wordMax then some n.toNat else none
  | _ => none

/-- A text; an unquoted scalar is always one. -/
def asText? : Document → Option String
  | .text s => some s
  | .plain s => some s
  | _ => none

/-- Whether a node stands for nothing. -/
def isNothing : Document → Bool
  | .null => true
  | .list true [] => true
  | .table true [] => true
  | _ => false

/-- The name of one of several cases; a table of that name and nothing is another way to write
it. -/
def asName? : Document → Option String
  | .text s => some s
  | .plain s => some s
  | .table _ [(k, d)] => if d.isNothing then some k else none
  | _ => none

/-- Nothing, or what `f` reads. -/
def asOption? {α : Type} (f : Document → Option α) : Document → Option (Option α)
  | .null => some none
  | .plain s => if isPlainNull s then some none else (f (.plain s)).map some
  | d => (f d).map some

/-- A list. -/
def asList? {α : Type} (f : Document → Option α) : Document → Option (List α)
  | .list _ items => items.mapM f
  | .plain s => if s = "" then some [] else none
  | _ => none

/-- A table of texts; the last of equal keys remains. -/
def asTextTable? : Document → Option (KeyMap String)
  | .table _ entries =>
    entries.foldlM (fun m e => (asText? e.2).map fun s => KeyMap.insert e.1 s m) []
  | .plain s => if s = "" then some [] else none
  | _ => none

/-- Whether every key is known and none stands there twice. -/
def keysFit (known : List String) : List String → Bool
  | [] => true
  | k :: ks => known.contains k && !ks.contains k && keysFit known ks

/-- The fields of a record with the given names. -/
def fields? (known : List String) : Document → Option (KeyMap Document)
  | .table _ entries => if keysFit known (entries.map (·.1)) then some entries else none
  | .list loose items =>
    if loose ∨ items.length ≤ known.length then some (known.zip items) else none
  | .plain s => if s = "" then some [] else none
  | _ => none

/-- A field that may be absent. -/
def fieldOr? {α : Type} (f : Document → Option α) (default : α) (k : String)
    (fields : KeyMap Document) : Option α :=
  match KeyMap.get? k fields with
  | some d => f d
  | none => some default

/-- A field that must be there. -/
def field? {α : Type} (f : Document → Option α) (k : String) (fields : KeyMap Document) :
    Option α :=
  (KeyMap.get? k fields).bind f

/-- An unquoted scalar that is no whole number of 128 bits: a number or a text. -/
def plainFraction (s : String) : Json :=
  if hasLeadingZero s then .text s
  else match plainFloat? s with
    | some x => .ofBinary64 x
    | none => .text s

/-- An unquoted scalar as a JSON value: null, a truth value, a number or a text, whichever fits
first. A whole number of more than 64 and at most 128 bits is none. -/
def plainJson (s : String) : Option Json :=
  if isPlainNull s then some .null
  else match plainBool? s with
    | some b => some (.bool b)
    | none =>
      match plainInt? s with
      | some n =>
        if minInt ≤ n ∧ n ≤ wordMax then some (.int n)
        else if minLong ≤ n ∧ n ≤ maxLong then none
        else some (plainFraction s)
      | none => some (plainFraction s)
where
  /-- The least whole number of 128 bits with a sign. -/
  minLong : Int := -0x80000000000000000000000000000000
  /-- The largest whole number of 128 bits without sign. -/
  maxLong : Int := 0xFFFFFFFFFFFFFFFFFFFFFFFFFFFFFFFF

mutual

/-- The node as a JSON value, objects in the order of their keys. -/
def toJson? : Document → Option Json
  | .null => some .null
  | .bool b => some (.bool b)
  | .int n => some (.int n)
  | .float x => some (.ofBinary64 x)
  | .text s => some (.text s)
  | .plain s => plainJson s
  | .list _ items => (toJsons? items).map .array
  | .table _ entries => (toFields? entries).map fun fs => .object (KeyMap.ofPairs fs)

/-- Every item. -/
def toJsons? : List Document → Option (List Json)
  | [] => some []
  | d :: ds =>
    match toJson? d, toJsons? ds with
    | some j, some js => some (j :: js)
    | _, _ => none

/-- Every entry. -/
def toFields? : List (String × Document) → Option (List (String × Json))
  | [] => some []
  | (k, d) :: rest =>
    match toJson? d, toFields? rest with
    | some j, some fs => some ((k, j) :: fs)
    | _, _ => none

end

mutual

/-- How deep lists and tables nest. -/
def depth : Document → Nat
  | .list _ items => depths items + 1
  | .table _ entries => entryDepths entries + 1
  | _ => 0

/-- The largest depth of an item. -/
def depths : List Document → Nat
  | [] => 0
  | d :: ds => max (depth d) (depths ds)

/-- The largest depth of an entry. -/
def entryDepths : List (String × Document) → Nat
  | [] => 0
  | (_, d) :: rest => max (depth d) (entryDepths rest)

end

end Document

end FieldQuery
