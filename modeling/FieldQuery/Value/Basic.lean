import FieldQuery.Json.Reader
import FieldQuery.Text.Utf8
import FieldQuery.Time.Reading

/-!
# Values

* `Value` — what an attribute, an operand or a computed field holds;
* `Value.compare?` — the order that filters use; values of unlike kinds have none;
* `Value.sortCompare` — the order that sorting uses, across all kinds;
* `Value.sortsLast` — the values that come last in either direction;
* `Value.equals` — equality, with numbers compared as numbers;
* `Value.size` — a rough count of the bytes that a value takes up;
* `Value.display` — the value as text.

Numbers of 64 bits and binary numbers are compared as binary numbers when they meet.
-/

namespace FieldQuery

open Text

/-- A value. -/
inductive Value where
  | null
  | bool (b : Bool)
  | int (n : Int64)
  | decimal (x : Binary64)
  | text (s : String)
  | instant (t : Instant)
  | list (items : List Value)
  deriving Repr, Inhabited

namespace Value

/-- Whether this is the null value. -/
def isNull : Value → Bool
  | .null => true
  | _ => false

/-- The text of a text value. -/
def text? : Value → Option String
  | .text s => some s
  | _ => none

/-- The whole number of an integer value. -/
def int? : Value → Option Int64
  | .int n => some n
  | _ => none

/-- A number as a binary number. -/
def number? : Value → Option Binary64
  | .int n => some (.ofInt n.toInt)
  | .decimal x => some x
  | _ => none

/-- The order of instants and texts that write one. -/
def compareInstantText (t : Instant) (s : String) : Option Ordering :=
  (Time.readStrict? s.toList).map (Instant.compare t)

/-- The order of values of one kind, of numbers, and of an instant and a text that writes one. -/
def compare? : Value → Value → Option Ordering
  | .int a, .int b => some (compare a.toInt b.toInt)
  | .int a, .decimal b => Binary64.compare? (.ofInt a.toInt) b
  | .decimal a, .int b => Binary64.compare? a (.ofInt b.toInt)
  | .decimal a, .decimal b => Binary64.compare? a b
  | .text a, .text b => some (compare a b)
  | .bool a, .bool b => some (compare a b)
  | .instant a, .instant b => some (Instant.compare a b)
  | .instant a, .text b => compareInstantText a b
  | .text a, .instant b => (compareInstantText b a).map Ordering.swap
  | _, _ => none

/-- The values placed after all others when sorting, in either direction. -/
def sortsLast : Value → Bool
  | .null => true
  | .decimal x => x.isNaN
  | _ => false

/-- The place of a kind among the kinds. -/
def rank : Value → Nat
  | .bool _ => 0
  | .decimal x => if x.isNaN then 5 else 1
  | .int _ => 1
  | .text _ => 2
  | .instant _ => 3
  | .list _ => 4
  | .null => 6

mutual

/-- The order that sorting uses: within a kind by content, numbers as one kind, and between
kinds by `rank`. -/
def sortCompare : Value → Value → Ordering
  | .int a, .int b => compare a.toInt b.toInt
  | .decimal a, .decimal b =>
    if a.isNaN || b.isNaN then compare (rank (.decimal a)) (rank (.decimal b))
    else Binary64.totalCompare a b
  | .int a, .decimal b =>
    if b.isNaN then compare (rank (.int a)) (rank (.decimal b))
    else Binary64.totalCompare (.ofInt a.toInt) b
  | .decimal a, .int b =>
    if a.isNaN then compare (rank (.decimal a)) (rank (.int b))
    else Binary64.totalCompare a (.ofInt b.toInt)
  | .text a, .text b => compare a b
  | .bool a, .bool b => compare a b
  | .instant a, .instant b => Instant.compare a b
  | .list a, .list b => sortCompareLists a b
  | a, b => compare (rank a) (rank b)

/-- Lists by their first difference, a shorter list before its continuations. -/
def sortCompareLists : List Value → List Value → Ordering
  | [], [] => .eq
  | [], _ :: _ => .lt
  | _ :: _, [] => .gt
  | a :: as, b :: bs => (sortCompare a b).then (sortCompareLists as bs)

end

mutual

/-- Equality of values of one kind; numbers are equal as numbers. -/
def equals : Value → Value → Bool
  | .null, .null => true
  | .bool a, .bool b => a == b
  | .int a, .int b => a == b
  | .decimal a, .decimal b => a.equals b
  | .text a, .text b => a == b
  | .instant a, .instant b => a == b
  | .list a, .list b => equalLists a b
  | _, _ => false

/-- Equality item by item. -/
def equalLists : List Value → List Value → Bool
  | [], [] => true
  | a :: as, b :: bs => equals a b && equalLists as bs
  | _, _ => false

end

/-- The bytes that every value takes up. -/
def baseSize : Nat := 32

mutual

/-- A rough count of bytes: a base, and the bytes of a text or the items of a list. -/
def size : Value → Nat
  | .text s => baseSize + Utf8.size s.toList
  | .list items => baseSize + sizes items
  | .null => baseSize
  | .bool _ => baseSize
  | .int _ => baseSize
  | .decimal _ => baseSize
  | .instant _ => baseSize

/-- The sum of the sizes. -/
def sizes : List Value → Nat
  | [] => 0
  | v :: vs => size v + sizes vs

end

mutual

/-- The value as text. -/
def display : Value → List Char
  | .null => ['n', 'u', 'l', 'l']
  | .bool true => ['t', 'r', 'u', 'e']
  | .bool false => ['f', 'a', 'l', 's', 'e']
  | .int n => intNumeral n.toInt
  | .decimal x => x.print
  | .text s => s.toList
  | .instant t => t.print
  | .list items => '[' :: displayItems items ++ [']']

/-- Items with commas between them. -/
def displayItems : List Value → List Char
  | [] => []
  | [v] => display v
  | v :: w :: rest => display v ++ ',' :: displayItems (w :: rest)

end

/-- The text of `display`. -/
def displayText (v : Value) : String := String.ofList v.display

theorem size_pos (v : Value) : 0 < v.size := by
  cases v <;> simp only [size, baseSize] <;> omega

end Value

end FieldQuery
