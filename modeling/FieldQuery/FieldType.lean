import FieldQuery.Text.Blank
import FieldQuery.Text.LowerCase

/-!
# Field types and operators

* `FieldType` — what a field holds;
* `Operator` — how a filter compares;
* `FieldType.operators` — the operators that a type admits, in the order in which they are listed;
* `OperatorMismatch` — an operator that its type does not admit;
* `Direction` — the direction of a sort.

Principal results: only textual types admit `like`, and only ordered types admit the operators
that need an order.
-/

namespace FieldQuery

open Text

/-- What a field holds. -/
inductive FieldType where
  | string
  | text
  | integer
  | decimal
  | boolean
  | datetime
  | enumeration
  deriving DecidableEq, Repr

/-- How a filter compares. -/
inductive Operator where
  | eq
  | ne
  | like
  | notLike
  | gt
  | gte
  | lt
  | lte
  | isIn
  | between
  | null
  | notNull
  deriving DecidableEq, Repr

/-- The direction of a sort. -/
inductive Direction where
  | ascending
  | descending
  deriving DecidableEq, Repr

namespace Operator

/-- The name of an operator. -/
def name : Operator → String
  | .eq => "eq"
  | .ne => "ne"
  | .like => "like"
  | .notLike => "not_like"
  | .gt => "gt"
  | .gte => "gte"
  | .lt => "lt"
  | .lte => "lte"
  | .isIn => "in"
  | .between => "between"
  | .null => "null"
  | .notNull => "not_null"

/-- All operators in their order. -/
def all : List Operator :=
  [.eq, .ne, .like, .notLike, .gt, .gte, .lt, .lte, .isIn, .between, .null, .notNull]

/-- The operator of a name. -/
def ofName? (s : String) : Option Operator := all.find? fun o => o.name == s

/-- The operator of a name in letters of any case, or what is wrong. -/
def read (s : String) : Except String Operator :=
  let name := asciiLowered s
  match ofName? name with
  | some o => .ok o
  | none => .error s!"unknown operator '{name}'"

/-- A list of operators in their order, each once. -/
def ordered (os : List Operator) : List Operator := all.filter fun o => os.contains o

theorem ofName?_name (o : Operator) : ofName? o.name = some o := by
  cases o <;> decide

end Operator

namespace FieldType

/-- The name of a type. -/
def name : FieldType → String
  | .string => "string"
  | .text => "text"
  | .integer => "integer"
  | .decimal => "decimal"
  | .boolean => "boolean"
  | .datetime => "datetime"
  | .enumeration => "enum"

/-- All types. -/
def all : List FieldType :=
  [.string, .text, .integer, .decimal, .boolean, .datetime, .enumeration]

/-- The type of a name. -/
def ofName? (s : String) : Option FieldType := all.find? fun t => t.name == s

/-- Whether the values of a type are in an order that ranges can use. -/
def isOrdered : FieldType → Bool
  | .integer | .decimal | .datetime => true
  | _ => false

/-- Whether the values of a type are texts without further structure. -/
def isTextual : FieldType → Bool
  | .string | .text => true
  | _ => false

/-- The operators that a type admits. -/
def operators : FieldType → List Operator
  | .string | .text => [.eq, .ne, .like, .notLike, .isIn, .null, .notNull]
  | .integer | .decimal | .datetime =>
    [.eq, .ne, .gt, .gte, .lt, .lte, .isIn, .between, .null, .notNull]
  | .boolean => [.eq, .ne, .null, .notNull]
  | .enumeration => [.eq, .ne, .isIn, .null, .notNull]

/-- Whether a type admits an operator. -/
def admits (t : FieldType) (o : Operator) : Bool := t.operators.contains o

theorem admits_like_iff (t : FieldType) : t.admits .like = t.isTextual := by
  cases t <;> rfl

theorem admits_between_iff (t : FieldType) : t.admits .between = t.isOrdered := by
  cases t <;> rfl

end FieldType

/-- An operator that its type does not admit. -/
structure OperatorMismatch where
  fieldType : FieldType
  operator : Operator
  deriving DecidableEq, Repr

/-- The mismatch in words. -/
def OperatorMismatch.message (m : OperatorMismatch) : String :=
  "operator '" ++ m.operator.name ++ "' is not valid for " ++ m.fieldType.name ++ " fields"

/-- The mismatch of a type and an operator, if there is one. -/
def FieldType.mismatch? (t : FieldType) (o : Operator) : Option OperatorMismatch :=
  if t.admits o then none else some ⟨t, o⟩

namespace Direction

/-- The name of a direction. -/
def name : Direction → String
  | .ascending => "asc"
  | .descending => "desc"

/-- Reads a direction, short or in full, in letters of any case, blanks around it allowed. -/
def read? (s : String) : Option Direction :=
  let word := asciiLowered (trimmed s)
  if word = "asc" ∨ word = "ascending" then some .ascending
  else if word = "desc" ∨ word = "descending" then some .descending
  else none

end Direction

end FieldQuery
