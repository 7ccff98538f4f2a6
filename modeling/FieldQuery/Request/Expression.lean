import FieldQuery.FieldType
import FieldQuery.Text.Glob

/-!
# Filter expressions

The text of a filter says how to compare and with what.

* a value — equal to it; with wildcards — fits the pattern;
* `!=` and a value — not equal, or does not fit;
* `>=`, `<=`, `>`, `<` and a value — compares so;
* two values with `|` between them — lies between;
* values with commas between them — is one of them;
* `null`, `!null` — has no value, has one.

`Expression.read` reads the text, `Expression.render` writes it.
-/

namespace FieldQuery

open Text

/-- What a filter compares with, as it is written. -/
inductive RawOperand where
  | none
  | single (value : String)
  | list (values : List String)
  | range (low high : String)
  deriving DecidableEq, Repr, Inhabited

/-- How many values are written. -/
def RawOperand.length : RawOperand → Nat
  | .none => 0
  | .single _ => 1
  | .list values => values.length
  | .range _ _ => 2

/-- How a filter compares, and with what. -/
structure Expression where
  operator : Operator
  operand : RawOperand
  deriving DecidableEq, Repr

/-- What is missing in a text that is no expression. -/
inductive ExpressionFault where
  | twoBounds
  | listOfValues
  | valueAfter (operator : Operator)
  deriving DecidableEq, Repr

/-- What was expected instead. -/
def ExpressionFault.message : ExpressionFault → String
  | .twoBounds => "exactly two bounds separated by '|'"
  | .listOfValues => "a comma-separated list of values"
  | .valueAfter operator => "a value after '" ++ operator.name ++ "'"

namespace Expression

/-- An operator with one value, blanks around it left out. -/
def single (operator : Operator) (cs : List Char) : Except ExpressionFault Expression :=
  let value := trim cs
  if value = [] then .error (.valueAfter operator)
  else .ok ⟨operator, .single (String.ofList value)⟩

/-- The operator written in front of a value, and what follows it. -/
def comparison? : List Char → Option (Operator × List Char)
  | '!' :: '=' :: rest => some (if rest.contains wildcard then .notLike else .ne, rest)
  | '>' :: '=' :: rest => some (.gte, rest)
  | '<' :: '=' :: rest => some (.lte, rest)
  | '>' :: rest => some (.gt, rest)
  | '<' :: rest => some (.lt, rest)
  | _ => none

/-- Two bounds. -/
def bounds (cs : List Char) : Except ExpressionFault Expression :=
  match (pieces '|' cs).map trim with
  | [low, high] =>
    if low = [] ∨ high = [] then .error .twoBounds
    else .ok ⟨.between, .range (String.ofList low) (String.ofList high)⟩
  | _ => .error .twoBounds

/-- A list of values, empty ones left out. -/
def values (cs : List Char) : Except ExpressionFault Expression :=
  match ((pieces ',' cs).map trim).filter (!·.isEmpty) with
  | [] => .error .listOfValues
  | vs => .ok ⟨.isIn, .list (vs.map String.ofList)⟩

/-- An expression without blanks around it. -/
def readTrimmed (cs : List Char) : Except ExpressionFault Expression :=
  if asciiCaseEq cs ['n', 'u', 'l', 'l'] then .ok ⟨.null, .none⟩
  else if asciiCaseEq cs ['!', 'n', 'u', 'l', 'l'] then .ok ⟨.notNull, .none⟩
  else match comparison? cs with
    | some (operator, rest) => single operator rest
    | none =>
      if cs.contains '|' then bounds cs
      else if cs.contains ',' then values cs
      else if cs.contains wildcard then .ok ⟨.like, .single (String.ofList cs)⟩
      else single .eq cs

/-- Reads an expression. -/
def read (raw : String) : Except ExpressionFault Expression := readTrimmed (trim raw.toList)

/-- The values of an operand as they are written. -/
def operandText : RawOperand → String
  | .none => ""
  | .single value => value
  | .list values => ",".intercalate values
  | .range low high => low ++ "|" ++ high

/-- Writes an expression. -/
def render (e : Expression) : String :=
  match e.operator with
  | .null => "null"
  | .notNull => "!null"
  | .ne | .notLike => "!=" ++ operandText e.operand
  | .gte => ">=" ++ operandText e.operand
  | .lte => "<=" ++ operandText e.operand
  | .gt => ">" ++ operandText e.operand
  | .lt => "<" ++ operandText e.operand
  | .eq | .like | .isIn | .between => operandText e.operand

end Expression

end FieldQuery
