import FieldQuery.FieldType
import FieldQuery.Data.KeyMap
import FieldQuery.Json.Basic

/-!
# Errors of requests

* `FilterError` — what is wrong with a parameter of a request, or with the request as a whole;
* `Violation` — one wrong parameter as it is told to the client;
* `FilterError.code`, `FilterError.message`, `FilterError.context` — how an error is told.
-/

namespace FieldQuery

open Text

/-- One wrong parameter as it is told to the client. -/
structure Violation where
  field : String
  code : String
  message : String
  deriving DecidableEq, Repr

/-- The violation as JSON. -/
def Violation.toJson (v : Violation) : Json :=
  .object [("field", .text v.field), ("code", .text v.code), ("message", .text v.message)]

/-- What is wrong with a request. -/
inductive FilterError where
  | unknownField (field : String)
  | fieldBlocked (field : String)
  | incompatibleOperator (field : String) (mismatch : OperatorMismatch)
  | operatorNotAllowed (field : String) (operator : Operator)
  | malformedValue (field value expected : String)
  | missingRequired (field : String)
  | tooManyValues (field : String) (count max : Nat)
  | sortNotAllowed (field : String)
  | sortLimitExceeded (field : String) (count max : Nat)
  | tooManyRecords (count max : Nat)
  | unknownSelection (field : String)
  | rejected (violations : List Violation)
  deriving DecidableEq, Repr

namespace FilterError

/-- A number as text. -/
def count (n : Nat) : String := String.ofList (natNumeral n)

/-- The text of an error. -/
def message : FilterError → String
  | .unknownField field => s!"Unknown field: {field}"
  | .fieldBlocked field => s!"Field '{field}' cannot be filtered"
  | .incompatibleOperator field mismatch =>
    s!"Invalid operator for field '{field}': " ++ mismatch.message
  | .operatorNotAllowed field operator =>
    "Operator '" ++ operator.name ++ s!"' is not allowed for field '{field}'"
  | .malformedValue field value expected =>
    s!"Malformed value '{value}' for field '{field}': expected {expected}"
  | .missingRequired field => s!"Missing required filter: {field}"
  | .tooManyValues field n max =>
    s!"Too many values for field '{field}': " ++ count n ++ " (max: " ++ count max ++ ")"
  | .sortNotAllowed field => s!"Field '{field}' cannot be used for sorting"
  | .sortLimitExceeded field n max =>
    s!"Sorting by '{field}' needs " ++ count n ++ " records in memory (max: " ++ count max ++ ")"
  | .tooManyRecords n max =>
    "Filtering on virtual fields needs " ++ count n ++ " records in memory (max: " ++
      count max ++ ")"
  | .unknownSelection field => s!"Unknown field in selection: {field}"
  | .rejected violations => "Request rejected: " ++ ", ".intercalate (violations.map (·.field))

/-- The short name of an error. -/
def code : FilterError → String
  | .unknownField .. => "unknown_field"
  | .fieldBlocked .. => "field_blocked"
  | .incompatibleOperator .. => "invalid_operator"
  | .operatorNotAllowed .. => "operator_not_allowed"
  | .malformedValue .. => "malformed_value"
  | .missingRequired .. => "missing_required_filter"
  | .tooManyValues .. => "too_many_values"
  | .sortNotAllowed .. => "sort_not_allowed"
  | .sortLimitExceeded .. => "sort_limit_exceeded"
  | .tooManyRecords .. => "too_many_records"
  | .unknownSelection .. => "unknown_selection"
  | .rejected .. => "filter_validation_failed"

/-- The field that the error is about, if it is a single one. -/
def field? : FilterError → Option String
  | .unknownField field => some field
  | .fieldBlocked field => some field
  | .incompatibleOperator field _ => some field
  | .operatorNotAllowed field _ => some field
  | .malformedValue field _ _ => some field
  | .missingRequired field => some field
  | .tooManyValues field _ _ => some field
  | .sortNotAllowed field => some field
  | .sortLimitExceeded field _ _ => some field
  | .tooManyRecords .. => none
  | .unknownSelection field => some field
  | .rejected _ => none

/-- The particulars of one kind of error. -/
def particulars : FilterError → List (String × String)
  | .unknownField .. => []
  | .fieldBlocked .. => []
  | .incompatibleOperator _ mismatch =>
    [("operator", mismatch.operator.name), ("type", mismatch.fieldType.name)]
  | .operatorNotAllowed _ operator => [("operator", operator.name)]
  | .malformedValue _ value expected => [("value", value), ("expected", expected)]
  | .missingRequired .. => []
  | .tooManyValues _ n max => [("count", count n), ("max", count max)]
  | .sortNotAllowed .. => []
  | .sortLimitExceeded _ n max => [("count", count n), ("max", count max)]
  | .tooManyRecords n max => [("count", count n), ("max", count max)]
  | .unknownSelection .. => []
  | .rejected violations => [("fields", ",".intercalate (violations.map (·.field)))]

/-- The particulars of an error: its field, if it has one, and what its kind adds. -/
def context (e : FilterError) : KeyMap String :=
  let field := match e.field? with
    | some f => [("field", f)]
    | none => []
  KeyMap.ofPairs (field ++ e.particulars)

/-- The error as a violation. -/
def violation (e : FilterError) : Violation := ⟨e.field?.getD "", e.code, e.message⟩

/-- The violations of an error: those it lists, or itself. -/
def violations : FilterError → List Violation
  | .rejected vs => vs
  | e => [e.violation]

end FilterError

end FieldQuery
