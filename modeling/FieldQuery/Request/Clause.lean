import FieldQuery.Catalog.Basic
import FieldQuery.Query.Predicate
import FieldQuery.Request.Coercion
import FieldQuery.Request.Expression

/-!
# Clauses

* `Clause` — one filter of a request, checked against the catalog, with values of the field's
  type;
* `FilterSettings.clause` — the clause of a parameter. What can be wrong is looked for in this
  order: a blocked or unknown name, the expression, an operator that the type or the field does
  not admit, the number of values, the values.
-/

namespace FieldQuery

open Text

/-- One filter of a request. -/
structure Clause where
  /-- The registered name of the field. -/
  field : String
  operator : Operator
  operand : Operand
  fieldType : FieldType
  isVirtual : Bool
  /-- The expression as it was received. -/
  raw : String
  /-- Whether an index could be used: a pattern must not start with a wildcard. -/
  indexFriendly : Bool
  deriving Repr

namespace Clause

/-- The condition of a clause. -/
def predicate (c : Clause) : Predicate := .compare c.field c.operator c.operand

/-- The clause in a response. -/
def summary (c : Clause) : Json :=
  .object [
    ("field", .text c.field),
    ("operator", .text c.operator.name),
    ("value", c.operand.toJson),
    ("virtual", .bool c.isVirtual)]

end Clause

/-- Whether an operator takes a pattern. -/
def Operator.isPattern : Operator → Bool
  | .like | .notLike => true
  | _ => false

namespace FilterSettings

/-- Whether no filter may name a field. -/
def isBlocked (s : FilterSettings) (name : String) : Bool := s.blockedFields.contains name

/-- The values of an expression by the type of a field; patterns are taken as they are. -/
def operand (s : FilterSettings) (d : Definition) (e : Expression) : Except FilterError Operand :=
  let value (raw : String) := s.coerce d.name d.fieldType raw d.enumValues
  match e.operand with
  | .none => .ok .none
  | .single raw =>
    if e.operator.isPattern then .ok (.single (.text raw)) else (value raw).map .single
  | .list raws => (raws.mapM value).map .list
  | .range low high => do
    let low ← value low
    let high ← value high
    return .range low high

/-- Whether an expression could use an index. -/
def indexFriendly (e : Expression) : Bool :=
  match e.operand with
  | .single pattern => !(e.operator.isPattern && pattern.toList.head? == some wildcard)
  | _ => true

/-- The clause of an expression about a field. -/
def clauseOf (s : FilterSettings) (name raw : String) (d : Definition) (e : Expression) :
    Except FilterError Clause :=
  match d.fieldType.mismatch? e.operator with
  | some mismatch => .error (.incompatibleOperator name mismatch)
  | none =>
    if !d.allows e.operator then .error (.operatorNotAllowed name e.operator)
    else if e.operator = .isIn ∧ s.maxInValues < e.operand.length then
      .error (.tooManyValues name e.operand.length s.maxInValues)
    else match s.operand d e with
      | .error err => .error err
      | .ok operand => .ok {
          field := name, operator := e.operator, operand := operand, fieldType := d.fieldType,
          isVirtual := d.isVirtual, raw := raw, indexFriendly := indexFriendly e }

/-- The clause of a parameter. -/
def clause (s : FilterSettings) (c : Catalog) (key raw : String) : Except FilterError Clause :=
  let name := c.resolve key
  if s.isBlocked key || s.isBlocked name then .error (.fieldBlocked key)
  else match c.get? name with
    | none => .error (.unknownField key)
    | some d =>
      match Expression.read raw with
      | .error fault => .error (.malformedValue name raw fault.message)
      | .ok e => s.clauseOf name raw d e

end FilterSettings

end FieldQuery
