import FieldQuery.Catalog.Error
import FieldQuery.Computation.Basic

/-!
# Fields

* `Field` — a column of the store that may be filtered and sorted;
* `VirtualField` — a field that is computed from columns, relations and other virtual fields;
* `FieldDraft.define`, `VirtualDraft.define` — a draft as a definition, or the first thing that
  is wrong with it;
* `Definition` — either kind.

The operators of a definition stand in the order of all operators, each once.
-/

namespace FieldQuery

open Text

/-- The names that requests use for something else than fields. -/
def reservedNames : List String :=
  ["page", "per_page", "sort_by", "sort_direction", "search", "fields"]

/-- A column. -/
structure Field where
  name : String
  fieldType : FieldType
  operators : List Operator
  /-- Whether the search of a request looks into the column. -/
  searchable : Bool := false
  sortable : Bool := false
  /-- Whether every request has to filter on the column. -/
  required : Bool := false
  enumValues : Option (List String) := none
  deriving DecidableEq, Repr

/-- A computed field. -/
structure VirtualField where
  name : String
  fieldType : FieldType
  computation : Computation
  /-- What the computation is called in reports. -/
  computationName : String
  /-- Columns or other virtual fields, in the order in which the computation gets them. -/
  dependencies : List String := []
  relationships : List String := []
  operators : List Operator
  enumValues : Option (List String) := none
  cacheable : Bool := false
  /-- How many milliseconds a cached value lives; none stands for the deployment's setting. -/
  cacheTtlMs : Option Nat := none
  default : Value := .null
  nullable : Bool := true
  sortable : Bool := false
  timeoutMs : Option Nat := none
  memoryLimit : Option Nat := none

/-- A column that has not been checked. -/
structure FieldDraft where
  name : String
  fieldType : FieldType
  /-- None stands for all operators of the type. -/
  operators : Option (List Operator) := none
  searchable : Bool := false
  sortable : Bool := false
  required : Bool := false
  enumValues : Option (List String) := none
  deriving Repr

/-- A virtual field that has not been checked. -/
structure VirtualDraft where
  name : String
  fieldType : FieldType
  computation : Option Computation := none
  /-- None stands for the name of the field. -/
  computationName : Option String := none
  dependencies : List String := []
  relationships : List String := []
  /-- None stands for all operators of the type. -/
  operators : Option (List Operator) := none
  enumValues : Option (List String) := none
  cacheable : Bool := false
  cacheTtlMs : Option Nat := none
  default : Value := .null
  nullable : Bool := true
  sortable : Bool := false
  timeoutMs : Option Nat := none
  memoryLimit : Option Nat := none

/-- Letters and digits of ASCII, and the underscore. -/
def isNameChar (c : Char) : Bool :=
  isDigit c || ('a' ≤ c && c ≤ 'z') || ('A' ≤ c && c ≤ 'Z') || c == '_'

/-- What is wrong with a name. -/
def nameFault? (name : String) : Option DefinitionFault :=
  if name = "" then some .emptyName
  else if !name.toList.all isNameChar then some .unusableName
  else if reservedNames.contains name then some .reservedName
  else none

/-- Accepts a usable name. -/
def checkName (name : String) : Except DefinitionError Unit :=
  match nameFault? name with
  | some fault => .error (.invalidDefinition name fault)
  | none => .ok ()

/-- The operators of a definition. -/
def resolveOperators (field : String) (t : FieldType) :
    Option (List Operator) → Except DefinitionError (List Operator)
  | none => .ok t.operators
  | some [] => .error (.invalidDefinition field .noOperators)
  | some os =>
    match os.findSome? t.mismatch? with
    | some mismatch => .error (.invalidOperator field mismatch)
    | none => .ok (Operator.ordered os)

/-- What is wrong with the values of an enumeration: such a field has at least one, and no other
field has them. -/
def enumFault? (t : FieldType) : Option (List String) → Option DefinitionFault
  | none => if t = .enumeration then some .missingEnumValues else none
  | some values =>
    if t ≠ .enumeration then some .needlessEnumValues
    else if values = [] then some .noEnumValues
    else none

/-- Accepts the values of an enumeration. -/
def checkEnum (field : String) (t : FieldType) (values : Option (List String)) :
    Except DefinitionError Unit :=
  match enumFault? t values with
  | some fault => .error (.invalidDefinition field fault)
  | none => .ok ()

/-- The column that a draft describes. -/
def FieldDraft.define (d : FieldDraft) : Except DefinitionError Field := do
  checkName d.name
  let operators ← resolveOperators d.name d.fieldType d.operators
  checkEnum d.name d.fieldType d.enumValues
  if d.searchable && !d.fieldType.isTextual then
    .error (.invalidDefinition d.name .notSearchable)
  else
    .ok { name := d.name, fieldType := d.fieldType, operators := operators,
          searchable := d.searchable, sortable := d.sortable, required := d.required,
          enumValues := d.enumValues }

/-- Whether a value may stand in a field of a type; null may always. -/
def FieldType.fits (t : FieldType) : Value → Bool
  | .null => true
  | .text _ => t.isTextual || t == .enumeration
  | .int _ => t == .integer || t == .decimal
  | .decimal _ => t == .decimal
  | .bool _ => t == .boolean
  | .instant _ => t == .datetime
  | .list _ => false

/-- What is wrong with the default value or the limits of a virtual field. -/
def VirtualDraft.valueFault? (d : VirtualDraft) : Option DefinitionFault :=
  if !d.nullable && d.default.isNull then some .missingDefault
  else if !d.fieldType.fits d.default then some (.unfitDefault d.fieldType)
  else
    let unlisted := match d.enumValues, d.default.text? with
      | some values, some s => !values.contains s
      | _, _ => false
    if unlisted then some .unlistedDefault
    else if d.timeoutMs = some 0 ∨ d.memoryLimit = some 0 then some .zeroLimit
    else none

/-- The virtual field that a draft describes. -/
def VirtualDraft.define (d : VirtualDraft) : Except DefinitionError VirtualField := do
  checkName d.name
  let computation ← match d.computation with
    | some c => .ok c
    | none => .error (.invalidComputation d.name .absent)
  if d.dependencies.any isBlankText then .error (.emptyDependency d.name)
  if d.relationships.any isBlankText then .error (.emptyRelation d.name)
  if ¬ d.dependencies.Nodup then .error (.invalidDefinition d.name .repeatedDependency)
  let operators ← resolveOperators d.name d.fieldType d.operators
  checkEnum d.name d.fieldType d.enumValues
  match d.valueFault? with
  | some fault => .error (.invalidDefinition d.name fault)
  | none =>
    .ok { name := d.name, fieldType := d.fieldType, computation := computation,
          computationName := d.computationName.getD d.name,
          dependencies := d.dependencies, relationships := d.relationships,
          operators := operators, enumValues := d.enumValues,
          cacheable := d.cacheable, cacheTtlMs := d.cacheTtlMs,
          default := d.default, nullable := d.nullable, sortable := d.sortable,
          timeoutMs := d.timeoutMs, memoryLimit := d.memoryLimit }

/-- The column as JSON, in the order of its parts. -/
def Field.toJson (f : Field) : Json :=
  .object [
    ("name", .text f.name),
    ("field_type", .text f.fieldType.name),
    ("operators", .ofStrings (f.operators.map Operator.name)),
    ("searchable", .bool f.searchable),
    ("sortable", .bool f.sortable),
    ("required", .bool f.required),
    ("enum_values", .ofOption .ofStrings f.enumValues)]

/-- A definition of either kind. -/
inductive Definition where
  | persisted (f : Field)
  | computed (v : VirtualField)

namespace Definition

/-- The name of the field. -/
def name : Definition → String
  | .persisted f => f.name
  | .computed v => v.name

/-- The type of the field. -/
def fieldType : Definition → FieldType
  | .persisted f => f.fieldType
  | .computed v => v.fieldType

/-- The operators that filters may use. -/
def operators : Definition → List Operator
  | .persisted f => f.operators
  | .computed v => v.operators

/-- Whether filters may use an operator. -/
def allows (d : Definition) (o : Operator) : Bool := d.operators.contains o

/-- Whether results may be sorted by the field. -/
def isSortable : Definition → Bool
  | .persisted f => f.sortable
  | .computed v => v.sortable

/-- Whether the field is computed. -/
def isVirtual : Definition → Bool
  | .persisted _ => false
  | .computed _ => true

/-- The values of an enumeration. -/
def enumValues : Definition → Option (List String)
  | .persisted f => f.enumValues
  | .computed v => v.enumValues

end Definition

end FieldQuery
