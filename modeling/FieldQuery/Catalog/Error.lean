import FieldQuery.Data.KeyMap
import FieldQuery.FieldType

/-!
# Errors of definitions

* `DefinitionError` — why a field, a virtual field or an alias cannot enter a catalog;
* `DefinitionError.code`, `DefinitionError.message`, `DefinitionError.context` — how it is told.
-/

namespace FieldQuery

/-- What is wrong with a definition taken by itself. -/
inductive DefinitionFault where
  | emptyName
  | unusableName
  | reservedName
  | noOperators
  | noEnumValues
  | missingEnumValues
  | needlessEnumValues
  | notSearchable
  | repeatedDependency
  | missingDefault
  | unfitDefault (fieldType : FieldType)
  | unlistedDefault
  | structuredDefault
  | zeroLimit
  | unknownTarget (target : String)
  deriving DecidableEq, Repr

/-- The text of a fault. -/
def DefinitionFault.message : DefinitionFault → String
  | .emptyName => "name cannot be empty"
  | .unusableName => "name may only contain letters, digits and underscores"
  | .reservedName => "name is a reserved request parameter"
  | .noOperators => "operator list cannot be empty"
  | .noEnumValues => "enum fields need at least one value"
  | .missingEnumValues => "enum fields need enum_values"
  | .needlessEnumValues => "enum_values are only valid for enum fields"
  | .notSearchable => "only string and text fields can be searchable"
  | .repeatedDependency => "dependencies contain duplicates"
  | .missingDefault => "non-nullable virtual fields need a default value"
  | .unfitDefault t => "default value does not match type " ++ t.name
  | .unlistedDefault => "default value is not one of enum_values"
  | .structuredDefault => "default_value must be a scalar or list"
  | .zeroLimit => "resource limits must be greater than zero"
  | .unknownTarget target => s!"alias target '{target}' is not registered"

/-- What is wrong with the computation of a virtual field. -/
inductive ComputationFault where
  | absent
  | unknown (name : String)
  | refused (reason : String)
  deriving DecidableEq, Repr

/-- The text of a fault. -/
def ComputationFault.message : ComputationFault → String
  | .absent => "no compute function registered"
  | .unknown name => s!"unknown compute function '{name}'"
  | .refused reason => reason

/-- Why a definition cannot enter a catalog. -/
inductive DefinitionError where
  | invalidComputation (field : String) (fault : ComputationFault)
  | invalidOperator (field : String) (mismatch : OperatorMismatch)
  | emptyDependency (field : String)
  | emptyRelation (field : String)
  | duplicateField (name : String)
  | circularDependency (chain : List String)
  | invalidDefinition (field : String) (fault : DefinitionFault)
  deriving DecidableEq, Repr

namespace DefinitionError

/-- The text of a chain of names. -/
def chainText (chain : List String) : String := " -> ".intercalate chain

/-- The text of an error. -/
def message : DefinitionError → String
  | .invalidComputation field fault =>
    s!"Invalid callback for virtual field '{field}': " ++ fault.message
  | .invalidOperator field mismatch =>
    s!"Invalid operator for field '{field}': " ++ mismatch.message
  | .emptyDependency field => s!"Virtual field '{field}' declares an empty dependency name"
  | .emptyRelation field => s!"Virtual field '{field}' declares an empty relationship name"
  | .duplicateField name => s!"Field '{name}' is already registered"
  | .circularDependency chain => "Circular dependency detected: " ++ chainText chain
  | .invalidDefinition field fault => s!"Invalid definition for field '{field}': " ++ fault.message

/-- The short name of an error. -/
def code : DefinitionError → String
  | .invalidComputation .. => "invalid_callback"
  | .invalidOperator .. => "invalid_operator"
  | .emptyDependency .. => "empty_dependency"
  | .emptyRelation .. => "empty_relationship"
  | .duplicateField .. => "duplicate_field"
  | .circularDependency .. => "circular_dependency"
  | .invalidDefinition .. => "invalid_definition"

/-- The particulars of an error. -/
def context : DefinitionError → KeyMap String
  | .invalidComputation field fault => [("field", field), ("reason", fault.message)]
  | .invalidOperator field mismatch =>
    [("field", field), ("operator", mismatch.operator.name), ("type", mismatch.fieldType.name)]
  | .emptyDependency field => [("field", field)]
  | .emptyRelation field => [("field", field)]
  | .duplicateField name => [("field", name)]
  | .circularDependency chain => [("chain", chainText chain)]
  | .invalidDefinition field fault => [("field", field), ("reason", fault.message)]

end DefinitionError

end FieldQuery
