import FieldQuery.Entity

/-!
# Errors of computations

* `ComputationError` — why a virtual field has no value for an entity, or why a whole batch ends;
* `isBatchLevel` — which of them end the batch;
* `code`, `message`, `context` — how an error is told.
-/

namespace FieldQuery

open Text

/-- The entity that a failure is about. -/
structure EntityRef where
  entityType : String
  id : EntityId
  deriving DecidableEq, Repr

/-- The entity as text. -/
def EntityRef.display (r : EntityRef) : String := r.entityType ++ "#" ++ r.id.display

/-- What an entity is called in errors. -/
def Entity.ref (e : Entity) : EntityRef := ⟨e.entityType, e.id⟩

/-- Why a virtual field could not be computed. -/
inductive ComputationError where
  | callbackFailed (field : String) (entity : EntityRef) (reason : String)
  | missingDependency (field : String) (entity : EntityRef) (dependency : String)
  | missingRelation (field : String) (entity : EntityRef) (relation : String)
  | dependencyFailed (field : String) (entity : EntityRef) (dependency : String)
  | timeoutExceeded (field : String) (elapsedMs limitMs : Nat)
  | memoryLimitExceeded (field : String) (usedBytes limitBytes : Nat)
  | batchFailed (field : String) (failed : Nat) (cause : ComputationError)
  | cancelled (field : String)
  | unknownField (field : String)
  deriving DecidableEq, Repr

namespace ComputationError

/-- A number as text. -/
def count (n : Nat) : String := String.ofList (natNumeral n)

/-- The text of an error. -/
def message : ComputationError → String
  | .callbackFailed field entity reason =>
    s!"Computation of '{field}' failed for " ++ entity.display ++ ": " ++ reason
  | .missingDependency field entity dependency =>
    s!"Missing dependency '{dependency}' of '{field}' on " ++ entity.display
  | .missingRelation field entity relation =>
    s!"Relationship '{relation}' of '{field}' not loaded on " ++ entity.display
  | .dependencyFailed field entity dependency =>
    s!"Dependency '{dependency}' of '{field}' could not be computed for " ++ entity.display
  | .timeoutExceeded field elapsed limit =>
    s!"Computation of '{field}' exceeded its time limit: " ++ count elapsed ++ "ms (limit: " ++
      count limit ++ "ms)"
  | .memoryLimitExceeded field used limit =>
    s!"Computation of '{field}' exceeded its memory limit: " ++ count used ++
      " bytes (limit: " ++ count limit ++ " bytes)"
  | .batchFailed field failed _ =>
    s!"Batch computation of '{field}' aborted after " ++ count failed ++ " failure(s)"
  | .cancelled field => s!"Computation of '{field}' was cancelled"
  | .unknownField field => s!"Unknown virtual field: {field}"

/-- The short name of an error. -/
def code : ComputationError → String
  | .callbackFailed .. => "callback_failed"
  | .missingDependency .. => "missing_dependency"
  | .missingRelation .. => "missing_relationship"
  | .dependencyFailed .. => "dependency_failed"
  | .timeoutExceeded .. => "timeout_exceeded"
  | .memoryLimitExceeded .. => "memory_limit_exceeded"
  | .batchFailed .. => "batch_failed"
  | .cancelled .. => "cancelled"
  | .unknownField .. => "unknown_virtual_field"

/-- The virtual field that was to be computed. -/
def field : ComputationError → String
  | .callbackFailed field .. => field
  | .missingDependency field .. => field
  | .missingRelation field .. => field
  | .dependencyFailed field .. => field
  | .timeoutExceeded field .. => field
  | .memoryLimitExceeded field .. => field
  | .batchFailed field .. => field
  | .cancelled field => field
  | .unknownField field => field

/-- The entity that the error is about; that of a failed batch is its cause's. -/
def entity? : ComputationError → Option EntityRef
  | .callbackFailed _ entity _ => some entity
  | .missingDependency _ entity _ => some entity
  | .missingRelation _ entity _ => some entity
  | .dependencyFailed _ entity _ => some entity
  | .batchFailed _ _ cause => cause.entity?
  | .timeoutExceeded .. => none
  | .memoryLimitExceeded .. => none
  | .cancelled .. => none
  | .unknownField .. => none

/-- Whether the error ends the whole batch. -/
def isBatchLevel : ComputationError → Bool
  | .callbackFailed .. => false
  | .missingDependency .. => false
  | .missingRelation .. => false
  | .dependencyFailed .. => false
  | .timeoutExceeded .. => true
  | .memoryLimitExceeded .. => true
  | .batchFailed .. => true
  | .cancelled .. => true
  | .unknownField .. => true

/-- The particulars of one kind of error. -/
def particulars : ComputationError → List (String × String)
  | .callbackFailed .. => []
  | .missingDependency _ _ dependency => [("dependency", dependency)]
  | .missingRelation _ _ relation => [("relationship", relation)]
  | .dependencyFailed _ _ dependency => [("dependency", dependency)]
  | .timeoutExceeded _ elapsed limit => [("elapsed_ms", count elapsed), ("limit_ms", count limit)]
  | .memoryLimitExceeded _ used limit =>
    [("used_bytes", count used), ("limit_bytes", count limit)]
  | .batchFailed _ failed cause => [("failed", count failed), ("cause", cause.code)]
  | .cancelled .. => []
  | .unknownField .. => []

/-- The particulars of an error: its field, its entity if it has one, and what its kind adds. -/
def context (e : ComputationError) : KeyMap String :=
  let entity := match e.entity? with
    | some r => [("entity_type", r.entityType), ("entity_id", r.id.display)]
    | none => []
  KeyMap.ofPairs (("field", e.field) :: entity ++ e.particulars)

end ComputationError

end FieldQuery
