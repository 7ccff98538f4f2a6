import FieldQuery.Catalog.Error
import FieldQuery.Computation.Error
import FieldQuery.Request.Error
import FieldQuery.Settings.Basic

/-!
# Errors

* `CacheError`, `StoreError` — failures of the two kinds of storage;
* `Error` — an error of any part;
* `Error.code`, `Error.message`, `Error.context` — how it is told to the operator;
* `Error.response` — how it is told to the client, who learns which parameters are wrong, and of
  a failed computation only its field and entity.
-/

namespace FieldQuery

open Text

/-- A failure of a cache. -/
inductive CacheError where
  | store (key reason : String)
  | retrieve (key reason : String)
  /-- A text in the cache that says nothing sensible. -/
  | unreadable
  deriving DecidableEq, Repr

namespace CacheError

/-- The text of an error. -/
def message : CacheError → String
  | .store key reason => s!"Cache store failed for key '{key}': {reason}"
  | .retrieve key reason => s!"Cache retrieve failed for key '{key}': {reason}"
  | .unreadable => "Cache serialization error"

/-- The short name of an error. -/
def code : CacheError → String
  | .store .. => "cache_store_failed"
  | .retrieve .. => "cache_retrieve_failed"
  | .unreadable => "cache_serialization_failed"

end CacheError

/-- A failure of the store of entities. -/
inductive StoreError where
  | unknownEntityType (name : String)
  | query (reason : String)
  deriving DecidableEq, Repr

/-- The text of an error. -/
def StoreError.message : StoreError → String
  | .unknownEntityType name => s!"Unknown entity type: {name}"
  | .query reason => s!"Store query failed: {reason}"

/-- An error of any part. -/
inductive Error where
  | definition (e : DefinitionError)
  | filter (e : FilterError)
  | computation (e : ComputationError)
  | cache (e : CacheError)
  | store (e : StoreError)
  | settings (e : SettingsError)
  deriving DecidableEq, Repr

/-- An error as the client sees it. -/
structure ErrorResponse where
  status : Nat
  code : String
  message : String
  context : KeyMap String := []
  violations : List Violation := []
  deriving DecidableEq, Repr

namespace Error

/-- The text of an error. -/
def message : Error → String
  | .definition e => e.message
  | .filter e => e.message
  | .computation e => e.message
  | .cache e => e.message
  | .store e => e.message
  | .settings e => e.message

/-- The short name of an error. -/
def code : Error → String
  | .definition e => e.code
  | .filter e => e.code
  | .computation e => e.code
  | .cache e => e.code
  | .store _ => "store_failed"
  | .settings _ => "invalid_config"

/-- The particulars of an error. -/
def context : Error → KeyMap String
  | .definition e => e.context
  | .filter e => e.context
  | .computation e => e.context
  | .cache _ => []
  | .store _ => []
  | .settings _ => []

/-- What the client learns of a failed computation. -/
def clientMessage (e : ComputationError) : String :=
  match e.entity? with
  | some r => "Failed to compute '" ++ e.field ++ "' for " ++ r.display
  | none => "Failed to compute '" ++ e.field ++ "'"

/-- The error as the client sees it. -/
def response : Error → ErrorResponse
  | .filter e => ⟨400, e.code, e.message, e.context, e.violations⟩
  | .computation e => ⟨500, e.code, clientMessage e, e.context, []⟩
  | e => ⟨500, e.code, "Internal server error", [], []⟩

end Error

/-- A table of texts as JSON. -/
def contextJson (context : KeyMap String) : Json :=
  .object (context.map fun (k, s) => (k, .text s))

/-- The response as JSON, without an empty context or an empty list of violations. -/
def ErrorResponse.toJson (r : ErrorResponse) : Json :=
  .object ([("status", .ofNat r.status), ("code", .text r.code), ("message", .text r.message)] ++
    (if r.context.isEmpty then [] else [("context", contextJson r.context)]) ++
    (if r.violations.isEmpty then []
      else [("violations", .array (r.violations.map Violation.toJson))]))

end FieldQuery
