import FieldQuery.Catalog.Basic
import FieldQuery.Computation.Builtin
import FieldQuery.Document.Formats

/-!
# Catalog texts

* `CatalogSpec` — what a text says about fields, virtual fields and aliases, before any of it is
  checked;
* `CatalogSpec.read?` — reads a text;
* `CatalogSpec.build` — registers fields, virtual fields and aliases in this order, taking
  computations from a table;
* `CatalogSpec.toJson` — the spec with every part written out.
-/

namespace FieldQuery

open Document

/-- What a text says about a virtual field. -/
structure VirtualSpec where
  name : String
  fieldType : FieldType
  /-- The name of the computation. -/
  compute : String
  computeArg : Option String := none
  dependencies : List String := []
  relationships : List String := []
  operators : Option (List Operator) := none
  enumValues : Option (List String) := none
  cacheable : Bool := false
  cacheTtlSecs : Option Nat := none
  default : Option Json := none
  nullable : Bool := true
  sortable : Bool := false
  timeoutMs : Option Nat := none
  memoryLimit : Option Nat := none

/-- What a text says about a catalog. -/
structure CatalogSpec where
  fields : List FieldDraft := []
  virtualFields : List VirtualSpec := []
  aliases : KeyMap String := []

/-- A type by its name. -/
def FieldType.ofDocument? (d : Document) : Option FieldType := d.asName?.bind FieldType.ofName?

/-- An operator by its name. -/
def Operator.ofDocument? (d : Document) : Option Operator := d.asName?.bind Operator.ofName?

/-- A document as a column that has not been checked. -/
def FieldDraft.ofDocument? (d : Document) : Option FieldDraft := do
  let fs ← d.fields? ["name", "type", "operators", "searchable", "sortable", "required",
    "enum_values"]
  return {
    name := ← Document.field? asText? "name" fs
    fieldType := ← Document.field? FieldType.ofDocument? "type" fs
    operators := ← fieldOr? (asOption? (asList? Operator.ofDocument?)) none "operators" fs
    searchable := ← fieldOr? asBool? false "searchable" fs
    sortable := ← fieldOr? asBool? false "sortable" fs
    required := ← fieldOr? asBool? false "required" fs
    enumValues := ← fieldOr? (asOption? (asList? asText?)) none "enum_values" fs }

/-- A document as what a text says about a virtual field. -/
def VirtualSpec.ofDocument? (d : Document) : Option VirtualSpec := do
  let fs ← d.fields? ["name", "type", "compute", "compute_arg", "dependencies", "relationships",
    "operators", "enum_values", "cacheable", "cache_ttl_secs", "default_value", "nullable",
    "sortable", "timeout_ms", "memory_limit_bytes"]
  return {
    name := ← Document.field? asText? "name" fs
    fieldType := ← Document.field? FieldType.ofDocument? "type" fs
    compute := ← Document.field? asText? "compute" fs
    computeArg := ← fieldOr? (asOption? asText?) none "compute_arg" fs
    dependencies := ← fieldOr? (asList? asText?) [] "dependencies" fs
    relationships := ← fieldOr? (asList? asText?) [] "relationships" fs
    operators := ← fieldOr? (asOption? (asList? Operator.ofDocument?)) none "operators" fs
    enumValues := ← fieldOr? (asOption? (asList? asText?)) none "enum_values" fs
    cacheable := ← fieldOr? asBool? false "cacheable" fs
    cacheTtlSecs := ← fieldOr? (asOption? asCount?) none "cache_ttl_secs" fs
    default := ← fieldOr? (asOption? Document.toJson?) none "default_value" fs
    nullable := ← fieldOr? asBool? true "nullable" fs
    sortable := ← fieldOr? asBool? false "sortable" fs
    timeoutMs := ← fieldOr? (asOption? asCount?) none "timeout_ms" fs
    memoryLimit := ← fieldOr? (asOption? asCount?) none "memory_limit_bytes" fs }

/-- The virtual field that a spec describes, not yet checked. The computation is looked up
before anything else. -/
def VirtualSpec.draft (s : VirtualSpec) (table : ComputationTable) :
    Except DefinitionError VirtualDraft := do
  let computation ← table.resolve s.name s.compute s.computeArg
  let default ← match s.default with
    | none => .ok Value.null
    | some j =>
      match Value.ofJson? j with
      | some v => .ok v
      | none => .error (.invalidDefinition s.name .structuredDefault)
  return {
    name := s.name, fieldType := s.fieldType,
    computation := some computation, computationName := some s.compute,
    dependencies := s.dependencies, relationships := s.relationships,
    operators := s.operators, enumValues := s.enumValues,
    cacheable := s.cacheable,
    cacheTtlMs := if s.cacheable then s.cacheTtlSecs.map (1000 * ·) else none,
    default := default, nullable := s.nullable, sortable := s.sortable,
    timeoutMs := s.timeoutMs, memoryLimit := s.memoryLimit }

/-- The column's parts as JSON. -/
def FieldDraft.toJson (d : FieldDraft) : Json :=
  .object [
    ("name", .text d.name),
    ("type", .text d.fieldType.name),
    ("operators", .ofOption (fun os => .ofStrings (os.map Operator.name)) d.operators),
    ("searchable", .bool d.searchable),
    ("sortable", .bool d.sortable),
    ("required", .bool d.required),
    ("enum_values", .ofOption .ofStrings d.enumValues)]

/-- The virtual field's parts as JSON. -/
def VirtualSpec.toJson (s : VirtualSpec) : Json :=
  .object [
    ("name", .text s.name),
    ("type", .text s.fieldType.name),
    ("compute", .text s.compute),
    ("compute_arg", .ofOption .text s.computeArg),
    ("dependencies", .ofStrings s.dependencies),
    ("relationships", .ofStrings s.relationships),
    ("operators", .ofOption (fun os => .ofStrings (os.map Operator.name)) s.operators),
    ("enum_values", .ofOption .ofStrings s.enumValues),
    ("cacheable", .bool s.cacheable),
    ("cache_ttl_secs", .ofOption .ofNat s.cacheTtlSecs),
    ("default_value", .ofOption id s.default),
    ("nullable", .bool s.nullable),
    ("sortable", .bool s.sortable),
    ("timeout_ms", .ofOption .ofNat s.timeoutMs),
    ("memory_limit_bytes", .ofOption .ofNat s.memoryLimit)]

namespace CatalogSpec

/-- A document as what a text says about a catalog. -/
def ofDocument? (d : Document) : Option CatalogSpec := do
  let fs ← d.fields? ["fields", "virtual_fields", "aliases"]
  return {
    fields := ← fieldOr? (asList? FieldDraft.ofDocument?) [] "fields" fs
    virtualFields := ← fieldOr? (asList? VirtualSpec.ofDocument?) [] "virtual_fields" fs
    aliases := ← fieldOr? asTextTable? [] "aliases" fs }

/-- What a text says about a catalog. -/
def read? (text : String) : Option CatalogSpec := decode? ofDocument? text

/-- The spec as JSON. -/
def toJson (s : CatalogSpec) : Json :=
  .object [
    ("fields", .array (s.fields.map FieldDraft.toJson)),
    ("virtual_fields", .array (s.virtualFields.map VirtualSpec.toJson)),
    ("aliases", .object (s.aliases.map fun (name, target) => (name, .text target)))]

/-- Registers a column. -/
def addField (c : Catalog) (d : FieldDraft) : Except DefinitionError Catalog :=
  match d.define with
  | .ok f => c.registerField f
  | .error e => .error e

/-- Registers a virtual field. -/
def addVirtual (table : ComputationTable) (c : Catalog) (s : VirtualSpec) :
    Except DefinitionError Catalog :=
  match s.draft table with
  | .error e => .error e
  | .ok d =>
    match d.define with
    | .ok v => c.registerVirtual v
    | .error e => .error e

/-- The catalog of a spec. -/
def build (s : CatalogSpec) (table : ComputationTable) : Except DefinitionError Catalog := do
  let c ← s.fields.foldlM addField {}
  let c ← s.virtualFields.foldlM (addVirtual table) c
  s.aliases.foldlM (fun c (name, target) => c.registerAlias name target) c

end CatalogSpec

end FieldQuery
