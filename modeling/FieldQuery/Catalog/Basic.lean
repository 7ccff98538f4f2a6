import FieldQuery.Catalog.Field
import FieldQuery.Data.Walk

/-!
# The catalog

All fields, virtual fields and aliases by name. No name is used twice, and no virtual field needs
itself on the way over other virtual fields.

* `enter` — what a registration answers, and the catalog after it. A virtual field is entered
  before the catalog is searched for cycles, and taken out again if there is one;
* `registerField`, `registerVirtual`, `registerAlias` — add one definition or refuse it;
* `resolve`, `get?`, `field?`, `virtual?` — look names up, through aliases;
* `computationOrder` — the virtual fields that one of them needs, each after what it needs itself;
* `plan` — the columns and relations that have to be loaded for a virtual field.

A dependency may name a field that is registered later, or never: what is no virtual field when
it is looked up counts as a column.
-/

namespace FieldQuery

/-- Fields, virtual fields and aliases by name. -/
structure Catalog where
  fields : KeyMap Field := []
  virtualFields : KeyMap VirtualField := []
  /-- The registered name behind each alias. -/
  aliases : KeyMap String := []
  deriving Inhabited

/-- What may enter a catalog. -/
inductive Registration where
  | field (f : Field)
  | virtual (v : VirtualField)
  | aliased (name target : String)

/-- What has to be loaded before a virtual field can be computed. -/
structure LoadPlan where
  columns : Names := []
  relations : Names := []
  deriving DecidableEq, Repr, Inhabited

namespace LoadPlan

/-- What two plans need together. -/
def merge (p q : LoadPlan) : LoadPlan :=
  ⟨p.columns.union q.columns, p.relations.union q.relations⟩

/-- Whether nothing has to be loaded. -/
def isEmpty (p : LoadPlan) : Bool := p.columns.isEmpty && p.relations.isEmpty

end LoadPlan

namespace Catalog

/-- Whether a name is used. -/
def isTaken (c : Catalog) (name : String) : Bool :=
  KeyMap.contains name c.fields || KeyMap.contains name c.virtualFields ||
    KeyMap.contains name c.aliases

/-- Accepts a name that is not used. -/
def ensureFree (c : Catalog) (name : String) : Except DefinitionError Unit :=
  if c.isTaken name then .error (.duplicateField name) else .ok ()

/-- The virtual fields that a virtual field declares as dependencies. -/
def references (c : Catalog) (name : String) : List String :=
  match KeyMap.get? name c.virtualFields with
  | some v => v.dependencies.filter fun d => KeyMap.contains d c.virtualFields
  | none => []

/-- A bound on the length of a path of virtual fields. -/
def depth (c : Catalog) : Nat := c.virtualFields.length + 1

/-- Fails with the first cycle of virtual fields on the way from a name. -/
def checkAcyclic (c : Catalog) (name : String) : Except DefinitionError Unit :=
  match Walk.findCycle c.references c.depth [] [] name with
  | .error chain => .error (.circularDependency chain)
  | .ok _ => .ok ()

/-- The catalog with a virtual field more. -/
def withVirtual (c : Catalog) (v : VirtualField) : Catalog :=
  { c with virtualFields := KeyMap.insert v.name v c.virtualFields }

/-- The catalog without a virtual field. -/
def withoutVirtual (c : Catalog) (name : String) : Catalog :=
  { c with virtualFields := KeyMap.erase name c.virtualFields }

/-- Enters a column. -/
def enterField (c : Catalog) (f : Field) : Except DefinitionError Unit × Catalog :=
  match c.ensureFree f.name with
  | .error e => (.error e, c)
  | .ok _ => (.ok (), { c with fields := KeyMap.insert f.name f c.fields })

/-- Enters a virtual field, and takes it out again if it closes a cycle. -/
def enterVirtual (c : Catalog) (v : VirtualField) : Except DefinitionError Unit × Catalog :=
  match c.ensureFree v.name with
  | .error e => (.error e, c)
  | .ok _ =>
    let entered := c.withVirtual v
    match entered.checkAcyclic v.name with
    | .error e => (.error e, entered.withoutVirtual v.name)
    | .ok _ => (.ok (), entered)

/-- Enters another name for a registered field; an alias of an alias is refused. -/
def enterAlias (c : Catalog) (name target : String) : Except DefinitionError Unit × Catalog :=
  match checkName name with
  | .error e => (.error e, c)
  | .ok _ =>
    match c.ensureFree name with
    | .error e => (.error e, c)
    | .ok _ =>
      if KeyMap.contains target c.fields || KeyMap.contains target c.virtualFields then
        (.ok (), { c with aliases := KeyMap.insert name target c.aliases })
      else (.error (.invalidDefinition name (.unknownTarget target)), c)

/-- What a registration answers, and the catalog that it leaves behind. -/
def enter (c : Catalog) : Registration → Except DefinitionError Unit × Catalog
  | .field f => c.enterField f
  | .virtual v => c.enterVirtual v
  | .aliased name target => c.enterAlias name target

/-- The catalog after a registration that is accepted. -/
def registered (c : Catalog) (r : Registration) : Except DefinitionError Catalog :=
  match c.enter r with
  | (.error e, _) => .error e
  | (.ok _, c) => .ok c

/-- Adds a column. -/
def registerField (c : Catalog) (f : Field) : Except DefinitionError Catalog :=
  c.registered (.field f)

/-- Adds a virtual field unless it closes a cycle. -/
def registerVirtual (c : Catalog) (v : VirtualField) : Except DefinitionError Catalog :=
  c.registered (.virtual v)

/-- Adds another name for a registered field. -/
def registerAlias (c : Catalog) (name target : String) : Except DefinitionError Catalog :=
  c.registered (.aliased name target)

/-- Adds a definition of either kind. -/
def register (c : Catalog) : Definition → Except DefinitionError Catalog
  | .persisted f => c.registerField f
  | .computed v => c.registerVirtual v

/-- The registered name behind a name. -/
def resolve (c : Catalog) (name : String) : String := (KeyMap.get? name c.aliases).getD name

/-- The definition behind a name. -/
def get? (c : Catalog) (name : String) : Option Definition :=
  let name := c.resolve name
  match KeyMap.get? name c.fields with
  | some f => some (.persisted f)
  | none => (KeyMap.get? name c.virtualFields).map .computed

/-- The column behind a name. -/
def field? (c : Catalog) (name : String) : Option Field :=
  KeyMap.get? (c.resolve name) c.fields

/-- The virtual field behind a name. -/
def virtual? (c : Catalog) (name : String) : Option VirtualField :=
  KeyMap.get? (c.resolve name) c.virtualFields

/-- Whether a virtual field is behind a name. -/
def isVirtual (c : Catalog) (name : String) : Bool := (c.virtual? name).isSome

/-- Whether anything is behind a name. -/
def contains (c : Catalog) (name : String) : Bool := (c.get? name).isSome

/-- The names of what may be sorted by. -/
def sortable (c : Catalog) : Names :=
  Names.ofList ((c.fields.vals.filter (·.sortable)).map (·.name) ++
    (c.virtualFields.vals.filter (·.sortable)).map (·.name))

/-- The names of the columns that a search looks into. -/
def searchable (c : Catalog) : Names :=
  Names.ofList ((c.fields.vals.filter (·.searchable)).map (·.name))

/-- The names of the columns that every request has to filter on. -/
def required (c : Catalog) : Names :=
  Names.ofList ((c.fields.vals.filter (·.required)).map (·.name))

/-- The virtual fields that the field behind a name needs, itself last, each after the ones it
needs. -/
def computationOrder (c : Catalog) (name : String) : List String :=
  let name := c.resolve name
  if KeyMap.contains name c.virtualFields then
    Walk.postorder c.references c.depth [] name
  else []

/-- What one virtual field itself needs from the store. -/
def ownPlan (c : Catalog) (name : String) : LoadPlan :=
  match KeyMap.get? name c.virtualFields with
  | some v =>
    ⟨Names.ofList (v.dependencies.filter fun d => !KeyMap.contains d c.virtualFields),
      Names.ofList v.relationships⟩
  | none => {}

/-- What has to be loaded to compute the virtual field behind a name. -/
def plan (c : Catalog) (name : String) : LoadPlan :=
  (c.computationOrder name).foldl (fun p n => p.merge (c.ownPlan n)) {}

end Catalog

end FieldQuery
