import FieldQuery.Catalog.Basic
import FieldQuery.Query.BaseQuery
import FieldQuery.Request.Error

/-!
# Selections

* `Selection` — the columns, the relations and the virtual fields that a request asks for;
* `Selection.ofNames` — reads requested names; `relation.column` asks for a column of related
  records and `relation.*` for all of them, and what the catalog does not know is listed apart;
* `Selection.projection` — what has to be loaded for a selection.
-/

namespace FieldQuery

open Text

/-- What a request asks for. -/
structure Selection where
  columns : Names := []
  relations : KeyMap Columns := []
  /-- Virtual fields in the order of the request. -/
  virtualFields : List String := []
  deriving DecidableEq, Repr, Inhabited

namespace Selection

/-- Adds a column of a relation to the columns asked for so far. -/
def addNested (column : String) (columns : Columns) : Columns :=
  if column = "*" then none else columns.map (Names.insert column)

/-- Adds `relation.column`. -/
def addRelation (relation column : String) (s : Selection) : Selection :=
  let before := (KeyMap.get? relation s.relations).getD (some [])
  { s with relations := KeyMap.insert relation (addNested column before) s.relations }

/-- Adds the registered name of a field, if the catalog knows it. -/
def addField? (c : Catalog) (name : String) (s : Selection) : Option Selection :=
  if c.isVirtual name then
    if s.virtualFields.contains name then some s
    else some { s with virtualFields := s.virtualFields ++ [name] }
  else if (c.field? name).isSome then some { s with columns := Names.insert name s.columns }
  else none

/-- Adds a requested name, if it makes sense. The identity is always there. -/
def add? (c : Catalog) (s : Selection) (name : String) : Option Selection :=
  if name = "id" then some s
  else match cutAt '.' name.toList with
    | some (relation, column) =>
      if relation = [] ∨ column = [] then none
      else some (s.addRelation (String.ofList relation) (String.ofList column))
    | none => s.addField? c (c.resolve name)

/-- The selection of requested names, and the errors of those that make no sense. -/
def ofNames (c : Catalog) (names : List String) : Selection × List FilterError :=
  names.foldl (fun (s, unknown) name =>
    match s.add? c name with
    | some s => (s, unknown)
    | none => (s, unknown ++ [.unknownSelection name])) ({}, [])

/-- What has to be loaded: what is asked for, and what the virtual fields need. A relation that a
virtual field needs comes with all columns. -/
def projection (s : Selection) (c : Catalog) : Projection :=
  let needed : LoadPlan := s.virtualFields.foldl (fun p name => p.merge (c.plan name)) {}
  { columns := some (s.columns.union needed.columns)
    relations := needed.relations.foldl (fun m r => KeyMap.insert r none m) s.relations }

end Selection

end FieldQuery
