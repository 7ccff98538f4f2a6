import FieldQuery.Computation.Basic
import FieldQuery.Catalog.Error

/-!
# Named computations

* `concat`, `relationCount`, `relationSum`, `coalesce` — the computations that every catalog may
  name;
* `ComputationTable` — makers of computations by name. A maker gets the argument that a catalog
  gives and may refuse it.
-/

namespace FieldQuery

namespace Computation

/-- The values that are not null, as texts with a separator between them. -/
def concat (separator : String) : Computation :=
  .pure fun _ inputs => .ok <| .text <| separator.intercalate <|
    (inputs.values.filter fun v => !v.isNull).map Value.displayText

/-- How many records the first relation has; none without a relation. -/
def relationCount : Computation :=
  .pure fun _ inputs =>
    let count := match inputs.primaryRelation? with
      | some (_, related) => related.length
      | none => 0
    .ok (.int (Int64.ofNat count))

/-- Adds up a column of records, from left to right. A null or an absent value adds nothing, a
value that is no number fails. -/
def sumColumn (column : String) : Binary64 → List Entity → Option Binary64
  | total, [] => some total
  | total, e :: rest =>
    match e.attribute? column with
    | none => sumColumn column total rest
    | some .null => sumColumn column total rest
    | some v => v.number?.bind fun x => sumColumn column (total.add x) rest

/-- The sum of a column over the first relation. -/
def relationSum (column : String) : Computation :=
  .pure fun _ inputs =>
    match inputs.primaryRelation? with
    | none => .error "relation_sum needs a relationship"
    | some (relation, related) =>
      match sumColumn column (.zero false) related with
      | some total => .ok (.decimal total)
      | none => .error s!"{relation}.{column} is not numeric"

/-- The first value that is not null. -/
def coalesce : Computation :=
  .pure fun _ inputs => .ok ((inputs.values.find? fun v => !v.isNull).getD .null)

end Computation

/-- Makes a computation from the argument that a catalog gives, or says why not. -/
abbrev ComputationMaker := Option String → Except String Computation

/-- Makers by name. -/
abbrev ComputationTable := KeyMap ComputationMaker

namespace ComputationTable

/-- The computations that are always there. -/
def builtin : ComputationTable := KeyMap.ofPairs [
  ("concat", fun arg => .ok (.concat (arg.getD " "))),
  ("relation_count", fun _ => .ok .relationCount),
  ("relation_sum", fun arg =>
    match arg with
    | some column => .ok (.relationSum column)
    | none => .error "relation_sum needs compute_arg naming a column"),
  ("coalesce", fun _ => .ok .coalesce)]

/-- The computation of a name, made for a field. -/
def resolve (table : ComputationTable) (field name : String) (arg : Option String) :
    Except DefinitionError Computation :=
  match KeyMap.get? name table with
  | none => .error (.invalidComputation field (.unknown name))
  | some make =>
    match make arg with
    | .ok c => .ok c
    | .error reason => .error (.invalidComputation field (.refused reason))

/-- The table with one more computation that takes no argument. -/
def add (name : String) (c : Computation) (table : ComputationTable) : ComputationTable :=
  KeyMap.insert name (fun _ => .ok c) table

end ComputationTable

end FieldQuery
