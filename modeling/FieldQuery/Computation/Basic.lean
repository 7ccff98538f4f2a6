import FieldQuery.Entity

/-!
# Computations

A virtual field is computed from an entity and from the inputs that the field declares.

* `Inputs` — the declared columns and relations in the order of their declaration, the deadline
  of the batch, and whether the batch has been cancelled;
* `Outcome` — a value or the text of a failure, together with what the computation did besides:
  how long it took and whether it cancelled the batch;
* `Computation` — a function of the two; `Computation.pure` has no effect besides its result.
-/

namespace FieldQuery

/-- What a computation sees besides its entity. -/
structure Inputs where
  columns : List (String × Value) := []
  relations : List (String × List Entity) := []
  /-- When the batch runs out of time. -/
  deadline : Option Nat := none
  cancelled : Bool := false
  deriving Inhabited

namespace Inputs

/-- The column of a name, the first of equal names. -/
def get? (i : Inputs) (name : String) : Option Value := List.lookup name i.columns

/-- The text of a column. -/
def text? (i : Inputs) (name : String) : Option String := (i.get? name).bind Value.text?

/-- The values of the columns in their order. -/
def values (i : Inputs) : List Value := i.columns.map (·.2)

/-- The records of a relation; an undeclared one has none. -/
def relation (i : Inputs) (name : String) : List Entity := (List.lookup name i.relations).getD []

/-- The first relation. -/
def primaryRelation? (i : Inputs) : Option (String × List Entity) := i.relations.head?

end Inputs

/-- What a computation yields and does. -/
structure Outcome where
  value : Except String Value
  /-- Whether the computation cancels its batch. -/
  cancels : Bool := false
  /-- How many milliseconds it takes. -/
  duration : Nat := 0

/-- A way to compute a value. -/
abbrev Computation := Entity → Inputs → Outcome

/-- A computation without effects. -/
def Computation.pure (f : Entity → Inputs → Except String Value) : Computation :=
  fun e i => { value := f e i }

end FieldQuery
