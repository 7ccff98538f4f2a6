import FieldQuery.Entity
import FieldQuery.FieldType
import FieldQuery.Text.Glob

/-!
# Predicates

* `Operand` — what a comparison compares with;
* `Operator.holds` — whether a comparison holds of a value. A value that is null or has not been
  loaded satisfies `null` and nothing else, the negated operators included;
* `Predicate` — a comparison of an attribute, or several predicates of which one has to hold;
* `Predicate.accepts` — whether a predicate holds of an entity;
* `Predicate.tagged` — the form that fingerprints use.
-/

namespace FieldQuery

/-- What a comparison compares with. -/
inductive Operand where
  | none
  | single (value : Value)
  | list (values : List Value)
  | range (low high : Value)
  deriving Repr, Inhabited

namespace Operand

/-- The operand in responses. -/
def toJson : Operand → Json
  | .none => .null
  | .single v => v.toJson
  | .list vs => .array (vs.map Value.toJson)
  | .range low high => .array [low.toJson, high.toJson]

/-- The operand in fingerprints. -/
def tagged : Operand → Json
  | .none => .text "None"
  | .single v => .object [("Single", v.tagged)]
  | .list vs => .object [("List", .array (vs.map Value.tagged))]
  | .range low high => .object [("Range", .array [low.tagged, high.tagged])]

end Operand

namespace Value

/-- Whether two values compare as equal. -/
def sameAs (v w : Value) : Bool := v.compare? w == some .eq

/-- Whether a value compares as less. -/
def isBelow (v w : Value) : Bool := v.compare? w == some .lt

/-- Whether a value compares as greater. -/
def isAbove (v w : Value) : Bool := v.compare? w == some .gt

/-- Whether the text of a value fits a pattern. -/
def fitsPattern (v : Value) (pattern : String) : Bool := Text.globFold pattern v.displayText

end Value

/-- Whether a comparison holds of a value that is not null. An operator with an operand that is
not of its kind never holds. -/
def Operator.holdsOf (o : Operator) (v : Value) (operand : Operand) : Bool :=
  match o, operand with
  | .null, _ => false
  | .notNull, _ => true
  | .eq, .single w => v.sameAs w
  | .ne, .single w => !v.sameAs w
  | .like, .single (.text pattern) => v.fitsPattern pattern
  | .notLike, .single (.text pattern) => !v.fitsPattern pattern
  | .gt, .single w => v.isAbove w
  | .gte, .single w => v.isAbove w || v.sameAs w
  | .lt, .single w => v.isBelow w
  | .lte, .single w => v.isBelow w || v.sameAs w
  | .isIn, .list ws => ws.any v.sameAs
  | .between, .range low high =>
    (v.isAbove low || v.sameAs low) && (v.isBelow high || v.sameAs high)
  | _, _ => false

/-- Whether a comparison holds of a value, if there is one. -/
def Operator.holds (o : Operator) (v : Option Value) (operand : Operand) : Bool :=
  match v with
  | none => o == .null
  | some .null => o == .null
  | some v => o.holdsOf v operand

/-- A condition on an entity. -/
inductive Predicate where
  | compare (field : String) (operator : Operator) (operand : Operand)
  | anyOf (alternatives : List Predicate)
  deriving Repr, Inhabited

namespace Predicate

mutual

/-- Whether the condition holds of an entity, as far as its attributes have been loaded. -/
def accepts (e : Entity) : Predicate → Bool
  | .compare field operator operand => operator.holds (e.attribute? field) operand
  | .anyOf alternatives => acceptsAny e alternatives

/-- Whether one of several conditions holds. -/
def acceptsAny (e : Entity) : List Predicate → Bool
  | [] => false
  | p :: ps => accepts e p || acceptsAny e ps

end

mutual

/-- The form of a condition in fingerprints. -/
def tagged : Predicate → Json
  | .compare field operator operand =>
    .object [("Compare", .object [
      ("field", .text field), ("operand", operand.tagged), ("operator", .text operator.name)])]
  | .anyOf alternatives => .object [("AnyOf", .array (taggeds alternatives))]

/-- The form of every condition. -/
def taggeds : List Predicate → List Json
  | [] => []
  | p :: ps => tagged p :: taggeds ps

end

theorem acceptsAny_eq_any (e : Entity) (ps : List Predicate) :
    acceptsAny e ps = ps.any (accepts e) := by
  induction ps with
  | nil => rfl
  | cons p ps ih => simp [acceptsAny, ih]

end Predicate

theorem Operator.holds_none (o : Operator) (operand : Operand) :
    o.holds none operand = (o == .null) := rfl

end FieldQuery
