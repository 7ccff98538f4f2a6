import FieldQuery.Proofs.Listing.Plan
import FieldQuery.Proofs.Request.Clause
import FieldQuery.Proofs.Value.Codec
import FieldQuery.Query.BaseQuery
import FieldQuery.Request.Translation

/-!
# Fingerprints

The text of which a fingerprint is taken tells the rows of a query and their order.

* `Operand.IsFinite`, `Predicate.IsFinite` — all decimals in a condition are finite; others have no text
  of their own.

Principal results: `shape_injective` — queries with finite conditions and with one text have their
entity type, their conditions, the field and the direction in common, and `isFinite_collect` — the
conditions of a request are finite, since no other decimal can be read from one.
-/

namespace FieldQuery

open Json

/-! ## Conditions -/

namespace Value

theorem allFinite_iff {vs : List Value} : AllFinite vs ↔ ∀ v ∈ vs, v.IsFinite := by
  induction vs with
  | nil => exact ⟨fun _ v hv => (nomatch hv), fun _ => trivial⟩
  | cons v vs ih =>
    rw [List.forall_mem_cons, ← ih]
    rfl

theorem taggeds_eq_map (vs : List Value) : taggeds vs = vs.map tagged := by
  induction vs with
  | nil => rfl
  | cons v vs ih => rw [List.map_cons, ← ih, taggeds]

end Value

namespace Operand

/-- Whether every decimal in an operand is finite. -/
def IsFinite : Operand → Prop
  | .none => True
  | .single v => v.IsFinite
  | .list vs => Value.AllFinite vs
  | .range low high => low.IsFinite ∧ high.IsFinite

theorem isFinite_tagged (o : Operand) : Json.IsFinite o.tagged := by
  cases o with
  | none => trivial
  | single v => exact ⟨v.isFinite_tagged, trivial⟩
  | list vs =>
    have hvalues := Value.allFinite_taggeds vs
    rw [Value.taggeds_eq_map] at hvalues
    exact ⟨hvalues, trivial⟩
  | range low high => exact ⟨⟨low.isFinite_tagged, high.isFinite_tagged, trivial⟩, trivial⟩

/-- Finite operands are told apart by their tagged form. -/
theorem tagged_injective {o o' : Operand} (ho : o.IsFinite) (ho' : o'.IsFinite)
    (h : o.tagged = o'.tagged) : o = o' := by
  cases o with
  | none =>
    cases o' with
    | none => rfl
    | _ => cases h
  | single v =>
    cases o' with
    | single w =>
      simp only [tagged, Json.object.injEq, List.cons.injEq, Prod.mk.injEq, true_and, and_true] at h
      rw [Value.tagged_injective v ho ho' h]
    | none => cases h
    | list _ => simp [tagged] at h
    | range _ _ => simp [tagged] at h
  | list vs =>
    cases o' with
    | list ws =>
      simp only [tagged, Json.object.injEq, List.cons.injEq, Prod.mk.injEq, true_and, and_true,
        Json.array.injEq, ← Value.taggeds_eq_map] at h
      rw [Value.taggeds_injective vs ho ho' h]
    | none => cases h
    | single _ => simp [tagged] at h
    | range _ _ => simp [tagged] at h
  | range low high =>
    cases o' with
    | range low' high' =>
      simp only [tagged, Json.object.injEq, List.cons.injEq, Prod.mk.injEq, true_and, and_true,
        Json.array.injEq] at h
      rw [Value.tagged_injective low ho.1 ho'.1 h.1, Value.tagged_injective high ho.2 ho'.2 h.2]
    | none => cases h
    | single _ => simp [tagged] at h
    | list _ => simp [tagged] at h

end Operand

theorem Operator.name_injective {o o' : Operator} (h : o.name = o'.name) : o = o' := by
  refine Option.some.inj ?_
  rw [← ofName?_name, h, ofName?_name]

theorem Direction.name_injective {d d' : Direction} (h : d.name = d'.name) : d = d' := by
  cases d <;> cases d' <;> first | rfl | exact absurd h (by decide)

namespace Predicate

mutual

/-- Whether every decimal in a condition is finite. -/
def IsFinite : Predicate → Prop
  | .compare _ _ operand => operand.IsFinite
  | .anyOf alternatives => AllFinite alternatives

/-- `IsFinite` for every condition. -/
def AllFinite : List Predicate → Prop
  | [] => True
  | p :: ps => IsFinite p ∧ AllFinite ps

end

theorem allFinite_iff {ps : List Predicate} : AllFinite ps ↔ ∀ p ∈ ps, p.IsFinite := by
  induction ps with
  | nil => exact ⟨fun _ p hp => (nomatch hp), fun _ => trivial⟩
  | cons p ps ih =>
    rw [List.forall_mem_cons, ← ih]
    rfl

mutual

theorem isFinite_tagged : ∀ p : Predicate, Json.IsFinite p.tagged
  | .compare _ _ operand => ⟨⟨trivial, operand.isFinite_tagged, trivial, trivial⟩, trivial⟩
  | .anyOf alternatives => ⟨allFinite_taggeds alternatives, trivial⟩

theorem allFinite_taggeds : ∀ ps : List Predicate, Json.AllFinite (taggeds ps)
  | [] => trivial
  | p :: ps => ⟨isFinite_tagged p, allFinite_taggeds ps⟩

end

mutual

/-- Finite conditions are told apart by their tagged form. -/
theorem tagged_injective (p : Predicate) {p' : Predicate} (hp : p.IsFinite) (hp' : p'.IsFinite)
    (h : p.tagged = p'.tagged) : p = p' := by
  match p with
  | .compare field operator operand =>
    cases p' with
    | compare field' operator' operand' =>
      simp only [tagged, Json.object.injEq, List.cons.injEq, Prod.mk.injEq, true_and, and_true,
        Json.text.injEq] at h
      obtain ⟨hfield, hoperand, hoperator⟩ := h
      rw [hfield, Operand.tagged_injective hp hp' hoperand, Operator.name_injective hoperator]
    | anyOf _ => simp [tagged] at h
  | .anyOf alternatives =>
    cases p' with
    | compare _ _ _ => simp [tagged] at h
    | anyOf alternatives' =>
      simp only [tagged, Json.object.injEq, List.cons.injEq, Prod.mk.injEq, true_and, and_true,
        Json.array.injEq] at h
      rw [taggeds_injective alternatives hp hp' h]

theorem taggeds_injective (ps : List Predicate) {ps' : List Predicate} (hps : AllFinite ps)
    (hps' : AllFinite ps') (h : taggeds ps = taggeds ps') : ps = ps' := by
  match ps with
  | [] =>
    cases ps' with
    | nil => rfl
    | cons p' ps' => cases h
  | p :: ps =>
    cases ps' with
    | nil => cases h
    | cons p' ps' =>
      obtain ⟨hhead, htail⟩ := List.cons.inj h
      rw [tagged_injective p hps.1 hps'.1 hhead, taggeds_injective ps hps.2 hps'.2 htail]

end

end Predicate

/-! ## Queries -/

namespace BaseQuery

variable {q q' : BaseQuery} {field field' : String} {direction direction' : Direction}

theorem isFinite_shape (q : BaseQuery) (field : String) (direction : Direction) :
    Json.IsFinite (q.shape field direction) :=
  ⟨trivial, Predicate.allFinite_taggeds q.predicates, trivial, trivial, trivial⟩

/-- **One text stands for one selection of rows in one order.** -/
theorem shape_injective (hq : Predicate.AllFinite q.predicates)
    (hq' : Predicate.AllFinite q'.predicates)
    (h : (q.shape field direction).compact = (q'.shape field' direction').compact) :
    q.entityType = q'.entityType ∧ q.predicates = q'.predicates ∧ field = field' ∧
      direction = direction' := by
  have hshape := compact_injective (q.isFinite_shape field direction)
    (q'.isFinite_shape field' direction') h
  simp only [shape, Json.object.injEq, List.cons.injEq, Prod.mk.injEq, true_and, and_true,
    Json.text.injEq, Json.array.injEq] at hshape
  obtain ⟨htype, hpredicates, hfield, hdirection⟩ := hshape
  exact ⟨htype, Predicate.taggeds_injective _ hq hq' hpredicates, hfield,
    Direction.name_injective hdirection⟩

end BaseQuery

/-! ## Conditions of requests -/

namespace FilterSettings

variable {s : FilterSettings}

/-- No decimal is read that is not finite. -/
theorem isFinite_of_hasType {listed : List String} {t : FieldType} {v : Value}
    (h : Value.HasType listed t v) : v.IsFinite := by
  cases h with
  | decimal hfinite => exact hfinite
  | string | text | integer | boolean | datetime | enumeration => trivial

theorem isFinite_operand {d : Definition} {e : Expression} {o : Operand}
    (h : s.operand d e = .ok o) : o.IsFinite := by
  have hmade := madeOf_operand h
  obtain ⟨operator, written⟩ := e
  cases hmade with
  | none | pattern => trivial
  | single _ hv => exact isFinite_of_hasType hv
  | list _ hvs => exact Value.allFinite_iff.2 fun v hv => isFinite_of_hasType (hvs v hv)
  | range hlow hhigh => exact ⟨isFinite_of_hasType hlow, isFinite_of_hasType hhigh⟩

theorem isFinite_clause {c : Catalog} {key raw : String} {cl : Clause}
    (h : s.clause c key raw = .ok cl) : cl.operand.IsFinite := by
  obtain ⟨-, d, e, operand, -, -, -, hoperand, rfl⟩ := clause_eq_ok_iff.1 h
  exact isFinite_operand hoperand

/-- **The conditions of a request are finite.** -/
theorem isFinite_collect (s : FilterSettings) (c : Catalog) (p : Params) :
    Predicate.AllFinite (s.collect c p).predicates := by
  rw [Predicate.allFinite_iff]
  intro pred hpred
  rcases List.mem_append.1 hpred with hpred | hpred
  · obtain ⟨cl, hcl, rfl⟩ := List.mem_map.1 hpred
    obtain ⟨key, raw, hclause⟩ := mem_active (List.mem_filter.1 hcl).1
    exact isFinite_clause hclause
  · have hsearch : (s.collect c p).search = some pred := Option.mem_toList.1 hpred
    obtain ⟨term, -, hterm⟩ := Option.bind_eq_some_iff.1 hsearch
    unfold searchPredicate at hterm
    split at hterm
    · cases hterm
    · cases hterm
      refine Predicate.allFinite_iff.2 fun pred hpred => ?_
      obtain ⟨name, -, rfl⟩ := List.mem_map.1 hpred
      trivial

end FilterSettings

end FieldQuery
