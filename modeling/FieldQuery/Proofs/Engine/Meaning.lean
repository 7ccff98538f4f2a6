import FieldQuery.Engine.Batch
import FieldQuery.Proofs.Catalog.Order

/-!
# What virtual fields mean

The value of a virtual field on an entity, by recursion over the virtual fields that it needs.

* `Computation.IsPure` — a computation whose outcome depends on the entity, the columns and the
  relations only, and that cancels nothing;
* `contribution` — what a virtual field hands on to a field that needs it: under the default policy
  one that fails hands on its default value, under the others its failure;
* `step` — one level of the recursion.  The virtual dependencies come first, in the order of their
  declaration, and the first failure among them fails the field.  Then the columns, the relations
  and the computation;
* `value` — the whole recursion, with fuel for every path in a catalog;
* `report` — how the failure of a field is told of the field that was asked for;
* `fieldWork`, `entityWork` — the time and the memory that the evaluation takes.

Principal results: `value_eq` — in a lawful catalog `value` satisfies the equation of the recursion,
and `findSome?_fault` — the failure of a field is the first one in the order of computation.
-/

namespace FieldQuery

/-- A computation that looks at its entity, the columns and the relations only, and does not cancel
its batch. -/
structure Computation.IsPure (f : Computation) : Prop where
  looks : ∀ e i, f e i = f e { columns := i.columns, relations := i.relations }
  keeps : ∀ e i, (f e i).cancels = false

/-- All computations of a catalog are pure. -/
def Catalog.IsPure (c : Catalog) : Prop := ∀ p ∈ c.virtualFields, p.2.computation.IsPure

/-- The error of a result. -/
def failure? {ε α : Type} : Except ε α → Option ε
  | .ok _ => none
  | .error err => some err

@[simp] theorem failure?_ok {ε α : Type} (a : α) : failure? (.ok a : Except ε α) = none := rfl

@[simp] theorem failure?_error {ε α : Type} (err : ε) :
    failure? (.error err : Except ε α) = some err := rfl

/-- What an outcome counts for: its value, unless that is null where no value may be. -/
def VirtualField.accept (v : VirtualField) (e : Entity) (o : Outcome) :
    Except ComputationError Value :=
  match o.value with
  | .error reason => .error (.callbackFailed v.name e.ref reason)
  | .ok value =>
    if value.isNull && !v.nullable then .error (.callbackFailed v.name e.ref Engine.nullRefused)
    else .ok value

namespace Meaning

/-- What a virtual field hands on to a field that needs it. -/
def contribution (policy : FailurePolicy) (v : VirtualField) :
    Except ComputationError Value → Except ComputationError Value
  | .ok value => .ok value
  | .error err => if policy = .default then .ok v.default else .error err

section Step

variable (c : Catalog) (policy : FailurePolicy) (e : Entity)
  (value : VirtualField → Except ComputationError Value)

/-- What a dependency hands on if it is a virtual field. -/
def virtual? (d : String) : Option (Except ComputationError Value) :=
  (KeyMap.get? d c.virtualFields).map fun w => contribution policy w (value w)

/-- The failure that a dependency hands on. -/
def fault? (d : String) : Option ComputationError := (virtual? c policy value d).bind failure?

/-- What a field is given for a dependency: what it hands on, or the attribute of the entity. -/
def found? (d : String) : Option Value :=
  match virtual? c policy value d with
  | some r => r.toOption
  | none => e.attribute? d

/-- What the computation of a field is given. -/
def inputs (v : VirtualField) : Except ComputationError Inputs :=
  match v.dependencies.findSome? (fault? c policy value) with
  | some err => .error err
  | none =>
    match Engine.gather (found? c policy e value) (.missingDependency v.name e.ref)
        v.dependencies with
    | .error err => .error err
    | .ok columns =>
      match Engine.gather e.relation? (.missingRelation v.name e.ref) v.relationships with
      | .error err => .error err
      | .ok relations => .ok { columns := columns, relations := relations }

/-- The value of a field, by the values of the fields that it needs. -/
def step (v : VirtualField) : Except ComputationError Value :=
  match inputs c policy e value v with
  | .error err => .error err
  | .ok i => v.accept e (v.computation e i)

end Step

/-- The value of a field that needs less than the given number of fields in a row. -/
def valueWithin (c : Catalog) (policy : FailurePolicy) (e : Entity) :
    Nat → VirtualField → Except ComputationError Value
  | 0, v => .error (.callbackFailed v.name e.ref "")
  | n + 1, v => step c policy e (valueWithin c policy e n) v

/-- The value of a virtual field on an entity. -/
def value (c : Catalog) (policy : FailurePolicy) (e : Entity) (v : VirtualField) :
    Except ComputationError Value :=
  valueWithin c policy e c.depth v

/-- How a failure is told of the field that was asked for: its own as it is, that of another
field by the field's name. -/
def report (target : VirtualField) (e : Entity) :
    Except ComputationError Value → Except ComputationError Value
  | .ok value => .ok value
  | .error err =>
    if err.field = target.name then .error err
    else .error (.dependencyFailed target.name e.ref err.field)

/-- What is told of a virtual field on an entity: its value or its failure. -/
def result (c : Catalog) (policy : FailurePolicy) (v : VirtualField) (e : Entity) :
    Except ComputationError Value :=
  report v e (value c policy e v)

/-! ## One level -/

section StepLemmas

variable {c : Catalog} {policy : FailurePolicy} {e : Entity}
  {value value' : VirtualField → Except ComputationError Value} {v : VirtualField}

theorem gather_congr {α : Type} {look look' : String → Option α}
    {missing : String → ComputationError} {names : List String}
    (h : ∀ n ∈ names, look n = look' n) :
    Engine.gather look missing names = Engine.gather look' missing names := by
  induction names with
  | nil => rfl
  | cons n names ih =>
    unfold Engine.gather
    rw [h n List.mem_cons_self, ih fun m hm => h m (List.mem_cons_of_mem _ hm)]

/-- An error of `gather` is about something that is missing. -/
theorem gather_error {α : Type} {look : String → Option α} {missing : String → ComputationError}
    {names : List String} {err : ComputationError}
    (h : Engine.gather look missing names = .error err) : ∃ n, err = missing n := by
  induction names with
  | nil => cases h
  | cons n names ih =>
    unfold Engine.gather at h
    split at h
    · cases h
      exact ⟨n, rfl⟩
    · split at h
      · rename_i err' e'
        cases h
        exact ih e'
      · cases h

theorem findSome?_congr {α β : Type} {f g : α → Option β} {l : List α}
    (h : ∀ a ∈ l, f a = g a) : l.findSome? f = l.findSome? g := by
  induction l with
  | nil => rfl
  | cons a l ih =>
    rw [List.findSome?_cons, List.findSome?_cons, h a List.mem_cons_self,
      ih fun b hb => h b (List.mem_cons_of_mem _ hb)]

/-- Elements at which nothing is found need not be looked at. -/
theorem findSome?_filter {α β : Type} {f : α → Option β} {p : α → Bool} {l : List α}
    (h : ∀ a ∈ l, p a = false → f a = none) : (l.filter p).findSome? f = l.findSome? f := by
  induction l with
  | nil => rfl
  | cons a l ih =>
    have hrest := ih fun b hb => h b (List.mem_cons_of_mem _ hb)
    cases hp : p a with
    | true => rw [List.filter_cons_of_pos hp, List.findSome?_cons, List.findSome?_cons, hrest]
    | false =>
      rw [List.filter_cons_of_neg (by simp [hp]), List.findSome?_cons,
        h a List.mem_cons_self hp, hrest]

/-- A field is given the values of its virtual dependencies, the other columns and the relations of the
entity. -/
theorem inputs_congr_entity {e' : Entity} (href : e.ref = e'.ref)
    (hvalue : ∀ d ∈ v.dependencies, ∀ w, KeyMap.get? d c.virtualFields = some w →
      value w = value' w)
    (hcolumn : ∀ d ∈ v.dependencies, KeyMap.get? d c.virtualFields = none →
      e.attribute? d = e'.attribute? d)
    (hrelation : ∀ r ∈ v.relationships, e.relation? r = e'.relation? r) :
    inputs c policy e value v = inputs c policy e' value' v := by
  have hvirtual : ∀ d ∈ v.dependencies, virtual? c policy value d = virtual? c policy value' d := by
    intro d hd
    unfold virtual?
    cases hget : KeyMap.get? d c.virtualFields with
    | none => rfl
    | some w => rw [Option.map_some, Option.map_some, hvalue d hd w hget]
  have hfault : v.dependencies.findSome? (fault? c policy value) =
      v.dependencies.findSome? (fault? c policy value') :=
    findSome?_congr fun d hd => by unfold fault?; rw [hvirtual d hd]
  have hfound : ∀ d ∈ v.dependencies,
      found? c policy e value d = found? c policy e' value' d := by
    intro d hd
    unfold found?
    rw [hvirtual d hd]
    cases hget : virtual? c policy value' d with
    | some r => rfl
    | none => exact hcolumn d hd (Option.map_eq_none_iff.1 hget)
  unfold inputs
  rw [hfault, gather_congr hfound, gather_congr hrelation, href]

/-- One level looks at what a field is given, and at what the computation makes of it. -/
theorem step_congr_entity {e' : Entity} (href : e.ref = e'.ref)
    (hinputs : inputs c policy e value v = inputs c policy e' value' v)
    (hcomputation : ∀ i, v.computation e i = v.computation e' i) :
    step c policy e value v = step c policy e' value' v := by
  unfold step VirtualField.accept
  rw [hinputs, href]
  cases inputs c policy e' value' v with
  | error err => rfl
  | ok i =>
    dsimp only
    rw [hcomputation i]

/-- One level looks at the values of the dependencies only. -/
theorem step_congr
    (h : ∀ d ∈ v.dependencies, ∀ w, KeyMap.get? d c.virtualFields = some w → value w = value' w) :
    step c policy e value v = step c policy e value' v :=
  step_congr_entity rfl (inputs_congr_entity rfl h (fun _ _ _ => rfl) fun _ _ => rfl) fun _ => rfl

theorem accept_error {o : Outcome} {err : ComputationError} (h : v.accept e o = .error err) :
    err.field = v.name ∧ err.isBatchLevel = false := by
  unfold VirtualField.accept at h
  split at h
  · cases h
    exact ⟨rfl, rfl⟩
  · split at h
    · cases h
      exact ⟨rfl, rfl⟩
    · cases h

/-- A field fails with a failure of its dependencies, or by itself if they do not fail. -/
theorem inputs_error {err : ComputationError} (h : inputs c policy e value v = .error err) :
    v.dependencies.findSome? (fault? c policy value) = some err ∨
      v.dependencies.findSome? (fault? c policy value) = none ∧
        err.field = v.name ∧ err.isBatchLevel = false := by
  unfold inputs at h
  split at h
  · rename_i err' hfault
    cases h
    exact .inl hfault
  · rename_i hnone
    split at h
    · rename_i err' hcolumns
      cases h
      obtain ⟨n, rfl⟩ := gather_error hcolumns
      exact .inr ⟨hnone, rfl, rfl⟩
    · split at h
      · rename_i err' hrelations
        cases h
        obtain ⟨n, rfl⟩ := gather_error hrelations
        exact .inr ⟨hnone, rfl, rfl⟩
      · cases h

/-- A field is given its inputs only if its dependencies do not fail. -/
theorem inputs_ok {i : Inputs} (h : inputs c policy e value v = .ok i) :
    v.dependencies.findSome? (fault? c policy value) = none := by
  unfold inputs at h
  split at h
  · cases h
  · assumption

theorem step_error {err : ComputationError} (h : step c policy e value v = .error err) :
    v.dependencies.findSome? (fault? c policy value) = some err ∨
      v.dependencies.findSome? (fault? c policy value) = none ∧
        err.field = v.name ∧ err.isBatchLevel = false := by
  unfold step at h
  split at h
  · rename_i err' hinputs
    cases h
    exact inputs_error hinputs
  · rename_i i hinputs
    exact .inr ⟨inputs_ok hinputs, accept_error h⟩

/-- The first failure among the dependencies fails the field. -/
theorem step_of_fault {err : ComputationError}
    (h : v.dependencies.findSome? (fault? c policy value) = some err) :
    step c policy e value v = .error err := by
  unfold step inputs
  rw [h]

theorem fault?_of_get? {d : String} {w : VirtualField}
    (hw : KeyMap.get? d c.virtualFields = some w) :
    fault? c policy value d = failure? (contribution policy w (value w)) := by
  unfold fault? virtual?
  rw [hw]
  rfl

theorem fault?_of_get?_none {d : String} (hd : KeyMap.get? d c.virtualFields = none) :
    fault? c policy value d = none := by
  unfold fault? virtual?
  rw [hd]
  rfl

theorem found?_of_get? {d : String} {w : VirtualField}
    (hw : KeyMap.get? d c.virtualFields = some w) :
    found? c policy e value d = (contribution policy w (value w)).toOption := by
  unfold found? virtual?
  rw [hw]
  rfl

theorem found?_of_get?_none {d : String} (hd : KeyMap.get? d c.virtualFields = none) :
    found? c policy e value d = e.attribute? d := by
  unfold found? virtual?
  rw [hd]
  rfl

/-- A failure that is handed on is the field's own. -/
theorem contribution_error {r : Except ComputationError Value} {err : ComputationError}
    (h : contribution policy v r = .error err) : policy ≠ .default ∧ r = .error err := by
  unfold contribution at h
  split at h
  · cases h
  · split at h
    · cases h
    · rename_i hpolicy
      cases h
      exact ⟨hpolicy, rfl⟩

end StepLemmas

/-- A failure never ends a batch by its kind. -/
theorem valueWithin_error {c : Catalog} {policy : FailurePolicy} {e : Entity} :
    ∀ {n : Nat} {v : VirtualField} {err : ComputationError},
      valueWithin c policy e n v = .error err → err.isBatchLevel = false
  | 0, _, _, h => by
    cases h
    rfl
  | n + 1, v, err, h => by
    rcases step_error h with hfault | hown
    · obtain ⟨d, _, hd⟩ := List.exists_of_findSome?_eq_some hfault
      cases hget : KeyMap.get? d c.virtualFields with
      | none =>
        rw [fault?_of_get?_none hget] at hd
        cases hd
      | some w =>
        rw [fault?_of_get? hget] at hd
        cases hcon : contribution policy w (valueWithin c policy e n w) with
        | ok a =>
          rw [hcon] at hd
          cases hd
        | error err' =>
          rw [hcon] at hd
          cases hd
          exact valueWithin_error (contribution_error hcon).2
    · exact hown.2.2

theorem result_ok_iff {c : Catalog} {policy : FailurePolicy} {v : VirtualField} {e : Entity}
    {a : Value} : result c policy v e = .ok a ↔ value c policy e v = .ok a := by
  unfold result report
  cases value c policy e v with
  | ok a' => rfl
  | error err =>
    constructor
    · intro h
      dsimp only at h
      split at h <;> cases h
    · intro h
      cases h

theorem result_error {c : Catalog} {policy : FailurePolicy} {v : VirtualField} {e : Entity}
    {err : ComputationError} (h : result c policy v e = .error err) : err.isBatchLevel = false := by
  unfold result report at h
  split at h
  · cases h
  · rename_i err' hvalue
    split at h
    · cases h
      exact valueWithin_error hvalue
    · cases h
      rfl

/-! ## The recursion -/

section Recursion

variable {c : Catalog} (hc : c.Lawful) (policy : FailurePolicy) (e : Entity)

/-- More fuel than a field has fields before it does not change its value. -/
theorem valueWithin_eq {done : List String} (hdone : Walk.Finished c.references done) :
    ∀ x ∈ done, ∀ w, KeyMap.get? x c.virtualFields = some w →
      ∀ n m, done.length ≤ n → done.length ≤ m →
        valueWithin c policy e n w = valueWithin c policy e m w := by
  induction done with
  | nil => intro x hx; cases hx
  | cons a done ih =>
    intro x hx w hw n m hn hm
    rw [List.length_cons] at hn hm
    rcases List.mem_cons.1 hx with rfl | hx
    · obtain ⟨n, rfl⟩ : ∃ k, n = k + 1 := ⟨n - 1, by omega⟩
      obtain ⟨m, rfl⟩ : ∃ k, m = k + 1 := ⟨m - 1, by omega⟩
      refine step_congr fun d hd w' hw' => ?_
      have hneeds : c.Needs x d := ⟨w, hw, hd, Catalog.mem_keys_of_get? hw'⟩
      exact ih hdone.2.2 d (hdone.2.1 d (Catalog.mem_references.2 hneeds)) w' hw' n m
        (by omega) (by omega)
    · exact ih hdone.2.2 x hx w hw n m (by omega) (by omega)

include hc

/-- **The equation of the recursion.** -/
theorem value_eq {v : VirtualField} (hv : KeyMap.get? v.name c.virtualFields = some v) :
    value c policy e v = step c policy e (value c policy e) v := by
  have hkey := Catalog.mem_keys_of_get? hv
  obtain ⟨hdone, ⟨before, horder⟩, -⟩ := hc.computationOrder_spec hkey
  have hlength := hc.length_computationOrder_lt hkey
  have hdepth : c.depth = c.virtualFields.length + 1 := rfl
  show step c policy e (valueWithin c policy e c.virtualFields.length) v = _
  refine step_congr fun d hd w hw => ?_
  have hneeds : c.Needs v.name d := ⟨v, hv, hd, Catalog.mem_keys_of_get? hw⟩
  have hmem : v.name ∈ (c.computationOrder v.name).reverse := by
    rw [horder]
    simp
  have hd' := hdone.mem_of_edge hmem (Catalog.mem_references.2 hneeds)
  refine valueWithin_eq policy e hdone d hd' w hw _ _ ?_ ?_
  · rw [List.length_reverse]
    omega
  · rw [List.length_reverse]
    omega

/-- What the dependencies hand on as a failure, the field hands on. -/
theorem fault?_of_references {a : String} (ha : a ∈ KeyMap.keys c.virtualFields)
    {err : ComputationError}
    (h : (c.references a).findSome? (fault? c policy (value c policy e)) = some err) :
    fault? c policy (value c policy e) a = some err := by
  obtain ⟨v, hv⟩ := Catalog.get?_of_mem_keys ha
  have hname := hc.name_of_get? hv
  have hdeps : v.dependencies.findSome? (fault? c policy (value c policy e)) = some err := by
    unfold Catalog.references at h
    rw [hv] at h
    rw [← h]
    refine (findSome?_filter fun d _ hd => fault?_of_get?_none ?_).symm
    unfold KeyMap.contains at hd
    exact Option.isSome_eq_false_iff.1 hd |> Option.isNone_iff_eq_none.1
  have hpolicy : policy ≠ .default := by
    obtain ⟨d, _, hd⟩ := List.exists_of_findSome?_eq_some hdeps
    cases hget : KeyMap.get? d c.virtualFields with
    | none => rw [fault?_of_get?_none hget] at hd; cases hd
    | some w =>
      rw [fault?_of_get? hget] at hd
      cases hcon : contribution policy w (value c policy e w) with
      | ok value => rw [hcon] at hd; cases hd
      | error err' => exact (contribution_error hcon).1
  have hvalue : value c policy e v = .error err := by
    rw [value_eq hc policy e (by rw [hname]; exact hv)]
    exact step_of_fault hdeps
  rw [fault?_of_get? hv, hvalue]
  simp [contribution, hpolicy]

/-- **The failure that a field hands on is the first one in its order of computation.** -/
theorem findSome?_fault {n : String} (hn : n ∈ KeyMap.keys c.virtualFields) :
    (c.computationOrder n).findSome? (fault? c policy (value c policy e)) =
      fault? c policy (value c policy e) n := by
  rw [hc.computationOrder_eq hn]
  exact Walk.findSome?_postorder c.references_closed hc.acyclic_references
    (fun a ha err => fault?_of_references hc policy e ha) c.depth [] [] n
    (.start hn c.length_keys_lt_depth) rfl

/-- **Behind every failure is a needed field that fails by itself**, while none of its own
dependencies hands on a failure; the failure names it. -/
theorem exists_culprit {v : VirtualField} (hv : KeyMap.get? v.name c.virtualFields = some v)
    {err : ComputationError} (herr : value c policy e v = .error err) :
    ∃ g, Relation.ReflTransGen c.Needs v.name g.name ∧
      KeyMap.get? g.name c.virtualFields = some g ∧ value c policy e g = .error err ∧
      g.dependencies.findSome? (fault? c policy (value c policy e)) = none ∧
      err.field = g.name := by
  obtain ⟨hdone, ⟨before, horder⟩, -⟩ := hc.computationOrder_spec (Catalog.mem_keys_of_get? hv)
  have hmem : v.name ∈ (c.computationOrder v.name).reverse := by
    rw [horder]
    simp
  clear horder
  -- the fields of the order come after what they need, so the induction is on the order
  generalize (c.computationOrder v.name).reverse = done at hdone hmem
  induction done generalizing v with
  | nil => cases hmem
  | cons a done ih =>
    rcases List.mem_cons.1 hmem with rfl | hmem
    · rw [value_eq hc policy e hv] at herr
      rcases step_error herr with hfault | ⟨hnone, hfield, -⟩
      · obtain ⟨d, hd, hdfault⟩ := List.exists_of_findSome?_eq_some hfault
        cases hget : KeyMap.get? d c.virtualFields with
        | none =>
          rw [fault?_of_get?_none hget] at hdfault
          cases hdfault
        | some w =>
          rw [fault?_of_get? hget] at hdfault
          cases hcon : contribution policy w (value c policy e w) with
          | ok a =>
            rw [hcon] at hdfault
            cases hdfault
          | error err' =>
            rw [hcon] at hdfault
            cases hdfault
            have hname := hc.name_of_get? hget
            subst hname
            have hneeds : c.Needs v.name w.name := ⟨v, hv, hd, Catalog.mem_keys_of_get? hget⟩
            obtain ⟨g, hreach, hg⟩ := ih hget (contribution_error hcon).2 hdone.2.2
              (hdone.2.1 w.name (Catalog.mem_references.2 hneeds))
            exact ⟨g, .head hneeds hreach, hg⟩
      · refine ⟨v, .refl, hv, ?_, hnone, hfield⟩
        rw [value_eq hc policy e hv]
        exact herr
    · exact ih hv herr hdone.2.2 hmem

end Recursion

end Meaning

end FieldQuery
