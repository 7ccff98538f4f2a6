import FieldQuery.Proofs.Engine.Meaning

/-!
# What has to be loaded for a value

* `Computation.IsOfInputs` — a pure computation that knows nothing else of its entity than type and
  identity;
* `SameFor` — two entities have in common what a plan names;
* `mem_ownPlan_of_get?`, `ownPlan_below_plan`, `plan_below_plan` — a plan names what the fields of the
  order of computation declare, and what their plans name.

Principal results: `value_sameFor` — entities that have the plan of a field in common have its value
in common.
-/

namespace FieldQuery

/-- A pure computation that depends on the type and the identity of its entity and on its inputs
only. -/
structure Computation.IsOfInputs (f : Computation) : Prop extends f.IsPure where
  ref : ∀ e e' i, e.ref = e'.ref → f e i = f e' i

/-- All computations of a catalog depend on their inputs only. -/
def Catalog.IsOfInputs (c : Catalog) : Prop :=
  ∀ p ∈ c.virtualFields, p.2.computation.IsOfInputs

theorem Catalog.IsOfInputs.isPure {c : Catalog} (h : c.IsOfInputs) : c.IsPure :=
  fun p hp => (h p hp).toIsPure

/-- Two entities have in common what a plan names. -/
structure SameFor (p : LoadPlan) (e e' : Entity) : Prop where
  ref : e.ref = e'.ref
  columns : ∀ d ∈ p.columns, e.attribute? d = e'.attribute? d
  relations : ∀ r ∈ p.relations, e.relation? r = e'.relation? r

theorem SameFor.symm {p : LoadPlan} {e e' : Entity} (h : SameFor p e e') : SameFor p e' e :=
  ⟨h.ref.symm, fun d hd => (h.columns d hd).symm, fun r hr => (h.relations r hr).symm⟩

theorem SameFor.trans {p : LoadPlan} {e e' e'' : Entity} (h : SameFor p e e') (h' : SameFor p e' e'') :
    SameFor p e e'' :=
  ⟨h.ref.trans h'.ref, fun d hd => (h.columns d hd).trans (h'.columns d hd),
    fun r hr => (h.relations r hr).trans (h'.relations r hr)⟩

/-! ## Plans -/

theorem Names.mem_ofList {n : String} {ns : List String} : n ∈ Names.ofList ns ↔ n ∈ ns := by
  unfold Names.ofList
  rw [Names.mem_union]
  simp

namespace LoadPlan

/-- Everything in a plan is in one that is merged from it. -/
def Below (p q : LoadPlan) : Prop := p.columns ⊆ q.columns ∧ p.relations ⊆ q.relations

theorem Below.refl (p : LoadPlan) : p.Below p := ⟨List.Subset.refl _, List.Subset.refl _⟩

theorem Below.trans {p q r : LoadPlan} (h : p.Below q) (h' : q.Below r) : p.Below r :=
  ⟨fun _ hx => h'.1 (h.1 hx), fun _ hx => h'.2 (h.2 hx)⟩

theorem below_merge_left (p q : LoadPlan) : p.Below (p.merge q) :=
  ⟨fun _ hx => Names.mem_union.2 (.inl hx), fun _ hx => Names.mem_union.2 (.inl hx)⟩

theorem below_merge_right (p q : LoadPlan) : q.Below (p.merge q) :=
  ⟨fun _ hx => Names.mem_union.2 (.inr hx), fun _ hx => Names.mem_union.2 (.inr hx)⟩

theorem below_foldl {α : Type} (plan : α → LoadPlan) (as : List α) (p : LoadPlan) :
    p.Below (as.foldl (fun p a => p.merge (plan a)) p) := by
  induction as generalizing p with
  | nil => exact .refl p
  | cons a as ih => exact (below_merge_left p (plan a)).trans (ih _)

/-- Merging keeps the plan of every element. -/
theorem below_foldl_of_mem {α : Type} (plan : α → LoadPlan) {as : List α} {a : α} (ha : a ∈ as)
    (p : LoadPlan) : (plan a).Below (as.foldl (fun p a => p.merge (plan a)) p) := by
  induction as generalizing p with
  | nil => cases ha
  | cons b as ih =>
    rcases List.mem_cons.1 ha with rfl | ha
    · exact (below_merge_right p (plan a)).trans (below_foldl plan as _)
    · exact ih ha _

/-- Plans are merged column by column and relation by relation. -/
theorem foldl_merge {α : Type} (plan : α → LoadPlan) (as : List α) (p : LoadPlan) :
    as.foldl (fun p a => p.merge (plan a)) p =
      ⟨as.foldl (fun s a => Names.union s (plan a).columns) p.columns,
        as.foldl (fun s a => Names.union s (plan a).relations) p.relations⟩ := by
  induction as generalizing p with
  | nil => rfl
  | cons a as ih => exact ih (p.merge (plan a))

end LoadPlan

theorem SameFor.mono {p q : LoadPlan} {e e' : Entity} (h : SameFor q e e') (hbelow : p.Below q) :
    SameFor p e e' where
  ref := h.ref
  columns d hd := h.columns d (hbelow.1 hd)
  relations r hr := h.relations r (hbelow.2 hr)

/-- A plan names what the fields of the order of computation declare. -/
theorem Catalog.ownPlan_below_plan {c : Catalog} {n name : String}
    (hn : n ∈ c.computationOrder name) : (c.ownPlan n).Below (c.plan name) :=
  LoadPlan.below_foldl_of_mem c.ownPlan hn {}

/-- A plan that is merged of plans is a part of whatever they all are a part of. -/
theorem LoadPlan.foldl_below {α : Type} {plan : α → LoadPlan} {as : List α} {p q : LoadPlan}
    (hp : p.Below q) (h : ∀ a ∈ as, (plan a).Below q) :
    (as.foldl (fun p a => p.merge (plan a)) p).Below q := by
  induction as generalizing p with
  | nil => exact hp
  | cons a as ih =>
    obtain ⟨hfirst, hrest⟩ := List.forall_mem_cons.1 h
    refine ih ⟨fun n hn => ?_, fun n hn => ?_⟩ hrest
    · exact (Names.mem_union.1 hn).elim (fun hn => hp.1 hn) fun hn => hfirst.1 hn
    · exact (Names.mem_union.1 hn).elim (fun hn => hp.2 hn) fun hn => hfirst.2 hn

/-- A plan names what the plans of the fields of the order of computation name. -/
theorem Catalog.plan_below_plan {c : Catalog} (hc : c.Lawful) {n name : String}
    (hname : name ∈ KeyMap.keys c.virtualFields) (hn : n ∈ c.computationOrder name) :
    (c.plan n).Below (c.plan name) := by
  have hreach := ((hc.computationOrder_spec hname).2.2 n).1 hn
  refine LoadPlan.foldl_below ⟨List.nil_subset _, List.nil_subset _⟩ fun m hm => ?_
  have hreach' := ((hc.computationOrder_spec (hc.mem_keys_of_order hname hn)).2.2 m).1 hm
  exact ownPlan_below_plan (((hc.computationOrder_spec hname).2.2 m).2 (hreach.trans hreach'))

/-- What a field declares is in its own plan: the dependencies that are no virtual fields, and the
relations. -/
theorem Catalog.mem_ownPlan_of_get? {c : Catalog} {v : VirtualField}
    (hv : KeyMap.get? v.name c.virtualFields = some v) :
    (∀ d ∈ v.dependencies, KeyMap.contains d c.virtualFields = false →
      d ∈ (c.ownPlan v.name).columns) ∧ ∀ r ∈ v.relationships, r ∈ (c.ownPlan v.name).relations := by
  unfold Catalog.ownPlan
  rw [hv]
  refine ⟨fun d hd hcolumn => Names.mem_ofList.2 (List.mem_filter.2 ⟨hd, ?_⟩),
    fun r hr => Names.mem_ofList.2 hr⟩
  rw [hcolumn]
  rfl

/-! ## Values -/

namespace Meaning

variable {c : Catalog} {policy : FailurePolicy} {e e' : Entity}

/-- A field is given the same of entities that have in common what it declares itself. -/
theorem inputs_sameFor {v : VirtualField} (hv : KeyMap.get? v.name c.virtualFields = some v)
    (h : SameFor (c.ownPlan v.name) e e') {val val' : VirtualField → Except ComputationError Value}
    (hvalue : ∀ d ∈ v.dependencies, ∀ w, KeyMap.get? d c.virtualFields = some w → val w = val' w) :
    inputs c policy e val v = inputs c policy e' val' v := by
  obtain ⟨hcolumn, hrelation⟩ := Catalog.mem_ownPlan_of_get? hv
  refine inputs_congr_entity h.ref hvalue (fun d hd hnone => ?_)
    fun r hr => h.relations r (hrelation r hr)
  refine h.columns d (hcolumn d hd ?_)
  unfold KeyMap.contains
  rw [hnone]
  rfl

/-- One level, for entities that have in common what the field itself declares. -/
theorem step_sameFor (hpure : c.IsOfInputs) {v : VirtualField}
    (hv : KeyMap.get? v.name c.virtualFields = some v) (h : SameFor (c.ownPlan v.name) e e')
    {val val' : VirtualField → Except ComputationError Value}
    (hvalue : ∀ d ∈ v.dependencies, ∀ w, KeyMap.get? d c.virtualFields = some w → val w = val' w) :
    step c policy e val v = step c policy e' val' v :=
  step_congr_entity h.ref (inputs_sameFor hv h hvalue) fun i =>
    (hpure _ (KeyMap.mem_of_get? hv)).ref e e' i h.ref

/-- **Entities that have in common what a field needs have its value in common.** -/
theorem value_sameFor (hc : c.Lawful) (hpure : c.IsOfInputs) {v : VirtualField}
    (hv : KeyMap.get? v.name c.virtualFields = some v) (h : SameFor (c.plan v.name) e e') :
    value c policy e v = value c policy e' v := by
  have hkey := Catalog.mem_keys_of_get? hv
  obtain ⟨hdone, ⟨before, horder⟩, -⟩ := hc.computationOrder_spec hkey
  have hmem : v.name ∈ (c.computationOrder v.name).reverse := by
    rw [horder]
    simp
  have hplans : ∀ n ∈ (c.computationOrder v.name).reverse, SameFor (c.ownPlan n) e e' :=
    fun n hn => h.mono (Catalog.ownPlan_below_plan (List.mem_reverse.1 hn))
  clear horder h
  -- the fields of the order come after what they need, so the induction is on the order
  generalize (c.computationOrder v.name).reverse = done at hdone hmem hplans
  induction done generalizing v with
  | nil => cases hmem
  | cons a done ih =>
    have hrest := fun n hn => hplans n (List.mem_cons_of_mem _ hn)
    rcases List.mem_cons.1 hmem with rfl | hmem
    · rw [value_eq hc policy e hv, value_eq hc policy e' hv]
      refine step_sameFor hpure hv (hplans v.name List.mem_cons_self) fun d hd w hw => ?_
      have hname := hc.name_of_get? hw
      subst hname
      have hneeds : c.Needs v.name w.name := ⟨v, hv, hd, Catalog.mem_keys_of_get? hw⟩
      exact ih hw (Catalog.mem_keys_of_get? hw) hdone.2.2
        (hdone.2.1 w.name (Catalog.mem_references.2 hneeds)) hrest
    · exact ih hv hkey hdone.2.2 hmem hrest

end Meaning

end FieldQuery
