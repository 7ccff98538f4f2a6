import FieldQuery.Listing.Plan

/-!
# Other computations

Virtual fields are computed in other ways. All that is said about fields remains: their names, types and
operators, what they need, and so every plan.

* `VirtualField.recompute` — the field with another computation;
* `Catalog.recast` — a catalog in which every virtual field is computed by the computation that is
  given for it.

Principal result: `planRequest_recast` — a request has the plan that it had.
-/

namespace FieldQuery

/-- The virtual field with another computation. -/
def VirtualField.recompute (f : Computation) (v : VirtualField) : VirtualField :=
  { v with computation := f }

/-- The catalog in which every virtual field is computed as is given for it and its name. -/
def Catalog.recast (g : String → VirtualField → Computation) (c : Catalog) : Catalog :=
  { c with virtualFields := c.virtualFields.map fun p => (p.1, p.2.recompute (g p.1 p.2)) }

namespace Catalog

variable {c : Catalog} {g : String → VirtualField → Computation}

/-! ## Look-ups -/

theorem get?_recast (n : String) : KeyMap.get? n (c.recast g).virtualFields =
    (KeyMap.get? n c.virtualFields).map fun v => v.recompute (g n v) := by
  unfold recast
  dsimp only
  generalize c.virtualFields = m
  induction m with
  | nil => rfl
  | cons p m ih =>
    rw [List.map_cons]
    unfold KeyMap.get?
    by_cases hn : n = p.1
    · subst hn
      rw [if_pos rfl, if_pos rfl]
      rfl
    · rw [if_neg hn, if_neg hn]
      exact ih

@[simp] theorem contains_recast (n : String) :
    KeyMap.contains n (c.recast g).virtualFields = KeyMap.contains n c.virtualFields := by
  unfold KeyMap.contains
  rw [get?_recast, Option.isSome_map]

@[simp] theorem resolve_recast (n : String) : (c.recast g).resolve n = c.resolve n := rfl

@[simp] theorem field?_recast (n : String) : (c.recast g).field? n = c.field? n := rfl

theorem virtual?_recast (n : String) : (c.recast g).virtual? n =
    (c.virtual? n).map fun v => v.recompute (g (c.resolve n) v) :=
  get?_recast (c.resolve n)

@[simp] theorem isVirtual_recast (n : String) : (c.recast g).isVirtual n = c.isVirtual n := by
  unfold isVirtual
  rw [virtual?_recast, Option.isSome_map]

/-- A definition remains, but for its computation. -/
theorem definition_recast (g : String → VirtualField → Computation) (n : String) :
    (c.recast g).get? n = c.get? n ∨ ∃ v f, c.get? n = some (.computed v) ∧
      (c.recast g).get? n = some (.computed (v.recompute f)) := by
  unfold get?
  dsimp only
  rw [get?_recast, resolve_recast, show (c.recast g).fields = c.fields from rfl]
  cases KeyMap.get? (c.resolve n) c.fields with
  | some d => exact .inl rfl
  | none =>
    cases KeyMap.get? (c.resolve n) c.virtualFields with
    | none => exact .inl rfl
    | some v => exact .inr ⟨v, _, rfl, rfl⟩

/-! ## What is needed -/

theorem references_recast : (c.recast g).references = c.references := by
  funext n
  unfold references
  rw [get?_recast]
  cases KeyMap.get? n c.virtualFields with
  | none => rfl
  | some v =>
    simp only [Option.map_some, contains_recast]
    rfl

@[simp] theorem computationOrder_recast (n : String) :
    (c.recast g).computationOrder n = c.computationOrder n := by
  have hdepth : (c.recast g).depth = c.depth := by
    unfold depth recast
    rw [List.length_map]
  unfold computationOrder
  dsimp only
  rw [references_recast, hdepth, contains_recast, resolve_recast]

theorem ownPlan_recast (n : String) : (c.recast g).ownPlan n = c.ownPlan n := by
  unfold ownPlan
  rw [get?_recast]
  cases KeyMap.get? n c.virtualFields with
  | none => rfl
  | some v =>
    simp only [Option.map_some, contains_recast]
    rfl

@[simp] theorem plan_recast (n : String) : (c.recast g).plan n = c.plan n := by
  have hown : (c.recast g).ownPlan = c.ownPlan := funext ownPlan_recast
  unfold plan
  rw [computationOrder_recast, hown]

/-! ## Plans of requests -/

theorem clause_recast (s : FilterSettings) (key raw : String) :
    s.clause (c.recast g) key raw = s.clause c key raw := by
  unfold FilterSettings.clause
  dsimp only
  rw [resolve_recast]
  rcases definition_recast (c := c) g (c.resolve key) with hsame | ⟨v, f, hv, hv'⟩
  · rw [hsame]
  · rw [hv, hv']
    rfl

theorem translate_recast (s : FilterSettings) (p : Params) :
    s.translate (c.recast g) p = s.translate c p := by
  have hcollect : s.collect (c.recast g) p = s.collect c p := by
    unfold FilterSettings.collect
    simp only [clause_recast, plan_recast]
    rfl
  unfold FilterSettings.translate
  rw [hcollect]
  rfl

theorem ofNames_recast (names : List String) :
    Selection.ofNames (c.recast g) names = Selection.ofNames c names := by
  have hfield : ∀ (s : Selection) (name : String),
      s.addField? (c.recast g) name = s.addField? c name := by
    intro s name
    unfold Selection.addField?
    rw [isVirtual_recast, field?_recast]
  have hadd : ∀ (s : Selection) (name : String), s.add? (c.recast g) name = s.add? c name := by
    intro s name
    unfold Selection.add?
    rw [resolve_recast, hfield]
  unfold Selection.ofNames
  simp only [hadd]

theorem selectionOf_recast (o : Options) : (c.recast g).selectionOf o = c.selectionOf o := by
  unfold selectionOf
  simp only [ofNames_recast]

theorem sortKeyOf_recast (o : Options) : (c.recast g).sortKeyOf o = c.sortKeyOf o := by
  unfold sortKeyOf
  cases o.sortBy with
  | none => rfl
  | some requested =>
    dsimp only
    rcases definition_recast (c := c) g (c.resolve requested) with hsame | ⟨v, f, hv, hv'⟩
    · rw [resolve_recast, hsame]
    · rw [resolve_recast, hv, hv']
      rfl

/-- **A request has the plan that it had.** -/
theorem planRequest_recast (settings : Settings) (entityType : String) (p : Params) :
    (c.recast g).planRequest settings entityType p = c.planRequest settings entityType p := by
  have hquery : ∀ (t : Translation) (selection : Option Selection) (sort : Option SortKey),
      (c.recast g).queryOf entityType t selection sort = c.queryOf entityType t selection sort := by
    intro t selection sort
    have hload : (c.recast g).loadPlan t sort = c.loadPlan t sort := by
      unfold loadPlan
      simp only [plan_recast]
    unfold queryOf projectionOf Selection.projection
    simp only [hload, plan_recast]
  unfold planRequest
  simp only [translate_recast, selectionOf_recast, sortKeyOf_recast, hquery]

end Catalog

end FieldQuery
