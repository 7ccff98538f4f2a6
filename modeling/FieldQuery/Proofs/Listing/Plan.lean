import FieldQuery.Listing.Execute
import FieldQuery.Proofs.Engine.Loaded
import FieldQuery.Proofs.Request.Clause

/-!
# What a plan promises

* `Entity.whole` — a row with everything that can be loaded of it;
* `ListingPlan.Wants` — the virtual fields that decide about the rows of a plan: those of clauses and
  the sort key;
* `ListingPlan.Sufficient` — all virtual fields of a plan are registered, and its query loads what
  those that it wants need;
* `Catalog.planOf` — the plan of a request whose filters have been translated.

Principal results: `planRequest_cases` — a request whose filters can be translated has its plan, unless
its other options are wrong and the settings strict, and `sufficient_planOf` — the plan is sufficient.
-/

namespace FieldQuery

/-! ## Names behind aliases -/

namespace Catalog

variable {c : Catalog}

/-- What an alias stands for is no alias. -/
theorem Lawful.resolve_resolve (hc : c.Lawful) (n : String) :
    c.resolve (c.resolve n) = c.resolve n := by
  cases halias : KeyMap.get? n c.aliases with
  | none =>
    have hself : c.resolve n = n := by
      unfold resolve
      rw [halias]
      rfl
    rw [hself, hself]
  | some target =>
    have htarget : c.resolve n = target := by
      unfold resolve
      rw [halias]
      rfl
    have hnot := hc.target_not_alias (KeyMap.mem_of_get? halias)
    rw [htarget]
    unfold resolve
    cases hget : KeyMap.get? target c.aliases with
    | none => rfl
    | some _ => exact absurd (List.mem_map_of_mem (KeyMap.mem_of_get? hget)) hnot

/-- A definition that is computed is registered as a virtual field. -/
theorem mem_keys_of_isVirtual {n : String} {d : Definition} (h : c.get? n = some d)
    (hvirtual : d.isVirtual = true) : c.resolve n ∈ KeyMap.keys c.virtualFields := by
  unfold get? at h
  dsimp only at h
  split at h
  · cases h
    cases hvirtual
  · obtain ⟨v, hv, -⟩ := Option.map_eq_some_iff.1 h
    exact mem_keys_of_get? hv

end Catalog

/-! ## What is registered -/

section Registered

variable {c : Catalog} {s : FilterSettings}

/-- A clause is about the definition behind the name of its parameter. -/
theorem FilterSettings.clause_ok {key raw : String} {cl : Clause} (h : s.clause c key raw = .ok cl) :
    cl.field = c.resolve key ∧ ∃ d, c.get? (c.resolve key) = some d ∧ cl.isVirtual = d.isVirtual := by
  obtain ⟨-, d, e, operand, ⟨hd, -⟩, -, -, -, rfl⟩ := clause_eq_ok_iff.1 h
  exact ⟨rfl, d, hd, rfl⟩

theorem FilterSettings.translate_ok {p : Params} {t : Translation} (h : s.translate c p = .ok t) :
    t = s.collect c p := by
  unfold translate at h
  dsimp only at h
  split at h
  · cases h
  · split at h
    · cases h
      rfl
    · cases h
    · cases h

/-- Filters can be translated if all required columns are there, and in strict settings no filter is
wrong. -/
theorem FilterSettings.translate_eq_ok_iff {p : Params} : s.translate c p = .ok (s.collect c p) ↔
    (s.strict = true → (s.collect c p).rejected = []) ∧ missing c (s.collect c p).active = [] := by
  unfold translate
  dsimp only
  split
  · rename_i hwrong
    simp [hwrong.1, hwrong.2]
  · rename_i hright
    split
    · rename_i hmissing
      simp only [true_iff]
      exact ⟨fun hstrict => Classical.byContradiction fun hne => hright ⟨hstrict, hne⟩, hmissing⟩
    · rename_i hmissing
      simp [hmissing]
    · rename_i hmissing _
      exact ⟨fun h => (nomatch h), fun h => absurd h.2 hmissing⟩

theorem FilterSettings.mem_active {p : Params} {cl : Clause} (h : cl ∈ (s.collect c p).active) :
    ∃ key raw, s.clause c key raw = .ok cl := by
  unfold collect at h
  dsimp only at h
  obtain ⟨o, ho, hcl⟩ := List.mem_filterMap.1 h
  obtain ⟨⟨key, raw⟩, -, rfl⟩ := List.mem_map.1 ho
  dsimp only at hcl
  split at hcl
  · rename_i cl' hok
    cases hcl
    exact ⟨key, raw, hok⟩
  · cases hcl

/-- The field of a virtual clause is registered. -/
theorem virtualClauses_registered (hc : c.Lawful) {p : Params} {t : Translation}
    (h : s.translate c p = .ok t) :
    ∀ cl ∈ t.virtualClauses, cl.field ∈ KeyMap.keys c.virtualFields := by
  intro cl hcl
  obtain ⟨hactive, hvirtual⟩ := List.mem_filter.1 hcl
  rw [FilterSettings.translate_ok h] at hactive
  obtain ⟨key, raw, hclause⟩ := FilterSettings.mem_active hactive
  obtain ⟨hfield, d, hd, hkind⟩ := FilterSettings.clause_ok hclause
  rw [hfield, ← hc.resolve_resolve key]
  exact Catalog.mem_keys_of_isVirtual hd (hkind.symm.trans hvirtual)

/-- A sort key that is virtual is registered. -/
theorem sortKeyOf_registered (hc : c.Lawful) {o : Options} {field : String}
    (h : (c.sortKeyOf o).1 = some (.virtual field)) : field ∈ KeyMap.keys c.virtualFields := by
  unfold Catalog.sortKeyOf at h
  split at h
  · cases h
  · rename_i requested _
    dsimp only at h
    split at h
    · rename_i d hd
      split at h
      · split at h
        · rename_i hvirtual
          cases h
          rw [← hc.resolve_resolve requested]
          exact Catalog.mem_keys_of_isVirtual hd hvirtual
        · cases h
      · cases h
    · cases h

namespace Selection

theorem virtualFields_addField? (hc : c.Lawful) {s s' : Selection} {name : String}
    (h : s.addField? c (c.resolve name) = some s')
    (hs : ∀ f ∈ s.virtualFields, f ∈ KeyMap.keys c.virtualFields) :
    ∀ f ∈ s'.virtualFields, f ∈ KeyMap.keys c.virtualFields := by
  unfold addField? at h
  split at h
  · rename_i hvirtual
    split at h
    · cases h
      exact hs
    · cases h
      intro f hf
      rcases List.mem_append.1 hf with hf | hf
      · exact hs f hf
      · obtain rfl := List.mem_singleton.1 hf
        unfold Catalog.isVirtual Catalog.virtual? at hvirtual
        rw [hc.resolve_resolve] at hvirtual
        exact KeyMap.contains_eq_true_iff.1 hvirtual
  · split at h
    · cases h
      exact hs
    · cases h

theorem virtualFields_add? (hc : c.Lawful) {s s' : Selection} {name : String}
    (h : s.add? c name = some s') (hs : ∀ f ∈ s.virtualFields, f ∈ KeyMap.keys c.virtualFields) :
    ∀ f ∈ s'.virtualFields, f ∈ KeyMap.keys c.virtualFields := by
  unfold add? at h
  split at h
  · cases h
    exact hs
  · split at h
    · split at h
      · cases h
      · cases h
        exact hs
    · exact virtualFields_addField? hc h hs

/-- The virtual fields of a selection are registered. -/
theorem virtualFields_ofNames (hc : c.Lawful) (names : List String) :
    ∀ f ∈ (ofNames c names).1.virtualFields, f ∈ KeyMap.keys c.virtualFields := by
  unfold ofNames
  refine List.foldlRecOn (motive := fun acc : Selection × List FilterError =>
    ∀ f ∈ acc.1.virtualFields, f ∈ KeyMap.keys c.virtualFields) names _ ?_ ?_
  · intro f hf
    cases hf
  · intro acc hacc name _
    dsimp only
    split
    · rename_i s' hadd
      exact virtualFields_add? hc hadd hacc
    · exact hacc

end Selection

end Registered

/-! ## What is loaded -/

/-- What is kept of a table is found in it as before. -/
theorem KeyMap.get?_filter {α : Type} {k : String} {names : Names} (h : k ∈ names) (m : KeyMap α) :
    get? k (m.filter fun a => names.contains a.1) = get? k m := by
  induction m with
  | nil => rfl
  | cons p m ih =>
    obtain ⟨k', v⟩ := p
    rw [List.filter_cons, get?_cons]
    by_cases hk : k = k'
    · subst hk
      rw [if_pos (List.contains_iff_mem.2 h), get?_cons, if_pos rfl, if_pos rfl]
    · rw [if_neg hk, ← ih]
      split
      · rw [get?_cons, if_neg hk]
      · rfl

namespace Entity

/-- A row with everything that can be loaded of it: all columns, and the related records of all
relations with all their columns. -/
def whole (e : Entity) : Entity := e.project none (e.relations.map fun r => (r.1, none))

variable {e : Entity} {columns : Columns} {rels : KeyMap Columns}

/-- A column that is kept. -/
theorem attribute?_project {name : String} (h : ∀ names, columns = some names → name ∈ names) :
    (e.project columns rels).attribute? name = e.attribute? name := by
  show KeyMap.get? name (keepColumns columns e.attributes) = KeyMap.get? name e.attributes
  unfold keepColumns
  cases columns with
  | none => rfl
  | some names => exact KeyMap.get?_filter (h names rfl) e.attributes

/-- A relation as a projection keeps it. -/
theorem relation?_project (e : Entity) (columns : Columns) (rels : KeyMap Columns) (r : String) :
    (e.project columns rels).relation? r =
      (KeyMap.get? r rels).bind fun nested => (e.relation? r).map (List.map (restrict nested)) := by
  show KeyMap.get? r (rels.filterMap fun p =>
    (e.relation? p.1).map fun related => (p.1, related.map (restrict p.2))) = _
  induction rels with
  | nil => rfl
  | cons p rels ih =>
    obtain ⟨name, nested⟩ := p
    by_cases hr : r = name
    · subst hr
      cases hrelation : e.relation? r with
      | none =>
        rw [List.filterMap_cons_none (by simp [hrelation]), ih, hrelation]
        simp
      | some related =>
        rw [List.filterMap_cons_some (b := (r, related.map (restrict nested)))
          (by simp [hrelation]), KeyMap.get?_cons, KeyMap.get?_cons, if_pos rfl, if_pos rfl]
        rfl
    · rw [KeyMap.get?_cons, if_neg hr, ← ih, List.filterMap_cons]
      dsimp only
      cases e.relation? name with
      | none => rfl
      | some related => exact if_neg hr

/-- A relation of a row that is loaded as a whole. -/
theorem relation?_whole (e : Entity) (r : String) :
    e.whole.relation? r = (e.relation? r).map (List.map (restrict none)) := by
  have hget : ∀ rels : KeyMap (List Entity),
      KeyMap.get? r (rels.map fun r => (r.1, (none : Columns))) =
        (KeyMap.get? r rels).map fun _ => none := by
    intro rels
    induction rels with
    | nil => rfl
    | cons p rels ih =>
      rw [List.map_cons]
      unfold KeyMap.get?
      split
      · rfl
      · exact ih
  unfold whole
  rw [relation?_project, hget]
  show ((e.relation? r).map _).bind _ = _
  cases e.relation? r <;> rfl

end Entity

namespace Store

/-- A relation that is loaded eagerly comes with all columns. -/
theorem get?_relations {q : BaseQuery} {r : String} (h : r ∈ q.eagerLoad) :
    KeyMap.get? r (relations q) = some none := by
  have hstart : KeyMap.get? r (q.eagerLoad.map fun name => (name, (none : Columns))) =
      some none := by
    generalize q.eagerLoad = names at h
    induction names with
    | nil => cases h
    | cons name names ih =>
      rw [List.map_cons]
      unfold KeyMap.get?
      split
      · rfl
      · rename_i hne
        exact ih ((List.mem_cons.1 h).resolve_left hne)
  unfold relations
  -- a projection may name the relation again, with some of its columns; all columns remain
  generalize (q.eagerLoad.map fun name => (name, (none : Columns))) = m at hstart
  induction q.projection.relations generalizing m with
  | nil => exact hstart
  | cons p rels ih =>
    obtain ⟨name, columns⟩ := p
    refine ih _ ?_
    by_cases hr : r = name
    · subst hr
      rw [KeyMap.get?_insert, if_pos hstart]
    · rw [KeyMap.get?_insert_ne hr]
      exact hstart

/-- A query whose projection keeps the columns of a plan, and that loads its relations with all
columns, loads rows with all that the plan names. -/
theorem sameFor_project {q : BaseQuery} {p : LoadPlan}
    (hcolumns : ∀ names, q.projection.columns = some names → p.columns ⊆ names)
    (hrelations : ∀ r ∈ p.relations, KeyMap.get? r (relations q) = some none) (e : Entity) :
    SameFor p (project q e) e.whole where
  ref := rfl
  columns d hd := by
    unfold project Entity.whole
    rw [Entity.attribute?_project fun names hnames => hcolumns names hnames hd,
      Entity.attribute?_project fun names (hnames : none = some names) => nomatch hnames]
  relations r hr := by
    unfold project
    rw [Entity.relation?_project, hrelations r hr, Entity.relation?_whole]
    rfl

end Store

namespace Catalog

variable {c : Catalog} {t : Translation}

/-- The plan of a clause's field is a part of what is loaded. -/
theorem below_eager {s : FilterSettings} {p : Params} (h : s.translate c p = .ok t) {cl : Clause}
    (hcl : cl ∈ t.virtualClauses) : (c.plan cl.field).Below t.eager := by
  rw [FilterSettings.translate_ok h] at hcl ⊢
  exact LoadPlan.below_foldl_of_mem (fun cl : Clause => c.plan cl.field) hcl {}

theorem eager_below_loadPlan (sort : Option SortKey) : t.eager.Below (c.loadPlan t sort) := by
  unfold loadPlan
  split
  · exact LoadPlan.below_merge_left _ _
  · exact ⟨fun _ hn => Names.mem_insert.2 (.inr hn), List.Subset.refl _⟩
  · exact .refl _

/-- Every query of a plan loads what has to be loaded. -/
theorem sameFor_queryOf {entityType : String} {selection : Option Selection}
    {sort : Option SortKey} {p : LoadPlan} (hp : p.Below (c.loadPlan t sort)) (e : Entity) :
    SameFor p (Store.project (c.queryOf entityType t selection sort) e) e.whole := by
  refine Store.sameFor_project (fun names hnames => ?_)
    (fun r hr => Store.get?_relations (hp.2 hr)) e
  unfold queryOf projectionOf at hnames
  dsimp only at hnames
  split at hnames
  · cases hnames
  · cases hnames
    exact fun d hd => Names.mem_union.2 (.inr (hp.1 hd))

end Catalog

/-! ## Plans -/

/-- The virtual fields that decide about the rows of a plan: those of clauses and the sort key. -/
def ListingPlan.Wants (plan : ListingPlan) (field : String) : Prop :=
  (∃ cl ∈ plan.translation.virtualClauses, cl.field = field) ∨ plan.sort = some (.virtual field)

/-- All virtual fields of a plan are registered, and what it wants is loaded for every row. -/
structure ListingPlan.Sufficient (c : Catalog) (plan : ListingPlan) : Prop where
  wanted : ∀ field, plan.Wants field → field ∈ KeyMap.keys c.virtualFields
  selected : ∀ field ∈ Listing.selectedFields plan, field ∈ KeyMap.keys c.virtualFields
  loaded : ∀ field, plan.Wants field → ∀ e,
    SameFor (c.plan field) (Store.project plan.query e) e.whole

namespace Catalog

variable {c : Catalog} {s : Settings} {p : Params} {t : Translation}

/-- The plan of a request with readable filters; of its other options those that are wrong are left
out. -/
def planOf (c : Catalog) (s : Settings) (entityType : String) (p : Params) (t : Translation) :
    ListingPlan :=
  let options := Options.ofParams p s.pagination
  let (selection, unknown) := c.selectionOf options
  let (sort, refused) := c.sortKeyOf options
  { translation := t, options := options, selection := selection, sort := sort,
    query := c.queryOf entityType t selection sort,
    warnings := t.rejected.map FilterError.violation ++ unknown.map FilterError.violation ++
      refused.map FilterError.violation }

/-- Whether there is something wrong with the options of a request. -/
def Misasked (c : Catalog) (s : Settings) (p : Params) : Prop :=
  (c.selectionOf (Options.ofParams p s.pagination)).2 ≠ [] ∨
    (c.sortKeyOf (Options.ofParams p s.pagination)).2 ≠ []

theorem tolerate_cases (s : FilterSettings) (errors : List FilterError) :
    s.tolerate errors = .ok (errors.map FilterError.violation) ∨
      ∃ err, s.tolerate errors = .error err ∧ s.strict = true ∧ errors ≠ [] := by
  unfold FilterSettings.tolerate
  split
  · rename_i hstrict
    split
    · exact .inl rfl
    · exact .inr ⟨_, rfl, hstrict, List.cons_ne_nil _ _⟩
    · rename_i hne _
      exact .inr ⟨_, rfl, hstrict, hne⟩
  · exact .inl rfl

/-- **A request whose filters can be translated has its plan, unless its other options are wrong and
the settings strict.** -/
theorem planRequest_cases (h : s.filter.translate c p = .ok t) (entityType : String) :
    c.planRequest s entityType p = .ok (c.planOf s entityType p t) ∨
      ∃ err, c.planRequest s entityType p = .error err ∧ s.filter.strict = true ∧
        c.Misasked s p := by
  unfold planRequest
  rw [h]
  dsimp only
  rcases tolerate_cases s.filter (c.selectionOf (Options.ofParams p s.pagination)).2 with
    hselection | ⟨err, hselection, hstrict, hwrong⟩
  · rw [hselection]
    dsimp only
    rcases tolerate_cases s.filter (c.sortKeyOf (Options.ofParams p s.pagination)).2 with
      hsort | ⟨err, hsort, hstrict, hwrong⟩
    · rw [hsort]
      exact .inl rfl
    · rw [hsort]
      exact .inr ⟨err, rfl, hstrict, .inr hwrong⟩
  · rw [hselection]
    exact .inr ⟨err, rfl, hstrict, .inl hwrong⟩

/-- A request with a plan has filters that can be translated. -/
theorem planRequest_ok {entityType : String} {plan : ListingPlan}
    (h : c.planRequest s entityType p = .ok plan) :
    s.filter.translate c p = .ok (s.filter.collect c p) ∧
      plan = c.planOf s entityType p (s.filter.collect c p) := by
  cases htranslate : s.filter.translate c p with
  | error err =>
    unfold planRequest at h
    rw [htranslate] at h
    cases h
  | ok t =>
    obtain rfl := FilterSettings.translate_ok htranslate
    refine ⟨rfl, ?_⟩
    rcases planRequest_cases htranslate entityType with hrequest | ⟨err, hrequest, -⟩
    · rw [hrequest] at h
      cases h
      rfl
    · rw [hrequest] at h
      cases h

theorem entityType_of_planRequest {entityType : String} {plan : ListingPlan}
    (h : c.planRequest s entityType p = .ok plan) : plan.query.entityType = entityType := by
  obtain ⟨-, hplan⟩ := planRequest_ok h
  rw [hplan]
  rfl

/-- **The plan of readable filters is sufficient.** -/
theorem sufficient_planOf (hc : c.Lawful) (h : s.filter.translate c p = .ok t)
    (entityType : String) :
    (c.planOf s entityType p t).Sufficient c where
  wanted field hwants := by
    rcases hwants with ⟨cl, hcl, rfl⟩ | hsort
    · exact virtualClauses_registered hc h cl hcl
    · exact sortKeyOf_registered hc hsort
  selected field hfield := by
    unfold Listing.selectedFields planOf selectionOf at hfield
    dsimp only at hfield
    cases hfields : (Options.ofParams p s.pagination).fields with
    | none =>
      rw [hfields] at hfield
      cases hfield
    | some names =>
      rw [hfields] at hfield
      exact Selection.virtualFields_ofNames hc names field hfield
  loaded field hwants e := by
    have hquery : (c.planOf s entityType p t).query = c.queryOf entityType t
        (c.planOf s entityType p t).selection (c.planOf s entityType p t).sort := rfl
    rw [hquery]
    refine sameFor_queryOf ?_ e
    rcases hwants with ⟨cl, hcl, rfl⟩ | hsort
    · exact (below_eager h hcl).trans (eager_below_loadPlan _)
    · rw [hsort]
      exact LoadPlan.below_merge_right _ _

end Catalog

end FieldQuery
