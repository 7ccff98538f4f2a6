import FieldQuery.Listing.Rows
import FieldQuery.Proofs.Listing.Plan

/-!
# What is loaded for a selection

A query loads what clauses and sort key need, and for a selection moreover what is asked for and what the
selected fields need. What a row shows does not depend on what else has been loaded.

* `Selection.Tidy` — the relations of a selection stand in order, each once;
* `get?_relations_projection` — the columns that a query loads of a relation.

Principal results: `sameFor_selected` — a query loads what its selected fields need, and `render_loaded` —
a row shows what it shows in the table; of the plan of a request, `sameFor_selectedFields` and
`render_of_planRequest` say the same.
-/

namespace FieldQuery

/-! ## Relations -/

/-- The relations of a selection stand in order, each once. -/
def Selection.Tidy (s : Selection) : Prop := KeyMap.Sorted s.relations

namespace Selection

variable {c : Catalog}

theorem Tidy.add? {s s' : Selection} {name : String} (h : s.Tidy) (hadd : s.add? c name = some s') :
    s'.Tidy := by
  unfold Selection.add? at hadd
  split at hadd
  · cases hadd
    exact h
  · split at hadd
    · split at hadd
      · cases hadd
      · cases hadd
        exact KeyMap.Sorted.insert h
    · unfold addField? at hadd
      split at hadd
      · split at hadd <;> cases hadd <;> exact h
      · split at hadd <;> cases hadd
        exact h

theorem tidy_ofNames (c : Catalog) (names : List String) : (ofNames c names).1.Tidy := by
  unfold ofNames
  refine List.foldlRecOn (motive := fun acc : Selection × List FilterError => acc.1.Tidy) names _
    KeyMap.sorted_nil fun acc hacc name _ => ?_
  dsimp only
  split
  · rename_i s' hadd
    exact hacc.add? hadd
  · exact hacc

/-- The relations that the selected fields need come with all columns, the others as they are asked
for. -/
theorem relations_projection {s : Selection} (h : s.Tidy) :
    KeyMap.Sorted (s.projection c).relations ∧ ∀ r,
      KeyMap.get? r (s.projection c).relations = some none ∨
        r ∉ (s.virtualFields.foldl (fun p name => p.merge (c.plan name)) ({} : LoadPlan)).relations ∧
          KeyMap.get? r (s.projection c).relations = KeyMap.get? r s.relations := by
  unfold projection
  dsimp only
  unfold Tidy at h
  generalize s.relations = m at h
  generalize (s.virtualFields.foldl (fun p name => p.merge (c.plan name)) ({} : LoadPlan)).relations = ns
  induction ns generalizing m with
  | nil => exact ⟨h, fun r => .inr ⟨List.not_mem_nil, rfl⟩⟩
  | cons n ns ih =>
    obtain ⟨hsorted, hget⟩ := ih (KeyMap.insert n none m) (KeyMap.Sorted.insert h)
    refine ⟨hsorted, fun r => ?_⟩
    rcases hget r with hall | ⟨hnot, hsame⟩
    · exact .inl hall
    · by_cases hr : r = n
      · subst hr
        exact .inl (hsame.trans (KeyMap.get?_insert r none m))
      · right
        refine ⟨fun hmem => hnot ((List.mem_cons.1 hmem).resolve_left hr), ?_⟩
        exact hsame.trans (KeyMap.get?_insert_ne hr none m)

end Selection

namespace Store

/-- A relation of a projection comes with the columns named there, or with all columns if it is loaded
eagerly. -/
theorem get?_relations_projection {q : BaseQuery} (hsorted : KeyMap.Sorted q.projection.relations)
    {r : String} {columns : Columns} (h : KeyMap.get? r q.projection.relations = some columns) :
    KeyMap.get? r (relations q) = some none ∨ KeyMap.get? r (relations q) = some columns := by
  have hfold : relations q = q.projection.relations.foldl (fun m p =>
      KeyMap.insert p.1 (if KeyMap.get? p.1 m = some none then none else p.2) m)
        (q.eagerLoad.map fun name => (name, none)) := rfl
  rw [hfold]
  generalize (q.eagerLoad.map fun name => (name, (none : Columns))) = m
  -- once a relation has had its turn, no other entry is about it
  have hrest : ∀ (rels : KeyMap Columns), (∀ p ∈ rels, r < p.1) → ∀ m : KeyMap Columns,
      KeyMap.get? r (rels.foldl (fun m p =>
        KeyMap.insert p.1 (if KeyMap.get? p.1 m = some none then none else p.2) m) m) =
          KeyMap.get? r m := by
    intro rels hrels
    induction rels with
    | nil => exact fun m => rfl
    | cons p rels ih =>
      intro m
      obtain ⟨hlt, hrels⟩ := List.forall_mem_cons.1 hrels
      have hne : r ≠ p.1 := fun heq => String.lt_irrefl p.1 (heq ▸ hlt)
      rw [List.foldl_cons, ih hrels]
      exact KeyMap.get?_insert_ne hne _ _
  generalize q.projection.relations = rels at hsorted h
  induction rels generalizing m with
  | nil => cases h
  | cons p rels ih =>
    obtain ⟨name, columns'⟩ := p
    obtain ⟨hfirst, hsorted⟩ := List.pairwise_cons.1 hsorted
    rw [KeyMap.get?_cons] at h
    by_cases hr : r = name
    · subst hr
      rw [if_pos rfl] at h
      cases h
      rw [List.foldl_cons, hrest rels hfirst, KeyMap.get?_insert]
      split
      · exact .inl rfl
      · exact .inr rfl
    · rw [if_neg hr] at h
      exact ih _ hsorted h

end Store

/-! ## Rows -/

namespace Entity

theorem keepColumns_keepColumns {names : Names} {columns : Columns}
    (h : ∀ names', columns = some names' → names ⊆ names') (attributes : KeyMap Value) :
    keepColumns (some names) (keepColumns columns attributes) = keepColumns (some names) attributes := by
  unfold keepColumns
  cases columns with
  | none => rfl
  | some names' =>
    dsimp only
    rw [List.filter_filter]
    refine List.filter_congr fun a _ => ?_
    cases hmem : names.contains a.1 with
    | false => rfl
    | true =>
      rw [List.contains_iff_mem.2 (h names' rfl (List.contains_iff_mem.1 hmem))]
      rfl

/-- Columns that have been kept may be kept again. -/
theorem restrict_restrict {nested columns : Columns} (h : columns = none ∨ columns = nested)
    (e : Entity) : restrict nested (restrict columns e) = restrict nested e := by
  unfold restrict
  rcases h with rfl | rfl
  · rfl
  · cases columns with
    | none => rfl
    | some names =>
      show Entity.mk _ _ (keepColumns (some names) (keepColumns (some names) e.attributes)) [] = _
      rw [keepColumns_keepColumns fun names' h => by cases h; exact List.Subset.refl _]
      rfl

/-- A projection of a projection that keeps enough. -/
theorem project_project {names : Names} {columns : Columns} {rels rels' : KeyMap Columns}
    (hcolumns : ∀ names', columns = some names' → names ⊆ names')
    (hrels : ∀ p ∈ rels, KeyMap.get? p.1 rels' = some none ∨ KeyMap.get? p.1 rels' = some p.2)
    (e : Entity) : (e.project columns rels').project (some names) rels = e.project (some names) rels := by
  show Entity.mk e.entityType e.id (keepColumns (some names) (keepColumns columns e.attributes)) _ =
    Entity.mk e.entityType e.id (keepColumns (some names) e.attributes) _
  rw [keepColumns_keepColumns hcolumns]
  congr 1
  refine List.filterMap_congr fun p hp => ?_
  obtain ⟨name, nested⟩ := p
  obtain ⟨nested', hget, hnested⟩ : ∃ nested', KeyMap.get? name rels' = some nested' ∧
      (nested' = none ∨ nested' = nested) := by
    rcases hrels _ hp with hget | hget
    · exact ⟨_, hget, .inl rfl⟩
    · exact ⟨_, hget, .inr rfl⟩
  dsimp only
  rw [relation?_project, hget, Option.bind_some, Option.map_map]
  congr 1
  funext related
  show (name, (related.map (restrict nested')).map (restrict nested)) = _
  rw [List.map_map]
  congr 1
  exact List.map_congr_left fun e' _ => restrict_restrict hnested e'

end Entity

namespace Catalog

variable {c : Catalog} {entityType : String} {t : Translation} {s : Selection} {sort : Option SortKey}

/-- The columns that a query loads for a selection: those that are asked for, and those that are
needed. -/
theorem columns_queryOf {names : Names}
    (h : (c.queryOf entityType t (some s) sort).projection.columns = some names) :
    s.columns ⊆ names ∧
      (s.virtualFields.foldl (fun p name => p.merge (c.plan name)) ({} : LoadPlan)).columns ⊆ names := by
  unfold queryOf projectionOf Selection.projection at h
  dsimp only [Option.map_some] at h
  cases h
  exact ⟨fun n hn => Names.mem_union.2 (.inl (Names.mem_union.2 (.inl hn))),
    fun n hn => Names.mem_union.2 (.inl (Names.mem_union.2 (.inr hn)))⟩

/-- **A query loads what its selected fields need.** -/
theorem sameFor_selected (hs : s.Tidy) {field : String} (hfield : field ∈ s.virtualFields) (e : Entity) :
    SameFor (c.plan field) (Store.project (c.queryOf entityType t (some s) sort) e) e.whole := by
  have hbelow : (c.plan field).Below
      (s.virtualFields.foldl (fun p name => p.merge (c.plan name)) ({} : LoadPlan)) :=
    LoadPlan.below_foldl_of_mem c.plan hfield {}
  obtain ⟨hsorted, hget⟩ := @Selection.relations_projection c s hs
  refine Store.sameFor_project (fun names hnames => ?_) (fun r hr => ?_) e
  · exact List.Subset.trans hbelow.1 (columns_queryOf hnames).2
  · have hall := (hget r).resolve_right fun hnot => hnot.1 (hbelow.2 hr)
    exact or_self_iff.1 (Store.get?_relations_projection (q := c.queryOf entityType t (some s) sort)
      hsorted hall)

/-- **A row shows what it shows in the table**, whatever else has been loaded. -/
theorem render_loaded {selection : Option Selection} (hs : ∀ s, selection = some s → s.Tidy)
    (e : Entity) (computed : KeyMap Value) :
    ({ entity := Store.project (c.queryOf entityType t selection sort) e, computed := computed } :
        Row).render selection =
      ({ entity := e, computed := computed } : Row).render selection := by
  unfold Row.render Row.fields
  cases selection with
  | none => rfl
  | some s =>
    obtain ⟨hsorted, hget⟩ := @Selection.relations_projection c s (hs s rfl)
    have hproject : (Store.project (c.queryOf entityType t (some s) sort) e).project (some s.columns)
        s.relations = e.project (some s.columns) s.relations := by
      refine Entity.project_project (fun names hnames => (columns_queryOf hnames).1) (fun p hp => ?_) e
      have hasked : KeyMap.get? p.1 s.relations = some p.2 :=
        KeyMap.Sorted.get?_of_mem (hs s rfl) hp
      rcases hget p.1 with hall | ⟨-, hsame⟩
      · exact .inl (or_self_iff.1 (Store.get?_relations_projection
          (q := c.queryOf entityType t (some s) sort) hsorted hall))
      · exact Store.get?_relations_projection (q := c.queryOf entityType t (some s) sort) hsorted
          (hsame.trans hasked)
    dsimp only
    rw [hproject]
    rfl

end Catalog

/-! ## Plans of requests -/

section Plans

variable {c : Catalog} {settings : Settings} {entityType : String} {p : Params} {plan : ListingPlan}
  (hrequest : c.planRequest settings entityType p = .ok plan)

include hrequest

/-- The query of a request loads what its clauses, its sort key and its selection need. -/
theorem query_of_planRequest :
    plan.query = c.queryOf entityType plan.translation plan.selection plan.sort := by
  obtain ⟨-, hplan⟩ := Catalog.planRequest_ok hrequest
  rw [hplan]
  rfl

theorem selection_tidy {s : Selection} (hs : plan.selection = some s) : s.Tidy := by
  obtain ⟨-, hplan⟩ := Catalog.planRequest_ok hrequest
  rw [hplan] at hs
  unfold Catalog.planOf Catalog.selectionOf at hs
  dsimp only at hs
  cases hfields : (Options.ofParams p settings.pagination).fields with
  | none =>
    rw [hfields] at hs
    cases hs
  | some names =>
    rw [hfields] at hs
    cases hs
    exact Selection.tidy_ofNames c names

/-- The query of a request loads what its selected fields need. -/
theorem sameFor_selectedFields {field : String} (hfield : field ∈ Listing.selectedFields plan)
    (row : Entity) : SameFor (c.plan field) (Store.project plan.query row) row.whole := by
  rw [query_of_planRequest hrequest]
  unfold Listing.selectedFields at hfield
  cases hs : plan.selection with
  | none =>
    rw [hs] at hfield
    cases hfield
  | some s =>
    rw [hs] at hfield
    exact Catalog.sameFor_selected (selection_tidy hrequest hs) hfield row

theorem sufficient_of_planRequest (hc : c.Lawful) : plan.Sufficient c := by
  obtain ⟨htranslate, hplan⟩ := Catalog.planRequest_ok hrequest
  rw [hplan]
  exact Catalog.sufficient_planOf hc htranslate entityType

/-- A row shows what it shows in the table. -/
theorem render_of_planRequest (row : Entity) (computed : KeyMap Value) :
    ({ entity := Store.project plan.query row, computed := computed } : Row).render plan.selection =
      ({ entity := row, computed := computed } : Row).render plan.selection := by
  rw [query_of_planRequest hrequest]
  exact Catalog.render_loaded (fun s hs => selection_tidy hrequest hs) row computed

end Plans

end FieldQuery
