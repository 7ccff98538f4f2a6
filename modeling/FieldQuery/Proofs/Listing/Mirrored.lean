import FieldQuery.Computation.Builtin
import FieldQuery.Proofs.Listing.Listed

/-!
# Columns and their mirrors

A virtual field mirrors a column if it is the coalesced value of the column alone, null without one.  Clauses
on the one hold of a row if those on the other do, and so do sort keys compare: a column that is null or not
loaded is null in the mirror, and both come last.

* `VirtualField.Mirrors` — a virtual field with the values of a column, and its type and operators;
* `ListingPlan.Mirrors` — a plan in which some clauses, or the sort key, are about the mirror;
* `ListingPlan.SortsFirst` — a column is sorted by before clauses on virtual fields are looked at.

Principal results: `own?_mirror` — the value of a mirror, `chosen_mirrors` and `listed_mirrors` — a plan and its
mirror image list the same rows in the same order.
-/

namespace FieldQuery

open Meaning

/-- A virtual field with the values of a column, that is filtered and sorted as it is. -/
structure VirtualField.Mirrors (v : VirtualField) (f : Field) : Prop where
  computation : v.computation = .coalesce
  dependencies : v.dependencies = [f.name]
  relationships : v.relationships = []
  default : v.default = .null
  fieldType : v.fieldType = f.fieldType
  operators : v.operators = f.operators
  enumValues : v.enumValues = f.enumValues
  sortable : v.sortable = f.sortable

/-! ## Values -/

theorem Entity.attribute?_whole (e : Entity) (name : String) :
    e.whole.attribute? name = e.attribute? name :=
  attribute?_project fun _ h => nomatch h

/-- A mirror that has the column of its row coalesces it; null where it must not be null counts as a
failure. -/
theorem VirtualField.Mirrors.accept {v : VirtualField} {f : Field} (h : v.Mirrors f) (e : Entity)
    (x : Value) :
    contribution .default v (v.accept e (v.computation e { columns := [(f.name, x)] })) = .ok x := by
  have houtcome : (v.computation e { columns := [(f.name, x)] }).value = .ok x := by
    rw [h.computation]
    cases x <;> rfl
  unfold VirtualField.accept
  rw [houtcome]
  dsimp only
  split
  · rename_i hrefused
    have hnull : x = .null := by
      cases x with
      | null => rfl
      | _ => exact absurd hrefused (by simp [Value.isNull])
    subst hnull
    unfold contribution
    dsimp only
    rw [if_pos rfl, h.default]
  · rfl

/-- **The value of a mirror** is that of the column, or null. -/
theorem Meaning.own?_mirror {c : Catalog} (hc : c.Lawful) {f : Field}
    (hf : KeyMap.get? f.name c.fields = some f) {v : VirtualField}
    (hv : KeyMap.get? v.name c.virtualFields = some v) (hmirrors : v.Mirrors f) (e : Entity) :
    own? c .default v.name e = some ((e.attribute? f.name).getD .null) := by
  have hcolumn : KeyMap.get? f.name c.virtualFields = none := by
    have hnot := hc.field_not_virtual f.name (List.mem_map_of_mem (KeyMap.mem_of_get? hf))
    have hlacks := KeyMap.contains_eq_false_iff.2 hnot
    unfold KeyMap.contains at hlacks
    exact Option.isSome_eq_false_iff.1 hlacks |> Option.isNone_iff_eq_none.1
  unfold own?
  rw [hv]
  dsimp only
  rw [value_eq hc .default e hv]
  unfold step inputs
  rw [hmirrors.dependencies, hmirrors.relationships, List.findSome?_cons,
    fault?_of_get?_none hcolumn, List.findSome?_nil]
  dsimp only
  unfold Engine.gather
  rw [found?_of_get?_none hcolumn]
  cases e.attribute? f.name with
  | none =>
    unfold contribution
    dsimp only
    rw [if_pos rfl, hmirrors.default]
    rfl
  | some x =>
    dsimp only [Engine.gather]
    rw [hmirrors.accept e x]
    rfl

/-- Clauses take what is not there for null. -/
theorem Operator.holds_getD (o : Operator) (x : Option Value) (operand : Operand) :
    o.holds (some (x.getD .null)) operand = o.holds x operand := by
  cases x <;> rfl

/-- Sort keys take what is not there for null. -/
theorem sortKey?_getD (x : Option Value) : sortKey? (some (x.getD .null)) = sortKey? x := by
  cases x <;> rfl

/-! ## Plans -/

/-- A clause, or one on a column and the same on its mirror. -/
inductive Clause.Mirrors (column field : String) : Clause → Clause → Prop
  | same (cl : Clause) : Mirrors column field cl cl
  | mirrored (cl : Clause) (hfield : cl.field = column) (hvirtual : cl.isVirtual = false) :
    Mirrors column field cl { cl with field := field, isVirtual := true }

/-- A sort key, or a column and its mirror. -/
inductive SortKey.Mirrors (column field : String) : Option SortKey → Option SortKey → Prop
  | same (key : Option SortKey) : Mirrors column field key key
  | mirrored : Mirrors column field (some (.column column)) (some (.virtual field))

/-- A plan in which some clauses, or the sort key, are about the mirror of a column. -/
structure ListingPlan.Mirrors (column field : String) (plan plan' : ListingPlan) : Prop where
  active : List.Forall₂ (Clause.Mirrors column field) plan.translation.active plan'.translation.active
  search : plan'.translation.search = plan.translation.search
  sort : SortKey.Mirrors column field plan.sort plan'.sort
  direction : plan'.options.direction = plan.options.direction
  offset : plan'.options.offset = plan.options.offset
  perPage : plan'.options.perPage = plan.options.perPage
  selection : plan'.selection = plan.selection

namespace ListingPlan.Mirrors

variable {column field : String} {plan plan' : ListingPlan} (hplans : plan.Mirrors column field plan')

include hplans

/-- The rows that the store finds for a plan, it finds for its mirror image. -/
theorem admits {e : Entity} (h : plan.translation.admits e = true) :
    plan'.translation.admits e = true := by
  have hactive := hplans.active
  unfold Translation.admits at h ⊢
  rw [hplans.search]
  obtain ⟨hall, hsearch⟩ := Bool.and_eq_true_iff.1 h
  refine Bool.and_eq_true_iff.2 ⟨?_, hsearch⟩
  generalize plan.translation.active = as, plan'.translation.active = as' at hactive hall
  induction hactive with
  | nil => rfl
  | cons hfirst _ ih =>
    rw [List.all_cons, Bool.and_eq_true] at hall ⊢
    refine ⟨?_, ih hall.2⟩
    cases hfirst with
    | same => exact hall.1
    | mirrored => rfl

/-- The virtual fields that a plan wants, its mirror image wants, too. -/
theorem wants {name : String} (h : plan.Wants name) : plan'.Wants name := by
  rcases h with ⟨cl, hcl, rfl⟩ | hsort
  · refine .inl ⟨cl, ?_, rfl⟩
    have hactive := hplans.active
    unfold Translation.virtualClauses at hcl ⊢
    obtain ⟨hmem, hvirtual⟩ := List.mem_filter.1 hcl
    refine List.mem_filter.2 ⟨?_, hvirtual⟩
    clear hcl
    generalize plan.translation.active = as, plan'.translation.active = as' at hactive hmem
    induction hactive with
    | nil => exact hmem
    | cons hfirst _ ih =>
      rcases List.mem_cons.1 hmem with rfl | hmem
      · cases hfirst with
        | same => exact List.mem_cons_self
        | mirrored _ hcolumn =>
          rw [hcolumn] at hvirtual
          cases hvirtual
      · exact List.mem_cons_of_mem _ (ih hmem)
  · have hkeys := hplans.sort
    rw [hsort] at hkeys
    generalize hsort' : plan'.sort = key at hkeys
    cases hkeys
    exact .inr hsort'

theorem selectedFields : Listing.selectedFields plan' = Listing.selectedFields plan := by
  unfold Listing.selectedFields
  rw [hplans.selection]

end ListingPlan.Mirrors

/-- A column is sorted by before clauses on virtual fields are looked at. -/
def ListingPlan.SortsFirst (plan : ListingPlan) : Prop :=
  plan.translation.hasVirtualFilters = true ∧ ∃ name, plan.sort = some (.column name)

instance (plan : ListingPlan) : Decidable plan.SortsFirst :=
  match hsort : plan.sort with
  | some (.column name) => decidable_of_iff (plan.translation.hasVirtualFilters = true)
      ⟨fun hfilters => ⟨hfilters, name, hsort⟩, And.left⟩
  | some (.virtual _) => .isFalse fun ⟨_, _, hcolumn⟩ => nomatch hsort.symm.trans hcolumn
  | none => .isFalse fun ⟨_, _, hcolumn⟩ => nomatch hsort.symm.trans hcolumn

/-- Whether a row satisfies a clause, by its attribute or by its own value. -/
def Clause.keeps (c : Catalog) (policy : FailurePolicy) (e : Entity) (cl : Clause) : Bool :=
  if cl.isVirtual then satisfies c policy e.whole cl
  else cl.operator.holds (e.attribute? cl.field) cl.operand

/-- A row is chosen by all clauses and the search. -/
theorem Translation.admits_and_chooses (c : Catalog) (policy : FailurePolicy) (t : Translation)
    (e : Entity) : (t.admits e && t.chooses c policy e) =
      (t.active.all (Clause.keeps c policy e) && t.search.all (·.accepts e)) := by
  have hclauses : ((t.active.all fun cl => cl.isVirtual ||
        cl.operator.holds (e.attribute? cl.field) cl.operand) &&
      t.active.all fun cl => !cl.isVirtual || satisfies c policy e.whole cl) =
        t.active.all (Clause.keeps c policy e) := by
    rw [Bool.eq_iff_iff, Bool.and_eq_true, List.all_eq_true, List.all_eq_true, List.all_eq_true,
      ← forall₂_and]
    refine forall₂_congr fun cl _ => ?_
    unfold Clause.keeps
    cases cl.isVirtual <;> simp
  unfold admits chooses
  rw [← hclauses, Bool.and_right_comm]

section Plans

variable {c : Catalog} (hc : c.Lawful) {f : Field} (hf : KeyMap.get? f.name c.fields = some f)
  {v : VirtualField} (hv : KeyMap.get? v.name c.virtualFields = some v) (hmirrors : v.Mirrors f)
  {plan plan' : ListingPlan} (hplans : plan.Mirrors f.name v.name plan')

include hc hf hv hmirrors

/-- **A clause on a column and one on its mirror hold of the same rows.** -/
theorem keeps_mirror {cl cl' : Clause} (h : cl.Mirrors f.name v.name cl') (e : Entity) :
    cl'.keeps c .default e = cl.keeps c .default e := by
  cases h with
  | same => rfl
  | mirrored hfield hvirtual =>
    unfold Clause.keeps satisfies
    rw [hvirtual, hfield]
    simp only [if_true, Bool.false_eq_true, if_false]
    rw [own?_mirror hc hf hv hmirrors, Entity.attribute?_whole]
    exact Operator.holds_getD _ _ _

include hplans

/-- **A plan and its mirror image choose the same rows.** -/
theorem chooses_mirrors (e : Entity) :
    (plan'.translation.admits e && plan'.translation.chooses c .default e) =
      (plan.translation.admits e && plan.translation.chooses c .default e) := by
  have hclauses : plan'.translation.active.all (Clause.keeps c .default e) =
      plan.translation.active.all (Clause.keeps c .default e) := by
    have hactive := hplans.active
    generalize plan.translation.active = as, plan'.translation.active = as' at hactive
    induction hactive with
    | nil => rfl
    | cons hfirst _ ih =>
      rw [List.all_cons, List.all_cons, ih, keeps_mirror hc hf hv hmirrors hfirst]
  rw [Translation.admits_and_chooses, Translation.admits_and_chooses, hclauses, hplans.search]

end Plans

/-! ## Rows in order -/

namespace ListingPlan

variable {c : Catalog} {policy : FailurePolicy} {plan : ListingPlan} {table : List Entity}

/-- Unless a column is sorted by, rows are chosen in the order of the table. -/
theorem chosen_eq_filter (hsort : ∀ name, plan.sort ≠ some (.column name)) :
    plan.chosen c policy table = table.filter fun e =>
      plan.translation.admits e && plan.translation.chooses c policy e := by
  have horder : Listing.storeOrder plan.sort plan.options.direction = none := by
    unfold Listing.storeOrder
    split
    · rename_i name hname
      exact absurd hname (hsort name)
    · rfl
  unfold chosen admitted
  rw [horder]
  show (table.filter _).filter _ = _
  rw [List.filter_filter]
  exact List.filter_congr fun e _ => Bool.and_comm _ _

/-- The rows that are chosen are sorted by a column, whether it is sorted by first or last.  First and last
are the same if there are no clauses in between. -/
theorem chosen_eq_sortBy {name : String} (hsort : plan.sort = some (.column name))
    (hkeys : plan.SortsFirst → plan.Comparable c policy table) :
    plan.chosen c policy table = sortBy (Store.compareRows ⟨name, plan.options.direction⟩)
      (table.filter fun e => plan.translation.admits e && plan.translation.chooses c policy e) := by
  cases hfilters : plan.translation.hasVirtualFilters with
  | true =>
    have hcolumn : ∀ field, plan.sort ≠ some (.virtual field) := by
      rw [hsort]
      exact fun field h => nomatch h
    have hanswer := arrange_chosen (hkeys ⟨hfilters, name, hsort⟩) hcolumn
    have hcompare : plan.compare c policy = Store.compareRows ⟨name, plan.options.direction⟩ := by
      funext e e'
      rw [compare_eq]
      unfold key?
      rw [hsort]
      rfl
    have hkeeps : plan.keeps c policy = fun e =>
        plan.translation.admits e && plan.translation.chooses c policy e := by
      funext e
      unfold keeps isSorted
      rw [hsort, Bool.and_true]
    unfold chosen
    rw [hanswer]
    unfold answer
    rw [hcompare, hkeeps]
  | false =>
    have hnone : plan.translation.virtualClauses = [] := by
      unfold Translation.hasVirtualFilters at hfilters
      simpa using hfilters
    have hall : (fun e => plan.translation.admits e && plan.translation.chooses c policy e) =
        plan.translation.admits := by
      funext e
      rw [Translation.chooses_eq, hnone, List.all_nil, Bool.and_true]
    rw [chosen_eq hnone, hsort, hall]
    rfl

end ListingPlan

section Listed

variable {c : Catalog} (hc : c.Lawful) {f : Field} (hf : KeyMap.get? f.name c.fields = some f)
  {v : VirtualField} (hv : KeyMap.get? v.name c.virtualFields = some v) (hmirrors : v.Mirrors f)
  {plan plan' : ListingPlan} (hplans : plan.Mirrors f.name v.name plan') {table : List Entity}

include hc hf hv hmirrors

/-- Rows are in the order of a mirror as they are in the order of its column. -/
theorem orderOf_mirror (direction : Direction) (rows : List Entity) :
    orderOf c .default v.name direction rows =
      sortBy (Store.compareRows ⟨f.name, direction⟩) rows := by
  have hown : ∀ e : Entity, own? c .default v.name e.whole = some ((e.attribute? f.name).getD .null) := by
    intro e
    rw [own?_mirror hc hf hv hmirrors, Entity.attribute?_whole]
  have hall : rows.filter (fun e => (own? c .default v.name e.whole).isSome) = rows :=
    List.filter_eq_self.2 fun e _ => by rw [hown]; rfl
  have hcompare : (fun e e' => compareKeys direction (own? c .default v.name e.whole)
      (own? c .default v.name e'.whole)) = Store.compareRows ⟨f.name, direction⟩ := by
    funext e e'
    unfold Store.compareRows compareKeys
    rw [hown, hown, sortKey?_getD, sortKey?_getD]
  unfold orderOf
  rw [hall, hcompare]

include hplans

/-- **A plan and its mirror image list the same rows in the same order.** -/
theorem listed_mirrors (hkeys : plan.SortsFirst → plan.Comparable c .default table)
    (hkeys' : plan'.SortsFirst → plan'.Comparable c .default table) :
    plan'.listed c .default plan'.strategy table = plan.listed c .default plan.strategy table := by
  have hrows : (table.filter fun e =>
        plan'.translation.admits e && plan'.translation.chooses c .default e) =
      table.filter fun e => plan.translation.admits e && plan.translation.chooses c .default e :=
    List.filter_congr fun e _ => chooses_mirrors hc hf hv hmirrors hplans e
  have hsorts := hplans.sort
  unfold ListingPlan.strategy ListingPlan.listed
  generalize hsort : plan.sort = key, hsort' : plan'.sort = key' at hsorts
  cases hsorts with
  | same =>
    cases key with
    | none =>
      dsimp only
      rw [ListingPlan.chosen_eq_filter (by rw [hsort']; exact fun _ h => nomatch h),
        ListingPlan.chosen_eq_filter (by rw [hsort]; exact fun _ h => nomatch h), hrows]
    | some key =>
      cases key with
      | column name =>
        dsimp only
        rw [ListingPlan.chosen_eq_sortBy hsort' hkeys', ListingPlan.chosen_eq_sortBy hsort hkeys, hrows,
          hplans.direction]
      | virtual field =>
        dsimp only
        rw [ListingPlan.chosen_eq_filter (by rw [hsort']; exact fun _ h => nomatch h),
          ListingPlan.chosen_eq_filter (by rw [hsort]; exact fun _ h => nomatch h), hrows,
          hplans.direction]
  | mirrored =>
    dsimp only
    rw [orderOf_mirror hc hf hv hmirrors,
      ListingPlan.chosen_eq_filter (by rw [hsort']; exact fun _ h => nomatch h),
      ListingPlan.chosen_eq_sortBy hsort hkeys, hrows, hplans.direction]

end Listed

end FieldQuery
