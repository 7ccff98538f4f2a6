import FieldQuery.Data.Sorting
import FieldQuery.Proofs.Data.Preorder
import Mathlib.Data.List.Perm.Subperm

/-!
# Stable sorting

* `StablySorted` — a list is in order, has the elements of another one, and keeps their order where
  they compare as equal;
* `StablySorted.unique` — this determines the list;
* `StablySorted.filter` — a part of a list that has been sorted is the part sorted;
* `sortBy_forall₂`, `map_sortBy` — sorting goes by the comparison alone.

Principal results: `sortBy_stablySorted` — with a total preorder on the elements, `sortBy` sorts
stably.
-/

namespace FieldQuery

variable {α β : Type} {cmp : α → α → Ordering} {S : α → Prop}

/-- Two elements compare as equal. -/
def ties (cmp : α → α → Ordering) (a b : α) : Bool := (cmp a b).isEq

theorem ties_eq_true_iff {a b : α} : ties cmp a b = true ↔ cmp a b = .eq :=
  Ordering.isEq_iff_eq_eq

/-- A list in order, with the elements of another one; elements that compare as equal stand as they
stood. -/
structure StablySorted (cmp : α → α → Ordering) (xs ys : List α) : Prop where
  perm : ys.Perm xs
  sorted : ys.Pairwise fun a b => cmp a b ≠ .gt
  stable : ∀ a ∈ xs, ys.filter (ties cmp a) = xs.filter (ties cmp a)

namespace StablySorted

/-- What is left of a sorted list is sorted. -/
theorem filter {xs ys : List α} (h : StablySorted cmp xs ys) (p : α → Bool) :
    StablySorted cmp (xs.filter p) (ys.filter p) where
  perm := h.perm.filter p
  sorted := h.sorted.filter p
  stable := by
    intro a ha
    have hstable := congrArg (List.filter p) (h.stable a (List.mem_filter.1 ha).1)
    rw [List.filter_filter, List.filter_filter] at hstable ⊢
    simp only [Bool.and_comm] at hstable ⊢
    exact hstable

/-- Two lists in order that agree on what compares as equal to each element. -/
theorem eq_of_filter_eq (h : PreorderOn cmp S) {ys zs : List α} (hS : ∀ a ∈ ys, S a)
    (hperm : ys.Perm zs) (hys : ys.Pairwise fun a b => cmp a b ≠ .gt)
    (hzs : zs.Pairwise fun a b => cmp a b ≠ .gt)
    (hfilter : ∀ a ∈ ys, ys.filter (ties cmp a) =
      zs.filter (ties cmp a)) : ys = zs := by
  induction ys generalizing zs with
  | nil => exact hperm.nil_eq
  | cons y ys ih =>
    cases zs with
    | nil => exact absurd hperm.length_eq (by simp)
    | cons z zs =>
      have hSz : S z := hS z (hperm.mem_iff.2 List.mem_cons_self)
      have hSy : S y := hS y List.mem_cons_self
      -- both heads are least, so they compare as equal and head the same class
      have hle : ∀ {a : α} {as : List α} {b : α}, S a → S b →
          (a :: as).Pairwise (fun a b => cmp a b ≠ .gt) → b ∈ a :: as → cmp a b ≠ .gt := by
        intro a as b ha hb hpair hmem
        rcases List.mem_cons.1 hmem with rfl | hmem
        · rw [h.self b hb]
          decide
        · exact (List.pairwise_cons.1 hpair).1 b hmem
      have hyz : cmp y z ≠ .gt := hle hSy hSz hys (hperm.mem_iff.2 List.mem_cons_self)
      have hzy : cmp z y ≠ .gt := hle hSz hSy hzs (hperm.mem_iff.1 List.mem_cons_self)
      have heq : cmp y z = .eq := by
        rw [h.swap y z hSy hSz] at hzy
        cases hcmp : cmp y z with
        | lt => rw [hcmp] at hzy; exact absurd rfl hzy
        | eq => rfl
        | gt => exact absurd hcmp hyz
      have hheads := hfilter y List.mem_cons_self
      rw [List.filter_cons_of_pos (ties_eq_true_iff.2 (h.self y hSy)),
        List.filter_cons_of_pos (ties_eq_true_iff.2 heq)] at hheads
      obtain rfl : y = z := (List.cons.inj hheads).1
      refine congrArg (y :: ·) (ih (fun a ha => hS a (List.mem_cons_of_mem _ ha))
        (List.Perm.cons_inv hperm) (List.pairwise_cons.1 hys).2 (List.pairwise_cons.1 hzs).2 ?_)
      intro a ha
      have hclass := hfilter a (List.mem_cons_of_mem _ ha)
      cases hay : ties cmp a y with
      | true =>
        rw [List.filter_cons_of_pos hay, List.filter_cons_of_pos hay] at hclass
        exact (List.cons.inj hclass).2
      | false =>
        rw [List.filter_cons_of_neg (by simp [hay]), List.filter_cons_of_neg (by simp [hay])]
          at hclass
        exact hclass

/-- **There is one way to sort a list stably.** -/
theorem unique (h : PreorderOn cmp S) {xs ys zs : List α} (hS : ∀ a ∈ xs, S a)
    (hys : StablySorted cmp xs ys) (hzs : StablySorted cmp xs zs) : ys = zs :=
  eq_of_filter_eq h (fun a ha => hS a (hys.perm.mem_iff.1 ha)) (hys.perm.trans hzs.perm.symm)
    hys.sorted hzs.sorted fun a ha => by
      have hmem := hys.perm.mem_iff.1 ha
      rw [hys.stable a hmem, hzs.stable a hmem]

end StablySorted

/-! ## Sorting by insertion -/

/-- A row that stands last to first stays in order when an element is placed. -/
theorem insertLast_sorted (h : PreorderOn cmp S) {x : α} {row : List α} (hx : S x)
    (hrow : ∀ a ∈ row, S a) (hsorted : row.Pairwise fun a b => cmp b a ≠ .gt) :
    (insertLast cmp x row).Pairwise fun a b => cmp b a ≠ .gt := by
  induction row with
  | nil => exact List.pairwise_singleton _ x
  | cons y ys ih =>
    have hy := hrow y List.mem_cons_self
    have hys := fun a ha => hrow a (List.mem_cons_of_mem _ ha)
    obtain ⟨hhead, htail⟩ := List.pairwise_cons.1 hsorted
    unfold insertLast
    split
    · rename_i hlt
      refine List.pairwise_cons.2 ⟨fun b hb => ?_, ih hys htail⟩
      rcases List.mem_cons.1 ((insertLast_perm cmp x ys).mem_iff.1 hb) with rfl | hb
      · rw [hlt]
        decide
      · exact hhead b hb
    · rename_i hnlt
      have hyx : cmp y x ≠ .gt := by
        rw [h.swap x y hx hy]
        cases hcmp : cmp x y with
        | lt => exact absurd hcmp hnlt
        | eq => decide
        | gt => decide
      refine List.pairwise_cons.2 ⟨fun b hb => ?_, hsorted⟩
      rcases List.mem_cons.1 hb with rfl | hb
      · exact hyx
      · exact h.trans b y x (hys b hb) hy hx (hhead b hb) hyx

/-- An element is placed before all that compare as equal to it in the row, which stands last to
first. -/
theorem filter_insertLast (h : PreorderOn cmp S) {a x : α} {row : List α} (ha : S a) (hx : S x)
    (hrow : ∀ b ∈ row, S b) :
    (insertLast cmp x row).filter (ties cmp a) =
      (x :: row).filter (ties cmp a) := by
  induction row with
  | nil => rfl
  | cons y ys ih =>
    unfold insertLast
    split
    · rename_i hlt
      have hy := hrow y List.mem_cons_self
      have hrest := ih fun b hb => hrow b (List.mem_cons_of_mem _ hb)
      cases hax : ties cmp a x with
      | false =>
        rw [List.filter_cons_of_neg (by simp [hax])] at hrest
        rw [List.filter_cons, hrest, List.filter_cons_of_neg (by simp [hax]), List.filter_cons]
      | true =>
        -- what the element has passed does not compare as equal to it
        have hay : ties cmp a y = false := by
          rw [Bool.eq_false_iff]
          intro hay
          have hxa : cmp x a = .eq := by
            rw [h.swap a x ha hx, ties_eq_true_iff.1 hax]
            rfl
          have := h.eq_trans x a y hx ha hy hxa (ties_eq_true_iff.1 hay)
          rw [hlt] at this
          cases this
        rw [List.filter_cons_of_pos hax] at hrest ⊢
        rw [List.filter_cons_of_neg (by simp [hay]), hrest, List.filter_cons_of_neg (by simp [hay])]
    · rfl

theorem foldl_insertLast_spec (h : PreorderOn cmp S) {xs row : List α} (hxs : ∀ a ∈ xs, S a)
    (hrow : ∀ a ∈ row, S a) (hsorted : row.Pairwise fun a b => cmp b a ≠ .gt) :
    (xs.foldl (fun row x => insertLast cmp x row) row).Pairwise (fun a b => cmp b a ≠ .gt) ∧
      ∀ a, S a → (xs.foldl (fun row x => insertLast cmp x row) row).filter
          (ties cmp a) =
        (xs.reverse ++ row).filter (ties cmp a) := by
  induction xs generalizing row with
  | nil => exact ⟨hsorted, fun a _ => rfl⟩
  | cons x xs ih =>
    have hx := hxs x List.mem_cons_self
    have hrow' : ∀ a ∈ insertLast cmp x row, S a := by
      intro a ha
      rcases List.mem_cons.1 ((insertLast_perm cmp x row).mem_iff.1 ha) with rfl | ha
      · exact hx
      · exact hrow a ha
    obtain ⟨hfold, hfilter⟩ := ih (fun a ha => hxs a (List.mem_cons_of_mem _ ha)) hrow'
      (insertLast_sorted h hx hrow hsorted)
    refine ⟨hfold, fun a ha => ?_⟩
    rw [List.foldl_cons, hfilter a ha, List.filter_append, filter_insertLast h ha hx hrow,
      ← List.filter_append, List.reverse_cons, List.append_assoc]
    rfl

/-- **Sorting by insertion is stable.** -/
theorem sortBy_stablySorted (h : PreorderOn cmp S) {xs : List α} (hxs : ∀ a ∈ xs, S a) :
    StablySorted cmp xs (sortBy cmp xs) := by
  have hnil : ∀ a ∈ ([] : List α), S a := fun a ha => nomatch ha
  obtain ⟨hsorted, hfilter⟩ := foldl_insertLast_spec h hxs hnil List.Pairwise.nil
  refine ⟨sortBy_perm cmp xs, ?_, fun a ha => ?_⟩
  · unfold sortBy
    exact List.pairwise_reverse.2 hsorted
  · unfold sortBy
    rw [List.filter_reverse, hfilter a (hxs a ha), List.append_nil, List.filter_reverse,
      List.reverse_reverse]

/-! ## Sorting what stands for something else -/

section Related

variable {R : α → β → Prop} {cmp' : β → β → Ordering}
  (hcmp : ∀ a a' b b', R a a' → R b b' → cmp a b = cmp' a' b')

include hcmp

theorem insertLast_forall₂ {x : α} {x' : β} {row : List α} {row' : List β} (hx : R x x')
    (hrow : List.Forall₂ R row row') :
    List.Forall₂ R (insertLast cmp x row) (insertLast cmp' x' row') := by
  induction hrow with
  | nil => exact .cons hx .nil
  | @cons y y' ys ys' hy hys ih =>
    unfold insertLast
    rw [hcmp x x' y y' hx hy]
    split
    · exact .cons hy ih
    · exact .cons hx (.cons hy hys)

/-- Lists that are compared alike are sorted alike. -/
theorem sortBy_forall₂ {xs : List α} {xs' : List β} (h : List.Forall₂ R xs xs') :
    List.Forall₂ R (sortBy cmp xs) (sortBy cmp' xs') := by
  have hfold : ∀ row row', List.Forall₂ R row row' →
      List.Forall₂ R (xs.foldl (fun row x => insertLast cmp x row) row)
        (xs'.foldl (fun row x => insertLast cmp' x row) row') := by
    induction h with
    | nil => exact fun _ _ hrow => hrow
    | cons hx _ ih => exact fun row row' hrow => ih _ _ (insertLast_forall₂ hcmp hx hrow)
  unfold sortBy
  exact List.rel_reverse (hfold [] [] .nil)

end Related

/-- What elements stand for is sorted as they are. -/
theorem map_sortBy {cmp' : β → β → Ordering} {f : α → β} {xs : List α}
    (h : ∀ a ∈ xs, ∀ b ∈ xs, cmp a b = cmp' (f a) (f b)) :
    (sortBy cmp xs).map f = sortBy cmp' (xs.map f) := by
  have hsorted : List.Forall₂ (fun a b => a ∈ xs ∧ f a = b) (sortBy cmp xs)
      (sortBy cmp' (xs.map f)) := by
    refine sortBy_forall₂ (fun a a' b b' ha hb => ?_)
      (List.forall₂_map_right_iff.2 (List.forall₂_same.2 fun a ha => ⟨ha, rfl⟩))
    rw [h a ha.1 b hb.1, ha.2, hb.2]
  rw [← List.forall₂_eq_eq_eq]
  exact List.forall₂_map_left_iff.2 (hsorted.imp fun _ _ h => h.2)

end FieldQuery
