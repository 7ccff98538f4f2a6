/-!
# Sorting by insertion

* `sortBy` — inserts the elements one after the other, each behind all that it does not come
  before; equal elements keep their order;
* `sortBy_perm` — nothing is lost and nothing added.

The elements sorted so far stand last to first, so that an element that belongs at the end is
placed at once.
-/

namespace FieldQuery

variable {α : Type}

/-- Places an element into a row that stands last to first. -/
def insertLast (cmp : α → α → Ordering) (x : α) : List α → List α
  | [] => [x]
  | y :: ys => if cmp x y = .lt then y :: insertLast cmp x ys else x :: y :: ys

/-- Sorts by insertion. -/
def sortBy (cmp : α → α → Ordering) (xs : List α) : List α :=
  (xs.foldl (fun row x => insertLast cmp x row) []).reverse

theorem insertLast_perm (cmp : α → α → Ordering) (x : α) (row : List α) :
    (insertLast cmp x row).Perm (x :: row) := by
  induction row with
  | nil => exact List.Perm.refl _
  | cons y ys ih =>
    unfold insertLast
    split
    · exact (ih.cons y).trans (List.Perm.swap x y ys)
    · exact List.Perm.refl _

theorem foldl_insertLast_perm (cmp : α → α → Ordering) (xs row : List α) :
    (xs.foldl (fun row x => insertLast cmp x row) row).Perm (xs ++ row) := by
  induction xs generalizing row with
  | nil => exact List.Perm.refl _
  | cons x xs ih =>
    refine (ih (insertLast cmp x row)).trans ?_
    refine ((insertLast_perm cmp x row).append_left xs).trans ?_
    exact List.perm_middle

/-- Sorting rearranges. -/
theorem sortBy_perm (cmp : α → α → Ordering) (xs : List α) : (sortBy cmp xs).Perm xs := by
  unfold sortBy
  refine (List.reverse_perm _).trans ?_
  simpa using foldl_insertLast_perm cmp xs []

theorem length_sortBy (cmp : α → α → Ordering) (xs : List α) :
    (sortBy cmp xs).length = xs.length :=
  (sortBy_perm cmp xs).length_eq

end FieldQuery
