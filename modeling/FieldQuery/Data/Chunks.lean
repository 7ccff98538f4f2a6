/-!
# Chunks

* `chunks k` — a list cut into pieces of `k + 1` elements, the last one maybe shorter;
* `flatten_chunks` — the pieces in a row are the list.
-/

namespace FieldQuery

variable {α : Type}

/-- The pieces of `k + 1` elements. -/
def chunks (k : Nat) : List α → List (List α)
  | [] => []
  | x :: xs => (x :: xs.take k) :: chunks k (xs.drop k)
termination_by xs => xs.length
decreasing_by simp only [List.length_drop, List.length_cons]; omega

@[simp] theorem chunks_nil (k : Nat) : chunks k ([] : List α) = [] := by rw [chunks]

theorem chunks_cons (k : Nat) (x : α) (xs : List α) :
    chunks k (x :: xs) = (x :: xs.take k) :: chunks k (xs.drop k) := by rw [chunks]

/-- Nothing is lost by cutting. -/
theorem flatten_chunks (k : Nat) (xs : List α) : (chunks k xs).flatten = xs := by
  induction xs using chunks.induct k with
  | case1 => simp
  | case2 x xs ih => simp [chunks_cons, ih]

end FieldQuery
