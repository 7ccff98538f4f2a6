import Mathlib.Algebra.Order.Floor.Div
import FieldQuery.Data.Chunks

/-!
# Chunks of a list

* `ne_nil_of_mem_chunks` — no chunk is empty;
* `length_chunks`, `lt_length_chunks_iff` — there are as many as the length of the list divided by their
  size, rounded up, so that there is a chunk after the first `n` if they do not exhaust the list;
* `chunks_take` — the first `n` chunks are the chunks of the first so many elements.
-/

namespace FieldQuery

variable {α : Type}

theorem ne_nil_of_mem_chunks (k : Nat) (xs : List α) : ∀ part ∈ chunks k xs, part ≠ [] := by
  induction xs using chunks.induct k with
  | case1 => simp
  | case2 x xs ih =>
    rw [chunks_cons]
    exact List.forall_mem_cons.2 ⟨List.cons_ne_nil _ _, ih⟩

theorem length_chunks (k : Nat) (xs : List α) :
    (chunks k xs).length = xs.length ⌈/⌉ (k + 1) := by
  induction xs using chunks.induct k with
  | case1 => simp
  | case2 x xs ih =>
    have hdrop : (xs.length - k + k) / (k + 1) + 1 = (xs.length + 1 + k) / (k + 1) := by
      rw [Nat.add_right_comm, Nat.add_assoc, Nat.add_div_right _ (Nat.succ_pos k)]
      rcases Nat.le_total k xs.length with hlong | hshort
      · rw [Nat.sub_add_cancel hlong]
      · rw [Nat.sub_eq_zero_of_le hshort, Nat.zero_add, Nat.div_eq_of_lt (Nat.lt_succ_self k),
          Nat.div_eq_of_lt (Nat.lt_succ_of_le hshort)]
    rw [chunks_cons, List.length_cons, ih, List.length_drop, List.length_cons,
      Nat.ceilDiv_eq_add_pred_div, Nat.ceilDiv_eq_add_pred_div, ← Nat.add_assoc, ← Nat.add_assoc]
    exact hdrop

/-- There is a chunk after the first `n` if they do not exhaust the list. -/
theorem lt_length_chunks_iff {k n : Nat} {xs : List α} :
    n < (chunks k xs).length ↔ n * (k + 1) < xs.length := by
  have hle : xs.length ⌈/⌉ (k + 1) ≤ n ↔ xs.length ≤ (k + 1) * n :=
    ceilDiv_le_iff_le_mul (Nat.succ_pos k)
  rw [length_chunks, Nat.mul_comm n, ← not_le, hle, not_le]

/-- The first chunks are those of the first elements. -/
theorem chunks_take (k n : Nat) (xs : List α) :
    chunks k (xs.take (n * (k + 1))) = (chunks k xs).take n := by
  induction n generalizing xs with
  | zero => simp
  | succ n ih =>
    cases xs with
    | nil => simp
    | cons x xs =>
      have hsize : (n + 1) * (k + 1) = n * (k + 1) + k + 1 := by
        rw [Nat.succ_mul, Nat.add_assoc]
      rw [hsize, List.take_succ_cons, chunks_cons, chunks_cons, List.take_succ_cons, ← ih,
        List.take_take, Nat.min_eq_left (Nat.le_add_left _ _), List.drop_take, Nat.add_sub_cancel]

end FieldQuery
