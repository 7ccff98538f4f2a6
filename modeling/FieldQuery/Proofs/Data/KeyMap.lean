import FieldQuery.Data.KeyMap
import Mathlib.Data.List.Sort

/-!
# Tables and sets of names have one form

A table keeps its keys in order, and so does a set of names.  What is in them therefore determines
them, whatever order it has been put in:

* `KeyMap.Sorted.ext` — ordered tables in which every look-up finds the same are one table;
* `KeyMap.ofPairs_perm` — pairs under distinct names make one table in every order;
* `Names.Sorted`, `Names.Sorted.union` — sets of names are in order, and so are their unions;
* `Names.Sorted.ext` — ordered sets with the same names are one set;
* `Names.foldl_union_perm` — sets come to one union in every order.
-/

namespace FieldQuery

namespace KeyMap

variable {α : Type}

theorem Sorted.mem_iff {k : String} {v : α} {m : KeyMap α} (h : Sorted m) :
    (k, v) ∈ m ↔ get? k m = some v :=
  ⟨fun hp => h.get?_of_mem hp, mem_of_get?⟩

theorem Sorted.nodup_keys {m : KeyMap α} (h : Sorted m) : (keys m).Nodup := by
  unfold keys
  rw [List.Nodup, List.pairwise_map]
  refine h.imp fun hlt heq => ?_
  rw [heq] at hlt
  exact String.lt_irrefl _ hlt

/-- **Ordered tables in which every look-up finds the same are one table.** -/
theorem Sorted.ext {m m' : KeyMap α} (h : Sorted m) (h' : Sorted m')
    (hget : ∀ k v, get? k m = some v ↔ get? k m' = some v) : m = m' := by
  have hirrefl : Std.Irrefl fun p q : String × α => p.1 < q.1 := ⟨fun p => String.lt_irrefl p.1⟩
  have hasymm : Std.Asymm fun p q : String × α => p.1 < q.1 :=
    ⟨fun p q hpq hqp => String.lt_irrefl p.1 (String.lt_trans hpq hqp)⟩
  have hmem : ∀ p : String × α, p ∈ m ↔ p ∈ m' := by
    intro p
    rw [h.mem_iff, h'.mem_iff]
    exact hget p.1 p.2
  exact List.Pairwise.eq_of_mem_iff h h' hmem

/-! ### Tables of pairs -/

theorem sorted_foldl_insert (ps : List (String × α)) {m : KeyMap α} (h : Sorted m) :
    Sorted (ps.foldl (fun m p => m.insert p.1 p.2) m) := by
  induction ps generalizing m with
  | nil => exact h
  | cons p ps ih => exact ih h.insert

theorem sorted_ofPairs (ps : List (String × α)) : Sorted (ofPairs ps) := sorted_foldl_insert ps sorted_nil

theorem mem_foldl_insert {ps : List (String × α)} {m : KeyMap α} {p : String × α}
    (h : p ∈ ps.foldl (fun m p => m.insert p.1 p.2) m) : p ∈ ps ∨ p ∈ m := by
  induction ps generalizing m with
  | nil => exact .inr h
  | cons q ps ih =>
    rcases ih h with h | h
    · exact .inl (List.mem_cons_of_mem q h)
    · rcases mem_insert h with rfl | h
      · exact .inl List.mem_cons_self
      · exact .inr h

/-- A table of pairs has no others. -/
theorem mem_ofPairs {ps : List (String × α)} {p : String × α} (h : p ∈ ofPairs ps) : p ∈ ps :=
  (mem_foldl_insert h).resolve_right List.not_mem_nil

/-- Pairs under distinct names are all found, and hide what has been there under their names. -/
theorem get?_foldl_insert {ps : List (String × α)} (hnodup : (keys ps).Nodup) (m : KeyMap α)
    (k : String) (v : α) :
    get? k (ps.foldl (fun m p => m.insert p.1 p.2) m) = some v ↔
      (k, v) ∈ ps ∨ k ∉ keys ps ∧ get? k m = some v := by
  induction ps generalizing m with
  | nil => simp [keys]
  | cons p ps ih =>
    obtain ⟨j, w⟩ := p
    obtain ⟨hnew, hrest⟩ := List.nodup_cons.1 hnodup
    rw [List.foldl_cons, ih hrest, List.mem_cons, Prod.mk.injEq]
    show _ ↔ _ ∨ k ∉ j :: keys ps ∧ _
    rw [List.mem_cons, not_or]
    by_cases hk : k = j
    · subst hk
      have hnot : (k, v) ∉ ps := fun hp => hnew (List.mem_map.2 ⟨(k, v), hp, rfl⟩)
      have hself : (some w = some v) ↔ v = w := by rw [Option.some.injEq, eq_comm]
      simp [hnot, show k ∉ keys ps from hnew, hself]
    · rw [get?_insert_ne hk]
      simp [hk]

theorem get?_ofPairs {ps : List (String × α)} (hnodup : (keys ps).Nodup) {k : String} {v : α} :
    get? k (ofPairs ps) = some v ↔ (k, v) ∈ ps := by
  unfold ofPairs
  rw [get?_foldl_insert hnodup]
  simp

/-- **Pairs under distinct names make one table in every order.** -/
theorem ofPairs_perm {ps ps' : List (String × α)} (h : ps.Perm ps') (hnodup : (keys ps).Nodup) :
    ofPairs ps = ofPairs ps' := by
  have hnodup' : (keys ps').Nodup := (h.map _).nodup hnodup
  refine (sorted_foldl_insert ps sorted_nil).ext (sorted_foldl_insert ps' sorted_nil) ?_
  intro k v
  exact (get?_ofPairs hnodup).trans (h.mem_iff.trans (get?_ofPairs hnodup').symm)

end KeyMap

namespace Names

/-- Every name comes before all later ones. -/
def Sorted (s : Names) : Prop := s.Pairwise (· < ·)

theorem sorted_nil : Sorted [] := List.Pairwise.nil

theorem Sorted.insert {n : String} {s : Names} (h : Sorted s) : Sorted (insert n s) := by
  induction s with
  | nil => exact List.pairwise_singleton _ _
  | cons m s ih =>
    obtain ⟨hfirst, hrest⟩ := List.pairwise_cons.1 h
    unfold Names.insert
    split
    · exact h
    · rename_i hne
      split
      · rename_i hlt
        refine List.pairwise_cons.2 ⟨fun k hk => ?_, h⟩
        rcases List.mem_cons.1 hk with rfl | hk
        · exact hlt
        · exact String.lt_trans hlt (hfirst k hk)
      · rename_i hge
        have hlt : m < n := Classical.byContradiction fun hnot =>
          hne (String.le_antisymm (String.not_lt.1 hnot) (String.not_lt.1 hge))
        refine List.pairwise_cons.2 ⟨fun k hk => ?_, ih hrest⟩
        rcases mem_insert.1 hk with rfl | hk
        · exact hlt
        · exact hfirst k hk

theorem Sorted.union {s : Names} (h : Sorted s) (t : Names) : Sorted (union s t) := by
  induction t generalizing s with
  | nil => exact h
  | cons k t ih => exact ih (h.insert (n := k))

/-- **Ordered sets with the same names are one set.** -/
theorem Sorted.ext {s t : Names} (h : Sorted s) (h' : Sorted t) (hmem : ∀ n, n ∈ s ↔ n ∈ t) :
    s = t := by
  have hirrefl : Std.Irrefl fun a b : String => a < b := ⟨String.lt_irrefl⟩
  have hasymm : Std.Asymm fun a b : String => a < b :=
    ⟨fun a b hab hba => String.lt_irrefl a (String.lt_trans hab hba)⟩
  exact List.Pairwise.eq_of_mem_iff h h' hmem

theorem mem_foldl_union {α : Type} {names : α → Names} {as : List α} {s : Names} {n : String} :
    n ∈ as.foldl (fun s a => union s (names a)) s ↔ n ∈ s ∨ ∃ a ∈ as, n ∈ names a := by
  induction as generalizing s with
  | nil => simp
  | cons a as ih => rw [List.foldl_cons, ih, mem_union, List.exists_mem_cons_iff, or_assoc]

theorem Sorted.foldl_union {α : Type} (names : α → Names) (as : List α) {s : Names} (h : Sorted s) :
    Sorted (as.foldl (fun s a => Names.union s (names a)) s) := by
  induction as generalizing s with
  | nil => exact h
  | cons a as ih => exact ih (h.union _)

/-- **Sets come to one union in every order.** -/
theorem foldl_union_perm {α : Type} (names : α → Names) {as bs : List α} (h : as.Perm bs) :
    as.foldl (fun s a => union s (names a)) [] = bs.foldl (fun s a => union s (names a)) [] := by
  refine (sorted_nil.foldl_union names as).ext (sorted_nil.foldl_union names bs) fun n => ?_
  rw [mem_foldl_union, mem_foldl_union]
  simp only [h.mem_iff]

end Names

end FieldQuery
