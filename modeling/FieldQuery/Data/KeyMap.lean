/-!
# Tables ordered by key

A `KeyMap` is a list of pairs in the order of its keys, each key once. The order of strings is
that of their code points, which is also the order of their UTF-8 bytes.

* `insert`, `erase`, `get?`, `contains`, `keys` — the operations;
* `get?_insert`, `get?_insert_ne` — what a look-up sees after an insertion;
* `Sorted` and `Sorted.insert` — the invariant, and that insertion keeps it;
* `Names` — a set of names, as a list in the same order.
-/

namespace FieldQuery

/-- A table of `α` by name, in the order of the names. -/
abbrev KeyMap (α : Type) := List (String × α)

namespace KeyMap

variable {α : Type}

/-- Looks a key up. -/
def get? (k : String) : KeyMap α → Option α
  | [] => none
  | (k', v) :: rest => if k = k' then some v else get? k rest

/-- Whether the key is present. -/
def contains (k : String) (m : KeyMap α) : Bool := (get? k m).isSome

/-- Sets the value of a key, in the key's place in the order. -/
def insert (k : String) (v : α) : KeyMap α → KeyMap α
  | [] => [(k, v)]
  | (k', v') :: rest =>
    if k = k' then (k, v) :: rest
    else if k < k' then (k, v) :: (k', v') :: rest
    else (k', v') :: insert k v rest

/-- Removes a key. -/
def erase (k : String) (m : KeyMap α) : KeyMap α := m.filter fun p => p.1 ≠ k

/-- The keys in order. -/
def keys (m : KeyMap α) : List String := m.map (·.1)

/-- The values in the order of their keys. -/
def vals (m : KeyMap α) : List α := m.map (·.2)

/-- A table of pairs; the last value of a key wins. -/
def ofPairs (ps : List (String × α)) : KeyMap α :=
  ps.foldl (fun m p => m.insert p.1 p.2) []

/-- Every key comes before all later ones. -/
def Sorted (m : KeyMap α) : Prop := m.Pairwise fun p q => p.1 < q.1

@[simp] theorem get?_nil (k : String) : get? k ([] : KeyMap α) = none := rfl

theorem get?_cons (j k : String) (v : α) (m : KeyMap α) :
    get? j ((k, v) :: m) = if j = k then some v else get? j m := rfl

@[simp] theorem get?_insert (k : String) (v : α) (m : KeyMap α) :
    (m.insert k v).get? k = some v := by
  induction m with
  | nil => simp [insert, get?]
  | cons p m ih =>
    obtain ⟨k', v'⟩ := p
    unfold insert
    split
    · simp [get?]
    · split
      · simp [get?]
      · simp [get?, *]

theorem get?_insert_ne {j k : String} (h : j ≠ k) (v : α) (m : KeyMap α) :
    (m.insert k v).get? j = m.get? j := by
  induction m with
  | nil => simp [insert, get?, h]
  | cons p m ih =>
    obtain ⟨k', v'⟩ := p
    unfold insert
    split
    · subst_vars; simp [get?, h]
    · split
      · simp [get?, h]
      · simp [get?, ih]

theorem mem_insert {p : String × α} {k : String} {v : α} {m : KeyMap α}
    (h : p ∈ m.insert k v) : p = (k, v) ∨ p ∈ m := by
  induction m with
  | nil => simpa [insert] using h
  | cons q m ih =>
    obtain ⟨k', v'⟩ := q
    unfold insert at h
    split at h
    · rcases List.mem_cons.1 h with h | h
      · exact .inl h
      · exact .inr (List.mem_cons_of_mem _ h)
    · split at h
      · rcases List.mem_cons.1 h with h | h
        · exact .inl h
        · exact .inr h
      · rcases List.mem_cons.1 h with h | h
        · exact .inr (h ▸ List.mem_cons_self)
        · exact (ih h).imp_right (List.mem_cons_of_mem _)

theorem sorted_nil : Sorted ([] : KeyMap α) := List.Pairwise.nil

theorem Sorted.insert {k : String} {v : α} {m : KeyMap α} (h : Sorted m) : Sorted (m.insert k v) := by
  induction m with
  | nil => exact List.pairwise_singleton _ _
  | cons p m ih =>
    obtain ⟨k', v'⟩ := p
    obtain ⟨hfirst, hrest⟩ := List.pairwise_cons.1 h
    unfold KeyMap.insert
    split
    · rename_i hk
      subst hk
      exact List.pairwise_cons.2 ⟨hfirst, hrest⟩
    · rename_i hne
      split
      · rename_i hlt
        refine List.pairwise_cons.2 ⟨fun q hq => ?_, h⟩
        rcases List.mem_cons.1 hq with rfl | hq
        · exact hlt
        · exact String.lt_trans hlt (hfirst q hq)
      · rename_i hge
        have hlt : k' < k := Classical.byContradiction fun hnot =>
          hne (String.le_antisymm (String.not_lt.1 hnot) (String.not_lt.1 hge))
        refine List.pairwise_cons.2 ⟨fun q hq => ?_, ih hrest⟩
        rcases mem_insert hq with rfl | hq
        · exact hlt
        · exact hfirst q hq

/-- Each key stands once. -/
theorem Sorted.get?_of_mem {k : String} {v : α} {m : KeyMap α} (h : Sorted m) (hp : (k, v) ∈ m) :
    get? k m = some v := by
  induction m with
  | nil => cases hp
  | cons p m ih =>
    obtain ⟨k', v'⟩ := p
    obtain ⟨hfirst, hrest⟩ := List.pairwise_cons.1 h
    rw [get?_cons]
    rcases List.mem_cons.1 hp with heq | hmem
    · cases heq
      exact if_pos rfl
    · have hlt : k' < k := hfirst (k, v) hmem
      have hne : k ≠ k' := fun hk => String.lt_irrefl k' (hk ▸ hlt)
      rw [if_neg hne, ih hrest hmem]

theorem mem_of_get? {k : String} {v : α} {m : KeyMap α} (h : get? k m = some v) : (k, v) ∈ m := by
  induction m with
  | nil => cases h
  | cons p m ih =>
    obtain ⟨k', v'⟩ := p
    unfold get? at h
    split at h
    · rename_i hk
      cases h
      exact hk ▸ List.mem_cons_self
    · exact List.mem_cons_of_mem _ (ih h)

theorem contains_eq_true_iff {k : String} {m : KeyMap α} : contains k m = true ↔ k ∈ m.keys := by
  unfold contains keys
  induction m with
  | nil => simp
  | cons p m ih =>
    obtain ⟨k', v'⟩ := p
    unfold get?
    split
    · rename_i hk
      simp [hk]
    · rename_i hk
      simp [hk, ih]

theorem contains_eq_false_iff {k : String} {m : KeyMap α} :
    contains k m = false ↔ k ∉ m.keys := by
  rw [← contains_eq_true_iff, Bool.not_eq_true]

@[simp] theorem mem_keys_insert {j k : String} {v : α} {m : KeyMap α} :
    j ∈ (m.insert k v).keys ↔ j = k ∨ j ∈ m.keys := by
  rw [← contains_eq_true_iff, ← contains_eq_true_iff]
  by_cases h : j = k
  · simp [h, contains]
  · simp [h, contains, get?_insert_ne h]

theorem erase_eq_self {k : String} {m : KeyMap α} (h : k ∉ m.keys) : m.erase k = m := by
  refine List.filter_eq_self.2 fun p hp => decide_eq_true fun hk => h ?_
  exact hk ▸ List.mem_map_of_mem hp

/-- What has been inserted under a new key leaves nothing behind when it is removed. -/
theorem erase_insert {k : String} {v : α} {m : KeyMap α} (h : k ∉ m.keys) :
    (m.insert k v).erase k = m := by
  induction m with
  | nil => simp [insert, erase]
  | cons p m ih =>
    obtain ⟨k', v'⟩ := p
    have hk : k ≠ k' := fun hk => h (hk ▸ List.mem_cons_self)
    have hrest : k ∉ keys m := fun hk => h (List.mem_cons_of_mem _ hk)
    unfold insert
    rw [if_neg hk]
    split
    · have := erase_eq_self h
      simpa [erase] using this
    · simpa [erase, Ne.symm hk] using ih hrest

end KeyMap

/-- A set of names: in order, each name once. -/
abbrev Names := List String

namespace Names

/-- Adds a name in its place. -/
def insert (n : String) : Names → Names
  | [] => [n]
  | m :: rest =>
    if n = m then m :: rest
    else if n < m then n :: m :: rest
    else m :: insert n rest

/-- The union, by adding the second set's names to the first. -/
def union (s t : Names) : Names := t.foldl (fun s n => insert n s) s

/-- The set of the names in a list. -/
def ofList (ns : List String) : Names := union [] ns

@[simp] theorem mem_insert {n m : String} {s : Names} : n ∈ insert m s ↔ n = m ∨ n ∈ s := by
  induction s with
  | nil => simp [insert]
  | cons k s ih =>
    unfold insert
    split
    · subst_vars; simp
    · split
      · simp
      · simp only [List.mem_cons, ih]
        constructor <;> (rintro (h | h | h) <;> simp [h])

theorem mem_union {n : String} {s t : Names} : n ∈ union s t ↔ n ∈ s ∨ n ∈ t := by
  induction t generalizing s with
  | nil => simp [union]
  | cons k t ih =>
    show n ∈ union (insert k s) t ↔ _
    rw [ih, mem_insert, List.mem_cons]
    constructor
    · rintro ((h | h) | h) <;> simp [h]
    · rintro (h | h | h) <;> simp [h]

end Names

end FieldQuery
