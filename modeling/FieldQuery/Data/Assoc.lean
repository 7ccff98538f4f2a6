/-!
# Association lists

* `Assoc.set` — sets the value of a key in its place, or at the end if the key is new;
* `lookup_set`, `lookup_set_ne` — what a look-up sees afterwards;
* `keys_set`, `nodup_keys_set` — the keys afterwards;
* `set_of_not_mem`, `set_of_mem` — the whole list after a new key, and after one that is present.
-/

namespace FieldQuery.Assoc

variable {κ α : Type} [DecidableEq κ]

/-- Sets the value of a key. -/
def set (k : κ) (v : α) : List (κ × α) → List (κ × α)
  | [] => [(k, v)]
  | (k', v') :: rest => if k' = k then (k', v) :: rest else (k', v') :: set k v rest

@[simp] theorem lookup_set (k : κ) (v : α) (ps : List (κ × α)) :
    List.lookup k (set k v ps) = some v := by
  induction ps with
  | nil => simp [set]
  | cons p ps ih =>
    obtain ⟨k', v'⟩ := p
    unfold set
    split
    · rename_i h
      simp [h]
    · rename_i h
      have : (k == k') = false := by simpa using Ne.symm h
      simp [List.lookup_cons, this, ih]

theorem lookup_set_ne {j k : κ} (h : j ≠ k) (v : α) (ps : List (κ × α)) :
    List.lookup j (set k v ps) = List.lookup j ps := by
  induction ps with
  | nil => simp [set, h]
  | cons p ps ih =>
    obtain ⟨k', v'⟩ := p
    unfold set
    split
    · rename_i hk
      have : (j == k') = false := by simpa [hk] using h
      simp only [List.lookup_cons, this]
    · simp only [List.lookup_cons, ih]

/-- A key that is present keeps its place, a new one comes last. -/
theorem keys_set (k : κ) (v : α) (ps : List (κ × α)) :
    (set k v ps).map (·.1) =
      if k ∈ ps.map (·.1) then ps.map (·.1) else ps.map (·.1) ++ [k] := by
  induction ps with
  | nil => simp [set]
  | cons p ps ih =>
    obtain ⟨k', v'⟩ := p
    unfold set
    by_cases h : k' = k
    · simp [h]
    · simp only [h, if_false, List.map_cons, ih, List.mem_cons, Ne.symm h, false_or]
      split <;> simp

/-- Where each key stands once, it still does. -/
theorem nodup_keys_set {k : κ} {ps : List (κ × α)} (h : (ps.map (·.1)).Nodup) (v : α) :
    ((set k v ps).map (·.1)).Nodup := by
  rw [keys_set]
  split
  · exact h
  · rename_i hnew
    refine List.nodup_append.2 ⟨h, by simp, ?_⟩
    intro a ha b hb heq
    rw [List.mem_singleton.1 hb] at heq
    exact hnew (heq ▸ ha)

/-- A new key comes last. -/
theorem set_of_not_mem {k : κ} {ps : List (κ × α)} (h : k ∉ ps.map (·.1)) (v : α) :
    set k v ps = ps ++ [(k, v)] := by
  induction ps with
  | nil => rfl
  | cons p ps ih =>
    obtain ⟨k', v'⟩ := p
    have hne : k' ≠ k := fun heq => h (heq ▸ List.mem_cons_self)
    unfold set
    rw [if_neg hne, ih fun hmem => h (List.mem_cons_of_mem _ hmem), List.cons_append]

/-- A key that is present has its value replaced in its place. -/
theorem set_of_mem {k : κ} {ps : List (κ × α)} (hnodup : (ps.map (·.1)).Nodup)
    (h : k ∈ ps.map (·.1)) (v : α) :
    set k v ps = ps.map fun p => if p.1 = k then (k, v) else p := by
  induction ps with
  | nil => cases h
  | cons p ps ih =>
    obtain ⟨k', v'⟩ := p
    obtain ⟨hfirst, hrest⟩ := List.nodup_cons.1 hnodup
    unfold set
    rw [List.map_cons]
    by_cases hk : k' = k
    · subst hk
      have hothers : ps.map (fun p => if p.1 = k' then (k', v) else p) = ps :=
        (List.map_congr_left fun p hp => if_neg fun heq : p.1 = k' =>
          hfirst (List.mem_map.2 ⟨p, hp, heq⟩)).trans (List.map_id' _)
      rw [if_pos rfl, if_pos rfl, hothers]
    · rw [if_neg hk, if_neg hk, ih hrest ((List.mem_cons.1 h).resolve_left (Ne.symm hk))]

end FieldQuery.Assoc
