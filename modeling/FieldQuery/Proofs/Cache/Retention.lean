import Mathlib.Data.List.Nodup
import Mathlib.Data.List.Perm.Subperm
import FieldQuery.Proofs.Cache.History

/-!
# What the cache in memory keeps

* `MemoryCache.Within` — the keys of a cache are different, and all among some keys that fit into it
  together;
* `MemoryCache.Holds` — a cache has a text under a key until a time.

A cache that is only ever asked for some keys that fit into it never has to make room.  What has been put
there is found until it expires, whatever is put under other keys.

Principal results: `Within.get`, `Within.put` — uses with these keys keep their keys within them;
`Holds.get`, `Holds.put` — and keep the text under a key; `Holds.found` — the text is found.
-/

namespace FieldQuery

namespace Assoc

variable {κ α : Type} [DecidableEq κ]

/-- An entry under another key is still found when a key has been removed. -/
theorem lookup_filter_ne {j k : κ} (h : j ≠ k) (ps : List (κ × α)) :
    List.lookup j (ps.filter fun p => p.1 != k) = List.lookup j ps := by
  induction ps with
  | nil => rfl
  | cons p ps ih =>
    obtain ⟨k', v⟩ := p
    by_cases hk : k' = k
    · have hj : (j == k') = false := by simpa [hk] using h
      rw [List.filter_cons_of_neg (by simp [hk]), ih, List.lookup_cons, hj]
    · rw [List.filter_cons_of_pos (by simpa using hk), List.lookup_cons, List.lookup_cons, ih]

/-- A key is found if it is among the keys. -/
theorem isSome_lookup_iff {k : κ} {ps : List (κ × α)} :
    (List.lookup k ps).isSome = true ↔ k ∈ ps.map (·.1) := by
  induction ps with
  | nil => simp
  | cons p ps ih =>
    obtain ⟨k', v⟩ := p
    rw [List.lookup_cons]
    by_cases hk : k = k'
    · simp [hk]
    · have hne : (k == k') = false := by simpa using hk
      simp [hne, ih, hk]

/-- Where each key stands once, every entry is found. -/
theorem lookup_of_mem {ps : List (κ × α)} (hnodup : (ps.map (·.1)).Nodup) {p : κ × α} (h : p ∈ ps) :
    List.lookup p.1 ps = some p.2 := by
  induction ps with
  | nil => cases h
  | cons q ps ih =>
    rw [List.map_cons, List.nodup_cons] at hnodup
    rcases List.mem_cons.1 h with rfl | h
    · exact List.lookup_cons_self
    · have hne : (p.1 == q.1) = false := by
        rw [beq_eq_false_iff_ne]
        intro heq
        exact hnodup.1 (heq ▸ List.mem_map_of_mem h)
      rw [List.lookup_cons, hne, ih hnodup.2 h]

end Assoc

namespace MemoryCache

/-- The keys of a cache are different, and all among some keys that fit into it. -/
structure Within (keys : List String) (c : MemoryCache) : Prop where
  nodup : (c.entries.map (·.1)).Nodup
  subset : c.entries.map (·.1) ⊆ keys
  room : keys.length ≤ c.capacity

/-- A cache has a text under a key until a time. -/
def Holds (key content : String) (expiresAt : Nat) (c : MemoryCache) : Prop :=
  ∃ lastUse, List.lookup key c.entries = some ⟨content, expiresAt, lastUse⟩

variable {keys : List String} {c : MemoryCache} {key : String}

theorem within_empty {maxEntries : Nat} (h : keys.length ≤ max 1 maxEntries) :
    (empty maxEntries).Within keys where
  nodup := List.nodup_nil
  subset := List.nil_subset keys
  room := h

/-- There is room for a new key. -/
theorem Within.size_lt (h : c.Within keys) (hkey : key ∈ keys)
    (hnew : key ∉ c.entries.map (·.1)) : c.size < c.capacity := by
  have hsubset : key :: c.entries.map (·.1) ⊆ keys := List.cons_subset.2 ⟨hkey, h.subset⟩
  have hlength := (List.subperm_of_subset (List.nodup_cons.2 ⟨hnew, h.nodup⟩) hsubset).length_le
  have hroom := h.room
  rw [List.length_cons, List.length_map] at hlength
  unfold size
  omega

/-- The entries after a text has been put: no room has to be made. -/
theorem Within.put_eq (h : c.Within keys) (hkey : key ∈ keys) (now : Nat) (content : String)
    (lifetime : Nat) : c.put now key content lifetime =
      { c with entries := Assoc.set key ⟨content, now + lifetime, now⟩ c.entries } := by
  unfold MemoryCache.put
  dsimp only
  cases hknown : (List.lookup key c.entries).isSome with
  | true => rfl
  | false =>
    have hnew : key ∉ c.entries.map (·.1) := fun hmem => by
      rw [Assoc.isSome_lookup_iff.2 hmem] at hknown
      cases hknown
    have hsize := h.size_lt hkey hnew
    rw [if_neg (by simp; omega)]

theorem Within.put (h : c.Within keys) (hkey : key ∈ keys) (now : Nat) (content : String)
    (lifetime : Nat) : (c.put now key content lifetime).Within keys := by
  rw [h.put_eq hkey]
  have hset := Assoc.keys_set key (⟨content, now + lifetime, now⟩ : CacheEntry) c.entries
  refine ⟨?_, ?_, h.room⟩
  · exact Assoc.nodup_keys_set h.nodup _
  · show (Assoc.set key _ c.entries).map (·.1) ⊆ keys
    rw [hset]
    split
    · exact h.subset
    · exact List.append_subset.2 ⟨h.subset, List.cons_subset.2 ⟨hkey, List.nil_subset _⟩⟩

theorem Within.get (h : c.Within keys) (now : Nat) (key : String) : (c.get now key).2.Within keys := by
  unfold MemoryCache.get
  split
  · exact h
  · rename_i e hfound
    split
    · have hmem : key ∈ c.entries.map (·.1) := Assoc.isSome_lookup_iff.1 (by rw [hfound]; rfl)
      have hset := Assoc.keys_set key { e with lastUse := now } c.entries
      rw [if_pos hmem] at hset
      exact ⟨by rw [hset]; exact h.nodup, by rw [hset]; exact h.subset, h.room⟩
    · have hsub : (c.remove key).entries.Sublist c.entries := List.filter_sublist
      exact ⟨(hsub.map _).nodup h.nodup, List.Subset.trans (hsub.map _).subset h.subset, h.room⟩

variable {content : String} {expiresAt : Nat}

/-- What a cache has and what has not expired is found. -/
theorem Holds.found (h : c.Holds key content expiresAt) {now : Nat} (hnow : now < expiresAt) :
    (c.get now key).1 = some content := by
  obtain ⟨lastUse, hlookup⟩ := h
  unfold MemoryCache.get
  rw [hlookup]
  simp [CacheEntry.isAlive, hnow]

/-- A look-up under any key leaves it there. -/
theorem Holds.get (h : c.Holds key content expiresAt) {now : Nat} (hnow : now < expiresAt)
    (key' : String) : (c.get now key').2.Holds key content expiresAt := by
  obtain ⟨lastUse, hlookup⟩ := h
  unfold MemoryCache.get
  by_cases hkey : key = key'
  · subst hkey
    rw [hlookup]
    dsimp only
    rw [if_pos (by simp [CacheEntry.isAlive, hnow])]
    exact ⟨now, Assoc.lookup_set key _ c.entries⟩
  · split
    · exact ⟨lastUse, hlookup⟩
    · split
      · exact ⟨lastUse, (Assoc.lookup_set_ne hkey _ c.entries).trans hlookup⟩
      · exact ⟨lastUse, (Assoc.lookup_filter_ne hkey c.entries).trans hlookup⟩

/-- So does a text that is put under another key. -/
theorem Holds.put (h : c.Holds key content expiresAt) (hwithin : c.Within keys) {key' : String}
    (hkey' : key' ∈ keys) (hne : key ≠ key') (now : Nat) (content' : String) (lifetime : Nat) :
    (c.put now key' content' lifetime).Holds key content expiresAt := by
  obtain ⟨lastUse, hlookup⟩ := h
  rw [hwithin.put_eq hkey']
  exact ⟨lastUse, (Assoc.lookup_set_ne hne _ c.entries).trans hlookup⟩

/-- What has just been put is there for its lifetime. -/
theorem holds_put (key content : String) (now lifetime : Nat) (c : MemoryCache) :
    (c.put now key content lifetime).Holds key content (now + lifetime) :=
  ⟨now, Assoc.lookup_set key _ _⟩

end MemoryCache

end FieldQuery
