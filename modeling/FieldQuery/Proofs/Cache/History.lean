import FieldQuery.Cache.Memory

/-!
# What a cache may find

What is known of a cache is its history: the texts that have been put into it, and under which keys.

* `Cache.Reached` — a state after some calls, with the puts among them, the latest first;
* `Cache.IsHonest` — under a key a text is found that was put there, or one that its reader cannot
  read, or nothing, or an error.  It may forget and fail at any time;
* `Cache.Faithful` — everything that has been put into a cache has some property.

Principal results: `Cache.IsHonest.fetch` — what an honest cache finds has the property of what was put
there, and `MemoryCache.isHonest` — the cache in memory is honest, whatever its capacity.
-/

namespace FieldQuery

variable {σ α : Type}

namespace Cache

/-- The states of a cache after some calls, with the keys and the texts that have been put. -/
inductive Reached (c : Cache σ) (start : σ) : List (String × String) → σ → Prop
  | start : Reached c start [] start
  | get {puts : List (String × String)} {s : σ} (h : Reached c start puts s) (now : Nat)
      (key : String) : Reached c start puts (c.get now key s).2
  | put {puts : List (String × String)} {s : σ} (h : Reached c start puts s) (now : Nat)
      (key content : String) (lifetime : Nat) :
      Reached c start ((key, content) :: puts) (c.put now key content lifetime s).2

/-- What a reader is given under a key has been put there. -/
def IsHonest (c : Cache σ) (read : String → Option α) (start : σ) : Prop :=
  ∀ puts s, c.Reached start puts s → ∀ now key content,
    (c.get now key s).1 = .ok (some content) → (read content).isSome = true → (key, content) ∈ puts

/-- A state in which everything that has been put has a property. -/
def Faithful (c : Cache σ) (start : σ) (good : String → String → Prop) (s : σ) : Prop :=
  ∃ puts, c.Reached start puts s ∧ ∀ p ∈ puts, good p.1 p.2

section Faithful

variable {c : Cache σ} {start s : σ} {good : String → String → Prop}

theorem faithful_start : c.Faithful start good start := ⟨[], .start, by simp⟩

theorem Faithful.get (h : c.Faithful start good s) (now : Nat) (key : String) :
    c.Faithful start good (c.get now key s).2 := by
  obtain ⟨puts, hreached, hgood⟩ := h
  exact ⟨puts, hreached.get now key, hgood⟩

theorem Faithful.put (h : c.Faithful start good s) (now : Nat) {key content : String}
    (hnew : good key content) (lifetime : Nat) :
    c.Faithful start good (c.put now key content lifetime s).2 := by
  obtain ⟨puts, hreached, hgood⟩ := h
  refine ⟨_, hreached.put now key content lifetime, ?_⟩
  intro p hp
  rcases List.mem_cons.1 hp with rfl | hp
  · exact hnew
  · exact hgood p hp

theorem fetch_snd (c : Cache σ) (read : String → Option α) (now : Nat) (key : String) (s : σ) :
    (c.fetch read now key s).2 = (c.get now key s).2 := rfl

/-- **What is found has the property of what was put.** -/
theorem IsHonest.fetch {read : String → Option α} (hc : c.IsHonest read start)
    (h : c.Faithful start good s) {now : Nat} {key : String} {a : α}
    (hfound : (c.fetch read now key s).1 = .ok (some a)) :
    ∃ content, good key content ∧ read content = some a := by
  obtain ⟨puts, hreached, hgood⟩ := h
  have hdecode : decode read (c.get now key s).1 = .ok (some a) := hfound
  unfold decode at hdecode
  split at hdecode
  · cases hdecode
  · cases hdecode
  · rename_i content hget
    split at hdecode
    · rename_i a' hread
      cases hdecode
      have hput := hc puts s hreached now key content hget (by rw [hread]; rfl)
      exact ⟨content, hgood _ hput, hread⟩
    · cases hdecode

end Faithful

end Cache

/-! ## The cache in memory -/

namespace Assoc

/-- An entry of a list in which a key has been set is the new one, or has been there. -/
theorem mem_set {κ β : Type} [DecidableEq κ] {k : κ} {v : β} {ps : List (κ × β)} {p : κ × β}
    (h : p ∈ set k v ps) : p = (k, v) ∨ p ∈ ps := by
  induction ps with
  | nil => exact .inl (by simpa [set] using h)
  | cons q ps ih =>
    obtain ⟨k', v'⟩ := q
    unfold set at h
    split at h
    · rename_i hk
      rcases List.mem_cons.1 h with rfl | h
      · exact .inl (by rw [hk])
      · exact .inr (List.mem_cons_of_mem _ h)
    · rcases List.mem_cons.1 h with rfl | h
      · exact .inr List.mem_cons_self
      · exact (ih h).imp_right (List.mem_cons_of_mem _)

/-- What is looked up is an entry. -/
theorem mem_of_lookup {κ β : Type} [DecidableEq κ] {k : κ} {v : β} {ps : List (κ × β)}
    (h : List.lookup k ps = some v) : (k, v) ∈ ps := by
  obtain ⟨before, after, rfl, -⟩ := List.lookup_eq_some_iff.1 h
  simp

end Assoc

namespace MemoryCache

/-- Room is made by removing entries. -/
theorem entries_makeRoom (now : Nat) (c : MemoryCache) :
    (c.makeRoom now).entries.Sublist c.entries := by
  have hpurge : (c.purge now).entries.Sublist c.entries := List.filter_sublist
  unfold makeRoom purgeExpired
  dsimp only
  split
  · unfold evict
    split
    · exact List.filter_sublist.trans hpurge
    · exact hpurge
  · exact hpurge

/-- Every entry has been put. -/
theorem entries_put {start c : MemoryCache} (hstart : start.entries = [])
    {puts : List (String × String)} (h : cache.Reached start puts c) :
    ∀ p ∈ c.entries, (p.1, p.2.content) ∈ puts := by
  induction h with
  | start => simp [hstart]
  | @get puts c _ now key ih =>
    intro p hp
    have hentries : p ∈ (c.get now key).2.entries := hp
    unfold MemoryCache.get at hentries
    split at hentries
    · exact ih p hentries
    · rename_i e hlookup
      split at hentries
      · rcases Assoc.mem_set hentries with rfl | hold
        · exact ih (key, e) (Assoc.mem_of_lookup hlookup)
        · exact ih p hold
      · exact ih p (List.mem_filter.1 hentries).1
  | @put puts c _ now key content lifetime ih =>
    intro p hp
    have hentries : p ∈ (c.put now key content lifetime).entries := hp
    unfold MemoryCache.put at hentries
    dsimp only at hentries
    rcases Assoc.mem_set hentries with rfl | hold
    · exact List.mem_cons_self
    · refine List.mem_cons_of_mem _ (ih p ?_)
      split at hold
      · exact (entries_makeRoom now c).subset hold
      · exact hold

/-- **The cache in memory is honest.** -/
theorem isHonest (maxEntries : Nat) (read : String → Option α) :
    cache.IsHonest read (empty maxEntries) := by
  intro puts c hreached now key content hget _
  have hfound : (c.get now key).1 = some content := by
    have hget : Except.ok (c.get now key).1 = (.ok (some content) : Except CacheError _) := hget
    exact Except.ok.inj hget
  unfold MemoryCache.get at hfound
  split at hfound
  · cases hfound
  · rename_i e hlookup
    split at hfound
    · cases hfound
      exact entries_put rfl hreached _ (Assoc.mem_of_lookup hlookup)
    · cases hfound

end MemoryCache

end FieldQuery
