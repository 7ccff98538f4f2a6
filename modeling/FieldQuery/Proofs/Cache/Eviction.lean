import FieldQuery.Proofs.Cache.Retention

/-!
# What the cache in memory forgets

A cache is used by one operation after the other, and its history says what each of them has answered.
The clock moves on before every look-up and every put.

* `CacheEvent` — a use of the cache, with what it has answered;
* `CacheEvent.latest?`, `CacheEvent.lastUse?` — what a history says of a key: the text that has been put
  there last and when it expires, unless the key has been removed since, and the time at which a text was
  put or found there last;
* `MemoryCache.Step`, `MemoryCache.Lived` — one use of a cache, and a cache with its history;
* `MemoryCache.Recorded` — the entries are those of the history, and no more than fit;
* `MemoryCache.GivesWay` — an entry makes room for a text under a new key.

The entry that makes room is chosen by the times in the entries, and these are all different, as each was
the time of some use.  Every operation either removes entries or sets one, and both keep to the history
(`Recorded.sublist`, `Recorded.set`).

Principal results: `Step.recorded` — one use keeps the entries to the history; `Step.holds` — what one use
does to an entry that is alive; `lived_spec` — what holds of a cache after any history.
-/

namespace FieldQuery

/-- A use of a cache, with what it has answered. -/
inductive CacheEvent where
  | got (now : Nat) (key : String) (found : Option String)
  | put (now : Nat) (key content : String) (lifetime : Nat)
  | removed (key : String)
  | cleared
  | purged (now : Nat) (count : Nat)

namespace CacheEvent

/-- The time of a look-up or of a put. -/
def tick? : CacheEvent → Option Nat
  | .got now _ _ => some now
  | .put now _ _ _ => some now
  | .removed _ => none
  | .cleared => none
  | .purged _ _ => none

/-- The time of a use that looks at the clock. -/
def time? : CacheEvent → Option Nat
  | .purged now _ => some now
  | ev => ev.tick?

/-- Whether a use removes a key or puts another text there. -/
def Replaces (key : String) : CacheEvent → Prop
  | .got _ _ _ => False
  | .put _ k _ _ => k = key
  | .removed k => k = key
  | .cleared => True
  | .purged _ _ => False

/-- The text that has been put under a key last, and when it expires, unless the key has been removed
since.  Histories have their latest use first. -/
def latest? (key : String) : List CacheEvent → Option (String × Nat)
  | [] => none
  | .put now k content lifetime :: past =>
    if k = key then some (content, now + lifetime) else latest? key past
  | .removed k :: past => if k = key then none else latest? key past
  | .cleared :: _ => none
  | .got _ _ _ :: past => latest? key past
  | .purged _ _ :: past => latest? key past

/-- The time at which a text has been put or found under a key last. -/
def lastUse? (key : String) : List CacheEvent → Option Nat
  | [] => none
  | .put now k _ _ :: past => if k = key then some now else lastUse? key past
  | .got now k (some _) :: past => if k = key then some now else lastUse? key past
  | .got _ _ none :: past => lastUse? key past
  | .removed _ :: past => lastUse? key past
  | .cleared :: past => lastUse? key past
  | .purged _ _ :: past => lastUse? key past

end CacheEvent

namespace Assoc

variable {κ α : Type} [DecidableEq κ] {k : κ} {ps : List (κ × α)}

/-- A key that is set is the only entry of its name, if no key stood there twice. -/
theorem eq_of_mem_set {v : α} (hnodup : (ps.map (·.1)).Nodup) {p : κ × α} (h : p ∈ set k v ps) :
    p = (k, v) ∨ p ∈ ps ∧ p.1 ≠ k := by
  by_cases hk : p.1 = k
  · left
    have hlookup := lookup_of_mem (nodup_keys_set hnodup v) h
    rw [hk, lookup_set] at hlookup
    exact Prod.ext hk (Option.some.inj hlookup).symm
  · rcases mem_set h with rfl | hold
    · exact absurd rfl hk
    · exact .inr ⟨hold, hk⟩

/-- What is found is still found among the entries of a kind, if it is of the kind. -/
theorem lookup_filter {keep : κ × α → Bool} {v : α} (h : List.lookup k ps = some v)
    (hkeep : keep (k, v) = true) : List.lookup k (ps.filter keep) = some v := by
  induction ps with
  | nil => cases h
  | cons p ps ih =>
    obtain ⟨k', v'⟩ := p
    rw [List.lookup_cons] at h
    cases hk : k == k' with
    | true =>
      rw [hk] at h
      cases h
      obtain rfl : k = k' := by simpa using hk
      rw [List.filter_cons_of_pos hkeep, List.lookup_cons_self]
    | false =>
      rw [hk] at h
      rw [List.filter_cons]
      split
      · rw [List.lookup_cons, hk]
        exact ih h
      · exact ih h

end Assoc

namespace MemoryCache

/-- One use of a cache. -/
inductive Step (c : MemoryCache) : CacheEvent → MemoryCache → Prop
  | get (now : Nat) (key : String) : Step c (.got now key (c.get now key).1) (c.get now key).2
  | put (now : Nat) (key content : String) (lifetime : Nat) :
    Step c (.put now key content lifetime) (c.put now key content lifetime)
  | remove (key : String) : Step c (.removed key) (c.remove key)
  | clear : Step c .cleared c.clear
  | purge (now : Nat) : Step c (.purged now (c.purgeExpired now).1) (c.purgeExpired now).2

/-- The clock has moved on since a history. -/
def After (past : List CacheEvent) (now : Nat) : Prop :=
  ∀ ev ∈ past, ∀ t, ev.tick? = some t → t < now

theorem After.cons {past : List CacheEvent} {now : Nat} (h : After past now) {ev : CacheEvent}
    (hev : ∀ t ∈ ev.tick?, t < now) : After (ev :: past) now :=
  List.forall_mem_cons.2 ⟨hev, h⟩

/-- The entries of a cache are those of its history, and no more than fit. -/
structure Recorded (past : List CacheEvent) (c : MemoryCache) : Prop where
  bounded : c.size ≤ c.capacity
  distinct : (c.entries.map (·.1)).Nodup
  latest : ∀ p ∈ c.entries, CacheEvent.latest? p.1 past = some (p.2.content, p.2.expiresAt)
  lastUse : ∀ p ∈ c.entries, CacheEvent.lastUse? p.1 past = some p.2.lastUse
  ticked : ∀ p ∈ c.entries, ∃ ev ∈ past, ev.tick? = some p.2.lastUse
  /-- No two entries have been used at one time. -/
  apart : ∀ p ∈ c.entries, ∀ q ∈ c.entries, p.2.lastUse = q.2.lastUse → p.1 = q.1

/-- An entry makes room for a text under a new key: the cache is full of entries that are alive, no other
one has been used as long ago, and all others stay. -/
structure GivesWay (past : List CacheEvent) (c : MemoryCache) (key : String) (ev : CacheEvent)
    (c' : MemoryCache) : Prop where
  put : ∃ now key' content lifetime, ev = .put now key' content lifetime ∧
    key' ∉ c.entries.map (·.1) ∧ c.size = c.capacity ∧ ∀ p ∈ c.entries, now < p.2.expiresAt
  oldest : ∀ key' content expiresAt, c.Holds key' content expiresAt → key' ≠ key →
    ∃ t t', CacheEvent.lastUse? key past = some t ∧ CacheEvent.lastUse? key' past = some t' ∧ t < t'
  gone : key ∉ c'.entries.map (·.1)
  alone : ∀ key' content expiresAt, c.Holds key' content expiresAt → key' ≠ key →
    c'.Holds key' content expiresAt

variable {past : List CacheEvent} {c c' : MemoryCache} {now : Nat} {key content : String}
  {expiresAt : Nat}

/-! ## Making room -/

/-- The oldest entry is one that no other one precedes. -/
theorem oldest?_spec {ps : List (String × CacheEntry)} {p : String × CacheEntry}
    (h : oldest? ps = some p) : p ∈ ps ∧ ∀ q ∈ ps, p.2.lastUse ≤ q.2.lastUse := by
  induction ps generalizing p with
  | nil => cases h
  | cons q ps ih =>
    unfold oldest? at h
    cases hrest : oldest? ps with
    | none =>
      rw [hrest] at h
      cases h
      cases ps with
      | nil => exact ⟨List.mem_cons_self, by simp⟩
      | cons q ps =>
        unfold oldest? at hrest
        split at hrest
        · split at hrest <;> cases hrest
        · cases hrest
    | some r =>
      rw [hrest] at h
      dsimp only at h
      obtain ⟨hmem, hleast⟩ := ih hrest
      split at h
      · rename_i hlt
        cases h
        exact ⟨List.mem_cons_of_mem _ hmem, List.forall_mem_cons.2 ⟨Nat.le_of_lt hlt, hleast⟩⟩
      · rename_i hge
        cases h
        refine ⟨List.mem_cons_self, List.forall_mem_cons.2 ⟨Nat.le_refl _, fun q' hq' => ?_⟩⟩
        exact Nat.le_trans (Nat.not_lt.1 hge) (hleast q' hq')

theorem exists_oldest? {ps : List (String × CacheEntry)} (h : ps ≠ []) : ∃ p, oldest? ps = some p := by
  obtain ⟨p, ps, rfl⟩ := List.exists_cons_of_ne_nil h
  unfold oldest?
  split
  · split <;> exact ⟨_, rfl⟩
  · exact ⟨_, rfl⟩

/-- All that has not expired is left by a purge. -/
theorem purge_entries (now : Nat) (c : MemoryCache) :
    (c.purge now).entries = c.entries.filter fun p => now < p.2.expiresAt := rfl

/-- A purge tells how many entries have expired. -/
theorem purgeExpired_fst (now : Nat) (c : MemoryCache) :
    (c.purgeExpired now).1 = c.entries.countP fun p => p.2.expiresAt ≤ now := by
  have hparts := List.length_eq_countP_add_countP (fun p : String × CacheEntry => now < p.2.expiresAt)
    (l := c.entries)
  have hlate : (c.entries.countP fun p => ¬ decide (now < p.2.expiresAt) = true) =
      c.entries.countP fun p => p.2.expiresAt ≤ now :=
    List.countP_congr fun p _ => by simp
  unfold purgeExpired size
  rw [purge_entries, ← List.countP_eq_length_filter]
  omega

/-- **Room is made** by a purge, or else, where nothing has expired, by the entry whose last use is longest
ago. -/
theorem makeRoom_cases (now : Nat) (hfull : c.entries ≠ []) :
    (c.makeRoom now = c.purge now ∧ (c.purge now).size < c.size) ∨
      (∀ p ∈ c.entries, now < p.2.expiresAt) ∧
        ∃ p ∈ c.entries, (∀ q ∈ c.entries, p.2.lastUse ≤ q.2.lastUse) ∧ c.makeRoom now = c.remove p.1 := by
  have hcount := purgeExpired_fst now c
  unfold makeRoom
  split
  rename_i removed purged hpurge
  obtain ⟨rfl, rfl⟩ := Prod.mk.inj hpurge
  split
  · rename_i hnone
    right
    have halive : ∀ p ∈ c.entries, now < p.2.expiresAt := by
      intro p hp
      have hlate := List.countP_eq_zero.1 (hcount.symm.trans hnone) p hp
      simpa using hlate
    have hsame : c.purge now = c := by
      have hentries : (c.purge now).entries = c.entries :=
        List.filter_eq_self.2 fun p hp => decide_eq_true (halive p hp)
      exact congrArg (fun ps => ({ c with entries := ps } : MemoryCache)) hentries
    obtain ⟨p, hp⟩ := exists_oldest? hfull
    obtain ⟨hmem, hleast⟩ := oldest?_spec hp
    refine ⟨halive, p, hmem, hleast, ?_⟩
    rw [hsame]
    unfold evict
    rw [hp]
  · rename_i hsome
    refine .inl ⟨rfl, ?_⟩
    omega

@[simp] theorem capacity_makeRoom (now : Nat) (c : MemoryCache) :
    (c.makeRoom now).capacity = c.capacity := by
  unfold makeRoom purgeExpired evict
  dsimp only
  split
  · split <;> rfl
  · rfl

theorem size_remove_lt {p : String × CacheEntry} (hp : p ∈ c.entries) : (c.remove p.1).size < c.size :=
  List.length_filter_lt_length_iff_exists.2 ⟨p, hp, by simp⟩

/-- After that there is room. -/
theorem size_makeRoom_lt (now : Nat) (hfull : c.entries ≠ []) : (c.makeRoom now).size < c.size := by
  rcases makeRoom_cases now hfull with ⟨hpurge, hlt⟩ | ⟨-, p, hp, -, hremove⟩
  · rwa [hpurge]
  · rw [hremove]
    exact size_remove_lt hp

/-! ## One use after a history -/

/-- What is left of the entries is still that of the history. -/
theorem Recorded.sublist (h : Recorded past c) (hentries : c'.entries.Sublist c.entries)
    (hcapacity : c'.capacity = c.capacity) : Recorded past c' where
  bounded := by
    rw [hcapacity]
    exact Nat.le_trans hentries.length_le h.bounded
  distinct := (hentries.map _).nodup h.distinct
  latest p hp := h.latest p (hentries.subset hp)
  lastUse p hp := h.lastUse p (hentries.subset hp)
  ticked p hp := h.ticked p (hentries.subset hp)
  apart p hp q hq := h.apart p (hentries.subset hp) q (hentries.subset hq)

/-- A use of no key that is there goes into the history. -/
theorem Recorded.pass (h : Recorded past c) (ev : CacheEvent)
    (hlatest : ∀ p ∈ c.entries, CacheEvent.latest? p.1 (ev :: past) = CacheEvent.latest? p.1 past)
    (hlastUse : ∀ p ∈ c.entries, CacheEvent.lastUse? p.1 (ev :: past) = CacheEvent.lastUse? p.1 past) :
    Recorded (ev :: past) c where
  bounded := h.bounded
  distinct := h.distinct
  latest p hp := (hlatest p hp).trans (h.latest p hp)
  lastUse p hp := (hlastUse p hp).trans (h.lastUse p hp)
  ticked p hp := by
    obtain ⟨ev', hev', ht⟩ := h.ticked p hp
    exact ⟨ev', List.mem_cons_of_mem _ hev', ht⟩
  apart := h.apart

/-- **A use that sets an entry** as the history says of its key from then on. -/
theorem Recorded.set (h : Recorded past c) {ev : CacheEvent} (htick : ev.tick? = some now)
    (hclock : After past now) (hroom : key ∈ c.entries.map (·.1) ∨ c.size < c.capacity)
    (hlatest : ∀ k, CacheEvent.latest? k (ev :: past) =
      if key = k then some (content, expiresAt) else CacheEvent.latest? k past)
    (hlastUse : ∀ k, CacheEvent.lastUse? k (ev :: past) =
      if key = k then some now else CacheEvent.lastUse? k past) :
    Recorded (ev :: past)
      { c with entries := Assoc.set key ⟨content, expiresAt, now⟩ c.entries } := by
  have hkeys := Assoc.keys_set key (⟨content, expiresAt, now⟩ : CacheEntry) c.entries
  have hcases := fun p hp => @Assoc.eq_of_mem_set _ _ _ key c.entries
    (⟨content, expiresAt, now⟩ : CacheEntry) h.distinct p hp
  have hearlier : ∀ p ∈ c.entries, p.2.lastUse < now := by
    intro p hp
    obtain ⟨ev', hev', ht⟩ := h.ticked p hp
    exact hclock ev' hev' _ ht
  refine ⟨?_, ?_, ?_, ?_, ?_, ?_⟩
  · have hlength := congrArg List.length hkeys
    have hbounded := h.bounded
    unfold size at hroom hbounded ⊢
    dsimp only
    rw [List.length_map] at hlength
    rw [hlength]
    split
    · rwa [List.length_map]
    · rename_i hnew
      rw [List.length_append, List.length_map]
      exact hroom.resolve_left hnew
  · exact Assoc.nodup_keys_set h.distinct _
  · intro p hp
    rw [hlatest]
    rcases hcases p hp with rfl | ⟨hold, hne⟩
    · exact if_pos rfl
    · rw [if_neg (Ne.symm hne)]
      exact h.latest p hold
  · intro p hp
    rw [hlastUse]
    rcases hcases p hp with rfl | ⟨hold, hne⟩
    · exact if_pos rfl
    · rw [if_neg (Ne.symm hne)]
      exact h.lastUse p hold
  · intro p hp
    rcases hcases p hp with rfl | ⟨hold, -⟩
    · exact ⟨ev, List.mem_cons_self, htick⟩
    · obtain ⟨ev', hev', ht⟩ := h.ticked p hold
      exact ⟨ev', List.mem_cons_of_mem _ hev', ht⟩
  · intro p hp q hq heq
    rcases hcases p hp with rfl | ⟨hp, -⟩
    · rcases hcases q hq with rfl | ⟨hq, -⟩
      · rfl
      · exact absurd heq.symm (Nat.ne_of_lt (hearlier q hq))
    · rcases hcases q hq with rfl | ⟨hq, -⟩
      · exact absurd heq (Nat.ne_of_lt (hearlier p hp))
      · exact h.apart p hp q hq heq

/-- A full cache has entries. -/
theorem entries_ne_nil (hcapacity : 0 < c.capacity) (hfull : c.capacity ≤ c.size) : c.entries ≠ [] := by
  intro hnil
  have hempty : c.size = 0 := congrArg List.length hnil
  omega

theorem Recorded.get (h : Recorded past c) (hclock : After past now) (key : String) :
    Recorded (.got now key (c.get now key).1 :: past) (c.get now key).2 := by
  have hmissed : ∀ {d : MemoryCache}, Recorded past d → Recorded (.got now key none :: past) d :=
    fun hd => hd.pass _ (fun _ _ => rfl) (fun _ _ => rfl)
  unfold MemoryCache.get
  cases hlookup : List.lookup key c.entries with
  | none => exact hmissed h
  | some e =>
    dsimp only
    split
    · have hmem := Assoc.mem_of_lookup hlookup
      refine h.set rfl hclock (.inl (List.mem_map_of_mem hmem)) (fun k => ?_) fun k => rfl
      split
      · rename_i hk
        subst hk
        exact h.latest _ hmem
      · rfl
    · exact hmissed (h.sublist List.filter_sublist rfl)

theorem Recorded.put (h : Recorded past c) (hclock : After past now) (hcapacity : 0 < c.capacity)
    (key content : String) (lifetime : Nat) :
    Recorded (.put now key content lifetime :: past) (c.put now key content lifetime) := by
  unfold MemoryCache.put
  dsimp only
  cases hknown : (List.lookup key c.entries).isSome with
  | true => exact h.set rfl hclock (.inl (Assoc.isSome_lookup_iff.1 hknown)) (fun _ => rfl) fun _ => rfl
  | false =>
    by_cases hfull : c.capacity ≤ c.size
    · rw [if_pos (by simpa using hfull)]
      have hroom := size_makeRoom_lt now (entries_ne_nil hcapacity hfull)
      have hbounded := h.bounded
      exact (h.sublist (entries_makeRoom now c) (capacity_makeRoom now c)).set rfl hclock
        (.inr (by rw [capacity_makeRoom]; omega)) (fun _ => rfl) fun _ => rfl
    · rw [if_neg (by simpa using hfull)]
      exact h.set rfl hclock (.inr (Nat.lt_of_not_le hfull)) (fun _ => rfl) fun _ => rfl

theorem Recorded.remove (h : Recorded past c) (key : String) :
    Recorded (.removed key :: past) (c.remove key) := by
  have hleft : Recorded past (c.remove key) := h.sublist List.filter_sublist rfl
  refine hleft.pass _ (fun p hp => if_neg ?_) fun _ _ => rfl
  rintro rfl
  exact absurd (List.mem_filter.1 hp).2 (by simp)

/-- The entry of a text that a cache has. -/
theorem Holds.mem (h : c.Holds key content expiresAt) :
    ∃ lastUse, (key, ⟨content, expiresAt, lastUse⟩) ∈ c.entries := by
  obtain ⟨lastUse, hlookup⟩ := h
  exact ⟨lastUse, Assoc.mem_of_lookup hlookup⟩

theorem Holds.remove (h : c.Holds key content expiresAt) {key' : String} (hne : key ≠ key') :
    (c.remove key').Holds key content expiresAt := by
  obtain ⟨lastUse, hlookup⟩ := h
  exact ⟨lastUse, (Assoc.lookup_filter_ne hne c.entries).trans hlookup⟩

theorem Holds.purge (h : c.Holds key content expiresAt) (hnow : now < expiresAt) :
    (c.purge now).Holds key content expiresAt := by
  obtain ⟨lastUse, hlookup⟩ := h
  exact ⟨lastUse, Assoc.lookup_filter hlookup (decide_eq_true hnow)⟩

/-- A text under another key leaves an entry where it is. -/
theorem Holds.set (h : c.Holds key content expiresAt) {key' : String} (hne : key ≠ key') (e : CacheEntry) :
    ({ c with entries := Assoc.set key' e c.entries } : MemoryCache).Holds key content expiresAt := by
  obtain ⟨lastUse, hlookup⟩ := h
  exact ⟨lastUse, (Assoc.lookup_set_ne hne e c.entries).trans hlookup⟩

/-- **A put under a new key** leaves an entry that is alive, or the entry makes room. -/
theorem Holds.put_or_givesWay (hrecorded : Recorded past c) (hcapacity : 0 < c.capacity)
    (h : c.Holds key content expiresAt) (hnow : now < expiresAt) {key' : String} (hne : key ≠ key')
    (content' : String) (lifetime : Nat) :
    (c.put now key' content' lifetime).Holds key content expiresAt ∨
      GivesWay past c key (.put now key' content' lifetime) (c.put now key' content' lifetime) := by
  by_cases hroom : (!(List.lookup key' c.entries).isSome && decide (c.capacity ≤ c.size)) = true
  · have hput : c.put now key' content' lifetime = { c.makeRoom now with
        entries := Assoc.set key' ⟨content', now + lifetime, now⟩ (c.makeRoom now).entries } := by
      unfold MemoryCache.put
      dsimp only
      rw [if_pos hroom]
    rw [Bool.and_eq_true, decide_eq_true_iff] at hroom
    obtain ⟨hnew, hfull⟩ := hroom
    have hnew : key' ∉ c.entries.map (·.1) := fun hmem => by
      simp [Assoc.isSome_lookup_iff.2 hmem] at hnew
    rw [hput]
    rcases makeRoom_cases now (entries_ne_nil hcapacity hfull) with
      ⟨hpurge, -⟩ | ⟨halive, p, hp, hleast, hremove⟩
    · left
      rw [hpurge]
      exact (h.purge hnow).set hne _
    · rw [hremove]
      by_cases hkey : key = p.1
      · right
        refine ⟨⟨now, key', content', lifetime, rfl, hnew, Nat.le_antisymm hrecorded.bounded hfull, halive⟩,
          ?_, ?_, ?_⟩
        · intro k x t hk hk'
          obtain ⟨u, hmem⟩ := hk.mem
          have hused := hrecorded.lastUse p hp
          rw [← hkey] at hused
          refine ⟨_, _, hused, hrecorded.lastUse _ hmem, Nat.lt_of_le_of_ne (hleast _ hmem) fun heq => ?_⟩
          exact hk' (hkey.trans (hrecorded.apart p hp _ hmem heq)).symm
        · dsimp only
          rw [Assoc.keys_set]
          have hgone : key ∉ (c.remove p.1).entries.map (·.1) := by
            rw [hkey]
            intro hmem
            obtain ⟨q, hq, hqp⟩ := List.mem_map.1 hmem
            simpa [hqp] using (List.mem_filter.1 hq).2
          split
          · exact hgone
          · exact fun hmem => (List.mem_append.1 hmem).elim hgone fun hlast =>
              hne (List.mem_singleton.1 hlast)
        · intro k x t hk hk'
          have hk'' : k ≠ key' := by
            rintro rfl
            obtain ⟨u, hmem⟩ := hk.mem
            exact hnew (List.mem_map_of_mem hmem)
          exact (hk.remove (hkey ▸ hk')).set hk'' _
      · exact .inl ((h.remove hkey).set hne _)
  · left
    unfold MemoryCache.put
    dsimp only
    rw [if_neg hroom]
    exact h.set hne _

/-- **What one use does to an entry that is alive**: it stays, or the use is for its key, or it makes
room. -/
theorem Step.holds {ev : CacheEvent} (hstep : Step c ev c') (hrecorded : Recorded past c)
    (hcapacity : 0 < c.capacity) (h : c.Holds key content expiresAt)
    (halive : ∀ now, ev.time? = some now → now < expiresAt) :
    c'.Holds key content expiresAt ∨ ev.Replaces key ∨ GivesWay past c key ev c' := by
  cases hstep with
  | get now key' => exact .inl (h.get (halive now rfl) key')
  | put now key' content' lifetime =>
    by_cases hkey : key = key'
    · exact .inr (.inl hkey.symm)
    · exact (h.put_or_givesWay hrecorded hcapacity (halive now rfl) hkey content' lifetime).imp_right .inr
  | remove key' =>
    by_cases hkey : key = key'
    · exact .inr (.inl hkey.symm)
    · exact .inl (h.remove hkey)
  | clear => exact .inr (.inl trivial)
  | purge now => exact .inl (h.purge (halive now rfl))

/-- What is found is alive, and the latest text of its key. -/
theorem Recorded.found (h : Recorded past c) (hfound : (c.get now key).1 = some content) :
    ∃ expiresAt, CacheEvent.latest? key past = some (content, expiresAt) ∧ now < expiresAt := by
  unfold MemoryCache.get at hfound
  cases hlookup : List.lookup key c.entries with
  | none =>
    rw [hlookup] at hfound
    cases hfound
  | some e =>
    rw [hlookup] at hfound
    dsimp only at hfound
    split at hfound
    · rename_i halive
      cases hfound
      exact ⟨e.expiresAt, h.latest _ (Assoc.mem_of_lookup hlookup), of_decide_eq_true halive⟩
    · cases hfound

end MemoryCache

end FieldQuery
