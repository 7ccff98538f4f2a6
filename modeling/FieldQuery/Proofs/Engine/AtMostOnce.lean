import FieldQuery.Proofs.Cache.Retention
import FieldQuery.Proofs.Engine.Keys
import FieldQuery.Proofs.Engine.Repeated
import FieldQuery.Proofs.Engine.NeverNull
import FieldQuery.Proofs.Value.Decoded

/-!
# Cacheable fields are computed once

* `Moment.key?`, `Use.key?` — the key under which a use looks into the cache;
* `Engine.Invokes` — a turn in which the computation of the field is run;
* `Engine.TurnCache` — what a turn does to the cache: nothing, or a look-up under its key and maybe a put
  under the same key, if nothing was found and a value has been computed;
* `Engine.OrderKey` — the keys of cached orders.

A value that has been computed is put under a key made of all that the computation is given.  As long as the
cache never has to make room, and until the value expires, every turn with that key finds a text there, so
that none of them puts another one.

Principal results: `Uses.holds` — the text stays through all uses, `turn_recalls` — a turn with the same key
finds it, and `computed_once` — a later batch yields the value again without computing it, if its text can
be read back.  `computed_again` — a decimal that is no number is computed again in each batch.
-/

namespace FieldQuery

variable {σ : Type}

/-- The key under which a turn looks for a value. -/
def Moment.key? (en : Engine σ) (t : Moment σ) : Option String :=
  match t.inputs with
  | .ok i => (en.slot? t.field t.entity i).map Slot.key
  | .error _ => none

namespace Engine

/-- The key under which a use looks into the cache. -/
def Use.key? (en : Engine σ) : Use σ → Option String
  | .turn t => t.key? en
  | .findOrder key => some key
  | .keepOrder key _ _ => some key
  | .wait _ => none

/-- A turn in which the computation of the field is run: it has its inputs, and no value has been found. -/
def Invokes (en : Engine σ) (t : Moment σ) : Prop :=
  ∃ i, t.inputs = .ok i ∧
    ∀ slot, en.slot? t.field t.entity i = some slot → (findCached slot t.progress).1 = none

/-- The key of a cached order. -/
def OrderKey (en : Engine σ) (key : String) : Prop := ∃ text, key = "sort:" ++ en.digest text

/-- What a turn does to the cache. -/
inductive TurnCache (en : Engine σ) (cache : Cache σ) (t : Moment σ) : Prop
  | apart (hkey : t.key? en = none) (hsame : (en.turn t).2.cache = t.progress.cache)
  | recalled {key : String} {a : Value} (hkey : t.key? en = some key)
      (hfound : (cache.fetch Value.decode? (t.progress.clock + 1) key t.progress.cache).1 =
        .ok (some a))
      (hturn : en.turn t = (.ok a, { t.progress with
        cache := (cache.get (t.progress.clock + 1) key t.progress.cache).2
        clock := t.progress.clock + 1
        stats := { t.progress.stats with cacheHits := t.progress.stats.cacheHits + 1 } }))
      (hrecalls : ¬ en.Invokes t)
  | failed {key : String} {err : ComputationError} (hkey : t.key? en = some key)
      (hmissed : ∀ a', (cache.fetch Value.decode? (t.progress.clock + 1) key t.progress.cache).1 ≠
        .ok (some a'))
      (hvalue : (en.turn t).1 = .error err)
      (hlook : (en.turn t).2.cache = (cache.get (t.progress.clock + 1) key t.progress.cache).2)
      (hclock : t.progress.clock < (en.turn t).2.clock)
  | computed {key : String} {a : Value} (hkey : t.key? en = some key)
      (hmissed : ∀ a', (cache.fetch Value.decode? (t.progress.clock + 1) key t.progress.cache).1 ≠
        .ok (some a'))
      (hvalue : (en.turn t).1 = .ok a)
      (hput : (en.turn t).2.cache = (cache.put (en.turn t).2.clock key a.encode (en.lifetime t.field)
        (cache.get (t.progress.clock + 1) key t.progress.cache).2).2)
      (hclock : t.progress.clock < (en.turn t).2.clock)

section Turns

variable {en : Engine σ} {cache : Cache σ}

/-- A look-up that finds a value. -/
theorem findCached_of_found (slot : Slot σ) {p : Progress σ} {a : Value}
    (h : (slot.cache.fetch Value.decode? (p.clock + 1) slot.key p.cache).1 = .ok (some a)) :
    findCached slot p = (some a, { p with
      cache := (slot.cache.get (p.clock + 1) slot.key p.cache).2
      clock := p.clock + 1
      stats := { p.stats with cacheHits := p.stats.cacheHits + 1 } }) := by
  unfold findCached
  dsimp only
  rw [← Cache.fetch_snd slot.cache Value.decode?]
  generalize slot.cache.fetch Value.decode? (p.clock + 1) slot.key p.cache = fetched at h ⊢
  obtain ⟨found, s⟩ := fetched
  cases h
  rfl

/-- A look-up that finds none. -/
theorem findCached_of_missed (slot : Slot σ) {p : Progress σ}
    (h : ∀ a, (slot.cache.fetch Value.decode? (p.clock + 1) slot.key p.cache).1 ≠ .ok (some a)) :
    (findCached slot p).1 = none ∧
      (findCached slot p).2.cache = (slot.cache.get (p.clock + 1) slot.key p.cache).2 ∧
      (findCached slot p).2.clock = p.clock + 1 := by
  unfold findCached
  dsimp only
  rw [← Cache.fetch_snd slot.cache Value.decode?]
  generalize slot.cache.fetch Value.decode? (p.clock + 1) slot.key p.cache = fetched at h ⊢
  obtain ⟨found, s⟩ := fetched
  match found with
  | .error err => exact ⟨rfl, rfl, rfl⟩
  | .ok none => exact ⟨rfl, rfl, rfl⟩
  | .ok (some a) => exact absurd rfl (h a)

theorem clock_le_compute (b : Batch) (v : VirtualField) (e : Entity) (i : Inputs) (p : Progress σ) :
    p.clock ≤ (compute b v e i p).2.clock := by
  have hspend : p.clock ≤ (spend (v.computation e i) p).clock := by
    unfold spend
    split <;> exact Nat.le_add_right _ _
  rw [compute_eq]
  split
  · exact hspend
  · unfold takeOver
    split
    · exact hspend
    · split <;> exact hspend

theorem clock_remember (lifetime : Nat) (a : Value) (slot : Slot σ) (p : Progress σ) :
    (remember lifetime a slot p).clock = p.clock + 1 := by
  unfold remember
  dsimp only
  split <;> rfl

/-- A turn without a slot: it lacks an input, or its field is not cached. -/
theorem turn_apart {t : Moment σ} (h : ∀ i, t.inputs = .ok i → en.slot? t.field t.entity i = none) :
    t.key? en = none ∧ (en.turn t).2.cache = t.progress.cache ∧
      t.progress.clock ≤ (en.turn t).2.clock := by
  unfold Moment.key? turn computeOne
  unfold Moment.inputs at h ⊢
  cases hinputs : resolveInputs t.batch t.field t.entity t.computed t.progress.cancelled with
  | error err => exact ⟨rfl, rfl, Nat.le_refl _⟩
  | ok i =>
    dsimp only
    rw [h i hinputs]
    exact ⟨rfl, compute_cache _ _ _ _ _, clock_le_compute _ _ _ _ _⟩

/-- A turn with a slot. -/
theorem turn_of_slot {t : Moment σ} {i : Inputs} {slot : Slot σ} (hinputs : t.inputs = .ok i)
    (hslot : en.slot? t.field t.entity i = some slot) :
    t.key? en = some slot.key ∧
      en.turn t = en.findOrCompute t.batch t.field t.entity i slot t.progress ∧
      (en.Invokes t ↔ (findCached slot t.progress).1 = none) := by
  refine ⟨?_, ?_, ?_⟩
  · unfold Moment.key?
    rw [hinputs]
    dsimp only
    rw [hslot]
    rfl
  · unfold turn computeOne
    unfold Moment.inputs at hinputs
    rw [hinputs]
    dsimp only
    rw [hslot]
  · constructor
    · rintro ⟨i', hi', hnone⟩
      obtain rfl : i = i' := Except.ok.inj (hinputs.symm.trans hi')
      exact hnone slot hslot
    · intro hnone
      refine ⟨i, hinputs, fun slot' hslot' => ?_⟩
      obtain rfl : slot = slot' := Option.some.inj (hslot.symm.trans hslot')
      exact hnone

/-- **A turn looks into the cache under its key only.** -/
theorem turnCache (hcache : ∀ c, en.cache = some c → c = cache) (t : Moment σ) :
    en.TurnCache cache t ∧ t.progress.clock ≤ (en.turn t).2.clock := by
  by_cases hapart : ∀ i, t.inputs = .ok i → en.slot? t.field t.entity i = none
  · obtain ⟨hkey, hsame, hclock⟩ := turn_apart hapart
    exact ⟨.apart hkey hsame, hclock⟩
  · push Not at hapart
    obtain ⟨i, hinputs, hslot⟩ := hapart
    obtain ⟨c, hc, -, hslot⟩ := (en.slot?_cases t.field t.entity i).resolve_left hslot
    obtain rfl := hcache c hc
    obtain ⟨hkey, hturn, hinvokes⟩ := turn_of_slot hinputs hslot
    generalize cacheKey en.digest t.field.name t.entity i = key at hkey hturn hinvokes
    by_cases hfound : ∃ a, (c.fetch Value.decode? (t.progress.clock + 1) key t.progress.cache).1 =
        .ok (some a)
    · obtain ⟨a, ha⟩ := hfound
      have hfind := findCached_of_found ⟨c, key⟩ ha
      unfold findOrCompute at hturn
      rw [hfind] at hturn hinvokes
      refine ⟨.recalled hkey ha hturn (fun h => nomatch hinvokes.1 h), ?_⟩
      rw [hturn]
      exact Nat.le_succ _
    · have hmissed := fun a ha => hfound ⟨a, ha⟩
      obtain ⟨hnone, hlook, hclock⟩ := findCached_of_missed ⟨c, key⟩ hmissed
      have hlater := clock_le_compute t.batch t.field t.entity i (findCached ⟨c, key⟩ t.progress).2
      have hsame := compute_cache t.batch t.field t.entity i (findCached ⟨c, key⟩ t.progress).2
      unfold findOrCompute at hturn
      generalize findCached ⟨c, key⟩ t.progress = run at hnone hlook hclock hlater hsame hturn
      obtain ⟨found, p₁⟩ := run
      dsimp only at hnone hlook hclock hlater hsame
      subst hnone
      dsimp only at hturn
      generalize compute t.batch t.field t.entity i p₁ = run at hlater hsame hturn
      obtain ⟨r, p₂⟩ := run
      dsimp only at hlater hsame
      cases r with
      | error err =>
        dsimp only at hturn
        have hclock' : t.progress.clock < (en.turn t).2.clock := by
          rw [hturn]
          dsimp only
          omega
        refine ⟨.failed hkey hmissed (congrArg Prod.fst hturn) ?_ hclock', Nat.le_of_lt hclock'⟩
        rw [hturn, ← hlook, ← hsame]
      | ok a =>
        dsimp only at hturn
        have hput := clock_remember (en.lifetime t.field) a ⟨c, key⟩ p₂
        have hclock' : t.progress.clock < (en.turn t).2.clock := by
          rw [hturn]
          dsimp only
          omega
        refine ⟨.computed hkey hmissed (congrArg Prod.fst hturn) ?_ hclock', Nat.le_of_lt hclock'⟩
        rw [hturn]
        dsimp only
        rw [(remember_cases (en.lifetime t.field) a ⟨c, key⟩ p₂).1, hput, hsame, hlook]

end Turns

/-! ## The cache in memory -/

/-- Time does not go back. -/
theorem Uses.clock_le {en : Engine σ} {cache : Cache σ} (hcache : ∀ c, en.cache = some c → c = cache)
    {x y : CacheAt σ} {us : List (Use σ)} (h : Uses en cache x us y) : x.clock ≤ y.clock := by
  induction h with
  | nil => exact Nat.le_refl _
  | turn t _ _ ih => exact (turnCache hcache t).2.trans ih
  | findOrder x key _ ih => exact (Nat.le_succ _).trans ih
  | keepOrder x key ids lifetime _ ih => exact (Nat.le_succ _).trans ih
  | wait x time _ ih => exact (Nat.le_add_right _ _).trans ih

/-- The key of a value is not that of an order: it has more separators. -/
theorem not_orderKey {en : Engine σ} (hdigest : ∀ text, NoColon (en.digest text)) {v : VirtualField}
    (hname : NoColon v.name) (e : Entity) (i : Inputs) :
    ¬ en.OrderKey (cacheKey en.digest v.name e i) := by
  rintro ⟨text, htext⟩
  have hlist := congrArg String.toList htext
  rw [toList_cacheKey, String.toList_append] at hlist
  have hsort : "sort:".toList = "sort".toList ++ [':'] := rfl
  rw [hsort, List.append_assoc, List.cons_append, List.nil_append] at hlist
  have hrest := (cut_unique hname (by decide) hlist).2
  refine hdigest text ?_
  rw [← hrest]
  exact List.mem_append_right _ List.mem_cons_self

section Memory

variable {en : Engine MemoryCache} (hcache : ∀ c, en.cache = some c → c = MemoryCache.cache)
  {keys : List String}

include hcache

/-- A turn whose key is among keys that fit into the cache together. -/
theorem turn_within {t : Moment MemoryCache} (hkey : ∀ k, t.key? en = some k → k ∈ keys)
    (h : t.progress.cache.Within keys) : (en.turn t).2.cache.Within keys := by
  cases (turnCache hcache t).1 with
  | apart hnone hsame =>
    rw [hsame]
    exact h
  | recalled hkey' hfound hturn =>
    rw [hturn]
    exact h.get _ _
  | failed hkey' hmissed hvalue hlook =>
    rw [hlook]
    exact h.get _ _
  | computed hkey' hmissed hvalue hput =>
    rw [hput]
    exact (h.get _ _).put (hkey _ hkey') _ _ _

/-- Uses whose keys fit into the cache together. -/
theorem Uses.within {x y : CacheAt MemoryCache} {us : List (Use MemoryCache)}
    (h : Uses en MemoryCache.cache x us y) (hkeys : ∀ u ∈ us, ∀ k, Use.key? en u = some k → k ∈ keys)
    (hx : x.cache.Within keys) : y.cache.Within keys := by
  induction h with
  | nil => exact hx
  | turn t _ _ ih =>
    obtain ⟨hfirst, hrest⟩ := List.forall_mem_cons.1 hkeys
    exact ih hrest (turn_within hcache hfirst hx)
  | findOrder x key _ ih =>
    exact ih (List.forall_mem_cons.1 hkeys).2 (hx.get _ _)
  | keepOrder x key ids lifetime _ ih =>
    obtain ⟨hfirst, hrest⟩ := List.forall_mem_cons.1 hkeys
    exact ih hrest (hx.put (hfirst key rfl) _ _ _)
  | wait x time _ ih => exact ih (List.forall_mem_cons.1 hkeys).2 hx

omit hcache in
/-- What is there and can be read is found by a turn with its key. -/
theorem fetch_of_holds {c : MemoryCache} {key content : String} {expiresAt : Nat}
    (h : c.Holds key content expiresAt) {now : Nat} (hnow : now < expiresAt) {a : Value}
    (hread : Value.decode? content = some a) :
    (MemoryCache.cache.fetch Value.decode? now key c).1 = .ok (some a) := by
  show Cache.decode Value.decode? (.ok (c.get now key).1) = _
  rw [h.found hnow]
  unfold Cache.decode
  dsimp only
  rw [hread]

/-- **A turn leaves a text that can be read under its key** until it expires. -/
theorem turn_holds {t : Moment MemoryCache} (hkey : ∀ k, t.key? en = some k → k ∈ keys)
    (hwithin : t.progress.cache.Within keys) {key content : String} {expiresAt : Nat}
    (hholds : t.progress.cache.Holds key content expiresAt) {a : Value}
    (hread : Value.decode? content = some a) (hexpires : (en.turn t).2.clock < expiresAt) :
    (en.turn t).2.cache.Holds key content expiresAt := by
  cases (turnCache hcache t).1 with
  | apart hnone hsame =>
    rw [hsame]
    exact hholds
  | recalled hkey' hfound hturn =>
    rw [hturn] at hexpires ⊢
    exact hholds.get hexpires _
  | failed hkey' hmissed hvalue hlook hlater =>
    rw [hlook]
    exact hholds.get (Nat.lt_of_le_of_lt hlater hexpires) _
  | @computed key' _ hkey' hmissed hvalue hput hlater =>
    have hnow : t.progress.clock + 1 < expiresAt := Nat.lt_of_le_of_lt hlater hexpires
    -- a turn with the same key would have found the text
    have hne : key ≠ key' := by
      rintro rfl
      exact hmissed a (fetch_of_holds hholds hnow hread)
    rw [hput]
    exact (hholds.get hnow _).put (hwithin.get _ _) (hkey _ hkey') hne _ _ _

/-- **A text that can be read stays under its key** until it expires, through all uses whose keys fit into
the cache. -/
theorem Uses.holds {x y : CacheAt MemoryCache} {us : List (Use MemoryCache)}
    (h : Uses en MemoryCache.cache x us y) (hkeys : ∀ u ∈ us, ∀ k, Use.key? en u = some k → k ∈ keys)
    (hx : x.cache.Within keys) {key content : String} {expiresAt : Nat}
    (hholds : x.cache.Holds key content expiresAt) {a : Value}
    (hread : Value.decode? content = some a)
    (horders : ∀ k ids lifetime, .keepOrder k ids lifetime ∈ us → key ≠ k) (hy : y.clock < expiresAt) :
    y.cache.Holds key content expiresAt := by
  induction h with
  | nil => exact hholds
  | @turn t us y hfield hrest ih =>
    obtain ⟨hfirst, hkeys'⟩ := List.forall_mem_cons.1 hkeys
    have hnow : (en.turn t).2.clock < expiresAt := Nat.lt_of_le_of_lt (hrest.clock_le hcache) hy
    exact ih hkeys' (turn_within hcache hfirst hx) (turn_holds hcache hfirst hx hholds hread hnow)
      (fun k ids lifetime hk => horders k ids lifetime (List.mem_cons_of_mem _ hk)) hy
  | findOrder x k hrest ih =>
    have hnow : x.clock + 1 < expiresAt := Nat.lt_of_le_of_lt (hrest.clock_le hcache) hy
    exact ih (List.forall_mem_cons.1 hkeys).2 (hx.get _ _) (hholds.get hnow k)
      (fun k' ids lifetime hk => horders k' ids lifetime (List.mem_cons_of_mem _ hk)) hy
  | keepOrder x k ids lifetime hrest ih =>
    obtain ⟨hfirst, hkeys'⟩ := List.forall_mem_cons.1 hkeys
    have hk := hfirst k rfl
    exact ih hkeys' (hx.put hk _ _ _)
      (hholds.put hx hk (horders k ids lifetime List.mem_cons_self) _ _ _)
      (fun k' ids' lifetime' hk' => horders k' ids' lifetime' (List.mem_cons_of_mem _ hk')) hy
  | wait x time hrest ih =>
    exact ih (List.forall_mem_cons.1 hkeys).2 hx hholds
      (fun k ids lifetime hk => horders k ids lifetime (List.mem_cons_of_mem _ hk)) hy

/-- **A turn finds what a turn with the same key has computed.** -/
theorem turn_recalls {t₁ t₂ : Moment MemoryCache} {between : List (Use MemoryCache)}
    (hbetween : Uses en MemoryCache.cache (en.turn t₁).2.cacheAt between t₂.progress.cacheAt)
    (hwithin : t₁.progress.cache.Within keys)
    (hkeys : ∀ u ∈ between, ∀ k, Use.key? en u = some k → k ∈ keys) {key : String} (hkey : key ∈ keys)
    (hkey₁ : t₁.key? en = some key) (hkey₂ : t₂.key? en = some key) (hinvokes : en.Invokes t₁) {a w : Value}
    (hvalue : (en.turn t₁).1 = .ok a) (hread : Value.decode? a.encode = some w)
    (horders : ∀ k ids lifetime, .keepOrder k ids lifetime ∈ between → key ≠ k)
    (httl : t₂.progress.clock + 1 < (en.turn t₁).2.clock + en.lifetime t₁.field) :
    ¬ en.Invokes t₂ ∧ (en.turn t₂).1 = .ok w ∧ (en.turn t₂).2.spent = t₂.progress.spent ∧
      (en.turn t₂).2.stats =
        { t₂.progress.stats with cacheHits := t₂.progress.stats.cacheHits + 1 } := by
  have hput : (en.turn t₁).2.cache.Within keys ∧ (en.turn t₁).2.cache.Holds key a.encode
      ((en.turn t₁).2.clock + en.lifetime t₁.field) := by
    cases (turnCache hcache t₁).1 with
    | apart hnone _ =>
      rw [hnone] at hkey₁
      cases hkey₁
    | recalled _ _ _ hrecalls => exact absurd hinvokes hrecalls
    | failed _ _ herror =>
      rw [herror] at hvalue
      cases hvalue
    | computed hkey' _ hvalue' hput =>
      cases hkey'.symm.trans hkey₁
      cases hvalue'.symm.trans hvalue
      rw [hput]
      exact ⟨(hwithin.get _ _).put hkey _ _ _, MemoryCache.holds_put _ _ _ _ _⟩
  have hholds := hbetween.holds hcache hkeys hput.1 hput.2 hread horders
    (Nat.lt_of_succ_lt httl)
  have hfound := fetch_of_holds hholds httl hread
  cases (turnCache hcache t₂).1 with
  | apart hnone _ =>
    rw [hnone] at hkey₂
    cases hkey₂
  | recalled hkey' hfound' hturn hrecalls =>
    cases hkey'.symm.trans hkey₂
    cases hfound'.symm.trans hfound
    rw [hturn]
    exact ⟨hrecalls, rfl, rfl, rfl⟩
  | failed hkey' hmissed | computed hkey' hmissed =>
    cases hkey'.symm.trans hkey₂
    exact absurd hfound (hmissed w)

end Memory

/-! ## Batches -/

/-- Two turns of one field for one entity, whose computations are given the same columns and relations. -/
structure Repeats (t t' : Moment σ) : Prop where
  field : t'.field = t.field
  entity : t'.entity.ref = t.entity.ref
  inputs : ∃ i i', t.inputs = .ok i ∧ t'.inputs = .ok i' ∧ i'.columns = i.columns ∧
    i'.relations = i.relations

/-- Such turns of a field that is cached have the same key. -/
theorem Repeats.key {en : Engine σ} {cache : Cache σ} (hcache : en.cache = some cache) {t t' : Moment σ}
    (h : Repeats t t') (hcacheable : t.field.cacheable = true) :
    ∃ i, t.key? en = some (cacheKey en.digest t.field.name t.entity i) ∧
      t'.key? en = some (cacheKey en.digest t.field.name t.entity i) := by
  obtain ⟨i, i', hi, hi', hcolumns, hrelations⟩ := h.inputs
  have hkey : ∀ (t : Moment σ) i, t.inputs = .ok i → t.field.cacheable = true →
      t.key? en = some (cacheKey en.digest t.field.name t.entity i) := by
    intro t i hi hc
    unfold Moment.key? slot?
    rw [hi, hcache]
    dsimp only
    rw [if_pos hc]
    rfl
  refine ⟨i, hkey t i hi hcacheable, ?_⟩
  rw [hkey t' i' hi' (by rw [h.field]; exact hcacheable), h.field]
  have htype := congrArg EntityRef.entityType h.entity
  have hid := congrArg EntityRef.id h.entity
  unfold cacheKey inputsText
  rw [hcolumns, hrelations, show t'.entity.entityType = t.entity.entityType from htype,
    show t'.entity.id = t.entity.id from hid]

section Outcomes

variable {en : Engine σ} {b : Batch}

/-- The value of the target in an order that ends with it. -/
theorem computeOrder_of_turn (hc : en.catalog.Lawful) {e : Entity} {before : List String}
    (hkeys : ∀ n ∈ before ++ [b.target.name], n ∈ KeyMap.keys en.catalog.virtualFields)
    (hlast : b.target.name ∉ before) {computed : List (String × Value)} {p : Progress σ} {t : Moment σ}
    (ht : t ∈ en.orderMoments b e (before ++ [b.target.name]) computed p)
    (htarget : t.field.name = b.target.name) {a : Value} (hvalue : (en.turn t).1 = .ok a) :
    (en.computeOrder b e (before ++ [b.target.name]) computed p).1 = .ok a := by
  induction before generalizing computed p with
  | nil =>
    obtain ⟨v, hv⟩ := Catalog.get?_of_mem_keys (hkeys b.target.name (by simp))
    have hv' := (hc.virtual?_eq (hkeys b.target.name (by simp))).trans hv
    rw [List.nil_append, orderMoments, hv'] at ht
    rw [List.nil_append, computeOrder_cons hv']
    rcases List.mem_cons.1 ht with rfl | ht
    · have hone : (en.computeOne b v e computed p).1 = .ok a := hvalue
      rw [hone]
      unfold goOn
      dsimp only
      rw [computeOrder, List.lookup_cons_self]
    · rcases goOn_cases b.target e ⟨b.target.name, v, [], computed⟩ (en.computeOne b v e computed p).1 with
        ⟨value, -, hgo⟩ | ⟨err, hgo⟩
      · rw [hgo] at ht
        cases ht
      · rw [hgo] at ht
        cases ht
  | cons name before ih =>
    have hname := hkeys name (by simp)
    obtain ⟨v, hv⟩ := Catalog.get?_of_mem_keys hname
    have hv' := (hc.virtual?_eq hname).trans hv
    have hkeys' := fun n hn => hkeys n (List.mem_cons_of_mem _ hn)
    have hlast' := fun hmem => hlast (List.mem_cons_of_mem _ hmem)
    rw [List.cons_append, orderMoments, hv'] at ht
    rw [List.cons_append, computeOrder_cons hv']
    rcases List.mem_cons.1 ht with rfl | ht
    · refine absurd List.mem_cons_self (htarget ▸ hc.name_of_get? hv ▸ hlast)
    · rcases goOn_cases b.target e ⟨name, v, before ++ [b.target.name], computed⟩
        (en.computeOne b v e computed p).1 with ⟨value, -, hgo⟩ | ⟨err, hgo⟩
      · rw [hgo] at ht ⊢
        exact ih hkeys' hlast' ht
      · rw [hgo] at ht
        cases ht

/-- The result of an entity is the value of the turn of the target. -/
theorem computeEntity_of_turn (hc : en.catalog.Lawful)
    (htarget : b.target.name ∈ KeyMap.keys en.catalog.virtualFields)
    (horder : b.order = en.catalog.computationOrder b.target.name) {e : Entity} {p : Progress σ}
    {t : Moment σ} (ht : t ∈ en.entityMoments b e p) (hfield : t.field.name = b.target.name) {a : Value}
    (hvalue : (en.turn t).1 = .ok a) : t.entity = e ∧ (en.computeEntity b e p).1 = .ok a := by
  obtain ⟨hfinished, ⟨before, hbefore⟩, -⟩ := hc.computationOrder_spec htarget
  unfold entityMoments at ht
  unfold computeEntity
  cases htime : b.budget.checkTime p.spent with
  | error err =>
    rw [htime] at ht
    cases ht
  | ok u =>
    rw [htime] at ht
    dsimp only at ht
    refine ⟨(mem_orderMoments ht).2.1, ?_⟩
    have hkeys : ∀ n ∈ b.order, n ∈ KeyMap.keys en.catalog.virtualFields := by
      rw [horder]
      exact fun n hn => hc.mem_keys_of_order htarget hn
    have hlast : b.target.name ∉ before := by
      have hnodup := hfinished.nodup
      rw [hbefore, List.nodup_reverse] at hnodup
      exact fun hmem => (List.nodup_append.1 hnodup).2.2 _ hmem _ (List.mem_singleton_self _) rfl
    dsimp only
    rw [horder, hbefore] at ht hkeys ⊢
    exact computeOrder_of_turn hc hkeys hlast ht hfield hvalue

/-- The results of a chunk stand under the identities of its entities. -/
theorem ids_computeChunk (es : List Entity) :
    ∀ p : Progress σ, (en.computeChunk b es p).1.map (·.1) = es.map (·.id) := by
  induction es with
  | nil => exact fun p => rfl
  | cons e es ih => exact fun p => congrArg (e.id :: ·) (ih _)

variable (hc : en.catalog.Lawful) (htarget : b.target.name ∈ KeyMap.keys en.catalog.virtualFields)
  (horder : b.order = en.catalog.computationOrder b.target.name) {t : Moment σ}
  (hfield : t.field.name = b.target.name) {a : Value} (hvalue : (en.turn t).1 = .ok a)

include hc htarget horder hfield hvalue

theorem mem_computeChunk_of_turn {es : List Entity} :
    ∀ {p : Progress σ}, t ∈ en.chunkMoments b es p →
      (t.entity.id, .ok a) ∈ (en.computeChunk b es p).1 := by
  induction es with
  | nil => exact fun ht => absurd ht List.not_mem_nil
  | cons e es ih =>
    intro p ht
    unfold chunkMoments at ht
    rcases List.mem_append.1 ht with ht | ht
    · obtain ⟨he, hentity⟩ := computeEntity_of_turn hc htarget horder ht hfield hvalue
      have hfirst : (t.entity.id, .ok a) = (e.id, (en.computeEntity b e p).1) := by
        rw [he, hentity]
      rw [hfirst]
      exact List.mem_cons_self
    · exact List.mem_cons_of_mem _ (ih ht)

omit hc htarget horder hfield hvalue in
/-- Identities that are not among those of a batch keep what they have. -/
theorem lookup_computeChunks_of_notMem {id : EntityId} {parts : List (List Entity)} :
    ∀ {acc results : Results} {p : Progress σ}, id ∉ parts.flatten.map (·.id) →
      (en.computeChunks b parts acc p).1 = .ok results →
      List.lookup id results = List.lookup id acc := by
  induction parts with
  | nil =>
    intro acc results p _ h
    cases h
    rfl
  | cons es parts ih =>
    intro acc results p hid h
    obtain ⟨found, p₁, collected, hrun, hcollect, hrest, -⟩ := computeChunks_cons_ok h
    rw [List.flatten_cons, List.map_append, List.mem_append, not_or] at hid
    have hids : (en.computeChunk b es p.nextChunk).1.map (·.1) = es.map (·.id) := ids_computeChunk es _
    rw [hrun] at hids
    have hnone : List.lookup id found.reverse = none := by
      rw [List.lookup_eq_none_iff]
      intro r hr
      rw [bne_iff_ne]
      rintro rfl
      exact hid.1 (hids ▸ List.mem_map_of_mem (List.mem_reverse.1 hr))
    rw [ih hid.2 hrest, lookup_collect hcollect, hnone]
    rfl

/-- The value of a turn of the target is the result of its entity. -/
theorem lookup_computeChunks_of_turn {parts : List (List Entity)} :
    ∀ {acc results : Results} {p : Progress σ}, t ∈ en.chunksMoments b parts acc p →
      (parts.flatten.map (·.id)).Nodup → (en.computeChunks b parts acc p).1 = .ok results →
      List.lookup t.entity.id results = some (.ok a) := by
  induction parts with
  | nil => exact fun ht => absurd ht List.not_mem_nil
  | cons es parts ih =>
    intro acc results p ht hids h
    obtain ⟨found, p₁, collected, hrun, hcollect, hresults, hmoments⟩ := computeChunks_cons_ok h
    rw [List.flatten_cons, List.map_append] at hids
    obtain ⟨hfirst, hrest, hdisjoint⟩ := List.nodup_append.1 hids
    have hfoundIds : (en.computeChunk b es p.nextChunk).1.map (·.1) = es.map (·.id) :=
      ids_computeChunk es _
    rw [hrun] at hfoundIds
    rw [hmoments] at ht
    rcases List.mem_append.1 ht with ht | ht
    · have hmem := mem_computeChunk_of_turn hc htarget horder hfield hvalue ht
      rw [hrun] at hmem
      have hnodup : (found.reverse.map (·.1)).Nodup := by
        rw [List.map_reverse, List.nodup_reverse, hfoundIds]
        exact hfirst
      have hlookup : List.lookup t.entity.id found.reverse = some (.ok a) :=
        Assoc.lookup_of_mem hnodup (List.mem_reverse.2 hmem)
      have hnew : t.entity.id ∉ parts.flatten.map (·.id) := fun hmem' =>
        hdisjoint _ (hfoundIds ▸ List.mem_map_of_mem hmem) _ hmem' rfl
      rw [lookup_computeChunks_of_notMem hnew hresults, lookup_collect hcollect, hlookup]
      rfl
    · exact ih ht hrest hresults

omit htarget horder hfield in
/-- **A batch yields the value of the turn of its field**, where each identity stands once. -/
theorem value?_of_turn {heeds : Bool} {field : String} {es : List Entity} {s : EngineState σ}
    (ht : t ∈ en.batchMoments heeds field es s) (hfield : en.catalog.virtual? field = some t.field)
    (hids : (es.map (·.id)).Nodup) {o : BatchOutcome}
    (ho : (en.computeBatch heeds field es s).1 = .ok o) : o.value? t.entity.id = some a := by
  obtain ⟨run, hrun, houtcome, -⟩ := computeBatch_of_virtual? hfield heeds es s
  unfold batchMoments at ht
  rw [hfield] at ht
  rw [houtcome] at ho
  rw [← flatten_chunks (en.settings.batchSize - 1) es] at hids
  dsimp only at ht
  obtain ⟨r, p⟩ := run
  cases r with
  | error err => cases ho
  | ok results =>
    cases ho
    unfold BatchOutcome.value?
    rw [lookup_computeChunks_of_turn (b := en.batchOf heeds t.field s) hc
      (Catalog.mem_keys_of_get? (hc.get?_name hfield)) rfl rfl hvalue ht hids (by rw [← hrun])]

end Outcomes

/-- The turns of a batch put no orders. -/
theorem keepOrder_notMem_turns (key : String) (ids : List EntityId) (lifetime : Nat) (ts : List (Moment σ)) :
    .keepOrder key ids lifetime ∉ ts.map Use.turn := by
  intro hmem
  obtain ⟨t, -, ht⟩ := List.mem_map.1 hmem
  cases ht

/-- **A cacheable field is computed once.**  In the history of an engine with a cache in memory that has
room for all keys that are used, a batch has a turn in which the computation of a field is run and yields a
value.  Then any later batch that has a turn of this field, for an entity of that identity and with the
same columns and relations, recalls the value before it expires: the computation is not run, nothing but
a hit of the cache is counted, and the value is that of the entity if the field is the one of the batch.  The
value has to be one that is read back from its text. -/
theorem computed_once (rs : List Registration)
    (hrs : ∀ v, .virtual v ∈ rs → (Registration.virtual v).IsBuilt) {en : Engine MemoryCache}
    (hcatalog : en.catalog = Catalog.enterAll {} rs) (hcache : en.cache = some MemoryCache.cache)
    (hdigest : ∀ text, NoColon (en.digest text)) {maxEntries clock : Nat} {keys : List String}
    (hroom : keys.length ≤ max 1 maxEntries) {heeds₁ heeds₂ : Bool} {field₁ field₂ : String}
    {es₁ es₂ : List Entity} {us₁ us₂ : List (Use MemoryCache)} {s₁ s₂ : EngineState MemoryCache}
    (hs₁ : Uses en MemoryCache.cache ⟨.empty maxEntries, clock⟩ us₁ s₁.cacheAt)
    (hs₂ : Uses en MemoryCache.cache (en.computeBatch heeds₁ field₁ es₁ s₁).2.cacheAt us₂ s₂.cacheAt)
    (hkeys : ∀ u ∈ us₁ ++ (en.batchMoments heeds₁ field₁ es₁ s₁).map .turn ++ us₂ ++
      (en.batchMoments heeds₂ field₂ es₂ s₂).map .turn, ∀ k, Use.key? en u = some k → k ∈ keys)
    (horders : ∀ k ids lifetime, .keepOrder k ids lifetime ∈ us₂ → en.OrderKey k) {t₁ t₂ : Moment MemoryCache}
    (ht₁ : t₁ ∈ en.batchMoments heeds₁ field₁ es₁ s₁) (ht₂ : t₂ ∈ en.batchMoments heeds₂ field₂ es₂ s₂)
    (hrepeats : Repeats t₁ t₂) (hcacheable : t₁.field.cacheable = true) (hinvokes : en.Invokes t₁) {a : Value}
    (hvalue : (en.turn t₁).1 = .ok a)
    (httl : t₂.progress.clock + 1 < (en.turn t₁).2.clock + en.lifetime t₁.field)
    (hkept : a.IsKept) (hfinite : a.IsFinite) (hdepth : a.depth ≤ 63) :
    ¬ en.Invokes t₂ ∧ (en.turn t₂).1 = .ok a ∧ (en.turn t₂).2.spent = t₂.progress.spent ∧
      (en.turn t₂).2.stats =
        { t₂.progress.stats with cacheHits := t₂.progress.stats.cacheHits + 1 } ∧
      ∀ o, (en.computeBatch heeds₂ field₂ es₂ s₂).1 = .ok o →
        en.catalog.virtual? field₂ = some t₂.field → (es₂.map (·.id)).Nodup →
          o.value? t₂.entity.id = some a := by
  have hc : en.catalog.Lawful := by
    rw [hcatalog]
    exact Catalog.Lawful.empty.enterAll rs
  have hcolon : ∀ p ∈ en.catalog.virtualFields, NoColon p.2.name := by
    rw [hcatalog]
    exact Catalog.noColon_of_built hrs
  have hone : ∀ c, en.cache = some c → c = MemoryCache.cache := fun c h =>
    Option.some.inj (h.symm.trans hcache)
  -- the uses before the first turn, between the two turns, and after the second one
  obtain ⟨before₁, after₁, hsplit₁, hfield, hbefore₁, hafter₁⟩ :=
    (uses_computeBatch hc MemoryCache.cache heeds₁ field₁ es₁ s₁).at_turn (List.mem_map_of_mem ht₁)
  obtain ⟨before₂, after₂, hsplit₂, -, hbefore₂, -⟩ :=
    (uses_computeBatch hc MemoryCache.cache heeds₂ field₂ es₂ s₂).at_turn (List.mem_map_of_mem ht₂)
  rw [hsplit₁, hsplit₂] at hkeys
  have hbetween := (hafter₁.append hs₂).append hbefore₂
  have hwithin : t₁.progress.cache.Within keys :=
    (hs₁.append hbefore₁).within hone (fun u hu => hkeys u (by
      rcases List.mem_append.1 hu with hu | hu <;> simp [hu])) (MemoryCache.within_empty hroom)
  obtain ⟨i, hkey₁, hkey₂⟩ := hrepeats.key hcache hcacheable
  have hname : NoColon t₁.field.name := hcolon _ (KeyMap.mem_of_get? hfield)
  have hnoOrder : ∀ k ids lifetime, .keepOrder k ids lifetime ∈ after₁ ++ us₂ ++ before₂ →
      cacheKey en.digest t₁.field.name t₁.entity i ≠ k := by
    intro k ids lifetime hk
    have hturns₁ := keepOrder_notMem_turns k ids lifetime (en.batchMoments heeds₁ field₁ es₁ s₁)
    have hturns₂ := keepOrder_notMem_turns k ids lifetime (en.batchMoments heeds₂ field₂ es₂ s₂)
    rw [hsplit₁, List.mem_append, List.mem_cons] at hturns₁
    rw [hsplit₂, List.mem_append] at hturns₂
    have hus₂ : .keepOrder k ids lifetime ∈ us₂ := by
      rcases List.mem_append.1 hk with hk | hk
      · exact (List.mem_append.1 hk).resolve_left fun hafter => hturns₁ (.inr (.inr hafter))
      · exact absurd (.inl hk) hturns₂
    rintro rfl
    exact not_orderKey hdigest hname t₁.entity i (horders _ ids lifetime hus₂)
  have hread := Value.decode?_encode_self hkept hfinite hdepth
  obtain ⟨hrecalls, hvalue₂, hspent, hstats⟩ := turn_recalls hone hbetween hwithin (fun u hu => hkeys u (by
    rcases List.mem_append.1 hu with hu | hu
    · rcases List.mem_append.1 hu with hu | hu <;> simp [hu]
    · simp [hu])) (hkeys (.turn t₁) (by simp) _ hkey₁) hkey₁ hkey₂ hinvokes hvalue hread hnoOrder httl
  exact ⟨hrecalls, hvalue₂, hspent, hstats, fun o ho htarget hids =>
    value?_of_turn hc hvalue₂ ht₂ htarget hids ho⟩

section Copies

/-- An engine that copies amounts, with keys of hexadecimal digits. -/
def hashing : Engine MemoryCache := { copying with digest := .sha256 }

/-- The turn of the copy in a batch for one item. -/
def hashing.copyOf (x : Binary64) (s : EngineState MemoryCache) : Moment MemoryCache where
  batch := hashing.batchOf false copied s
  field := copied
  entity := amounting 1 x
  computed := []
  progress := { startOf [amounting 1 x] s with
    stats := { (startOf [amounting 1 x] s).stats with
      chunks := (startOf [amounting 1 x] s).stats.chunks + 1 } }

theorem hashing.copyOf_mem (x : Binary64) (s : EngineState MemoryCache) :
    hashing.copyOf x s ∈ hashing.batchMoments false "copied" [amounting 1 x] s := by
  have hchunks : chunks (hashing.settings.batchSize - 1) [amounting 1 x] = [[amounting 1 x]] := by
    rw [chunks_cons]
    simp
  show _ ∈ hashing.chunksMoments _ (chunks (hashing.settings.batchSize - 1) [amounting 1 x]) [] _
  rw [hchunks]
  exact List.mem_append_left _ (List.mem_append_left _ List.mem_cons_self)

/-- The engine after it has copied the amount of an item. -/
def hashing.once (x : Binary64) : EngineState MemoryCache :=
  (hashing.computeBatch false "copied" [amounting 1 x] blank).2

theorem hashing.repeats (x : Binary64) (s s' : EngineState MemoryCache) :
    Repeats (hashing.copyOf x s) (hashing.copyOf x s') :=
  ⟨rfl, rfl, _, _, rfl, rfl, rfl, rfl⟩

theorem hashing.invokes_blank (x : Binary64) : hashing.Invokes (hashing.copyOf x blank) := by
  refine ⟨_, rfl, fun slot hslot => ?_⟩
  cases hslot
  rfl

/-- The copy of one half is computed once, and recalled then. -/
theorem computed_once_half :
    (∀ v, .virtual v ∈ [Registration.virtual copied] → (Registration.virtual v).IsBuilt) ∧
    hashing.Invokes (hashing.copyOf oneHalf blank) ∧
    (hashing.turn (hashing.copyOf oneHalf blank)).1 = .ok (.decimal oneHalf) ∧
    ¬ hashing.Invokes (hashing.copyOf oneHalf (hashing.once oneHalf)) ∧
    (hashing.turn (hashing.copyOf oneHalf (hashing.once oneHalf))).1 = .ok (.decimal oneHalf) ∧
    ∀ o, (hashing.computeBatch false "copied" [amounting 1 oneHalf] (hashing.once oneHalf)).1 =
      .ok o → o.value? (.int 1) = some (.decimal oneHalf) := by
  have hbuilt : ∀ v, .virtual v ∈ [Registration.virtual copied] → (Registration.virtual v).IsBuilt := by
    intro v hv
    rw [List.mem_singleton.1 hv]
    exact copied_isBuilt
  have hvalue : (hashing.turn (hashing.copyOf oneHalf blank)).1 = .ok (.decimal oneHalf) := rfl
  have hfinite : (Value.decimal oneHalf).IsFinite := by
    show oneHalf.isFinite = true
    decide +kernel
  have hcatalog : hashing.catalog = Catalog.enterAll {} [.virtual copied] := rfl
  have hroom : (((hashing.batchMoments false "copied" [amounting 1 oneHalf] blank).map Use.turn ++
      (hashing.batchMoments false "copied" [amounting 1 oneHalf] (hashing.once oneHalf)).map
        Use.turn).filterMap (Use.key? hashing)).length ≤ max 1 10 := by decide +kernel
  have hblank : Uses hashing MemoryCache.cache ⟨.empty 10, 0⟩ [] blank.cacheAt := .nil _
  obtain ⟨hrecalls, hvalue₂, -, -, hbatch⟩ := computed_once [.virtual copied] hbuilt hcatalog rfl
    Digest.noColon_sha256 hroom hblank (.nil _)
    (fun u hu k hk => List.mem_filterMap.2 ⟨u, by
      rwa [List.nil_append, List.append_nil] at hu, hk⟩)
    (fun _ _ _ hmem => absurd hmem List.not_mem_nil)
    (hashing.copyOf_mem oneHalf blank) (hashing.copyOf_mem oneHalf (hashing.once oneHalf))
    (hashing.repeats oneHalf _ _) rfl (hashing.invokes_blank oneHalf) hvalue (by decide +kernel)
    (isKept_decimal (by decide +kernel)) hfinite (by decide)
  exact ⟨hbuilt, hashing.invokes_blank oneHalf, hvalue, hrecalls, hvalue₂, fun o ho =>
    hbatch o ho rfl (List.nodup_singleton _)⟩

/-- **A copy that is no number is computed again**: the text under its key has null for it, and is not
read back. -/
theorem computed_again :
    Repeats (hashing.copyOf .nan blank) (hashing.copyOf .nan (hashing.once .nan)) ∧
    hashing.copyOf .nan blank ∈ hashing.batchMoments false "copied" [amounting 1 .nan] blank ∧
    hashing.copyOf .nan (hashing.once .nan) ∈
      hashing.batchMoments false "copied" [amounting 1 .nan] (hashing.once .nan) ∧
    hashing.Invokes (hashing.copyOf .nan blank) ∧
    (hashing.turn (hashing.copyOf .nan blank)).1 = .ok (.decimal .nan) ∧
    (hashing.copyOf .nan (hashing.once .nan)).progress.clock + 1 <
      (hashing.turn (hashing.copyOf .nan blank)).2.clock + hashing.lifetime copied ∧
    hashing.Invokes (hashing.copyOf .nan (hashing.once .nan)) := by
  refine ⟨hashing.repeats .nan _ _, hashing.copyOf_mem .nan _, hashing.copyOf_mem .nan _,
    hashing.invokes_blank .nan, rfl, by decide +kernel, _, rfl, fun slot hslot => ?_⟩
  cases hslot
  exact Option.isNone_iff_eq_none.1 (by decide +kernel)

end Copies

end Engine

end FieldQuery
