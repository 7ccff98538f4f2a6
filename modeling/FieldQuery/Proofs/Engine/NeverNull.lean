import FieldQuery.Proofs.Engine.Turns
import FieldQuery.Proofs.Value.Kinds

/-!
# Fields that are never null

A field that is not nullable has its values from many places: a computation, a cache that is shared with
other fields and with orders, and its default value.  None of them yields null.

* `VirtualField.Allows` — a value that a field may have;
* `Catalog.AllowsDefaults` — every field may have its default value;
* `Engine.Presentable` — a text under a key from which no field that is not nullable reads null.

An honest cache may lose a text or damage it so that nobody can read it.  One that always fails is honest,
and so is one that finds nonsense everywhere: `Cache.isHonest_broken`, `Cache.isHonest_corrupt`.

Principal results: `Catalog.allowsDefaults_enterAll` — definitions that have been checked have such default
values; `Uses.presentable` — all uses of a cache leave presentable texts there; `turn_allows`,
`computeBatch_allows` — every turn and every batch yields what its field may have.
-/

namespace FieldQuery

/-- A value that a field may have: null only if the field is nullable. -/
def VirtualField.Allows (v : VirtualField) (a : Value) : Prop := v.nullable = false → a ≠ .null

/-! ## Definitions -/

/-- Every virtual field may have its default value. -/
def Catalog.AllowsDefaults (c : Catalog) : Prop := ∀ p ∈ c.virtualFields, p.2.Allows p.2.default

/-- A draft without a default value is refused unless it is nullable. -/
theorem VirtualDraft.allows_default {d : VirtualDraft} {v : VirtualField} (h : d.define = .ok v) :
    v.Allows v.default := by
  unfold define at h
  obtain ⟨_, -, h⟩ := Except.bind_eq_ok_iff.1 h
  dsimp only at h
  split at h
  · simp only [Except.bind_eq_ok_iff, Except.ok.injEq, exists_eq_left'] at h
    -- dependencies, relations, and repeated dependencies
    split at h
    · cases h
    split at h
    · cases h
    split at h
    · cases h
    simp only [Except.bind_eq_ok_iff] at h
    obtain ⟨_, _, _, _, h⟩ := h
    split at h
    · cases h
    · rename_i hfault
      cases h
      intro hnullable hnull
      have hmissing : d.valueFault? = some .missingDefault := by
        unfold valueFault?
        rw [if_pos (by rw [show d.nullable = false from hnullable, show d.default = .null from hnull]; rfl)]
      rw [hmissing] at hfault
      cases hfault
  · cases h

/-- The virtual fields of a catalog have been registered. -/
theorem Catalog.virtual_mem_of_enterAll (rs : List Registration) :
    ∀ p ∈ (Catalog.enterAll {} rs).virtualFields, .virtual p.2 ∈ rs := by
  have hgeneral : ∀ (rs : List Registration) (c : Catalog),
      ∀ p ∈ (Catalog.enterAll c rs).virtualFields, p ∈ c.virtualFields ∨ .virtual p.2 ∈ rs := by
    intro rs
    induction rs with
    | nil => exact fun c p hp => .inl hp
    | cons r rs ih =>
      intro c p hp
      rcases ih (c.enter r).2 p hp with hp | hp
      · rcases c.enter_spec r with ⟨e, he⟩ | ⟨c', hc', haccepts⟩
        · rw [he] at hp
          exact .inl hp
        · rw [hc'] at hp
          cases haccepts with
          | field hfree => exact .inl hp
          | virtual hfree hacyclic =>
            rcases KeyMap.mem_insert hp with rfl | hp
            · exact .inr List.mem_cons_self
            · exact .inl hp
          | aliased hfree htarget => exact .inl hp
      · exact .inr (List.mem_cons_of_mem _ hp)
  intro p hp
  rcases hgeneral rs {} p hp with hp | hp
  · cases hp
  · exact hp

section Built

variable {rs : List Registration} (hrs : ∀ v, .virtual v ∈ rs → (Registration.virtual v).IsBuilt)

include hrs

/-- **Definitions that have been checked have default values that their fields may have.** -/
theorem Catalog.allowsDefaults_enterAll : (Catalog.enterAll {} rs).AllowsDefaults := by
  intro p hp
  obtain ⟨d, hd⟩ := hrs _ (Catalog.virtual_mem_of_enterAll rs p hp)
  exact VirtualDraft.allows_default hd

/-- Their names have no separator, whatever the names of the columns are. -/
theorem Catalog.noColon_of_built : ∀ p ∈ (Catalog.enterAll {} rs).virtualFields, NoColon p.2.name := by
  intro p hp
  obtain ⟨d, hd⟩ := hrs _ (Catalog.virtual_mem_of_enterAll rs p hp)
  obtain ⟨hcheck, hname⟩ := VirtualDraft.name_of_define hd
  rw [hname]
  exact noColon_of_checkName hcheck

end Built

/-- A value that a field accepts is one that it may have. -/
theorem VirtualField.allows_of_accept {v : VirtualField} {e : Entity} {o : Outcome} {a : Value}
    (h : v.accept e o = .ok a) : v.Allows a := by
  intro hnullable hnull
  subst hnull
  unfold accept at h
  split at h
  · cases h
  · rename_i value hvalue
    split at h
    · cases h
    · rename_i hrefused
      cases h
      exact hrefused (by rw [hnullable]; rfl)

/-! ## Caches -/

/-- A cache whose texts nobody can read, or that finds none, is honest. -/
theorem Cache.isHonest_of_unreadable {σ α : Type} {c : Cache σ} {read : String → Option α} {start : σ}
    (h : ∀ now key s content, (c.get now key s).1 = .ok (some content) → read content = none) :
    c.IsHonest read start := by
  intro puts s _ now key content hget hread
  rw [h now key s content hget] at hread
  cases hread

/-- A cache that always fails. -/
def Cache.broken (σ : Type) : Cache σ where
  get _ key s := (.error (.retrieve key "down"), s)
  put _ key _ _ s := (.error (.store key "down"), s)

/-- A cache that keeps nothing and finds the same text everywhere. -/
def Cache.corrupt (σ : Type) (content : String) : Cache σ where
  get _ _ s := (.ok (some content), s)
  put _ _ _ _ s := (.ok (), s)

theorem Cache.isHonest_broken {σ α : Type} (read : String → Option α) (start : σ) :
    (Cache.broken σ).IsHonest read start :=
  isHonest_of_unreadable fun _ _ _ _ h => nomatch h

theorem Cache.isHonest_corrupt {σ α : Type} {read : String → Option α} {content : String}
    (h : read content = none) (start : σ) : (Cache.corrupt σ content).IsHonest read start := by
  refine isHonest_of_unreadable fun _ _ _ content' hget => ?_
  cases hget
  exact h

example : Value.decode? "not json" = none := by decide +kernel

namespace Engine

variable {σ : Type} (en : Engine σ)

/-- No field that is not nullable reads null from a text under its own keys. -/
def Presentable (key content : String) : Prop :=
  ∀ v e i, KeyMap.get? v.name en.catalog.virtualFields = some v → v.nullable = false →
    key = cacheKey en.digest v.name e i → Value.decode? content ≠ some .null

variable {en} {cache : Cache σ} {start : σ}

/-- An order is presentable under each key. -/
theorem presentable_order (key : String) (ids : List EntityId) :
    en.Presentable key (EntityId.encodeList ids) :=
  fun _ _ _ _ _ _ => Value.decode?_encodeList_ne_null ids

/-- A value that a field may have is presentable under the keys of the field. -/
theorem presentable_value (hcolon : ∀ p ∈ en.catalog.virtualFields, NoColon p.2.name) {v : VirtualField}
    (hv : KeyMap.get? v.name en.catalog.virtualFields = some v) {a : Value} (ha : v.Allows a)
    (e : Entity) (i : Inputs) : en.Presentable (cacheKey en.digest v.name e i) a.encode := by
  intro w e' i' hw hnullable hkey
  have htext := congrArg String.toList hkey
  rw [toList_cacheKey, toList_cacheKey] at htext
  have hname : v.name = w.name := String.toList_inj.1
    (cut_unique (hcolon _ (KeyMap.mem_of_get? hv)) (hcolon _ (KeyMap.mem_of_get? hw)) htext).1
  rw [hname] at hv
  obtain rfl : v = w := Option.some.inj (hv.symm.trans hw)
  exact Value.decode?_encode_ne_null (ha hnullable)

section Turns

variable (hcolon : ∀ p ∈ en.catalog.virtualFields, NoColon p.2.name)
  (hcache : ∀ c, en.cache = some c → c = cache) (hhonest : cache.IsHonest Value.decode? start)

include hcolon hcache hhonest

/-- **A turn yields what its field may have**, and leaves presentable texts in the cache. -/
theorem turn_allows {t : Moment σ} (hv : KeyMap.get? t.field.name en.catalog.virtualFields = some t.field)
    (hgood : cache.Faithful start en.Presentable t.progress.cache) :
    (∀ a, (en.turn t).1 = .ok a → t.field.Allows a) ∧
      cache.Faithful start en.Presentable (en.turn t).2.cache := by
  obtain ⟨b, v, e, computed, p⟩ := t
  dsimp only at hv hgood
  have hcompute : ∀ i (p' : Progress σ) a, (compute b v e i p').1 = .ok a → v.Allows a :=
    fun i p' a ha => VirtualField.allows_of_accept (accept_of_compute (Prod.ext ha rfl))
  unfold turn computeOne
  dsimp only
  cases resolveInputs b v e computed p.cancelled with
  | error err => exact ⟨fun a ha => (by cases ha), hgood⟩
  | ok i =>
    dsimp only
    rcases en.slot?_cases v e i with hslot | ⟨c, hc, -, hslot⟩
    · rw [hslot]
      dsimp only
      rw [compute_cache]
      exact ⟨hcompute i p, hgood⟩
    · obtain rfl := hcache c hc
      rw [hslot]
      dsimp only
      unfold findOrCompute
      obtain ⟨hget, -, hfetch⟩ := findCached_cases ⟨c, cacheKey en.digest v.name e i⟩ p
      have hgot := hgood.get (p.clock + 1) (cacheKey en.digest v.name e i)
      rw [← hget] at hgot
      generalize findCached ⟨c, cacheKey en.digest v.name e i⟩ p = found at hgot hfetch ⊢
      obtain ⟨value?, p₁⟩ := found
      cases value? with
      | some a =>
        refine ⟨fun a' ha' => ?_, hgot⟩
        cases ha'
        obtain ⟨content, hcontent, hread⟩ := hhonest.fetch hgood (hfetch a rfl)
        intro hnullable hnull
        exact hcontent v e i hv hnullable rfl (by rw [hread, hnull])
      | none =>
        dsimp only at hgot ⊢
        have hallows := hcompute i p₁
        have hsame := compute_cache b v e i p₁
        generalize compute b v e i p₁ = run at hallows hsame ⊢
        obtain ⟨r, p₂⟩ := run
        dsimp only at hallows hsame
        rw [← hsame] at hgot
        cases r with
        | error err => exact ⟨fun a ha => (by cases ha), hgot⟩
        | ok a =>
          refine ⟨hallows, ?_⟩
          dsimp only
          rw [(remember_cases (en.lifetime v) a ⟨c, cacheKey en.digest v.name e i⟩ p₂).1]
          exact hgot.put _ (presentable_value hcolon hv (hallows a rfl) e i) _

/-- **All uses of a cache leave presentable texts there.** -/
theorem Uses.presentable {x y : CacheAt σ} {us : List (Use σ)} (h : en.Uses cache x us y)
    (hgood : cache.Faithful start en.Presentable x.cache) :
    cache.Faithful start en.Presentable y.cache := by
  induction h with
  | nil => exact hgood
  | turn t hfield _ ih => exact ih (turn_allows hcolon hcache hhonest hfield hgood).2
  | findOrder x key _ ih => exact ih (hgood.get _ key)
  | keepOrder x key ids lifetime _ ih => exact ih (hgood.put _ (presentable_order key ids) lifetime)
  | wait x time _ ih => exact ih hgood

/-- **A batch yields what its field may have**, and the values that are handed on in it are such values. -/
theorem computeBatch_allows (hc : en.catalog.Lawful) (hdefaults : en.catalog.AllowsDefaults)
    {s : EngineState σ} (hgood : cache.Faithful start en.Presentable s.cache) (heeds : Bool)
    (field : String) (es : List Entity) :
    (∀ t ∈ en.batchMoments heeds field es s,
      en.Befits VirtualField.Allows t.computed ∧ ∀ a, (en.turn t).1 = .ok a → t.field.Allows a) ∧
      ∀ v o, en.catalog.virtual? field = some v → (en.computeBatch heeds field es s).1 = .ok o →
        ∀ r ∈ o.results, ∀ a, r.2 = .ok a → v.Allows a := by
  have hturns : ∀ t ∈ en.batchMoments heeds field es s, ∀ a, (en.turn t).1 = .ok a →
      t.field.Allows a := by
    intro t ht
    obtain ⟨before, -, -, hfield, hbefore, -⟩ :=
      (uses_computeBatch hc cache heeds field es s).at_turn (List.mem_map_of_mem ht)
    exact (turn_allows hcolon hcache hhonest hfield
      (hbefore.presentable hcolon hcache hhonest hgood)).1
  obtain ⟨htables, hresults⟩ := computeBatch_befits
    (fun name v hv => hdefaults _ (KeyMap.mem_of_get? hv)) hc hturns
  exact ⟨fun t ht => ⟨htables t ht, hturns t ht⟩, hresults⟩

end Turns

end Engine

end FieldQuery
