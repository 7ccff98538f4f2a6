import FieldQuery.Proofs.Engine.Cached

/-!
# Keys of cached values

A key is a field, the type and the id of an entity as texts, and a digest, with a colon between them.
Types and ids may have colons in them, and a number and its numeral are one text.

* `EntityId.SameKind` — two ids are both numbers, or both texts;
* `named` — a field whose value is the id of its entity.

Principal results: `cacheKey_eq_iff` — the keys of a field tell labels and digests apart, and nothing else;
`EntityRef.eq_of_label` — labels of one kind of ids, and of types without colons, tell identities
apart; `keys_of_labels` — where labels do, no entity gets a value of another one.  `named_shares` — a
number and its numeral share their values.
-/

namespace FieldQuery

open Text

/-- Two texts that are cut at their last separator have the same parts. -/
theorem cut_unique_last {α : Type} {c : α} {a b x y : List α} (hx : c ∉ x) (hy : c ∉ y)
    (h : a ++ c :: x = b ++ c :: y) : a = b ∧ x = y := by
  have hreverse : x.reverse ++ c :: a.reverse = y.reverse ++ c :: b.reverse := by
    simpa using congrArg List.reverse h
  obtain ⟨hrest, hparts⟩ := cut_unique (by simpa using hx) (by simpa using hy) hreverse
  exact ⟨List.reverse_inj.1 hparts, List.reverse_inj.1 hrest⟩

namespace Digest

theorem Sha256.hexDigit_ne_colon : ∀ n < 16, Sha256.hexDigit n ≠ ':' := by decide

/-- A digest is written in hexadecimal digits. -/
theorem noColon_sha256 (s : String) : NoColon (sha256 s) := by
  unfold NoColon sha256 Sha256.hex Sha256.hexText
  rw [String.toList_ofList]
  intro hmem
  obtain ⟨b, -, hb⟩ := List.mem_flatMap.1 hmem
  have hbyte : b.toNat < 256 := b.toNat_lt
  simp only [List.mem_cons, List.not_mem_nil, or_false] at hb
  rcases hb with hb | hb
  · exact Sha256.hexDigit_ne_colon _ (by omega) hb.symm
  · exact Sha256.hexDigit_ne_colon _ (Nat.mod_lt _ (by decide)) hb.symm

end Digest

/-- **The keys of a field tell labels and digests apart**, and nothing else. -/
theorem cacheKey_eq_iff {digest : Digest} (hdigest : ∀ s, NoColon (digest s)) (field : String)
    (e e' : Entity) (i i' : Inputs) :
    cacheKey digest field e i = cacheKey digest field e' i' ↔
      e.ref.label = e'.ref.label ∧ digest (inputsText i) = digest (inputsText i') := by
  rw [← String.toList_inj, toList_cacheKey, toList_cacheKey]
  constructor
  · intro h
    have hrest := (List.cons.inj (List.append_cancel_left h)).2
    obtain ⟨hlabels, hdigests⟩ := cut_unique_last (hdigest _) (hdigest _) hrest
    exact ⟨hlabels, String.toList_inj.1 hdigests⟩
  · rintro ⟨hlabels, hdigests⟩
    rw [hlabels, hdigests]

/-! ## Identities -/

/-- Whether two ids are both numbers, or both texts. -/
def EntityId.SameKind : EntityId → EntityId → Prop
  | .int _, .int _ => True
  | .text _, .text _ => True
  | _, _ => False

/-- Ids of one kind are told apart by their texts. -/
theorem EntityId.eq_of_display {i i' : EntityId} (hkind : i.SameKind i')
    (h : i.display = i'.display) : i = i' := by
  cases i with
  | int n =>
    cases i' with
    | int m =>
      have hnumerals : intNumeral n.toInt = intNumeral m.toInt := by
        simpa [display] using congrArg String.toList h
      have hread := Json.readWord_int64 n
      rw [hnumerals, Json.readWord_int64 m] at hread
      rw [Int64.toInt_inj.1 (Json.Written.int.inj (Option.some.inj hread)).symm]
    | text s => cases hkind
  | text s =>
    cases i' with
    | int m => cases hkind
    | text s' =>
      obtain rfl : s = s' := h
      rfl

/-- **Labels tell identities apart**, if the types have no colon in them and the ids are of one kind. -/
theorem EntityRef.eq_of_label {r r' : EntityRef} (htype : NoColon r.entityType)
    (htype' : NoColon r'.entityType) (hkind : r.id.SameKind r'.id) (h : r.label = r'.label) :
    r = r' := by
  obtain ⟨htypes, hids⟩ := cut_unique htype htype' h
  obtain ⟨entityType, id⟩ := r
  obtain ⟨entityType', id'⟩ := r'
  obtain rfl : entityType = entityType' := String.toList_inj.1 htypes
  obtain rfl : id = id' := EntityId.eq_of_display hkind (String.toList_inj.1 hids)
  rfl

namespace Engine

variable {σ : Type}

/-- **No entity gets a value of another one, as far as labels tell identities apart.**  Keys of a field
are the same exactly if the labels and the digests are, and labels of one kind of ids, and of types
without colons, are those of one identity.  An engine whose cache is shared by entities with unlike
labels, by inputs of one entity with unlike digests, and by answers whose decimals are kept, gives each
entity what its own computation yields. -/
theorem keys_of_labels (rs : List Registration) (hrs : ∀ r ∈ rs, r.IsBuilt) {en : Engine σ}
    (hcatalog : en.catalog = Catalog.enterAll {} rs) (hofInputs : en.catalog.IsOfInputs)
    (hdigest : ∀ s, NoColon (en.digest s)) :
    (∀ field e e' i i', cacheKey en.digest field e i = cacheKey en.digest field e' i' ↔
      e.ref.label = e'.ref.label ∧ en.digest (inputsText i) = en.digest (inputsText i')) ∧
    (∀ r r' : EntityRef, NoColon r.entityType → NoColon r'.entityType → r.id.SameKind r'.id →
      r.label = r'.label → r = r') ∧
    ∀ cache s calls, en.cache = some cache → cache.IsHonest Value.decode? s.cache →
      (∀ a ∈ en.runAsks calls s, ∀ a' ∈ en.runAsks calls s, a.entity.label = a'.entity.label →
        a.entity = a'.entity) →
      (∀ a ∈ en.runAsks calls s, ∀ a' ∈ en.runAsks calls s, a.field = a'.field →
        a.entity = a'.entity →
        en.digest (inputsText a.inputs) = en.digest (inputsText a'.inputs) → a = a') →
      (∀ a ∈ en.runAsks calls s, ∀ v value,
        KeyMap.get? a.field en.catalog.virtualFields = some v → a.answer v = .ok value →
          value.IsKept) →
      List.Forall₂ Recovers (en.runBatches calls s)
        ({ en with cache := none }.runBatches calls s) := by
  have hc : en.catalog.Lawful := by
    rw [hcatalog]
    exact Catalog.Lawful.empty.enterAll rs
  refine ⟨cacheKey_eq_iff hdigest, fun r r' => EntityRef.eq_of_label, ?_⟩
  intro cache s calls hcache hhonest hlabels hbags hkept
  have htrusted : ∀ cache', en.cache = some cache' →
      en.Trusted (· ∈ en.runAsks calls s) s.cache cache' := by
    intro cache' hcache'
    obtain rfl : cache = cache' := Option.some.inj (hcache.symm.trans hcache')
    refine ⟨hhonest, ?_, ?_, fun a v value ha => hkept a ha v value⟩
    · intro p hp
      rw [hcatalog] at hp
      exact Catalog.noColon_enterAll hrs p hp
    · intro a a' ha ha' hfield hkey
      unfold Ask.key at hkey
      rw [hfield] at hkey
      obtain ⟨hlabel, hdigests⟩ := (cacheKey_eq_iff hdigest _ _ _ _ _).1 hkey
      exact hbags a ha a' ha' hfield (hlabels a ha a' ha' hlabel) hdigests
  exact @runBatches_recovers σ σ en { en with cache := none } _ _ hc hofInputs htrusted rfl rfl rfl
    calls s s (fun _ ha => ha) sound_start

section Named

/-- A field whose value is the id of its entity. -/
def named : VirtualField where
  name := "named"
  fieldType := .string
  computation := .pure fun e _ => .ok e.id.toValue
  computationName := "named"
  operators := FieldType.string.operators
  cacheable := true

/-- An engine that remembers ten values under their digests. -/
def naming : Engine MemoryCache where
  catalog := Catalog.enterAll {} [.virtual named]
  digest := .sha256
  cache := some MemoryCache.cache

theorem named_isBuilt : (Registration.virtual named).IsBuilt :=
  ⟨{ name := "named", fieldType := .string, computation := some named.computation,
     cacheable := true }, rfl⟩

theorem naming_isOfInputs : naming.catalog.IsOfInputs := by
  intro p hp
  have hfields : naming.catalog.virtualFields = [("named", named)] := rfl
  rw [hfields] at hp
  obtain rfl := List.mem_singleton.1 hp
  refine ⟨⟨fun _ _ => rfl, fun _ _ => rfl⟩, fun e e' i href => ?_⟩
  have hid : e.id = e'.id := congrArg EntityRef.id href
  show ({ value := .ok e.id.toValue } : Outcome) = { value := .ok e'.id.toValue }
  rw [hid]

/-- Calls for the names of users, one after the other. -/
def naming.calls (ids : List EntityId) : List BatchCall :=
  ids.map fun id => { field := "named", entities := [.mk "user" id [] []] }

/-- The user that an ask is about, if it asks for the name of one. -/
def userOf? : Ask → Option EntityId
  | ⟨field, ⟨entityType, id⟩, [], []⟩ =>
    if field = "named" ∧ entityType = "user" then some id else none
  | _ => none

/-- What is asked for a user. -/
def userAsk (id : EntityId) : Ask := ⟨"named", ⟨"user", id⟩, [], []⟩

theorem eq_of_userOf? {a : Ask} {id : EntityId} (h : userOf? a = some id) : a = userAsk id := by
  unfold userOf? at h
  split at h
  · split at h
    · rename_i hnames
      obtain ⟨rfl, rfl⟩ := hnames
      cases h
      rfl
    · cases h
  · cases h

/-- The ids among results that are numbers. -/
def numbers (results : Results) : List Int64 :=
  results.filterMap fun r =>
    match r.2 with
    | .ok (.int n) => some n
    | _ => none

theorem naming_isBuilt : ∀ r ∈ [Registration.virtual named], r.IsBuilt := by
  intro r hr
  rw [List.mem_singleton.1 hr]
  exact named_isBuilt

/-- Two users, of whom the first is asked for again. -/
def twoUsers : List BatchCall := naming.calls [.int 1, .int 2, .int 1]

/-- The first user is recalled, and each user has the own name. -/
theorem naming_twoUsers :
    (∀ r ∈ [Registration.virtual named], r.IsBuilt) ∧ naming.catalog.IsOfInputs ∧
    (∀ s, NoColon (naming.digest s)) ∧
    (naming.runBatches twoUsers blank).map (shown numbers) = [some [1], some [2], some [1]] ∧
    List.Forall₂ Recovers (naming.runBatches twoUsers blank)
      ({ naming with cache := none }.runBatches twoUsers blank) := by
  have hasks : ∀ a ∈ naming.runAsks twoUsers blank, a = userAsk (.int 1) ∨ a = userAsk (.int 2) := by
    have husers : (naming.runAsks twoUsers blank).map userOf? =
        [some (.int 1), some (.int 2), some (.int 1)] := by
      decide +kernel
    intro a ha
    have hmem : userOf? a ∈ [some (EntityId.int 1), some (.int 2), some (.int 1)] :=
      husers ▸ List.mem_map_of_mem ha
    simp only [List.mem_cons, List.not_mem_nil, or_false] at hmem
    rcases hmem with h | h | h
    · exact .inl (eq_of_userOf? h)
    · exact .inr (eq_of_userOf? h)
    · exact .inl (eq_of_userOf? h)
  have hlabel : (userAsk (.int 1)).entity.label ≠ (userAsk (.int 2)).entity.label := by decide +kernel
  have hcatalog : naming.catalog = Catalog.enterAll {} [.virtual named] := rfl
  obtain ⟨-, -, hrecovers⟩ := keys_of_labels [.virtual named] naming_isBuilt hcatalog
    naming_isOfInputs Digest.noColon_sha256
  refine ⟨naming_isBuilt, naming_isOfInputs, Digest.noColon_sha256, by decide +kernel,
    hrecovers _ _ _ rfl (MemoryCache.isHonest 10 _) ?_ ?_ ?_⟩
  · intro a ha a' ha' hsame
    rcases hasks a ha with rfl | rfl <;> rcases hasks a' ha' with rfl | rfl
    · rfl
    · exact absurd hsame hlabel
    · exact absurd hsame.symm hlabel
    · rfl
  · intro a ha a' ha' _ hentity _
    rcases hasks a ha with rfl | rfl <;> rcases hasks a' ha' with rfl | rfl
    · rfl
    · cases hentity
    · cases hentity
    · rfl
  · intro a ha v value hv hanswer
    have hname : a.field = "named" := by rcases hasks a ha with rfl | rfl <;> rfl
    rw [hname] at hv
    obtain rfl : named = v := Option.some.inj hv
    obtain rfl : a.entity.id.toValue = value := Except.ok.inj (by
      rw [← hanswer]
      rcases hasks a ha with rfl | rfl <;> rfl)
    rcases hasks a ha with rfl | rfl <;> exact trivial

/-- **A number and its numeral share their values**: the second user gets the name of the first, with
every digest. -/
theorem named_shares :
    (⟨"user", .int 1⟩ : EntityRef) ≠ ⟨"user", .text "1"⟩ ∧
    (∀ digest field i, cacheKey digest field (EntityRef.bare ⟨"user", .int 1⟩) i =
      cacheKey digest field (EntityRef.bare ⟨"user", .text "1"⟩) i) ∧
    ¬ List.Forall₂ Recovers (naming.runBatches (naming.calls [.int 1, .text "1"]) blank)
      ({ naming with cache := none }.runBatches (naming.calls [.int 1, .text "1"]) blank) := by
  have hdisplay : (EntityId.int 1).display = "1" := by decide +kernel
  refine ⟨by decide, ?_, ?_⟩
  · intro digest field i
    show ":".intercalate [field, "user", (EntityId.int 1).display, _] = _
    rw [hdisplay]
    rfl
  intro hrecovers
  have hcached : (naming.runBatches (naming.calls [.int 1, .text "1"]) blank).map (shown numbers) =
      [some [1], some [1]] := by
    decide +kernel
  have hcomputed : ({ naming with cache := none }.runBatches (naming.calls [.int 1, .text "1"])
      blank).map (shown numbers) = [some [1], some []] := by
    decide +kernel
  have hok : ∀ o ∈ { naming with cache := none }.runBatches (naming.calls [.int 1, .text "1"]) blank,
      o.isOk = true :=
    List.all_eq_true.1 (by decide +kernel)
  have hsame := shown_of_recovers hrecovers hok numbers
  rw [hcached, hcomputed] at hsame
  cases hsame

end Named

end Engine

end FieldQuery
