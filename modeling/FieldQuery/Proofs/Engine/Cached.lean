import FieldQuery.Computation.Builtin
import FieldQuery.Proofs.Engine.Batch
import FieldQuery.Proofs.Engine.Follow

/-!
# Runs of an engine with a cache

* `BatchCall` — a call for a batch, as one of a sequence;
* `runBatches`, `runAsks` — the outcomes of a sequence of calls, and the asks that occur in it.

Principal results: `runBatches_recovers` — an engine with a trusted cache has the outcomes of one
without, `runBatches_of_keys` — any honest cache will do, as long as no two asks of a field share a
key and the decimals of the answers are kept.  Without the last condition this fails:
`runBatches_rounded`.
-/

namespace FieldQuery

/-- A call for a batch: the time since the call before, the state of its token, and whether the token
is heeded. -/
structure BatchCall where
  wait : Nat := 0
  cancelled : Bool := false
  heeds : Bool := false
  field : String
  entities : List Entity

/-- The state of an engine when a call begins. -/
def BatchCall.begin {σ : Type} (c : BatchCall) (s : EngineState σ) : EngineState σ :=
  { s with clock := s.clock + c.wait, cancelled := c.cancelled }

namespace Engine

variable {σ τ : Type}

/-- The batch of a call. -/
def callBatch (en : Engine σ) (c : BatchCall) (s : EngineState σ) :
    Except ComputationError BatchOutcome × EngineState σ :=
  en.computeBatch c.heeds c.field c.entities (c.begin s)

/-- The outcomes of calls one after the other. -/
def runBatches (en : Engine σ) :
    List BatchCall → EngineState σ → List (Except ComputationError BatchOutcome)
  | [], _ => []
  | c :: cs, s => (en.callBatch c s).1 :: runBatches en cs (en.callBatch c s).2

/-- The asks of calls one after the other. -/
def runAsks (en : Engine σ) : List BatchCall → EngineState σ → List Ask
  | [], _ => []
  | c :: cs, s =>
    en.batchAsks c.heeds c.field c.entities (c.begin s) ++ runAsks en cs (en.callBatch c s).2

/-- **An engine with a trusted cache has the outcomes of an engine without.** -/
theorem runBatches_recovers {en : Engine σ} {en₀ : Engine τ} {asks : Ask → Prop} {start : σ}
    (hc : en.catalog.Lawful) (hofInputs : en.catalog.IsOfInputs)
    (htrusted : ∀ cache, en.cache = some cache → en.Trusted asks start cache)
    (hcatalog : en₀.catalog = en.catalog) (hsettings : en.settings = en₀.settings)
    (hnone : en₀.cache = none) (calls : List BatchCall) :
    ∀ (s : EngineState σ) (s₀ : EngineState τ), (∀ a ∈ en.runAsks calls s, asks a) →
      en.Sound asks start s.cache →
      List.Forall₂ Recovers (en.runBatches calls s) (en₀.runBatches calls s₀) := by
  induction calls with
  | nil => exact fun _ _ _ _ => .nil
  | cons c calls ih =>
    intro s s₀ hasks hsound
    have hfirst := fun a ha => hasks a (List.mem_append_left _ ha)
    have hrest := fun a ha => hasks a (List.mem_append_right _ ha)
    refine .cons ?_ (ih _ _ hrest ?_)
    · exact computeBatch_follows hc hofInputs htrusted hcatalog hsettings hnone rfl hfirst hsound
    · exact computeBatch_steady hc (steady_sound hc hofInputs htrusted) hfirst hsound

/-- **A cache changes no results.**  An engine whose cache finds nothing but what has been put there,
or texts that it cannot read, has the outcomes of an engine without a cache, one by one, unless the
latter has reached a ceiling.  This is for every failing or forgetful cache, every policy, and calls
for any entities, as long as no two asks of one field share a key, and the decimals of the answers
are what their texts are read as. -/
theorem runBatches_of_keys (rs : List Registration) (hrs : ∀ r ∈ rs, r.IsBuilt) {en : Engine σ}
    (hcatalog : en.catalog = Catalog.enterAll {} rs) (hofInputs : en.catalog.IsOfInputs)
    {cache : Cache σ} (hcache : en.cache = some cache) {s : EngineState σ}
    (hhonest : cache.IsHonest Value.decode? s.cache) {calls : List BatchCall}
    (hkeys : ∀ a ∈ en.runAsks calls s, ∀ a' ∈ en.runAsks calls s, a.field = a'.field →
      a.key en.digest = a'.key en.digest → a = a')
    (hkept : ∀ a ∈ en.runAsks calls s, ∀ v value,
      KeyMap.get? a.field en.catalog.virtualFields = some v → a.answer v = .ok value → value.IsKept) :
    List.Forall₂ Recovers (en.runBatches calls s)
      ({ en with cache := none }.runBatches calls s) := by
  have hc : en.catalog.Lawful := by
    rw [hcatalog]
    exact Catalog.Lawful.empty.enterAll rs
  have htrusted : ∀ cache', en.cache = some cache' →
      en.Trusted (· ∈ en.runAsks calls s) s.cache cache' := by
    intro cache' hcache'
    obtain rfl : cache = cache' := Option.some.inj (hcache.symm.trans hcache')
    refine ⟨hhonest, ?_, fun a a' ha ha' => hkeys a ha a' ha', fun a v value ha => hkept a ha v value⟩
    intro p hp
    rw [hcatalog] at hp
    exact Catalog.noColon_enterAll hrs p hp
  exact @runBatches_recovers σ σ en { en with cache := none } _ _ hc hofInputs htrusted rfl rfl rfl
    calls s s (fun _ ha => ha) sound_start

/-- What some look at results shows, if the batch does not fail. -/
def shown {α : Type} (look : Results → α) (o : Except ComputationError BatchOutcome) : Option α :=
  o.toOption.map fun o => look o.results

/-- Outcomes that are recovered show the same, where no batch fails. -/
theorem shown_of_recovers {α : Type} {os os₀ : List (Except ComputationError BatchOutcome)}
    (h : List.Forall₂ Recovers os os₀) (hok : ∀ o ∈ os₀, o.isOk = true) (look : Results → α) :
    os.map (shown look) = os₀.map (shown look) := by
  have hlook : ∀ o, shown look (o.map BatchOutcome.ofResults) = shown look o := by
    intro o
    cases o <;> rfl
  induction h with
  | nil => rfl
  | @cons o o₀ os os₀ hfirst _ ih =>
    obtain ⟨hhead, hrest⟩ := List.forall_mem_cons.1 hok
    rw [List.map_cons, List.map_cons, ih hrest]
    rcases hfirst with hsame | ⟨err, rfl, -⟩
    · rw [← hlook o, hsame, hlook]
    · cases hhead

section Copies

/-- A copy of an amount, which is cached. -/
def copied : VirtualField where
  name := "copied"
  fieldType := .decimal
  computation := .coalesce
  computationName := "copied"
  dependencies := ["amount"]
  operators := FieldType.decimal.operators
  cacheable := true

/-- An engine that remembers ten values. -/
def copying : Engine MemoryCache where
  catalog := Catalog.enterAll {} [.virtual copied]
  digest := id
  cache := some MemoryCache.cache

/-- An item with an amount. -/
def amounting (id : Int64) (x : Binary64) : Entity :=
  .mk "item" (.int id) [("amount", .decimal x)] []

/-- What is asked for such an item. -/
def amountAsk (id : Int64) (x : Binary64) : Ask := ⟨"copied", ⟨"item", .int id⟩, [("amount", .decimal x)], []⟩

/-- The number and the amount of such an ask. -/
def amount? : Ask → Option (Int64 × Binary64)
  | ⟨field, ⟨entityType, .int id⟩, [(name, .decimal x)], []⟩ =>
    if field = "copied" ∧ entityType = "item" ∧ name = "amount" then some (id, x) else none
  | _ => none

/-- One half. -/
def oneHalf : Binary64 := .ofScientific false 5 (-1)

/-- Its seventeen digits do not survive a text that is rounded twice. -/
def manyDigits : Binary64 := .ofScientific false 12345678912345679 (-8)

theorem copied_isBuilt : (Registration.virtual copied).IsBuilt :=
  ⟨{ name := "copied", fieldType := .decimal, computation := some .coalesce,
     dependencies := ["amount"], cacheable := true }, rfl⟩

theorem copying_isOfInputs : copying.catalog.IsOfInputs := by
  intro p hp
  have hfields : copying.catalog.virtualFields = [("copied", copied)] := rfl
  rw [hfields] at hp
  obtain rfl := List.mem_singleton.1 hp
  exact ⟨⟨fun _ _ => rfl, fun _ _ => rfl⟩, fun _ _ _ _ => rfl⟩

theorem eq_of_amount? {a : Ask} {id : Int64} {x : Binary64} (h : amount? a = some (id, x)) :
    a = amountAsk id x := by
  unfold amount? at h
  split at h
  · split at h
    · rename_i hnames
      obtain ⟨rfl, rfl, rfl⟩ := hnames
      cases h
      rfl
    · cases h
  · cases h

/-- The asks of a run, by their numbers and amounts. -/
theorem asks_of_amounts (calls : List BatchCall) (s : EngineState MemoryCache)
    (amounts : List (Int64 × Binary64))
    (h : (copying.runAsks calls s).map amount? = amounts.map some) :
    ∀ a ∈ copying.runAsks calls s, ∃ p ∈ amounts, a = amountAsk p.1 p.2 := by
  intro a ha
  have hmem : amount? a ∈ amounts.map some := h ▸ List.mem_map_of_mem ha
  obtain ⟨p, hp, heq⟩ := List.mem_map.1 hmem
  exact ⟨p, hp, eq_of_amount? heq.symm⟩

/-- A call for items with amounts. -/
def copies (amounts : List (Int64 × Binary64)) : BatchCall where
  field := "copied"
  entities := amounts.map fun p => amounting p.1 p.2

/-- Two items, one of them for the second time. -/
def halvesCopied : List BatchCall := [copies [(1, oneHalf), (2, oneHalf)], copies [(1, oneHalf)]]

/-- A state without anything remembered. -/
def blank : EngineState MemoryCache := { cache := .empty 10 }

/-- A finite decimal whose text is read as itself. -/
theorem isKept_decimal {x : Binary64}
    (h : (match Json.readWord x.printJson with
      | some (.float y) => y == x
      | _ => false) = true) : (Value.decimal x).IsKept := by
  unfold Value.IsKept
  intro _
  split at h
  · rename_i y hread
    rw [hread, eq_of_beq h]
  · cases h

/-- The copy of an amount. -/
theorem answer_amountAsk (id : Int64) (x : Binary64) :
    (amountAsk id x).answer copied = .ok (.decimal x) := rfl

/-- A copy is recalled, and the run is that of an engine without a cache. -/
theorem runBatches_halvesCopied :
    (∀ r ∈ [Registration.virtual copied], r.IsBuilt) ∧ copying.catalog.IsOfInputs ∧
    copying.cache = some MemoryCache.cache ∧
    MemoryCache.cache.IsHonest Value.decode? blank.cache ∧
    (copying.runBatches halvesCopied blank).map (fun r => r.toOption.map (·.stats.cacheHits)) =
      [some 0, some 1] ∧
    List.Forall₂ Recovers (copying.runBatches halvesCopied blank)
      ({ copying with cache := none }.runBatches halvesCopied blank) := by
  have hbuilt : ∀ r ∈ [Registration.virtual copied], r.IsBuilt := by
    intro r hr
    rw [List.mem_singleton.1 hr]
    exact copied_isBuilt
  have hhonest : MemoryCache.cache.IsHonest Value.decode? blank.cache := MemoryCache.isHonest 10 _
  have hasks := asks_of_amounts halvesCopied blank [(1, oneHalf), (2, oneHalf), (1, oneHalf)]
    (by decide +kernel)
  have hkeys : ∀ a ∈ copying.runAsks halvesCopied blank,
      ∀ a' ∈ copying.runAsks halvesCopied blank, a.field = a'.field →
        a.key copying.digest = a'.key copying.digest → a = a' := by
    have hne : (amountAsk 1 oneHalf).key copying.digest ≠ (amountAsk 2 oneHalf).key copying.digest := by
      decide +kernel
    intro a ha a' ha' _ hkey
    obtain ⟨p, hp, rfl⟩ := hasks a ha
    obtain ⟨p', hp', rfl⟩ := hasks a' ha'
    simp only [List.mem_cons, List.not_mem_nil, or_false] at hp hp'
    rcases hp with rfl | rfl | rfl <;> rcases hp' with rfl | rfl | rfl <;>
      first | rfl | exact absurd hkey hne | exact absurd hkey.symm hne
  have hkept : ∀ a ∈ copying.runAsks halvesCopied blank, ∀ v value,
      KeyMap.get? a.field copying.catalog.virtualFields = some v → a.answer v = .ok value →
        value.IsKept := by
    have hhalf : (Value.decimal oneHalf).IsKept := isKept_decimal (by decide +kernel)
    intro a ha v value hv hanswer
    obtain ⟨p, hp, rfl⟩ := hasks a ha
    obtain rfl : copied = v := Option.some.inj hv
    obtain rfl : Value.decimal p.2 = value := Except.ok.inj ((answer_amountAsk _ _).symm.trans hanswer)
    simp only [List.mem_cons, List.not_mem_nil, or_false] at hp
    rcases hp with rfl | rfl | rfl <;> exact hhalf
  exact ⟨hbuilt, copying_isOfInputs, rfl, hhonest, by decide +kernel,
    runBatches_of_keys _ hbuilt rfl copying_isOfInputs rfl hhonest hkeys hkept⟩

/-- One item, and then the same item again. -/
def manyCopied : List BatchCall := [copies [(1, manyDigits)], copies [(1, manyDigits)]]

/-- The decimals among results. -/
def decimals (results : Results) : List Binary64 :=
  results.filterMap fun r =>
    match r.2 with
    | .ok (.decimal x) => some x
    | _ => none

/-- **A cache changes a decimal whose text is rounded twice.**  The engine finds another amount in its
cache than the one that it has computed, although no two asks share a key. -/
theorem runBatches_rounded :
    (∀ r ∈ [Registration.virtual copied], r.IsBuilt) ∧ copying.catalog.IsOfInputs ∧
    MemoryCache.cache.IsHonest Value.decode? blank.cache ∧
    (∀ a ∈ copying.runAsks manyCopied blank, ∀ a' ∈ copying.runAsks manyCopied blank,
      a.field = a'.field → a.key copying.digest = a'.key copying.digest → a = a') ∧
    ¬ List.Forall₂ Recovers (copying.runBatches manyCopied blank)
      ({ copying with cache := none }.runBatches manyCopied blank) := by
  have hasks := asks_of_amounts manyCopied blank [(1, manyDigits), (1, manyDigits)] (by decide +kernel)
  refine ⟨?_, copying_isOfInputs, MemoryCache.isHonest 10 _, ?_, ?_⟩
  · intro r hr
    rw [List.mem_singleton.1 hr]
    exact copied_isBuilt
  · intro a ha a' ha' _ _
    obtain ⟨p, hp, rfl⟩ := hasks a ha
    obtain ⟨p', hp', rfl⟩ := hasks a' ha'
    simp only [List.mem_cons, List.not_mem_nil, or_false, or_self] at hp hp'
    rw [hp, hp']
  · intro hrecovers
    have hcached : (copying.runBatches manyCopied blank).map (shown decimals) =
        [some [manyDigits], some [.ofScientific false 1234567891234568 (-7)]] := by
      decide +kernel
    have hcomputed : ({ copying with cache := none }.runBatches manyCopied blank).map
        (shown decimals) = [some [manyDigits], some [manyDigits]] := by
      decide +kernel
    have hok : ∀ o ∈ { copying with cache := none }.runBatches manyCopied blank, o.isOk = true :=
      List.all_eq_true.1 (by decide +kernel)
    have hsame := shown_of_recovers hrecovers hok decimals
    rw [hcached, hcomputed] at hsame
    revert hsame
    decide +kernel

end Copies

end Engine

end FieldQuery
