import FieldQuery.Cache.Basic
import FieldQuery.Catalog.Basic
import FieldQuery.Data.Assoc
import FieldQuery.Data.Chunks
import FieldQuery.Digest.Basic
import FieldQuery.Engine.Budget

/-!
# Computing virtual fields

An engine computes one virtual field for a batch of entities.

* `cacheKey` — the name under which a computed value is cached: field, entity, and a digest of
  everything that the computation is given;
* `Engine.computeOne` — one field of one entity, from the cache or by its computation;
* `Engine.computeEntity` — a field of an entity after the virtual fields that it needs. One that
  fails has its default value under the default policy, and fails the entity under the others;
* `Engine.computeBatch` — a field of many entities, chunk by chunk. A whole chunk is computed
  before its failures are looked at. What ends the batch leaves cache and token as they are by
  then, and does not count in the totals.

Entities with one identity share one result, that of the last of them.
-/

namespace FieldQuery

open Text

/-- What has been counted. -/
structure BatchStats where
  entities : Nat := 0
  chunks : Nat := 0
  /-- Computations that succeeded, those of dependencies included. -/
  computed : Nat := 0
  cacheHits : Nat := 0
  cacheErrors : Nat := 0
  failed : Nat := 0
  defaulted : Nat := 0
  excluded : Nat := 0
  deriving DecidableEq, Repr, Inhabited

/-- Adds up two counts. -/
def BatchStats.add (a b : BatchStats) : BatchStats where
  entities := a.entities + b.entities
  chunks := a.chunks + b.chunks
  computed := a.computed + b.computed
  cacheHits := a.cacheHits + b.cacheHits
  cacheErrors := a.cacheErrors + b.cacheErrors
  failed := a.failed + b.failed
  defaulted := a.defaulted + b.defaulted
  excluded := a.excluded + b.excluded

/-- The counts as JSON. -/
def BatchStats.toJson (s : BatchStats) : Json :=
  .object [
    ("entities", .ofNat s.entities),
    ("chunks", .ofNat s.chunks),
    ("computed", .ofNat s.computed),
    ("cache_hits", .ofNat s.cacheHits),
    ("cache_errors", .ofNat s.cacheErrors),
    ("failed", .ofNat s.failed),
    ("defaulted", .ofNat s.defaulted),
    ("excluded", .ofNat s.excluded)]

/-- The columns of inputs as one text: name and value of each, with a NUL after both. -/
def columnsText (columns : List (String × Value)) : List Char :=
  columns.flatMap fun (name, v) =>
    name.toList ++ Char.ofNat 0 :: v.toJson.write ++ [Char.ofNat 0]

/-- The relations of inputs as one text: the name with a mark after it, and the records. -/
def relationsText (relations : List (String × List Entity)) : List Char :=
  relations.flatMap fun (name, related) =>
    name.toList ++ Char.ofNat 1 :: related.flatMap fun e => e.toJson.write

/-- What a computation is given, as one text. -/
def inputsText (i : Inputs) : String :=
  String.ofList (columnsText i.columns ++ relationsText i.relations)

/-- The name under which a computed value is cached. -/
def cacheKey (digest : Digest) (field : String) (e : Entity) (i : Inputs) : String :=
  ":".intercalate [field, e.entityType, e.id.display, digest (inputsText i)]

/-- An engine with a cache whose states are of type `σ`. -/
structure Engine (σ : Type) where
  catalog : Catalog
  settings : ComputationSettings := {}
  digest : Digest
  /-- The cache of computed values, if there is one. -/
  cache : Option (Cache σ) := none
  /-- How long a value is cached, unless its field says so. -/
  defaultTtlMs : Nat := 3600000

/-- What an engine remembers between batches. -/
structure EngineState (σ : Type) where
  cache : σ
  /-- The time in nanoseconds. Each use of a cache takes one, so that no two are at one time. -/
  clock : Nat := 0
  /-- Whether the token of the request has been cancelled. -/
  cancelled : Bool := false
  totals : BatchStats := {}

/-- What changes during a batch. -/
structure Progress (σ : Type) where
  cache : σ
  clock : Nat
  cancelled : Bool
  /-- The milliseconds that computations have taken. -/
  spent : Nat := 0
  /-- The memory that computed values take up. -/
  used : Nat := 0
  stats : BatchStats := {}

namespace Progress

variable {σ : Type}

/-- The progress after an outcome: its time has passed, and it may have cancelled the batch. -/
def after (p : Progress σ) (o : Outcome) : Progress σ :=
  { p with
    clock := p.clock + nanosPerMilli * o.duration
    spent := p.spent + o.duration
    cancelled := p.cancelled || o.cancels }

/-- Counts a computation that has succeeded. -/
def countComputed (p : Progress σ) : Progress σ :=
  { p with stats := { p.stats with computed := p.stats.computed + 1 } }

@[simp] theorem after_spent (p : Progress σ) (o : Outcome) :
    (p.after o).spent = p.spent + o.duration := rfl

@[simp] theorem after_used (p : Progress σ) (o : Outcome) : (p.after o).used = p.used := rfl

@[simp] theorem after_cancelled (p : Progress σ) (o : Outcome) :
    (p.after o).cancelled = (p.cancelled || o.cancels) := rfl

@[simp] theorem countComputed_spent (p : Progress σ) : p.countComputed.spent = p.spent := rfl

@[simp] theorem countComputed_used (p : Progress σ) : p.countComputed.used = p.used := rfl

@[simp] theorem countComputed_cancelled (p : Progress σ) :
    p.countComputed.cancelled = p.cancelled := rfl

end Progress

/-- What stays the same during a batch. -/
structure Batch where
  target : VirtualField
  /-- The target and the virtual fields that it needs, each after what it needs itself. -/
  order : List String
  budget : Budget
  /-- When the time of the batch is used up. -/
  deadline : Nat
  /-- Whether a cancelled token ends the batch. -/
  heeds : Bool

/-- A place in a cache. -/
structure Slot (σ : Type) where
  cache : Cache σ
  key : String

/-- The value or the failure of each entity. -/
abbrev Results := List (EntityId × Except ComputationError Value)

/-- What a batch yields. -/
structure BatchOutcome where
  results : Results := []
  stats : BatchStats := {}

namespace BatchOutcome

/-- The value of an entity. -/
def value? (o : BatchOutcome) (id : EntityId) : Option Value :=
  match List.lookup id o.results with
  | some (.ok v) => some v
  | _ => none

/-- Whether an entity has failed and has not been given another value. -/
def isExcluded (o : BatchOutcome) (id : EntityId) : Bool :=
  match List.lookup id o.results with
  | some (.error _) => true
  | _ => false

end BatchOutcome

namespace Engine

variable {σ : Type}

/-- What is found under every one of some names, in their order; fails at the first name under
which nothing is found. -/
def gather {α : Type} (look : String → Option α) (missing : String → ComputationError) :
    List String → Except ComputationError (List (String × α))
  | [] => .ok []
  | n :: ns =>
    match look n with
    | none => .error (missing n)
    | some a =>
      match gather look missing ns with
      | .error err => .error err
      | .ok rest => .ok ((n, a) :: rest)

/-- The values of a field's dependencies: those that have been computed, else the attributes. -/
def resolveColumns (v : VirtualField) (e : Entity) (computed : List (String × Value)) :
    Except ComputationError (List (String × Value)) :=
  gather (fun d => (List.lookup d computed).or (e.attribute? d))
    (.missingDependency v.name e.ref) v.dependencies

/-- The records of a field's relations. -/
def resolveRelations (v : VirtualField) (e : Entity) :
    Except ComputationError (List (String × List Entity)) :=
  gather e.relation? (.missingRelation v.name e.ref) v.relationships

/-- What the computation of a field is given. -/
def resolveInputs (b : Batch) (v : VirtualField) (e : Entity) (computed : List (String × Value))
    (cancelled : Bool) : Except ComputationError Inputs :=
  match resolveColumns v e computed with
  | .error err => .error err
  | .ok columns =>
    match resolveRelations v e with
    | .error err => .error err
    | .ok relations => .ok {
        columns := columns, relations := relations,
        deadline := some b.deadline, cancelled := b.heeds && cancelled }

/-- Where a value is cached: if there is a cache and the field uses it. -/
def slot? (en : Engine σ) (v : VirtualField) (e : Entity) (i : Inputs) : Option (Slot σ) :=
  match en.cache with
  | some cache => if v.cacheable then some ⟨cache, cacheKey en.digest v.name e i⟩ else none
  | none => none

/-- Counts an error of the cache. -/
def countCacheError (p : Progress σ) : Progress σ :=
  { p with stats := { p.stats with cacheErrors := p.stats.cacheErrors + 1 } }

/-- Looks a value up in its slot. An error counts as nothing found. -/
def findCached (slot : Slot σ) (p : Progress σ) : Option Value × Progress σ :=
  let now := p.clock + 1
  let (found, s) := slot.cache.fetch Value.decode? now slot.key p.cache
  let p := { p with cache := s, clock := now }
  match found with
  | .ok (some value) =>
    (some value, { p with stats := { p.stats with cacheHits := p.stats.cacheHits + 1 } })
  | .ok none => (none, p)
  | .error _ => (none, countCacheError p)

/-- Puts a value into its slot. -/
def remember (lifetime : Nat) (value : Value) (slot : Slot σ) (p : Progress σ) : Progress σ :=
  let now := p.clock + 1
  let (done, s) := slot.cache.put now slot.key value.encode lifetime p.cache
  let p := { p with cache := s, clock := now }
  match done with
  | .ok _ => p
  | .error _ => countCacheError p

/-- How long the values of a field are cached, in nanoseconds. -/
def lifetime (en : Engine σ) (v : VirtualField) : Nat :=
  nanosPerMilli * v.cacheTtlMs.getD en.defaultTtlMs

/-- Why a computed value is refused. -/
def nullRefused : String := "returned null for a non-nullable field"

/-- Takes a value over if there is time left and memory for it. -/
def takeOver (b : Budget) (value : Value) (p : Progress σ) :
    Except ComputationError Value × Progress σ :=
  match b.checkTime p.spent with
  | .error err => (.error err, p)
  | .ok _ =>
    match b.charge value.size p.used with
    | (.error err, used) => (.error err, { p with used := used })
    | (.ok _, used) => (.ok value, { p with used := used })

/-- Runs the computation of a field. The value has to fit the field and the budget. -/
def compute (b : Batch) (v : VirtualField) (e : Entity) (inputs : Inputs) (p : Progress σ) :
    Except ComputationError Value × Progress σ :=
  let outcome := v.computation e inputs
  let p := p.after outcome
  match outcome.value with
  | .error reason => (.error (.callbackFailed v.name e.ref reason), p)
  | .ok value =>
    let p := p.countComputed
    if value.isNull && !v.nullable then (.error (.callbackFailed v.name e.ref nullRefused), p)
    else takeOver b.budget value p

/-- Looks a value up in its slot, and else computes it and puts it there. -/
def findOrCompute (en : Engine σ) (b : Batch) (v : VirtualField) (e : Entity) (inputs : Inputs)
    (slot : Slot σ) (p : Progress σ) : Except ComputationError Value × Progress σ :=
  match findCached slot p with
  | (some value, p) => (.ok value, p)
  | (none, p) =>
    match compute b v e inputs p with
    | (.error err, p) => (.error err, p)
    | (.ok value, p) => (.ok value, remember (en.lifetime v) value slot p)

/-- One field of one entity. -/
def computeOne (en : Engine σ) (b : Batch) (v : VirtualField) (e : Entity)
    (computed : List (String × Value)) (p : Progress σ) :
    Except ComputationError Value × Progress σ :=
  match resolveInputs b v e computed p.cancelled with
  | .error err => (.error err, p)
  | .ok inputs =>
    match en.slot? v e inputs with
    | some slot => en.findOrCompute b v e inputs slot p
    | none => compute b v e inputs p

/-- The fields of an order, one after the other; the value of the target. -/
def computeOrder (en : Engine σ) (b : Batch) (e : Entity) :
    List String → List (String × Value) → Progress σ → Except ComputationError Value × Progress σ
  | [], computed, p =>
    match List.lookup b.target.name computed with
    | some value => (.ok value, p)
    | none => (.error (.unknownField b.target.name), p)
  | name :: rest, computed, p =>
    match en.catalog.virtual? name with
    | none => computeOrder en b e rest computed p
    | some v =>
      match en.computeOne b v e computed p with
      | (.ok value, p) => computeOrder en b e rest ((name, value) :: computed) p
      | (.error err, p) =>
        if v.name = b.target.name ∨ err.isBatchLevel then (.error err, p)
        else if en.settings.failurePolicy = .default then
          computeOrder en b e rest ((name, v.default) :: computed) p
        else (.error (.dependencyFailed b.target.name e.ref v.name), p)

/-- The target of a batch for one entity. -/
def computeEntity (en : Engine σ) (b : Batch) (e : Entity) (p : Progress σ) :
    Except ComputationError Value × Progress σ :=
  match b.budget.checkTime p.spent with
  | .error err => (.error err, p)
  | .ok _ => en.computeOrder b e b.order [] p

/-- The target of a batch for the entities of a chunk. -/
def computeChunk (en : Engine σ) (b : Batch) :
    List Entity → Progress σ → Results × Progress σ
  | [], p => ([], p)
  | e :: es, p =>
    let (result, p) := en.computeEntity b e p
    let (results, p) := computeChunk en b es p
    ((e.id, result) :: results, p)

/-- What becomes of an entity that has failed: it has the default value, or stays failed, or
fails the batch. -/
def settle (en : Engine σ) (v : VirtualField) (err : ComputationError) (stats : BatchStats) :
    Except ComputationError (Except ComputationError Value × BatchStats) :=
  let stats := { stats with failed := stats.failed + 1 }
  if en.settings.failurePolicy = .throw then .error err
  else if en.settings.abortBatchOnFailure then .error (.batchFailed v.name stats.failed err)
  else if en.settings.failurePolicy = .exclude then
    .ok (.error err, { stats with excluded := stats.excluded + 1 })
  else .ok (.ok v.default, { stats with defaulted := stats.defaulted + 1 })

/-- Takes the results of a chunk over, up to one that ends the batch. -/
def collect (en : Engine σ) (v : VirtualField) :
    Results → Results → BatchStats → Except ComputationError (Results × BatchStats)
  | [], results, stats => .ok (results, stats)
  | (id, .ok value) :: rest, results, stats =>
    collect en v rest (Assoc.set id (.ok value) results) stats
  | (id, .error err) :: rest, results, stats =>
    if err.isBatchLevel then .error err
    else match en.settle v err stats with
      | .error err => .error err
      | .ok (result, stats) => collect en v rest (Assoc.set id result results) stats

/-- The chunks of a batch. -/
def computeChunks (en : Engine σ) (b : Batch) :
    List (List Entity) → Results → Progress σ → Except ComputationError Results × Progress σ
  | [], results, p => (.ok results, p)
  | chunk :: rest, results, p =>
    if b.heeds && p.cancelled then (.error (.cancelled b.target.name), p)
    else match b.budget.checkTime p.spent with
      | .error err => (.error err, p)
      | .ok _ =>
        let p := { p with stats := { p.stats with chunks := p.stats.chunks + 1 } }
        let (found, p) := en.computeChunk b chunk p
        match en.collect b.target found results p.stats with
        | .error err => (.error err, p)
        | .ok (results, stats) => computeChunks en b rest results { p with stats := stats }

/-- A virtual field of many entities. With `heeds`, the token of the request may end the batch
between two chunks. -/
def computeBatch (en : Engine σ) (heeds : Bool) (field : String) (es : List Entity)
    (s : EngineState σ) : Except ComputationError BatchOutcome × EngineState σ :=
  match en.catalog.virtual? field with
  | none => (.error (.unknownField field), s)
  | some v =>
    let budget := Budget.ofField v en.settings
    let b : Batch := {
      target := v, order := en.catalog.computationOrder v.name, budget := budget,
      deadline := s.clock + nanosPerMilli * budget.timeLimitMs, heeds := heeds }
    let start : Progress σ := {
      cache := s.cache, clock := s.clock, cancelled := s.cancelled,
      stats := { entities := es.length } }
    let (found, p) := en.computeChunks b (chunks (en.settings.batchSize - 1) es) [] start
    let s := { s with cache := p.cache, clock := p.clock, cancelled := p.cancelled }
    match found with
    | .error err => (.error err, s)
    | .ok results =>
      (.ok ⟨results, p.stats⟩, { s with totals := s.totals.add p.stats })

end Engine

end FieldQuery
