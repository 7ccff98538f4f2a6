import FieldQuery.Json.Basic
import FieldQuery.Text.LowerCase
import FieldQuery.Text.Numeral
import FieldQuery.Text.Blank

/-!
# Settings

What a deployment decides: how filters are read, what happens to entities that cannot be
computed, how much is sorted in memory, the size of pages, and the cache.

* `Settings` — six groups, each with its default values;
* `Settings.check` — the first fault of a group of values that do not fit together;
* `Settings.overlay` — variables of the environment replace single values;
* `Settings.toJson` — the groups in their order.
-/

namespace FieldQuery

open Text

/-- What happens to an entity whose virtual field cannot be computed. -/
inductive FailurePolicy where
  /-- The request fails. -/
  | throw
  /-- The field has its default value. -/
  | default
  /-- The entity leaves the result. -/
  | exclude
  deriving DecidableEq, Repr, Inhabited

namespace FailurePolicy

/-- The name of a policy. -/
def name : FailurePolicy → String
  | .throw => "throw"
  | .default => "default"
  | .exclude => "exclude"

/-- The policy of a name. -/
def ofName? (s : String) : Option FailurePolicy :=
  if s = "throw" then some .throw
  else if s = "default" then some .default
  else if s = "exclude" then some .exclude
  else none

/-- The policy of a name between blanks, in letters of any case. -/
def read? (s : String) : Option FailurePolicy := ofName? (asciiLowered (trimmed s))

end FailurePolicy

/-- How filters are read. -/
structure FilterSettings where
  /-- Whether the first clause that cannot be read fails the request; otherwise it is dropped. -/
  strict : Bool := false
  /-- The patterns of instants in the order in which they are tried. -/
  datetimeFormats : List String := ["rfc3339", "%Y-%m-%d %H:%M:%S", "%Y-%m-%d"]
  trueTokens : List String := ["true", "1", "yes", "on"]
  falseTokens : List String := ["false", "0", "no", "off"]
  /-- Fields that no filter may name. -/
  blockedFields : List String := []
  /-- The most values of a list. -/
  maxInValues : Nat := 100
  deriving Repr, Inhabited

/-- How virtual fields are computed. -/
structure ComputationSettings where
  failurePolicy : FailurePolicy := .default
  /-- The entities of a chunk. -/
  batchSize : Nat := 100
  /-- Whether one failing entity fails its whole batch. -/
  abortBatchOnFailure : Bool := false
  timeLimitMs : Nat := 5000
  memoryLimitBytes : Nat := 67108864
  parallelChunks : Bool := false
  deriving Repr, Inhabited

/-- How rows are sorted by virtual fields. -/
structure SortSettings where
  maxSortRecords : Nat := 10000
  /-- Whether a sort that is not feasible is left out. -/
  fallbackEnabled : Bool := true
  cacheSortedIds : Bool := true
  sortCacheTtlSecs : Nat := 300
  deriving Repr, Inhabited

/-- How results are cut into pages. -/
structure PageSettings where
  defaultPerPage : Nat := 15
  maxPerPage : Nat := 100
  /-- The path in the links to other pages. -/
  basePath : String := "/"
  deriving Repr, Inhabited

/-- The cache of computed values. -/
structure CacheSettings where
  enabled : Bool := true
  defaultTtlSecs : Nat := 3600
  maxEntries : Nat := 100000
  deriving Repr, Inhabited

/-- What is reported while the program runs. -/
structure LogSettings where
  level : String := "info"
  json : Bool := false
  deriving Repr, Inhabited

/-- All settings. -/
structure Settings where
  filter : FilterSettings := {}
  computation : ComputationSettings := {}
  sort : SortSettings := {}
  pagination : PageSettings := {}
  cache : CacheSettings := {}
  logging : LogSettings := {}
  deriving Repr, Inhabited

/-- Why values of settings do not fit together. -/
inductive SettingsFault where
  | noBatchSize
  | noTimeLimit
  | noMemoryLimit
  | noPageSize
  | pageSizeAboveMaximum
  | noDatetimeFormat
  | ambiguousToken (token : String)
  | noCacheEntries
  deriving DecidableEq, Repr

/-- The text of a fault. -/
def SettingsFault.message : SettingsFault → String
  | .noBatchSize => "computation.batch_size must be > 0"
  | .noTimeLimit => "computation.time_limit_ms must be > 0"
  | .noMemoryLimit => "computation.memory_limit_bytes must be > 0"
  | .noPageSize => "pagination per-page limits must be > 0"
  | .pageSizeAboveMaximum => "pagination.default_per_page cannot exceed max_per_page"
  | .noDatetimeFormat => "filter.datetime_formats cannot be empty"
  | .ambiguousToken token => s!"boolean token '{token}' is both true and false"
  | .noCacheEntries => "cache.max_entries must be > 0"

/-- Why a text of settings or of a catalog is refused. -/
inductive SettingsError where
  | unreadable
  | invalid (fault : SettingsFault)
  deriving DecidableEq, Repr

/-- The text of an error. -/
def SettingsError.message : SettingsError → String
  | .unreadable => "Parse error"
  | .invalid fault => "Validation error: " ++ fault.message

namespace FilterSettings

/-- The first token for false that is also one for true, in letters of any case. -/
def ambiguousToken? (s : FilterSettings) : Option String :=
  s.falseTokens.find? fun t => (s.trueTokens.map lowered).contains (lowered t)

end FilterSettings

namespace Settings

/-- The first fault in the order in which faults are looked for. -/
def fault? (s : Settings) : Option SettingsFault :=
  if s.computation.batchSize = 0 then some .noBatchSize
  else if s.computation.timeLimitMs = 0 then some .noTimeLimit
  else if s.computation.memoryLimitBytes = 0 then some .noMemoryLimit
  else if s.pagination.defaultPerPage = 0 ∨ s.pagination.maxPerPage = 0 then some .noPageSize
  else if s.pagination.maxPerPage < s.pagination.defaultPerPage then some .pageSizeAboveMaximum
  else if s.filter.datetimeFormats = [] then some .noDatetimeFormat
  else match s.filter.ambiguousToken? with
    | some token => some (.ambiguousToken token)
    | none => if s.cache.enabled ∧ s.cache.maxEntries = 0 then some .noCacheEntries else none

/-- The settings themselves, if nothing is wrong with them. -/
def check (s : Settings) : Except SettingsError Settings :=
  match s.fault? with
  | some fault => .error (.invalid fault)
  | none => .ok s

/-- A switch: on or off in one of the usual words, between blanks and in letters of any case. -/
def readSwitch? (raw : String) : Option Bool :=
  let word := asciiLowered (trimmed raw)
  if ["1", "true", "yes", "on"].contains word then some true
  else if ["0", "false", "no", "off"].contains word then some false
  else none

/-- The variables that replace settings. -/
def variableNames : List String :=
  ["SIEVE_STRICT", "SIEVE_FAILURE_POLICY", "SIEVE_BATCH_SIZE", "SIEVE_MAX_SORT_RECORDS",
    "SIEVE_SORT_FALLBACK", "SIEVE_LOG_LEVEL"]

/-- The settings with the values that the variables of an environment give; a variable that
cannot be read changes nothing. -/
def overlay (lookup : String → Option String) (s : Settings) : Settings :=
  let count (name : String) (value : Nat) : Nat :=
    ((lookup name).bind fun raw => readCount raw.toList).getD value
  let switch (name : String) (value : Bool) : Bool :=
    ((lookup name).bind readSwitch?).getD value
  { s with
    filter := { s.filter with strict := switch "SIEVE_STRICT" s.filter.strict }
    computation := { s.computation with
      failurePolicy := ((lookup "SIEVE_FAILURE_POLICY").bind FailurePolicy.read?).getD
        s.computation.failurePolicy
      batchSize := count "SIEVE_BATCH_SIZE" s.computation.batchSize }
    sort := { s.sort with
      maxSortRecords := count "SIEVE_MAX_SORT_RECORDS" s.sort.maxSortRecords
      fallbackEnabled := switch "SIEVE_SORT_FALLBACK" s.sort.fallbackEnabled }
    logging := { s.logging with
      level := (lookup "SIEVE_LOG_LEVEL").getD s.logging.level } }

/-- The settings as JSON. -/
def toJson (s : Settings) : Json :=
  .object [
    ("filter", .object [
      ("strict", .bool s.filter.strict),
      ("datetime_formats", .ofStrings s.filter.datetimeFormats),
      ("true_tokens", .ofStrings s.filter.trueTokens),
      ("false_tokens", .ofStrings s.filter.falseTokens),
      ("blocked_fields", .ofStrings s.filter.blockedFields),
      ("max_in_values", .ofNat s.filter.maxInValues)]),
    ("computation", .object [
      ("failure_policy", .text s.computation.failurePolicy.name),
      ("batch_size", .ofNat s.computation.batchSize),
      ("abort_batch_on_failure", .bool s.computation.abortBatchOnFailure),
      ("time_limit_ms", .ofNat s.computation.timeLimitMs),
      ("memory_limit_bytes", .ofNat s.computation.memoryLimitBytes),
      ("parallel_chunks", .bool s.computation.parallelChunks)]),
    ("sort", .object [
      ("max_sort_records", .ofNat s.sort.maxSortRecords),
      ("fallback_enabled", .bool s.sort.fallbackEnabled),
      ("cache_sorted_ids", .bool s.sort.cacheSortedIds),
      ("sort_cache_ttl_secs", .ofNat s.sort.sortCacheTtlSecs)]),
    ("pagination", .object [
      ("default_per_page", .ofNat s.pagination.defaultPerPage),
      ("max_per_page", .ofNat s.pagination.maxPerPage),
      ("base_path", .text s.pagination.basePath)]),
    ("cache", .object [
      ("enabled", .bool s.cache.enabled),
      ("default_ttl_secs", .ofNat s.cache.defaultTtlSecs),
      ("max_entries", .ofNat s.cache.maxEntries)]),
    ("logging", .object [
      ("level", .text s.logging.level),
      ("json", .bool s.logging.json)])]

end Settings

end FieldQuery
