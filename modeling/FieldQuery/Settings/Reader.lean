import FieldQuery.Document.Formats
import FieldQuery.Settings.Basic

/-!
# Reading settings

* `Settings.ofDocument?` — a document as settings: every group and every value may be absent and
  has its default value then, an unknown or repeated name is refused;
* `Settings.read` — a text as settings whose values fit together.
-/

namespace FieldQuery

open Document

/-- The group of a document. -/
def FilterSettings.ofDocument? (d : Document) : Option FilterSettings := do
  let default : FilterSettings := {}
  let fs ← d.fields? ["strict", "datetime_formats", "true_tokens", "false_tokens",
    "blocked_fields", "max_in_values"]
  return {
    strict := ← fieldOr? asBool? default.strict "strict" fs
    datetimeFormats := ← fieldOr? (asList? asText?) default.datetimeFormats "datetime_formats" fs
    trueTokens := ← fieldOr? (asList? asText?) default.trueTokens "true_tokens" fs
    falseTokens := ← fieldOr? (asList? asText?) default.falseTokens "false_tokens" fs
    blockedFields := ← fieldOr? (asList? asText?) default.blockedFields "blocked_fields" fs
    maxInValues := ← fieldOr? asCount? default.maxInValues "max_in_values" fs }

/-- The group of a document. -/
def ComputationSettings.ofDocument? (d : Document) : Option ComputationSettings := do
  let default : ComputationSettings := {}
  let fs ← d.fields? ["failure_policy", "batch_size", "abort_batch_on_failure", "time_limit_ms",
    "memory_limit_bytes", "parallel_chunks"]
  return {
    failurePolicy := ← fieldOr? (fun d => d.asName?.bind FailurePolicy.ofName?)
      default.failurePolicy "failure_policy" fs
    batchSize := ← fieldOr? asCount? default.batchSize "batch_size" fs
    abortBatchOnFailure := ← fieldOr? asBool? default.abortBatchOnFailure
      "abort_batch_on_failure" fs
    timeLimitMs := ← fieldOr? asCount? default.timeLimitMs "time_limit_ms" fs
    memoryLimitBytes := ← fieldOr? asCount? default.memoryLimitBytes "memory_limit_bytes" fs
    parallelChunks := ← fieldOr? asBool? default.parallelChunks "parallel_chunks" fs }

/-- The group of a document. -/
def SortSettings.ofDocument? (d : Document) : Option SortSettings := do
  let default : SortSettings := {}
  let fs ← d.fields? ["max_sort_records", "fallback_enabled", "cache_sorted_ids",
    "sort_cache_ttl_secs"]
  return {
    maxSortRecords := ← fieldOr? asCount? default.maxSortRecords "max_sort_records" fs
    fallbackEnabled := ← fieldOr? asBool? default.fallbackEnabled "fallback_enabled" fs
    cacheSortedIds := ← fieldOr? asBool? default.cacheSortedIds "cache_sorted_ids" fs
    sortCacheTtlSecs := ← fieldOr? asCount? default.sortCacheTtlSecs "sort_cache_ttl_secs" fs }

/-- The group of a document. -/
def PageSettings.ofDocument? (d : Document) : Option PageSettings := do
  let default : PageSettings := {}
  let fs ← d.fields? ["default_per_page", "max_per_page", "base_path"]
  return {
    defaultPerPage := ← fieldOr? asCount? default.defaultPerPage "default_per_page" fs
    maxPerPage := ← fieldOr? asCount? default.maxPerPage "max_per_page" fs
    basePath := ← fieldOr? asText? default.basePath "base_path" fs }

/-- The group of a document. -/
def CacheSettings.ofDocument? (d : Document) : Option CacheSettings := do
  let default : CacheSettings := {}
  let fs ← d.fields? ["enabled", "default_ttl_secs", "max_entries"]
  return {
    enabled := ← fieldOr? asBool? default.enabled "enabled" fs
    defaultTtlSecs := ← fieldOr? asCount? default.defaultTtlSecs "default_ttl_secs" fs
    maxEntries := ← fieldOr? asCount? default.maxEntries "max_entries" fs }

/-- The group of a document. -/
def LogSettings.ofDocument? (d : Document) : Option LogSettings := do
  let default : LogSettings := {}
  let fs ← d.fields? ["level", "json"]
  return {
    level := ← fieldOr? asText? default.level "level" fs
    json := ← fieldOr? asBool? default.json "json" fs }

namespace Settings

/-- The settings of a document. -/
def ofDocument? (d : Document) : Option Settings := do
  let fs ← d.fields? ["filter", "computation", "sort", "pagination", "cache", "logging"]
  return {
    filter := ← fieldOr? FilterSettings.ofDocument? {} "filter" fs
    computation := ← fieldOr? ComputationSettings.ofDocument? {} "computation" fs
    sort := ← fieldOr? SortSettings.ofDocument? {} "sort" fs
    pagination := ← fieldOr? PageSettings.ofDocument? {} "pagination" fs
    cache := ← fieldOr? CacheSettings.ofDocument? {} "cache" fs
    logging := ← fieldOr? LogSettings.ofDocument? {} "logging" fs }

/-- The settings of a text, if its values fit together. -/
def read (text : String) : Except SettingsError Settings :=
  match decode? ofDocument? text with
  | some s => s.check
  | none => .error .unreadable

end Settings

end FieldQuery
