import FieldQuery.Cache.Basic
import FieldQuery.Cache.Memory
import FieldQuery.Catalog.Basic
import FieldQuery.Catalog.Error
import FieldQuery.Catalog.Field
import FieldQuery.Catalog.Spec
import FieldQuery.Command.Arguments
import FieldQuery.Command.Run
import FieldQuery.Computation.Basic
import FieldQuery.Computation.Builtin
import FieldQuery.Computation.Error
import FieldQuery.Data.Assoc
import FieldQuery.Data.Chunks
import FieldQuery.Data.KeyMap
import FieldQuery.Data.Sorting
import FieldQuery.Data.Walk
import FieldQuery.Digest.Basic
import FieldQuery.Digest.Sha256
import FieldQuery.Document.Basic
import FieldQuery.Document.Formats
import FieldQuery.Document.Toml
import FieldQuery.Document.Yaml
import FieldQuery.Engine.Batch
import FieldQuery.Engine.Budget
import FieldQuery.Entity
import FieldQuery.Error
import FieldQuery.FieldType
import FieldQuery.Json.Basic
import FieldQuery.Json.Reader
import FieldQuery.Json.Written
import FieldQuery.Listing.Execute
import FieldQuery.Listing.Paginator
import FieldQuery.Listing.Plan
import FieldQuery.Listing.Response
import FieldQuery.Listing.Rows
import FieldQuery.Main
import FieldQuery.Number.Binary64
import FieldQuery.Number.DecimalText
import FieldQuery.Number.Scaling
import FieldQuery.Number.Shortest
import FieldQuery.Number.Word
import FieldQuery.Query.BaseQuery
import FieldQuery.Query.Predicate
import FieldQuery.Request.Clause
import FieldQuery.Request.Coercion
import FieldQuery.Request.Error
import FieldQuery.Request.Expression
import FieldQuery.Request.Params
import FieldQuery.Request.Selection
import FieldQuery.Request.Translation
import FieldQuery.Settings.Basic
import FieldQuery.Settings.Reader
import FieldQuery.Store.Basic
import FieldQuery.Text.Blank
import FieldQuery.Text.CaseTable
import FieldQuery.Text.Glob
import FieldQuery.Text.LowerCase
import FieldQuery.Text.Numeral
import FieldQuery.Text.Percent
import FieldQuery.Text.Utf8
import FieldQuery.Time.Calendar
import FieldQuery.Time.Instant
import FieldQuery.Time.Reading
import FieldQuery.Value.Basic
import FieldQuery.Value.Encoding
import FieldQuery.Proofs.Cache.Eviction
import FieldQuery.Proofs.Cache.History
import FieldQuery.Proofs.Cache.Retention
import FieldQuery.Proofs.Catalog.AnyOrder
import FieldQuery.Proofs.Catalog.Closure
import FieldQuery.Proofs.Catalog.Order
import FieldQuery.Proofs.Catalog.Registration
import FieldQuery.Proofs.Data.Chunks
import FieldQuery.Proofs.Data.Except
import FieldQuery.Proofs.Data.KeyMap
import FieldQuery.Proofs.Data.Preorder
import FieldQuery.Proofs.Data.StableSort
import FieldQuery.Proofs.Data.Walk
import FieldQuery.Proofs.Engine.Asks
import FieldQuery.Proofs.Engine.AtMostOnce
import FieldQuery.Proofs.Engine.Batch
import FieldQuery.Proofs.Engine.Cached
import FieldQuery.Proofs.Engine.Cancellation
import FieldQuery.Proofs.Engine.Ceiling
import FieldQuery.Proofs.Engine.Changes
import FieldQuery.Proofs.Engine.Chunking
import FieldQuery.Proofs.Engine.Counts
import FieldQuery.Proofs.Engine.Entity
import FieldQuery.Proofs.Engine.Follow
import FieldQuery.Proofs.Engine.Keys
import FieldQuery.Proofs.Engine.Loaded
import FieldQuery.Proofs.Engine.Lockstep
import FieldQuery.Proofs.Engine.Meaning
import FieldQuery.Proofs.Engine.NeverNull
import FieldQuery.Proofs.Engine.Outcome
import FieldQuery.Proofs.Engine.Recall
import FieldQuery.Proofs.Engine.Repeated
import FieldQuery.Proofs.Engine.Schedule
import FieldQuery.Proofs.Engine.SharedCache
import FieldQuery.Proofs.Engine.Turns
import FieldQuery.Proofs.Engine.Unheard
import FieldQuery.Proofs.Json.FirstField
import FieldQuery.Proofs.Json.Injective
import FieldQuery.Proofs.Json.RoundTrip
import FieldQuery.Proofs.Json.SelfDelimiting
import FieldQuery.Proofs.Listing.Aliases
import FieldQuery.Proofs.Listing.Attributed
import FieldQuery.Proofs.Listing.Bare
import FieldQuery.Proofs.Listing.Commuting
import FieldQuery.Proofs.Listing.Consecutive
import FieldQuery.Proofs.Listing.Exact
import FieldQuery.Proofs.Listing.Execute
import FieldQuery.Proofs.Listing.Fallback
import FieldQuery.Proofs.Listing.Forgone
import FieldQuery.Proofs.Listing.InStep
import FieldQuery.Proofs.Listing.Listed
import FieldQuery.Proofs.Listing.LoadsAll
import FieldQuery.Proofs.Listing.Mirrored
import FieldQuery.Proofs.Listing.NeverNull
import FieldQuery.Proofs.Listing.Orders
import FieldQuery.Proofs.Listing.Page
import FieldQuery.Proofs.Listing.PageWalk
import FieldQuery.Proofs.Listing.Plan
import FieldQuery.Proofs.Listing.Pushdown
import FieldQuery.Proofs.Listing.Ranges
import FieldQuery.Proofs.Listing.Recomputed
import FieldQuery.Proofs.Listing.Reference
import FieldQuery.Proofs.Listing.Renamed
import FieldQuery.Proofs.Listing.Reordered
import FieldQuery.Proofs.Listing.Reselected
import FieldQuery.Proofs.Listing.Rows
import FieldQuery.Proofs.Listing.Safety
import FieldQuery.Proofs.Listing.SameFields
import FieldQuery.Proofs.Listing.SamePages
import FieldQuery.Proofs.Listing.Selected
import FieldQuery.Proofs.Listing.Separate
import FieldQuery.Proofs.Listing.Shared
import FieldQuery.Proofs.Listing.Sortable
import FieldQuery.Proofs.Listing.SortStep
import FieldQuery.Proofs.Listing.Steps
import FieldQuery.Proofs.Listing.Transparent
import FieldQuery.Proofs.Listing.Twins
import FieldQuery.Proofs.Listing.Unhindered
import FieldQuery.Proofs.Listing.Uniform
import FieldQuery.Proofs.Listing.Variants
import FieldQuery.Proofs.Listing.Views
import FieldQuery.Proofs.Number.Interval
import FieldQuery.Proofs.Number.ReadBack
import FieldQuery.Proofs.Number.Rounding
import FieldQuery.Proofs.Query.Fingerprint
import FieldQuery.Proofs.Request.Clause
import FieldQuery.Proofs.Request.Collected
import FieldQuery.Proofs.Request.EnumValues
import FieldQuery.Proofs.Request.Expression
import FieldQuery.Proofs.Request.Printed
import FieldQuery.Proofs.Request.QueryText
import FieldQuery.Proofs.Request.Search
import FieldQuery.Proofs.Request.Strictness
import FieldQuery.Proofs.Request.WellFormed
import FieldQuery.Proofs.Request.Wishes
import FieldQuery.Proofs.Store.Loading
import FieldQuery.Proofs.Store.Windows
import FieldQuery.Proofs.Text.Glob
import FieldQuery.Proofs.Text.LowerCase
import FieldQuery.Proofs.Text.Percent
import FieldQuery.Proofs.Text.Pieces
import FieldQuery.Proofs.Time.ReadBack
import FieldQuery.Proofs.Time.TextOrder
import FieldQuery.Proofs.Value.Bounds
import FieldQuery.Proofs.Value.Codec
import FieldQuery.Proofs.Value.Decoded
import FieldQuery.Proofs.Value.Kinds
import FieldQuery.Proofs.Value.Natural
import FieldQuery.Proofs.Value.SortOrder
import FieldQuery.Proofs.Request.TruthTokens
import FieldQuery.Proofs.Entity.Fields
import FieldQuery.Proofs.Entity.NormalForm
import FieldQuery.Proofs.Value.Exactness
import FieldQuery.Proofs.Engine.Hushed
import FieldQuery.Proofs.Engine.HushedSchedules
import FieldQuery.Proofs.Listing.Discreet
