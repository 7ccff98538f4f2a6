import FieldQuery.Error
import FieldQuery.Value.Encoding

/-!
# Caches

A cache keeps texts under keys, each for a limited time. It may fail, and it may forget or damage
what it was given; nothing that uses it relies on more than that.

* `Cache` — the two operations of a cache with states of type `σ`. Times and lifetimes are
  counted in nanoseconds;
* `Cache.fetch` — an entry as its reader understands it.
-/

namespace FieldQuery

/-- A cache with states of type `σ`. -/
structure Cache (σ : Type) where
  /-- The text under a key at a time. -/
  get (now : Nat) (key : String) (s : σ) : Except CacheError (Option String) × σ
  /-- Puts a text under a key at a time, for a while. -/
  put (now : Nat) (key content : String) (lifetime : Nat) (s : σ) : Except CacheError Unit × σ

/-- The nanoseconds of a millisecond. -/
def nanosPerMilli : Nat := 1000000

/-- The nanoseconds of a second. -/
def nanosPerSecond : Nat := 1000000000

namespace Cache

/-- What a reader makes of an entry; a text that it cannot read is an error. -/
def decode {α : Type} (read : String → Option α) :
    Except CacheError (Option String) → Except CacheError (Option α)
  | .error e => .error e
  | .ok none => .ok none
  | .ok (some content) =>
    match read content with
    | some a => .ok (some a)
    | none => .error .unreadable

/-- The entry under a key at a time, as its reader understands it. -/
def fetch {σ α : Type} (c : Cache σ) (read : String → Option α) (now : Nat) (key : String)
    (s : σ) : Except CacheError (Option α) × σ :=
  let (found, s) := c.get now key s
  (decode read found, s)

end Cache

end FieldQuery
