import FieldQuery.Cache.Basic
import FieldQuery.Data.Assoc

/-!
# A cache in memory

* `MemoryCache` — entries with the time at which they expire and the time of their last use, up
  to a largest number of entries;
* `get` — finds what has not expired, and marks it as used; what has expired is removed;
* `purgeExpired` — removes all that has expired;
* `put` — makes room for a new key when the cache is full: expired entries go first, and if there
  is none, the entry whose last use is longest ago.
-/

namespace FieldQuery

/-- An entry of the cache. -/
structure CacheEntry where
  content : String
  expiresAt : Nat
  lastUse : Nat
  deriving DecidableEq, Repr

/-- A cache in memory. -/
structure MemoryCache where
  /-- The largest number of entries, one at least. -/
  capacity : Nat
  entries : List (String × CacheEntry) := []
  deriving Repr

namespace MemoryCache

/-- A cache without entries. -/
def empty (maxEntries : Nat) : MemoryCache := { capacity := max 1 maxEntries }

/-- The number of entries, expired ones included. -/
def size (c : MemoryCache) : Nat := c.entries.length

/-- Whether an entry still counts. -/
def CacheEntry.isAlive (now : Nat) (e : CacheEntry) : Bool := now < e.expiresAt

/-- Removes a key. -/
def remove (key : String) (c : MemoryCache) : MemoryCache :=
  { c with entries := c.entries.filter fun p => p.1 != key }

/-- Removes everything. -/
def clear (c : MemoryCache) : MemoryCache := { c with entries := [] }

/-- Removes what has expired. -/
def purge (now : Nat) (c : MemoryCache) : MemoryCache :=
  { c with entries := c.entries.filter fun p => CacheEntry.isAlive now p.2 }

/-- Removes what has expired, and tells how many entries that were. -/
def purgeExpired (now : Nat) (c : MemoryCache) : Nat × MemoryCache :=
  (c.size - (c.purge now).size, c.purge now)

/-- The key whose last use is longest ago. -/
def oldest? : List (String × CacheEntry) → Option (String × CacheEntry)
  | [] => none
  | p :: rest =>
    match oldest? rest with
    | some q => if q.2.lastUse < p.2.lastUse then some q else some p
    | none => some p

/-- Removes the entry whose last use is longest ago. -/
def evict (c : MemoryCache) : MemoryCache :=
  match oldest? c.entries with
  | some (key, _) => c.remove key
  | none => c

/-- Makes room for one more entry. -/
def makeRoom (now : Nat) (c : MemoryCache) : MemoryCache :=
  let (removed, purged) := c.purgeExpired now
  if removed = 0 then purged.evict else purged

/-- The text under a key. -/
def get (now : Nat) (key : String) (c : MemoryCache) : Option String × MemoryCache :=
  match List.lookup key c.entries with
  | none => (none, c)
  | some e =>
    if CacheEntry.isAlive now e then
      (some e.content, { c with entries := Assoc.set key { e with lastUse := now } c.entries })
    else (none, c.remove key)

/-- Puts a text under a key. -/
def put (now : Nat) (key content : String) (lifetime : Nat) (c : MemoryCache) : MemoryCache :=
  let known := (List.lookup key c.entries).isSome
  let c := if !known && c.capacity ≤ c.size then c.makeRoom now else c
  { c with entries := Assoc.set key ⟨content, now + lifetime, now⟩ c.entries }

/-- The operations of the cache; they never fail. -/
def cache : Cache MemoryCache where
  get now key c := let (found, c) := c.get now key; (.ok found, c)
  put now key content lifetime c := (.ok (), c.put now key content lifetime)

/-- What has just been put is found while it is alive. -/
theorem get_put {now later lifetime : Nat} (h : later < now + lifetime) (key content : String)
    (c : MemoryCache) : ((c.put now key content lifetime).get later key).1 = some content := by
  simp [put, get, CacheEntry.isAlive, h]

end MemoryCache

end FieldQuery
