/-
Downlevel.Cache.Basic — lowered texts kept under the content that they
came from.

The cache is bounded by the bytes of its entries and by their age. Every
store and every hit is a use; where room is needed the least recently used
entries go first. Uses are numbered, so that also uses at one and the same
time have an order.

* `lookup` counts a hit or a miss and drops an entry that is too old;
* `store` refuses an entry that alone exceeds the budget, and otherwise
  drops only as many entries as it has to;
* `cleanup`, `shrink` and `clear` drop entries and never count.

Age is measured from the time of storing. Times are handed in, so the
cache itself has no clock.
-/
import Downlevel.Configuration.Basic
import Downlevel.Digest
import Downlevel.Lowering

namespace Downlevel

open Json.Record (defaulted)

/-! ## Limits -/

structure CacheLimits where
  maxBytes : Nat
  maxAge : Nat
  deriving DecidableEq, Repr

namespace CacheLimits

/-- Fifty mebibytes and half an hour. -/
def standard : CacheLimits := ⟨50 * 1024 * 1024, 30 * 60 * 1000⟩

instance : Inhabited CacheLimits := ⟨standard⟩

def toJson (l : CacheLimits) : Json := .obj [
  ("maxBytes", Json.ofNat l.maxBytes),
  ("maxAgeMs", Json.ofNat l.maxAge)]

def ofJson? : Json → Option CacheLimits := Json.Record.read do
  let maxBytes ← defaulted "maxBytes" standard.maxBytes Json.word64?
  let maxAge ← defaulted "maxAgeMs" standard.maxAge Json.word64?
  return ⟨maxBytes, maxAge⟩

end CacheLimits

/-! ## Entries -/

/-- A lowered text in the cache. -/
structure CacheEntry where
  key : String
  text : String
  metadata : Lowering.Metadata
  createdAt : Nat
  lastAccessedAt : Nat
  accessCount : Nat
  size : Nat
  deriving DecidableEq

namespace CacheEntry

/-- A new entry. It takes the bytes of its key, its text and its
metadata. -/
def new (now : Nat) (key text : String) (metadata : Lowering.Metadata) : CacheEntry :=
  ⟨key, text, metadata, now, now, 0, key.utf8ByteSize + text.utf8ByteSize + metadata.byteSize⟩

def toJson (e : CacheEntry) : Json := .obj [
  ("key", .str e.key),
  ("loweredText", .str e.text),
  ("metadata", e.metadata.toJson),
  ("createdAt", Json.ofNat e.createdAt),
  ("lastAccessedAt", Json.ofNat e.lastAccessedAt),
  ("accessCount", Json.ofNat e.accessCount),
  ("sizeBytes", Json.ofNat e.size)]

/-- Older than the limit allows. An entry from the future has no age. -/
def isExpired (limits : CacheLimits) (now : Nat) (e : CacheEntry) : Bool :=
  limits.maxAge < now - e.createdAt

end CacheEntry

/-- An entry with the number of its last use. -/
structure CacheSlot where
  entry : CacheEntry
  use : Nat
  deriving DecidableEq

/-- Whether the first slot was used less recently. -/
def CacheSlot.isStaler (a b : CacheSlot) : Bool :=
  a.entry.lastAccessedAt < b.entry.lastAccessedAt
    || (a.entry.lastAccessedAt == b.entry.lastAccessedAt && a.use < b.use)

/-! ## Caches -/

structure Cache where
  limits : CacheLimits
  slots : SortedMap CacheSlot
  /-- The bytes of all entries. -/
  totalSize : Nat
  hits : Nat
  misses : Nat
  /-- The number of uses so far. -/
  uses : Nat

namespace Cache

def empty (limits : CacheLimits) : Cache := ⟨limits, .empty, 0, 0, 0, 0⟩

instance : Inhabited Cache := ⟨empty .standard⟩

/-- The key of a source text under a configuration. -/
def key (source : String) (c : Configuration) : String :=
  Digest.ofText source ++ ":" ++ Digest.ofText c.canonicalText

def isEmpty (c : Cache) : Bool := c.slots.size == 0

/-! ### Dropping entries -/

/-- Drops the entry of a key, if there is one. -/
def remove (c : Cache) (key : String) : Cache :=
  match c.slots.get? key with
  | some slot => { c with slots := c.slots.erase key, totalSize := c.totalSize - slot.entry.size }
  | none => c

/-- The least recently used of some slots, with its key. -/
def stalest? : List (String × CacheSlot) → Option (String × CacheSlot)
  | [] => none
  | e :: rest =>
    match stalest? rest with
    | some other => some (if other.2.isStaler e.2 then other else e)
    | none => some e

theorem stalest?_mem {entries : List (String × CacheSlot)} {e : String × CacheSlot}
    (h : stalest? entries = some e) : e ∈ entries := by
  induction entries generalizing e with
  | nil => simp [stalest?] at h
  | cons head rest ih =>
    rw [stalest?] at h
    split at h
    · next other ho =>
      cases h
      split
      · exact List.mem_cons_of_mem _ (ih ho)
      · exact List.mem_cons_self
    · cases h
      exact List.mem_cons_self

theorem remove_slots_size {c : Cache} {e : String × CacheSlot} (h : e ∈ c.slots.entries) :
    (c.remove e.1).slots.size < c.slots.size := by
  have hget : c.slots.get? e.1 = some e.2 := SortedMap.get?_eq_some_iff.2 h
  rw [remove, hget]
  refine List.length_filter_lt_length_iff_exists.2 ⟨e, h, ?_⟩
  simp

/-- Drops least recently used entries until at most `limit` bytes are
left. Also gives the number of entries dropped. -/
def evictTo (c : Cache) (limit : Nat) : Nat × Cache :=
  if limit < c.totalSize then
    match _h : stalest? c.slots.entries with
    | some e =>
      let (evicted, rest) := (c.remove e.1).evictTo limit
      (evicted + 1, rest)
    | none => (0, c)
  else (0, c)
termination_by c.slots.size
decreasing_by exact remove_slots_size (stalest?_mem _h)

/-! ### Operations -/

/-- The entry of a key as it is after this access, if there is one that is
not too old. -/
def lookup (c : Cache) (now : Nat) (key : String) : Option CacheEntry × Cache :=
  match c.slots.get? key with
  | none => (none, { c with misses := c.misses + 1 })
  | some slot =>
    if slot.entry.isExpired c.limits now then
      (none, { c.remove key with misses := c.misses + 1 })
    else
      let entry :=
        { slot.entry with lastAccessedAt := now, accessCount := slot.entry.accessCount + 1 }
      let use := c.uses + 1
      (some entry,
        { c with slots := c.slots.insert key ⟨entry, use⟩, hits := c.hits + 1, uses := use })

/-- Puts an entry in place of the one with its key, where it fits the
budget at all. Tells whether it did. -/
def store (c : Cache) (now : Nat) (key text : String) (metadata : Lowering.Metadata) :
    Bool × Cache :=
  let entry := CacheEntry.new now key text metadata
  if c.limits.maxBytes < entry.size then (false, c)
  else
    let c := ((c.remove key).evictTo (c.limits.maxBytes - entry.size)).2
    let use := c.uses + 1
    (true,
      { c with
        slots := c.slots.insert key ⟨entry, use⟩
        totalSize := c.totalSize + entry.size
        uses := use })

/-- The keys of the entries that are too old. -/
def expiredKeys (c : Cache) (now : Nat) : List String :=
  (c.slots.filter fun _ slot => slot.entry.isExpired c.limits now).keys

/-- Drops the entries that are too old. Also gives their number. -/
def cleanup (c : Cache) (now : Nat) : Nat × Cache :=
  let keys := c.expiredKeys now
  (keys.length, keys.foldl remove c)

/-- The bytes that a fraction of the present size comes to. Fractions
outside of zero to one count as the nearer of these. -/
def fractionOfSize (c : Cache) (fraction : Float) : Nat :=
  let fraction := if fraction < 0.0 then 0.0 else if 1.0 < fraction then 1.0 else fraction
  (Float.ofNat c.totalSize * fraction).toUInt64.toNat

/-- Drops least recently used entries until at most a fraction of the
present size is left. Also gives their number. -/
def shrink (c : Cache) (fraction : Float) : Nat × Cache := c.evictTo (c.fractionOfSize fraction)

/-- Drops every entry. -/
def clear (c : Cache) : Cache := { c with slots := .empty, totalSize := 0 }

end Cache

/-! ## Statistics -/

structure CacheStats where
  totalEntries : Nat
  totalSize : Nat
  hits : Nat
  misses : Nat
  deriving DecidableEq, Repr

namespace CacheStats

/-- A part of all lookups; without lookups every part is zero. -/
def rate (s : CacheStats) (part : Nat) : Float :=
  let lookups := s.hits + s.misses
  if lookups = 0 then 0.0 else Float.ofNat part / Float.ofNat lookups

def toJson (s : CacheStats) : Json := .obj [
  ("totalEntries", Json.ofNat s.totalEntries),
  ("totalSize", Json.ofNat s.totalSize),
  ("hits", Json.ofNat s.hits),
  ("misses", Json.ofNat s.misses),
  ("hitRate", .float (s.rate s.hits)),
  ("missRate", .float (s.rate s.misses))]

end CacheStats

def Cache.stats (c : Cache) : CacheStats := ⟨c.slots.size, c.totalSize, c.hits, c.misses⟩

end Downlevel
