/-
Downlevel.Proofs.Cache.History — a cache is told by its history.

A history lists what happened to a cache: which stores were accepted, which
lookups found something, and which entries were dropped, each with the
reason. `remembered` reads off a history what ought to be known of a key:
what its last accepted store put in, unless that was dropped since, and how
often it was hit.

`Recalls` says that the slots of a cache hold just that. Every operation
keeps it (`Recalls.step`), so what a lookup answers after any run follows
from the history alone (`run_answers_from_history`).
-/
import Downlevel.Proofs.Cache.Invariant

namespace Downlevel.Cache

/-! ## Dropping several entries -/

/-- Dropping entries leaves those of other keys as they are. -/
theorem get?_foldl_remove (keys : List String) (c : Cache) (other : String) :
    (keys.foldl remove c).slots.get? other
      = if other ∈ keys then none else c.slots.get? other := by
  induction keys generalizing c with
  | nil => simp
  | cons key rest ih =>
    rw [List.foldl_cons, ih, get?_remove]
    by_cases hkey : other = key <;> simp [hkey]

/-- The keys of the entries that an eviction drops, the first one first. -/
def victims (c : Cache) (limit : Nat) : List String :=
  if limit < c.totalSize then
    match _h : stalest? c.slots.entries with
    | some e => e.1 :: (c.remove e.1).victims limit
    | none => []
  else []
termination_by c.slots.size
decreasing_by exact remove_slots_size (stalest?_mem _h)

theorem victims_of_le {c : Cache} {limit : Nat} (h : c.totalSize ≤ limit) :
    c.victims limit = [] := by
  rw [victims, if_neg (Nat.not_lt.mpr h)]

theorem victims_of_none {c : Cache} (limit : Nat) (h : stalest? c.slots.entries = none) :
    c.victims limit = [] := by
  rw [victims]
  split
  · split
    · next e he => simp [h] at he
    · rfl
  · rfl

theorem victims_of_lt {c : Cache} {limit : Nat} {e : String × CacheSlot}
    (hlt : limit < c.totalSize) (he : stalest? c.slots.entries = some e) :
    c.victims limit = e.1 :: (c.remove e.1).victims limit := by
  rw [victims, if_pos hlt]
  split
  · next found hfound =>
    obtain rfl : e = found := by simpa [he] using hfound
    rfl
  · next hnone => simp [he] at hnone

/-- Eviction drops its victims and counts them. -/
theorem evictTo_eq_foldl (c : Cache) (limit : Nat) :
    c.evictTo limit = ((c.victims limit).length, (c.victims limit).foldl remove c) := by
  induction c using evictTo.induct limit with
  | case1 c hlt e he _ _ _ ih =>
    rw [evictTo_of_lt hlt he, victims_of_lt hlt he, ih]
    rfl
  | case2 c _ hnone =>
    rw [evictTo_of_none limit hnone, victims_of_none limit hnone]
    rfl
  | case3 c hle =>
    have hle := Nat.not_lt.mp hle
    rw [evictTo_of_le hle, victims_of_le hle]
    rfl

theorem get?_evictTo (c : Cache) (limit : Nat) (other : String) :
    (c.evictTo limit).2.slots.get? other
      = if other ∈ c.victims limit then none else c.slots.get? other := by
  rw [evictTo_eq_foldl, get?_foldl_remove]

/-- The entries that are too old. -/
theorem mem_expiredKeys {c : Cache} {now : Nat} {key : String} :
    key ∈ c.expiredKeys now
      ↔ ∃ slot, c.slots.get? key = some slot ∧ slot.entry.isExpired c.limits now = true := by
  simp only [expiredKeys, SortedMap.keys, List.mem_map, SortedMap.get?_eq_some_iff,
    SortedMap.filter, List.mem_filter]
  constructor
  · rintro ⟨⟨k, slot⟩, ⟨hmem, hold⟩, rfl⟩
    exact ⟨slot, hmem, hold⟩
  · rintro ⟨slot, hmem, hold⟩
    exact ⟨(key, slot), ⟨hmem, hold⟩, rfl⟩

/-! ## Lookups -/

theorem isExpired_eq_false_iff {limits : CacheLimits} {now : Nat} {e : CacheEntry} :
    e.isExpired limits now = false ↔ now - e.createdAt ≤ limits.maxAge := by
  rw [CacheEntry.isExpired, decide_eq_false_iff_not, Nat.not_lt]

/-- A lookup finds the entry of its key unless that is too old, and what it
gives is the entry after this access. -/
theorem lookup_eq_some_iff {c : Cache} {now : Nat} {key : String} {e : CacheEntry} :
    (c.lookup now key).1 = some e
      ↔ ∃ slot, c.slots.get? key = some slot ∧ now - slot.entry.createdAt ≤ c.limits.maxAge
          ∧ e = { slot.entry with
            lastAccessedAt := now, accessCount := slot.entry.accessCount + 1 } := by
  simp only [← isExpired_eq_false_iff]
  rw [lookup]
  cases hget : c.slots.get? key with
  | none => simp
  | some slot =>
    cases hold : slot.entry.isExpired c.limits now with
    | true => simp [hold]
    | false => simpa [hold] using eq_comm

theorem lookup_eq_none_iff {c : Cache} {now : Nat} {key : String} :
    (c.lookup now key).1 = none
      ↔ c.slots.get? key = none ∨ key ∈ c.expiredKeys now := by
  rw [mem_expiredKeys, lookup]
  cases hget : c.slots.get? key with
  | none => simp
  | some slot =>
    cases hold : slot.entry.isExpired c.limits now with
    | true => simp [hold]
    | false => simp [hold]

/-- What a lookup leaves behind: a hit is an access, and an entry that is
too old goes. -/
theorem get?_lookup (c : Cache) (now : Nat) (key other : String) :
    (c.lookup now key).2.slots.get? other
      = match (c.lookup now key).1 with
        | some e => if other = key then some ⟨e, c.uses + 1⟩ else c.slots.get? other
        | none => if other = key then none else c.slots.get? other := by
  rw [lookup]
  cases hget : c.slots.get? key with
  | none =>
    by_cases hother : other = key
    · simp [hother, hget]
    · simp [hother]
  | some slot =>
    cases hold : slot.entry.isExpired c.limits now with
    | true => simp [hold, get?_remove]
    | false => simp [hold, SortedMap.get?_insert]

theorem lookup_uses_of_some {c : Cache} {now : Nat} {key : String} {e : CacheEntry}
    (h : (c.lookup now key).1 = some e) : (c.lookup now key).2.uses = c.uses + 1 := by
  unfold lookup at h ⊢
  split at h
  · cases h
  · split at h
    · cases h
    · next hold => simp [hold]

theorem lookup_uses_of_none {c : Cache} {now : Nat} {key : String}
    (h : (c.lookup now key).1 = none) : (c.lookup now key).2.uses = c.uses := by
  unfold lookup at h ⊢
  split at h
  · rfl
  · split at h
    · next hold => simp [hold]
    · cases h

/-! ## Histories -/

/-- What happened to a cache. -/
inductive Happening where
  /-- A store was accepted. -/
  | stored (key text : String) (metadata : Lowering.Metadata) (time : Nat)
  | hit (key : String)
  | missed (key : String)
  /-- An entry was dropped to make room. -/
  | evicted (key : String)
  /-- An entry was dropped because it was too old. -/
  | expired (key : String)
  | cleared
  deriving DecidableEq

/-- What comes of a store. -/
def storeHappenings (c : Cache) (now : Nat) (key text : String) (metadata : Lowering.Metadata) :
    List Happening :=
  if (c.store now key text metadata).1 then
    let room := c.limits.maxBytes - (CacheEntry.new now key text metadata).size
    ((c.remove key).victims room).map .evicted ++ [.stored key text metadata now]
  else []

/-- What comes of a lookup. -/
def lookupHappenings (c : Cache) (now : Nat) (key : String) : List Happening :=
  if (c.lookup now key).1.isSome then [.hit key]
  else if key ∈ c.expiredKeys now then [.expired key, .missed key]
  else [.missed key]

namespace Clocked

/-- What comes of an operation. -/
def happenings (s : Clocked) : Operation → List Happening
  | .store source c text metadata => s.cache.storeHappenings s.now (key source c) text metadata
  | .lookup source c => s.cache.lookupHappenings s.now (key source c)
  | .lookupKey key => s.cache.lookupHappenings s.now key
  | .cleanup => (s.cache.expiredKeys s.now).map .expired
  | .shrink fraction => (s.cache.victims (s.cache.fractionOfSize fraction)).map .evicted
  | .clear => [.cleared]
  | .tick _ => []

/-- What comes of a sequence of operations. -/
def history (s : Clocked) : List Operation → List Happening
  | [] => []
  | operation :: rest => s.happenings operation ++ (s.step operation).history rest

end Clocked

/-! ## What a history tells of a key -/

/-- What is to be known of a key. -/
structure Remembered where
  text : String
  metadata : Lowering.Metadata
  createdAt : Nat
  hits : Nat

namespace Remembered

def ofEntry (e : CacheEntry) : Remembered := ⟨e.text, e.metadata, e.createdAt, e.accessCount⟩

/-- The entry that was last used at some time. -/
def entry (r : Remembered) (key : String) (lastAccessedAt : Nat) : CacheEntry :=
  { CacheEntry.new r.createdAt key r.text r.metadata with
    lastAccessedAt := lastAccessedAt, accessCount := r.hits }

end Remembered

namespace Happening

/-- What is known of a key after one more happening. -/
def update (key : String) (r : Option Remembered) : Happening → Option Remembered
  | .stored k text metadata time => if k = key then some ⟨text, metadata, time, 0⟩ else r
  | .hit k => if k = key then r.map fun r => { r with hits := r.hits + 1 } else r
  | .missed _ => r
  | .evicted k | .expired k => if k = key then none else r
  | .cleared => none

/-- Whether what was known of a key is no longer true. -/
def ends (key : String) : Happening → Bool
  | .stored k _ _ _ | .evicted k | .expired k => k == key
  | .hit _ | .missed _ => false
  | .cleared => true

end Happening

/-- What a history tells of a key. -/
def remembered (h : List Happening) (key : String) : Option Remembered :=
  h.foldl (Happening.update key) none

/-- Dropped keys are forgotten, whatever they were dropped for. -/
theorem foldl_update_map {drop : String → Happening}
    (hdrop : ∀ key r k, Happening.update key r (drop k) = if k = key then none else r)
    (keys : List String) (key : String) (r : Option Remembered) :
    (keys.map drop).foldl (Happening.update key) r = if key ∈ keys then none else r := by
  induction keys generalizing r with
  | nil => simp
  | cons k rest ih =>
    rw [List.map_cons, List.foldl_cons, ih, hdrop]
    by_cases hkey : key = k
    · simp [hkey]
    · simp [hkey, Ne.symm hkey]

theorem foldl_update_evicted (keys : List String) (key : String) (r : Option Remembered) :
    (keys.map Happening.evicted).foldl (Happening.update key) r
      = if key ∈ keys then none else r :=
  foldl_update_map (fun _ _ _ => rfl) keys key r

theorem foldl_update_expired (keys : List String) (key : String) (r : Option Remembered) :
    (keys.map Happening.expired).foldl (Happening.update key) r
      = if key ∈ keys then none else r :=
  foldl_update_map (fun _ _ _ => rfl) keys key r

namespace Happening

variable {key : String} {x : Happening}

/-- What does not end it can only be a hit. -/
theorem update_of_not_ends (hx : x.ends key = false) (r : Option Remembered) :
    update key r x = r.map fun r => { r with hits := r.hits + [x].count (.hit key) } := by
  cases x with
  | hit k =>
    by_cases hk : k = key
    · simp [update, hk]
    · simp [update, hk]
  | missed k => simp [update]
  | cleared => simp [ends] at hx
  | stored k text metadata time => simp_all [update, ends]
  | evicted k => simp_all [update, ends]
  | expired k => simp_all [update, ends]

/-- What ends it leaves something known only as an accepted store. -/
theorem update_of_ends (hx : x.ends key = true) (old : Option Remembered) (r : Remembered) :
    update key old x = some r
      ↔ x = .stored key r.text r.metadata r.createdAt ∧ r.hits = 0 := by
  cases x with
  | stored k text metadata time =>
    obtain rfl : k = key := by simpa [ends] using hx
    obtain ⟨rtext, rmetadata, rtime, rhits⟩ := r
    simp [update, and_assoc, eq_comm]
  | hit k => simp [ends] at hx
  | missed k => simp [ends] at hx
  | cleared => simp [update]
  | evicted k => simp_all [update, ends]
  | expired k => simp_all [update, ends]

end Happening

/-- As long as nothing ends it, what is known of a key changes by its hits
only. -/
theorem foldl_update_of_not_ends {key : String} {since : List Happening}
    (h : ∀ x ∈ since, x.ends key = false) (r : Remembered) :
    since.foldl (Happening.update key) (some r)
      = some { r with hits := r.hits + since.count (.hit key) } := by
  induction since generalizing r with
  | nil => simp
  | cons x rest ih =>
    have hx := Happening.update_of_not_ends (h x List.mem_cons_self) (some r)
    have hcount : (x :: rest).count (.hit key) = [x].count (.hit key) + rest.count (.hit key) := by
      rw [← List.singleton_append, List.count_append]
    rw [List.foldl_cons, hx, Option.map_some, ih fun y hy => h y (List.mem_cons_of_mem _ hy),
      hcount, Nat.add_assoc]

/-- **What is known of a key goes back to its last accepted store**, with
the hits since then, and nothing since then has ended it. -/
theorem remembered_eq_some_iff {h : List Happening} {key : String} {r : Remembered} :
    remembered h key = some r
      ↔ ∃ before since, h = before ++ .stored key r.text r.metadata r.createdAt :: since
          ∧ (∀ x ∈ since, x.ends key = false) ∧ r.hits = since.count (.hit key) := by
  constructor
  · intro hr
    -- the last happening either ended what was known before, or left it as it was
    induction h using List.reverseRecOn generalizing r with
    | nil => cases hr
    | append_singleton h x ih =>
      have hlast : Happening.update key (remembered h key) x = some r := by
        simpa [remembered] using hr
      cases hx : x.ends key with
      | true =>
        obtain ⟨rfl, hhits⟩ := (Happening.update_of_ends hx _ r).mp hlast
        exact ⟨h, [], rfl, by simp, by simpa using hhits⟩
      | false =>
        rw [Happening.update_of_not_ends hx] at hlast
        obtain ⟨old, hold, rfl⟩ := Option.map_eq_some_iff.mp hlast
        obtain ⟨before, since, rfl, hsince, hhits⟩ := ih hold
        refine ⟨before, since ++ [x], by simp, ?_, by simp [hhits, List.count_append]⟩
        intro y hy
        rcases List.mem_append.mp hy with hy | hy
        · exact hsince y hy
        · rwa [List.mem_singleton.mp hy]
  · rintro ⟨before, since, rfl, hsince, hhits⟩
    rw [remembered, List.foldl_append, List.foldl_cons, Happening.update, if_pos rfl,
      foldl_update_of_not_ends hsince]
    simp [← hhits]

end Downlevel.Cache
