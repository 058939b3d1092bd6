/-
Downlevel.Proofs.Cache.Run — a cache under any sequence of operations.

The operations are those that callers have: a store, a lookup by source
text and configuration or by key, a cleanup, a shrinking, a clearing; in
between, the clock may come to show any other time. `Clocked.run` is what a
sequence of them makes of an empty cache.

The sizes that a cache adds up are natural numbers here and machine words
where it runs, so a difference must never be cut off at zero. The checked
operations below do as their namesakes do, but give up where a difference
would fall below zero. `Clocked.runChecked` runs a sequence of them.
-/
import Downlevel.Cache.Basic

namespace Downlevel

namespace Cache

/-! ## Operations -/

/-- What may happen to a cache. -/
inductive Operation where
  | store (source : String) (c : Configuration) (text : String) (metadata : Lowering.Metadata)
  | lookup (source : String) (c : Configuration)
  | lookupKey (key : String)
  | cleanup
  | shrink (fraction : Float)
  | clear
  /-- The clock comes to show a time. -/
  | tick (now : Nat)

/-- A cache and the time that its clock shows. -/
structure Clocked where
  cache : Cache
  now : Nat

namespace Clocked

/-- An empty cache. -/
def start (limits : CacheLimits) (now : Nat) : Clocked := ⟨.empty limits, now⟩

def step (s : Clocked) : Operation → Clocked
  | .store source c text metadata =>
    { s with cache := (s.cache.store s.now (key source c) text metadata).2 }
  | .lookup source c => { s with cache := (s.cache.lookup s.now (key source c)).2 }
  | .lookupKey key => { s with cache := (s.cache.lookup s.now key).2 }
  | .cleanup => { s with cache := (s.cache.cleanup s.now).2 }
  | .shrink fraction => { s with cache := (s.cache.shrink fraction).2 }
  | .clear => { s with cache := s.cache.clear }
  | .tick now => { s with now := now }

def run (s : Clocked) (operations : List Operation) : Clocked := operations.foldl step s

end Clocked

/-! ## Dropping one entry -/

theorem remove_of_some {c : Cache} {key : String} {slot : CacheSlot}
    (h : c.slots.get? key = some slot) :
    c.remove key
      = { c with slots := c.slots.erase key, totalSize := c.totalSize - slot.entry.size } := by
  rw [remove, h]

theorem remove_of_none {c : Cache} {key : String} (h : c.slots.get? key = none) :
    c.remove key = c := by
  rw [remove, h]

/-- Dropping an entry changes its key and no other one. -/
theorem get?_remove (c : Cache) (key other : String) :
    (c.remove key).slots.get? other = if other = key then none else c.slots.get? other := by
  cases h : c.slots.get? key with
  | some slot => rw [remove_of_some h, SortedMap.get?_erase]
  | none =>
    rw [remove_of_none h]
    split
    · next heq => rw [heq, h]
    · rfl

@[simp] theorem remove_limits (c : Cache) (key : String) : (c.remove key).limits = c.limits := by
  unfold remove
  split <;> rfl

@[simp] theorem remove_uses (c : Cache) (key : String) : (c.remove key).uses = c.uses := by
  unfold remove
  split <;> rfl

/-! ## Eviction -/

theorem stalest?_eq_none {entries : List (String × CacheSlot)} (h : stalest? entries = none) :
    entries = [] := by
  cases entries with
  | nil => rfl
  | cons head rest =>
    rw [stalest?] at h
    split at h <;> cases h

/-- Where the size keeps to the limit, nothing is dropped. -/
theorem evictTo_of_le {c : Cache} {limit : Nat} (h : c.totalSize ≤ limit) :
    c.evictTo limit = (0, c) := by
  rw [evictTo, if_neg (Nat.not_lt.mpr h)]

/-- Where nothing is left, nothing is dropped. -/
theorem evictTo_of_none {c : Cache} (limit : Nat) (h : stalest? c.slots.entries = none) :
    c.evictTo limit = (0, c) := by
  rw [evictTo]
  split
  · split
    · next e he =>
      rw [h] at he
      cases he
    · rfl
  · rfl

/-- One step of the eviction. -/
theorem evictTo_of_lt {c : Cache} {limit : Nat} {e : String × CacheSlot}
    (hlt : limit < c.totalSize) (he : stalest? c.slots.entries = some e) :
    c.evictTo limit
      = (((c.remove e.1).evictTo limit).1 + 1, ((c.remove e.1).evictTo limit).2) := by
  rw [evictTo, if_pos hlt]
  split
  · next found hfound =>
    rw [he] at hfound
    cases hfound
    rfl
  · next hnone =>
    rw [he] at hnone
    cases hnone

/-- Eviction drops one entry after the other, so it keeps what dropping an
entry keeps. -/
theorem evictTo_induction {P : Cache → Prop} (hremove : ∀ c key, P c → P (c.remove key))
    (limit : Nat) (c : Cache) (h : P c) : P (c.evictTo limit).2 := by
  induction c using evictTo.induct limit with
  | case1 c hlt e he _ _ _ ih =>
    rw [evictTo_of_lt hlt he]
    exact ih (hremove c e.1 h)
  | case2 c _ hnone =>
    rw [evictTo_of_none limit hnone]
    exact h
  | case3 c hle =>
    rw [evictTo_of_le (Nat.not_lt.mp hle)]
    exact h

theorem foldl_remove_induction {P : Cache → Prop} (hremove : ∀ c key, P c → P (c.remove key))
    (keys : List String) (c : Cache) (h : P c) : P (keys.foldl remove c) := by
  induction keys generalizing c with
  | nil => exact h
  | cons key rest ih => exact ih (c.remove key) (hremove c key h)

@[simp] theorem evictTo_limits (limit : Nat) (c : Cache) :
    (c.evictTo limit).2.limits = c.limits :=
  evictTo_induction (P := fun d => d.limits = c.limits) (fun d key hd => by simpa using hd)
    limit c rfl

/-- What is left keeps to the limit, unless nothing is left. -/
theorem evictTo_exit (limit : Nat) (c : Cache) :
    (c.evictTo limit).2.totalSize ≤ limit ∨ (c.evictTo limit).2.slots.entries = [] := by
  induction c using evictTo.induct limit with
  | case1 c hlt e he _ _ _ ih =>
    rw [evictTo_of_lt hlt he]
    exact ih
  | case2 c _ hnone =>
    rw [evictTo_of_none limit hnone]
    exact .inr (stalest?_eq_none hnone)
  | case3 c hle =>
    rw [evictTo_of_le (Nat.not_lt.mp hle)]
    exact .inl (Nat.not_lt.mp hle)

/-! ## Storing -/

/-- The cache without the entry of a key and with room for another of some
size. -/
def makeRoom (c : Cache) (key : String) (size : Nat) : Cache :=
  ((c.remove key).evictTo (c.limits.maxBytes - size)).2

theorem store_of_fits {c : Cache} {now : Nat} {key text : String} {metadata : Lowering.Metadata}
    (h : (CacheEntry.new now key text metadata).size ≤ c.limits.maxBytes) :
    c.store now key text metadata
      = (true,
        let entry := CacheEntry.new now key text metadata
        let room := c.makeRoom key entry.size
        { room with
          slots := room.slots.insert key ⟨entry, room.uses + 1⟩
          totalSize := room.totalSize + entry.size
          uses := room.uses + 1 }) := by
  unfold store
  simp only [if_neg (Nat.not_lt.mpr h)]
  rfl

theorem store_of_not_fits {c : Cache} {now : Nat} {key text : String}
    {metadata : Lowering.Metadata}
    (h : ¬(CacheEntry.new now key text metadata).size ≤ c.limits.maxBytes) :
    c.store now key text metadata = (false, c) := by
  unfold store
  simp only [if_pos (Nat.not_le.mp h)]

theorem makeRoom_limits (c : Cache) (key : String) (size : Nat) :
    (c.makeRoom key size).limits = c.limits := by
  rw [makeRoom, evictTo_limits, remove_limits]

/-- The old entry of the key is gone. -/
theorem get?_makeRoom (c : Cache) (key : String) (size : Nat) :
    (c.makeRoom key size).slots.get? key = none := by
  refine evictTo_induction (P := fun d => d.slots.get? key = none) ?_ _ _ ?_
  · intro d other hnone
    rw [get?_remove, hnone]
    split <;> rfl
  · rw [get?_remove, if_pos rfl]

/-! ## Limits -/

theorem lookup_limits (c : Cache) (now : Nat) (key : String) :
    (c.lookup now key).2.limits = c.limits := by
  unfold lookup
  split
  · rfl
  · split
    · exact remove_limits c key
    · rfl

theorem store_limits (c : Cache) (now : Nat) (key text : String) (metadata : Lowering.Metadata) :
    (c.store now key text metadata).2.limits = c.limits := by
  by_cases hfits : (CacheEntry.new now key text metadata).size ≤ c.limits.maxBytes
  · rw [store_of_fits hfits]
    exact makeRoom_limits c key _
  · rw [store_of_not_fits hfits]

theorem cleanup_limits (c : Cache) (now : Nat) : (c.cleanup now).2.limits = c.limits :=
  foldl_remove_induction (P := fun d => d.limits = c.limits) (fun d key hd => by simpa using hd)
    _ c rfl

namespace Clocked

theorem step_limits (s : Clocked) (operation : Operation) :
    (s.step operation).cache.limits = s.cache.limits := by
  cases operation with
  | store source c text metadata =>
    simp only [step]
    exact store_limits s.cache s.now (key source c) text metadata
  | lookup source c =>
    simp only [step]
    exact lookup_limits s.cache s.now (key source c)
  | lookupKey key =>
    simp only [step]
    exact lookup_limits s.cache s.now key
  | cleanup =>
    simp only [step]
    exact cleanup_limits s.cache s.now
  | shrink fraction =>
    simp only [step]
    exact evictTo_limits (s.cache.fractionOfSize fraction) s.cache
  | clear => rfl
  | tick now => rfl

theorem run_limits (s : Clocked) (operations : List Operation) :
    (s.run operations).cache.limits = s.cache.limits := by
  induction operations generalizing s with
  | nil => rfl
  | cons operation rest ih => exact (ih (s.step operation)).trans (s.step_limits operation)

end Clocked

/-! ## Checked operations -/

/-- A difference, unless it would fall below zero. -/
def difference? (a b : Nat) : Option Nat := if b ≤ a then some (a - b) else none

def removeChecked (c : Cache) (key : String) : Option Cache :=
  match c.slots.get? key with
  | some slot => do
    let totalSize ← difference? c.totalSize slot.entry.size
    return { c with slots := c.slots.erase key, totalSize := totalSize }
  | none => some c

theorem eq_sub_of_difference? {a b d : Nat} (h : difference? a b = some d) : d = a - b := by
  rw [difference?] at h
  split at h
  · exact (Option.some.inj h).symm
  · cases h

/-- Where the checked operation succeeds, it does what the other does. -/
theorem eq_remove_of_removeChecked {c d : Cache} {key : String}
    (h : c.removeChecked key = some d) : d = c.remove key := by
  rw [removeChecked] at h
  cases hget : c.slots.get? key with
  | none =>
    rw [hget] at h
    rw [remove_of_none hget]
    exact (Option.some.inj h).symm
  | some slot =>
    rw [hget] at h
    obtain ⟨totalSize, hsize, hd⟩ := Option.bind_eq_some_iff.mp h
    rw [remove_of_some hget, ← eq_sub_of_difference? hsize]
    exact (Option.some.inj hd).symm

def evictToChecked (c : Cache) (limit : Nat) : Option (Nat × Cache) :=
  if limit < c.totalSize then
    match _h : stalest? c.slots.entries with
    | some e =>
      match _hd : c.removeChecked e.1 with
      | some d => do
        let (evicted, rest) ← d.evictToChecked limit
        return (evicted + 1, rest)
      | none => none
    | none => some (0, c)
  else some (0, c)
termination_by c.slots.size
decreasing_by
  rw [eq_remove_of_removeChecked _hd]
  exact remove_slots_size (stalest?_mem _h)

def lookupChecked (c : Cache) (now : Nat) (key : String) : Option (Option CacheEntry × Cache) :=
  match c.slots.get? key with
  | none => some (none, { c with misses := c.misses + 1 })
  | some slot =>
    if slot.entry.isExpired c.limits now then do
      let d ← c.removeChecked key
      return (none, { d with misses := c.misses + 1 })
    else
      let entry :=
        { slot.entry with lastAccessedAt := now, accessCount := slot.entry.accessCount + 1 }
      let use := c.uses + 1
      some (some entry,
        { c with slots := c.slots.insert key ⟨entry, use⟩, hits := c.hits + 1, uses := use })

def storeChecked (c : Cache) (now : Nat) (key text : String) (metadata : Lowering.Metadata) :
    Option (Bool × Cache) :=
  let entry := CacheEntry.new now key text metadata
  if c.limits.maxBytes < entry.size then some (false, c)
  else do
    let d ← c.removeChecked key
    let room ← difference? c.limits.maxBytes entry.size
    let evicted ← d.evictToChecked room
    let d := evicted.2
    let use := d.uses + 1
    return (true,
      { d with
        slots := d.slots.insert key ⟨entry, use⟩
        totalSize := d.totalSize + entry.size
        uses := use })

def cleanupChecked (c : Cache) (now : Nat) : Option (Nat × Cache) := do
  let keys := c.expiredKeys now
  let c ← keys.foldlM removeChecked c
  return (keys.length, c)

def shrinkChecked (c : Cache) (fraction : Float) : Option (Nat × Cache) :=
  c.evictToChecked (c.fractionOfSize fraction)

namespace Clocked

def stepChecked (s : Clocked) : Operation → Option Clocked
  | .store source c text metadata =>
    (s.cache.storeChecked s.now (key source c) text metadata).map fun r => { s with cache := r.2 }
  | .lookup source c =>
    (s.cache.lookupChecked s.now (key source c)).map fun r => { s with cache := r.2 }
  | .lookupKey key => (s.cache.lookupChecked s.now key).map fun r => { s with cache := r.2 }
  | .cleanup => (s.cache.cleanupChecked s.now).map fun r => { s with cache := r.2 }
  | .shrink fraction => (s.cache.shrinkChecked fraction).map fun r => { s with cache := r.2 }
  | .clear => some { s with cache := s.cache.clear }
  | .tick now => some { s with now := now }

def runChecked (s : Clocked) (operations : List Operation) : Option Clocked :=
  operations.foldlM stepChecked s

end Clocked

end Cache

end Downlevel
