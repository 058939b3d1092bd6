/-
Downlevel.Proofs.Cache.Recall — a lookup answers from the history.

`Recalls` says that the slots of a cache hold what is known of every key and
nothing else. Each operation changes what is known just as its happenings
say (`Recalls.step`), so after any run the slots are what the history of the
run tells (`Recalls.run`).

`run_answers_from_history` reads this at a lookup: an entry is found exactly
where an accepted store of its key was followed by nothing that ends it and
is not too old, and the entry is the stored one with its uses since.
-/
import Downlevel.Proofs.Cache.History

namespace Downlevel.Cache

/-! ## Slots and what is known -/

/-- The slots hold what is known of every key. -/
structure Recalls (c : Cache) (known : String → Option Remembered) : Prop where
  known_eq : ∀ key, known key = (c.slots.get? key).map fun slot => .ofEntry slot.entry
  entry_eq : ∀ {key slot}, c.slots.get? key = some slot →
    slot.entry = (Remembered.ofEntry slot.entry).entry key slot.entry.lastAccessedAt

namespace Recalls

variable {c d : Cache} {known : String → Option Remembered}

theorem empty (limits : CacheLimits) : (Cache.empty limits).Recalls fun _ => none := by
  refine ⟨fun key => rfl, ?_⟩
  intro key slot h
  cases h

/-- What is known says the same where it says the same of each key. -/
theorem congr {known' : String → Option Remembered} (h : c.Recalls known)
    (heq : ∀ key, known' key = known key) : c.Recalls known' :=
  ⟨fun key => (heq key).trans (h.known_eq key), h.entry_eq⟩

/-- Entries are dropped and forgotten together. -/
theorem drop (h : c.Recalls known) (keys : List String)
    (hd : ∀ key, d.slots.get? key = if key ∈ keys then none else c.slots.get? key) :
    d.Recalls fun key => if key ∈ keys then none else known key := by
  refine ⟨?_, ?_⟩
  · intro key
    rw [hd]
    by_cases hkey : key ∈ keys
    · simp [hkey]
    · simp [hkey, h.known_eq]
  · intro key slot hslot
    rw [hd] at hslot
    by_cases hkey : key ∈ keys
    · simp [hkey] at hslot
    · exact h.entry_eq (by simpa [hkey] using hslot)

/-- An entry is put in and known from then on. -/
theorem put (h : c.Recalls known) (key : String) {slot : CacheSlot}
    (hentry : slot.entry
      = (Remembered.ofEntry slot.entry).entry key slot.entry.lastAccessedAt)
    (hd : ∀ other, d.slots.get? other
      = if other = key then some slot else c.slots.get? other) :
    d.Recalls fun other =>
      if other = key then some (.ofEntry slot.entry) else known other := by
  refine ⟨?_, ?_⟩
  · intro other
    rw [hd]
    by_cases hother : other = key
    · simp [hother]
    · simp [hother, h.known_eq]
  · intro other found hfound
    rw [hd] at hfound
    by_cases hother : other = key
    · obtain rfl : slot = found := by simpa [hother] using hfound
      rwa [hother]
    · exact h.entry_eq (by simpa [hother] using hfound)

/-! ## Operations -/

theorem evictTo (h : c.Recalls known) (limit : Nat) :
    (c.evictTo limit).2.Recalls fun key =>
      ((c.victims limit).map Happening.evicted).foldl (Happening.update key) (known key) :=
  (h.drop _ (get?_evictTo c limit)).congr fun key => foldl_update_evicted _ key _

theorem cleanup (h : c.Recalls known) (now : Nat) :
    (c.cleanup now).2.Recalls fun key =>
      ((c.expiredKeys now).map Happening.expired).foldl (Happening.update key) (known key) :=
  (h.drop _ (get?_foldl_remove _ c)).congr fun key => foldl_update_expired _ key _

theorem clear (c : Cache) (known : String → Option Remembered) :
    c.clear.Recalls fun key => [Happening.cleared].foldl (Happening.update key) (known key) :=
  ⟨(empty c.limits).known_eq, (empty c.limits).entry_eq⟩

/-- An accepted store makes its entry known; a refused one changes
nothing. -/
theorem store (h : c.Recalls known) (now : Nat) (key text : String)
    (metadata : Lowering.Metadata) :
    (c.store now key text metadata).2.Recalls fun other =>
      (c.storeHappenings now key text metadata).foldl (Happening.update other) (known other) := by
  by_cases hfits : (CacheEntry.new now key text metadata).size ≤ c.limits.maxBytes
  · -- the old entry of the key goes, then the victims, and the new entry comes
    have hremove := h.drop [key] (d := c.remove key) fun other => by simp [get?_remove]
    have hroom := hremove.evictTo
      (c.limits.maxBytes - (CacheEntry.new now key text metadata).size)
    have hget : ∀ other, (c.store now key text metadata).2.slots.get? other
        = if other = key then some ⟨.new now key text metadata,
            (c.makeRoom key (CacheEntry.new now key text metadata).size).uses + 1⟩
          else (c.makeRoom key (CacheEntry.new now key text metadata).size).slots.get? other := by
      intro other
      rw [store_of_fits hfits]
      exact SortedMap.get?_insert _ _ _ _
    refine (hroom.put key rfl hget).congr fun other => ?_
    have hstored : (c.store now key text metadata).1 = true := by rw [store_of_fits hfits]
    rw [storeHappenings, if_pos hstored, List.foldl_append, foldl_update_evicted,
      foldl_update_evicted]
    by_cases hother : other = key
    · subst hother
      simp [Happening.update, Remembered.ofEntry, CacheEntry.new]
    · simp [Happening.update, hother, Ne.symm hother]
  · rw [storeHappenings, store_of_not_fits hfits]
    exact h

/-- A hit is one more access, and what is too old is forgotten. -/
theorem lookup (h : c.Recalls known) (now : Nat) (key : String) :
    (c.lookup now key).2.Recalls fun other =>
      (c.lookupHappenings now key).foldl (Happening.update other) (known other) := by
  have hget := get?_lookup c now key
  rw [lookupHappenings]
  cases hfound : (c.lookup now key).1 with
  | some e =>
    obtain ⟨slot, hslot, -, rfl⟩ := lookup_eq_some_iff.mp hfound
    rw [hfound] at hget
    have hentry := h.entry_eq hslot
    refine (h.put key ?_ hget).congr fun other => ?_
    · rw [hentry]
      rfl
    · by_cases hother : other = key
      · subst hother
        simp [Happening.update, h.known_eq, hslot, Remembered.ofEntry]
      · simp [Happening.update, hother, Ne.symm hother]
  | none =>
    rw [hfound] at hget
    refine (h.drop [key] fun other => by simpa using hget other).congr fun other => ?_
    by_cases hold : key ∈ c.expiredKeys now
    · simp [hold, Happening.update, eq_comm]
    · have hnone : c.slots.get? key = none :=
        (lookup_eq_none_iff.mp hfound).resolve_right hold
      by_cases hother : other = key
      · simp [hold, hother, Happening.update, h.known_eq, hnone]
      · simp [hold, hother, Happening.update]

/-! ## Runs -/

/-- **What an operation changes is what its happenings say.** -/
theorem step {s : Clocked} (h : s.cache.Recalls known) (operation : Operation) :
    (s.step operation).cache.Recalls fun key =>
      (s.happenings operation).foldl (Happening.update key) (known key) := by
  cases operation with
  | store source c text metadata =>
    simp only [Clocked.step, Clocked.happenings]
    exact h.store s.now (key source c) text metadata
  | lookup source c =>
    simp only [Clocked.step, Clocked.happenings]
    exact h.lookup s.now (key source c)
  | lookupKey key =>
    simp only [Clocked.step, Clocked.happenings]
    exact h.lookup s.now key
  | cleanup => exact h.cleanup s.now
  | shrink fraction => exact h.evictTo (s.cache.fractionOfSize fraction)
  | clear => exact clear s.cache known
  | tick now => exact h

theorem run {s : Clocked} (h : s.cache.Recalls known) (operations : List Operation) :
    (s.run operations).cache.Recalls fun key =>
      (s.history operations).foldl (Happening.update key) (known key) := by
  induction operations generalizing s known with
  | nil => exact h
  | cons operation rest ih =>
    refine (ih (h.step operation)).congr fun key => ?_
    rw [Clocked.history, List.foldl_append]

theorem run_start (limits : CacheLimits) (now : Nat) (operations : List Operation) :
    ((Clocked.start limits now).run operations).cache.Recalls
      (remembered ((Clocked.start limits now).history operations)) :=
  (empty limits).run operations

end Recalls

/-! ## Counters -/

/-- How many lookups found something, and how many did not. -/
def counters (c : Cache) : Nat × Nat := (c.hits, c.misses)

@[simp] theorem remove_counters (c : Cache) (key : String) :
    (c.remove key).counters = c.counters := by
  unfold remove
  split <;> rfl

theorem evictTo_counters (c : Cache) (limit : Nat) :
    (c.evictTo limit).2.counters = c.counters :=
  evictTo_induction (P := fun d => d.counters = c.counters) (fun d key hd => by simpa using hd)
    limit c rfl

theorem cleanup_counters (c : Cache) (now : Nat) : (c.cleanup now).2.counters = c.counters :=
  foldl_remove_induction (P := fun d => d.counters = c.counters)
    (fun d key hd => by simpa using hd) _ c rfl

theorem store_counters (c : Cache) (now : Nat) (key text : String)
    (metadata : Lowering.Metadata) :
    (c.store now key text metadata).2.counters = c.counters := by
  by_cases hfits : (CacheEntry.new now key text metadata).size ≤ c.limits.maxBytes
  · rw [store_of_fits hfits]
    exact (evictTo_counters _ _).trans (remove_counters c key)
  · rw [store_of_not_fits hfits]

/-- A lookup is counted once. -/
theorem lookup_counters (c : Cache) (now : Nat) (key : String) :
    (c.lookup now key).2.counters
      = if (c.lookup now key).1.isSome then (c.hits + 1, c.misses) else (c.hits, c.misses + 1) := by
  unfold lookup
  cases hget : c.slots.get? key with
  | none => rfl
  | some slot =>
    cases hold : slot.entry.isExpired c.limits now with
    | true =>
      have hhits := congrArg Prod.fst (remove_counters c key)
      simp only [counters] at hhits
      simp [hold, counters, hhits]
    | false => simp [hold, counters]

/-- The key that an operation looks up, if it does. -/
def Operation.lookedUp? : Operation → Option String
  | .lookup source c => some (key source c)
  | .lookupKey key => some key
  | _ => none

namespace Clocked

/-- Lookups are counted, and nothing else is. -/
theorem step_counters (s : Clocked) (operation : Operation) :
    (s.step operation).cache.counters
      = match operation.lookedUp? with
        | some key =>
          if (s.cache.lookup s.now key).1.isSome then (s.cache.hits + 1, s.cache.misses)
          else (s.cache.hits, s.cache.misses + 1)
        | none => s.cache.counters := by
  cases operation with
  | store source c text metadata =>
    simp only [step, Operation.lookedUp?]
    exact store_counters s.cache s.now (key source c) text metadata
  | lookup source c =>
    simp only [step, Operation.lookedUp?]
    exact lookup_counters s.cache s.now (key source c)
  | lookupKey key =>
    simp only [step, Operation.lookedUp?]
    exact lookup_counters s.cache s.now key
  | cleanup => exact cleanup_counters s.cache s.now
  | shrink fraction => exact evictTo_counters s.cache (s.cache.fractionOfSize fraction)
  | clear => rfl
  | tick now => rfl

/-! ## Answers -/

/-- A store that is refused changes nothing. -/
theorem step_store_of_refused {s : Clocked} {source text : String} {c : Configuration}
    {metadata : Lowering.Metadata}
    (h : (s.cache.store s.now (key source c) text metadata).1 = false) :
    s.step (.store source c text metadata) = s := by
  have hnot : ¬(CacheEntry.new s.now (key source c) text metadata).size
      ≤ s.cache.limits.maxBytes := by
    intro hfits
    rw [store_of_fits hfits] at h
    cases h
  rw [step, store_of_not_fits hnot]

/-- **A lookup answers from the history.** After any operations, at whatever
times, a lookup finds an entry exactly where the history has an accepted
store of the key that nothing has ended since — no later store of the key,
no eviction, no expiry, no clearing — and that is not too old. It is the
entry of that store, used now and once more than it was hit since. Every
lookup adds one to the hits or to the misses and no other operation touches
them; a store that is refused changes nothing at all. -/
theorem run_answers_from_history (limits : CacheLimits) (begin : Nat)
    (operations : List Operation) :
    let s := (start limits begin).run operations
    let h := (start limits begin).history operations
    (∀ key e, (s.cache.lookup s.now key).1 = some e
      ↔ ∃ before text metadata time since,
          h = before ++ .stored key text metadata time :: since
            ∧ (∀ x ∈ since, x.ends key = false)
            ∧ s.now - time ≤ limits.maxAge
            ∧ e = { CacheEntry.new time key text metadata with
                lastAccessedAt := s.now, accessCount := 1 + since.count (.hit key) })
    ∧ (∀ operation, (s.step operation).cache.counters
        = match operation.lookedUp? with
          | some key =>
            if (s.cache.lookup s.now key).1.isSome then (s.cache.hits + 1, s.cache.misses)
            else (s.cache.hits, s.cache.misses + 1)
          | none => s.cache.counters)
    ∧ (∀ source c text metadata,
        (s.cache.store s.now (key source c) text metadata).1 = false →
          s.step (.store source c text metadata) = s) := by
  intro s h
  have hrecalls : s.cache.Recalls (remembered h) := .run_start limits begin operations
  have hlimits : s.cache.limits = limits := run_limits _ operations
  refine ⟨?_, s.step_counters, fun _ _ _ _ => step_store_of_refused⟩
  intro key e
  rw [lookup_eq_some_iff, hlimits]
  constructor
  · rintro ⟨slot, hslot, hage, rfl⟩
    have hknown := hrecalls.known_eq key
    rw [hslot, Option.map_some] at hknown
    obtain ⟨before, since, hh, hsince, hhits⟩ := remembered_eq_some_iff.mp hknown
    refine ⟨before, _, _, _, since, hh, hsince, hage, ?_⟩
    rw [hrecalls.entry_eq hslot, ← hhits, Nat.add_comm]
    rfl
  · rintro ⟨before, text, metadata, time, since, hh, hsince, hage, rfl⟩
    have hknown : remembered h key = some ⟨text, metadata, time, since.count (.hit key)⟩ :=
      remembered_eq_some_iff.mpr ⟨before, since, hh, hsince, rfl⟩
    rw [hrecalls.known_eq] at hknown
    obtain ⟨slot, hslot, hof⟩ := Option.map_eq_some_iff.mp hknown
    have hentry := hrecalls.entry_eq hslot
    rw [hof] at hentry
    refine ⟨slot, hslot, ?_, ?_⟩
    · rw [hentry]
      exact hage
    · rw [hentry, Nat.add_comm]
      rfl

end Clocked

end Downlevel.Cache
