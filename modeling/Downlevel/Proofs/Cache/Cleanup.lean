/-
Downlevel.Proofs.Cache.Cleanup — lookups do not see a cleanup.

An entry that is too old goes in one of two ways: a lookup that comes upon it
drops it and counts a miss, and a cleanup drops all such entries at once and
counts nothing. So a cache that was cleaned up differs from one that was not
only in entries that no lookup would find.

`LacksExpired` says this of two caches. It is kept by every lookup, because
both caches give the same answer, and as time goes on, because an entry that is
too old stays so (`Clocked.step_lacking`). Two runs of lookups that begin
with such caches go side by side, however long (`Clocked.run_lacking`).

`DropsExpired` says what a cleanup does to the cache itself.
-/
import Downlevel.Proofs.Cache.Recall
import Downlevel.Proofs.Cache.Recency

namespace Downlevel.Cache

/-! ## What a cleanup drops -/

/-- Of a cache the entries that are too old were dropped, and nothing else was
changed. -/
structure DropsExpired (now : Nat) (c : Cache) (dropped : Nat) (rest : Cache) : Prop where
  /-- What is left is as it was, with the time and the number of its last use. -/
  entries_eq : rest.slots.entries
    = c.slots.entries.filter fun e => now - e.2.entry.createdAt ≤ c.limits.maxAge
  dropped_eq : dropped
    = c.slots.entries.countP fun e => c.limits.maxAge < now - e.2.entry.createdAt
  /-- What is left keeps its place in the order of last uses. -/
  byLastUse_eq : ∀ used, byLastUse used rest = (byLastUse used c).filter rest.slots.contains
  uses_eq : rest.uses = c.uses
  counters_eq : rest.counters = c.counters
  limits_eq : rest.limits = c.limits
  /-- The sizes of what is left add up. -/
  consistent : rest.Consistent

theorem cleanup_uses (c : Cache) (now : Nat) : (c.cleanup now).2.uses = c.uses :=
  foldl_remove_induction (P := fun d => d.uses = c.uses) (fun d key hd => by simpa using hd) _ c rfl

theorem get?_cleanup (c : Cache) (now : Nat) (key : String) :
    (c.cleanup now).2.slots.get? key
      = if key ∈ c.expiredKeys now then none else c.slots.get? key :=
  get?_foldl_remove _ c key

/-- A cleanup is one pass over the entries, although it drops them one by
one. -/
theorem cleanup_slots (c : Cache) (now : Nat) :
    (c.cleanup now).2.slots
      = c.slots.filter fun _ slot => now - slot.entry.createdAt ≤ c.limits.maxAge := by
  apply SortedMap.ext_get?
  intro key
  ext slot
  rw [SortedMap.get?_filter_eq_some_iff, get?_cleanup, decide_eq_true_eq,
    ← isExpired_eq_false_iff]
  by_cases hexpired : key ∈ c.expiredKeys now
  · obtain ⟨old, hold, hage⟩ := mem_expiredKeys.mp hexpired
    rw [if_pos hexpired, hold]
    refine ⟨nofun, fun ⟨hslot, hyoung⟩ => ?_⟩
    obtain rfl := Option.some.inj hslot
    rw [hage] at hyoung
    cases hyoung
  · rw [if_neg hexpired, iff_self_and]
    intro hslot
    by_contra hage
    rw [Bool.not_eq_false] at hage
    exact hexpired (mem_expiredKeys.mpr ⟨slot, hslot, hage⟩)

theorem Consistent.dropsExpired {c : Cache} (h : c.Consistent) (now : Nat) :
    DropsExpired now c (c.cleanup now).1 (c.cleanup now).2 := by
  refine ⟨?_, ?_, ?_, cleanup_uses c now, cleanup_counters c now, cleanup_limits c now,
    h.cleanup now⟩
  · rw [cleanup_slots]
    rfl
  · have hlength : (c.cleanup now).1 = (c.expiredKeys now).length := rfl
    rw [hlength, expiredKeys, SortedMap.keys, List.length_map, List.countP_eq_length_filter]
    rfl
  · intro used
    rw [byLastUse, byLastUse, List.filter_filter]
    refine List.filter_congr fun key _ => ?_
    rw [SortedMap.contains, get?_cleanup]
    split
    · rfl
    · rw [SortedMap.contains, Bool.and_self]

/-! ## Caches that a lookup cannot tell apart -/

/-- A cache that lacks some entries of another one, all of them too old. -/
structure LacksExpired (now : Nat) (c d : Cache) : Prop where
  limits_eq : d.limits = c.limits
  uses_eq : d.uses = c.uses
  counters_eq : d.counters = c.counters
  get?_eq : ∀ key, d.slots.get? key = c.slots.get? key
    ∨ d.slots.get? key = none ∧ key ∈ c.expiredKeys now

/-- A lookup concerns one key only. -/
theorem get?_lookup_of_ne {c : Cache} {now : Nat} {key other : String} (hother : other ≠ key) :
    (c.lookup now key).2.slots.get? other = c.slots.get? other := by
  rw [get?_lookup]
  split <;> rw [if_neg hother]

/-- What is too old stays so. -/
theorem expiredKeys_later {c : Cache} {now time : Nat} (hle : now ≤ time) {key : String}
    (h : key ∈ c.expiredKeys now) : key ∈ c.expiredKeys time := by
  obtain ⟨slot, hslot, hage⟩ := mem_expiredKeys.mp h
  refine mem_expiredKeys.mpr ⟨slot, hslot, ?_⟩
  rw [CacheEntry.isExpired, decide_eq_true_eq] at hage ⊢
  exact Nat.lt_of_lt_of_le hage (Nat.sub_le_sub_right hle _)

theorem lacksExpired_cleanup (c : Cache) (now : Nat) : LacksExpired now c (c.cleanup now).2 := by
  refine ⟨cleanup_limits c now, cleanup_uses c now, cleanup_counters c now, fun key => ?_⟩
  rw [get?_cleanup]
  split
  · next hexpired => exact .inr ⟨rfl, hexpired⟩
  · exact .inl rfl

namespace LacksExpired

variable {now : Nat} {c d : Cache}

theorem later (h : LacksExpired now c d) {time : Nat} (hle : now ≤ time) :
    LacksExpired time c d :=
  ⟨h.limits_eq, h.uses_eq, h.counters_eq,
    fun key => (h.get?_eq key).imp_right fun hgone => ⟨hgone.1, expiredKeys_later hle hgone.2⟩⟩

/-- **What is lacking would not have been found.** -/
theorem lookup_fst (h : LacksExpired now c d) (key : String) :
    (d.lookup now key).1 = (c.lookup now key).1 := by
  rcases h.get?_eq key with hsame | ⟨hgone, hexpired⟩
  · ext e
    rw [lookup_eq_some_iff, lookup_eq_some_iff, hsame, h.limits_eq]
  · rw [lookup_eq_none_iff.mpr (.inl hgone), lookup_eq_none_iff.mpr (.inr hexpired)]

theorem mem_expiredKeys_lookup {key other : String} (hother : other ≠ key) :
    other ∈ (c.lookup now key).2.expiredKeys now ↔ other ∈ c.expiredKeys now := by
  rw [mem_expiredKeys, mem_expiredKeys, get?_lookup_of_ne hother, lookup_limits]

/-- A lookup leaves nothing more lacking than it was. -/
theorem lookup (h : LacksExpired now c d) (key : String) :
    LacksExpired now (c.lookup now key).2 (d.lookup now key).2 := by
  have hfound := h.lookup_fst key
  refine ⟨?_, ?_, ?_, ?_⟩
  · rw [lookup_limits, lookup_limits, h.limits_eq]
  · cases hanswer : (c.lookup now key).1 with
    | some e =>
      rw [hanswer] at hfound
      rw [lookup_uses_of_some hanswer, lookup_uses_of_some hfound, h.uses_eq]
    | none =>
      rw [hanswer] at hfound
      rw [lookup_uses_of_none hanswer, lookup_uses_of_none hfound, h.uses_eq]
  · obtain ⟨hhits, hmisses⟩ := Prod.mk.injEq .. |>.mp h.counters_eq
    rw [lookup_counters, lookup_counters, hfound, hhits, hmisses]
  · intro other
    by_cases hother : other = key
    · -- after a lookup both have the same under its key
      refine .inl ?_
      rw [get?_lookup, get?_lookup, hfound, h.uses_eq]
      simp [hother]
    · rw [get?_lookup_of_ne hother, get?_lookup_of_ne hother, mem_expiredKeys_lookup hother]
      exact h.get?_eq other

end LacksExpired

/-! ## Runs -/

/-- Whether an operation is a lookup or lets time pass. -/
def Operation.isProbe : Operation → Bool
  | .lookup _ _ | .lookupKey _ | .tick _ => true
  | .store _ _ _ _ | .cleanup | .shrink _ | .clear => false

namespace Clocked

/-- What the lookups among some operations find, one after the other. -/
def answers (s : Clocked) : List Operation → List (Option CacheEntry)
  | [] => []
  | operation :: rest =>
    (operation.lookedUp?.map fun key => (s.cache.lookup s.now key).1).toList
      ++ (s.step operation).answers rest

theorem step_of_lookedUp? {operation : Operation} {key : String}
    (h : operation.lookedUp? = some key) (s : Clocked) :
    s.step operation = { s with cache := (s.cache.lookup s.now key).2 } := by
  cases operation with
  | lookup source c =>
    obtain rfl := Option.some.inj h
    rfl
  | lookupKey other =>
    obtain rfl := Option.some.inj h
    rfl
  | store source c text metadata => cases h
  | cleanup => cases h
  | shrink fraction => cases h
  | clear => cases h
  | tick now => cases h

/-- What is not a lookup but a probe only sets the clock. -/
theorem step_of_not_lookedUp? {operation : Operation} (hprobe : operation.isProbe = true)
    (h : operation.lookedUp? = none) (s : Clocked) : (s.step operation).cache = s.cache := by
  cases operation with
  | tick now => rfl
  | lookup source c => cases h
  | lookupKey key => cases h
  | store source c text metadata => cases hprobe
  | cleanup => cases hprobe
  | shrink fraction => cases hprobe
  | clear => cases hprobe

/-- One cache lacks some old entries of the other, at the same time. -/
structure Lacking (s t : Clocked) : Prop where
  now_eq : t.now = s.now
  caches : LacksExpired s.now s.cache t.cache

/-- A probe finds the same in both, and leaves them so. -/
theorem step_lacking {s t : Clocked} (h : Lacking s t) {operation : Operation}
    (hprobe : operation.isProbe = true)
    (hforward : ∀ time, operation.time? = some time → s.now ≤ time) :
    Lacking (s.step operation) (t.step operation) := by
  have hnow : (t.step operation).now = (s.step operation).now := by
    rw [step_now, step_now, h.now_eq]
  refine ⟨hnow, ?_⟩
  cases hkey : operation.lookedUp? with
  | some key =>
    rw [step_of_lookedUp? hkey, step_of_lookedUp? hkey, h.now_eq]
    exact h.caches.lookup key
  | none =>
    have hlater : s.now ≤ (s.step operation).now := by
      rw [step_now]
      cases htime : operation.time? with
      | none => exact Nat.le_refl _
      | some time => exact hforward time htime
    rw [step_of_not_lookedUp? hprobe hkey, step_of_not_lookedUp? hprobe hkey]
    exact h.caches.later hlater

/-- **Two runs of lookups go side by side**, as long as the clock does not go
back. -/
theorem run_lacking {s t : Clocked} (h : Lacking s t) {probes : List Operation}
    (hprobes : ∀ operation ∈ probes, operation.isProbe = true) (hforward : Forward s.now probes) :
    t.answers probes = s.answers probes ∧ Lacking (s.run probes) (t.run probes) := by
  induction probes generalizing s t with
  | nil => exact ⟨rfl, h⟩
  | cons operation rest ih =>
    obtain ⟨htime, hrest⟩ := hforward.step
    have hprobe := hprobes operation List.mem_cons_self
    have hstep := step_lacking h hprobe htime
    obtain ⟨hanswers, hrun⟩ :=
      ih hstep (fun o ho => hprobes o (List.mem_cons_of_mem _ ho)) hrest
    refine ⟨?_, hrun⟩
    have hfirst : (fun key => (t.cache.lookup t.now key).1)
        = fun key => (s.cache.lookup s.now key).1 := by
      funext key
      rw [h.now_eq]
      exact h.caches.lookup_fst key
    rw [answers, answers, hfirst, hanswers]

/-- **A cleanup cannot be seen in lookups.** In whatever state a cache was
left by earlier operations: lookups, by source text and configuration or by
key, find the same after a cleanup as without it, and count the same hits and
misses, however many follow one another and however time passes between them,
as long as the clock does not go back. The cleanup itself drops exactly the
entries that are too old and gives their number; the other entries, the order
of their last uses and the counters are as they were. -/
theorem cleanup_unseen (limits : CacheLimits) (begin : Nat) (operations probes : List Operation)
    (hprobes : ∀ operation ∈ probes, operation.isProbe = true)
    (hforward : Forward ((start limits begin).run operations).now probes) :
    let s := (start limits begin).run operations
    (s.step .cleanup).answers probes = s.answers probes
      ∧ ((s.step .cleanup).run probes).cache.counters = (s.run probes).cache.counters
      ∧ DropsExpired s.now s.cache (s.cache.cleanup s.now).1 (s.step .cleanup).cache := by
  intro s
  have hlacking : Lacking s (s.step .cleanup) := ⟨rfl, lacksExpired_cleanup s.cache s.now⟩
  obtain ⟨hanswers, hrun⟩ := run_lacking hlacking hprobes hforward
  have hconsistent : s.cache.Consistent := run_consistent (.empty limits) operations
  exact ⟨hanswers, hrun.caches.counters_eq, hconsistent.dropsExpired s.now⟩

/-- Two stores, of which the first one is too old in the end. -/
def agingStores : List Operation := [
  .store "a" .standard "A" .empty, .tick 600, .store "b" .standard "B" .empty, .tick 1200]

/-- Lookups of both until the other one is too old as well. -/
def agingProbes : List Operation := [
  .lookup "a" .standard, .lookup "b" .standard, .tick 1700, .lookup "b" .standard,
  .lookup "a" .standard]

/-- The cleanup drops one entry of two, and the lookups, of which one finds
something, do not tell. -/
theorem cleanup_unseen_aging :
    let s := (start ⟨600, 1000⟩ 0).run agingStores
    (∀ operation ∈ agingProbes, operation.isProbe = true)
      ∧ Forward s.now agingProbes
      ∧ (s.cache.cleanup s.now).1 = 1
      ∧ (s.answers agingProbes).map Option.isSome = [false, true, false, false]
      ∧ (s.step .cleanup).answers agingProbes = s.answers agingProbes
      ∧ ((s.step .cleanup).run agingProbes).cache.counters = (1, 3) := by
  have hprobes : ∀ operation ∈ agingProbes, operation.isProbe = true := by decide
  have hforward : Forward ((start ⟨600, 1000⟩ 0).run agingStores).now agingProbes := by decide
  obtain ⟨hanswers, hcounters, -⟩ :=
    cleanup_unseen ⟨600, 1000⟩ 0 agingStores agingProbes hprobes hforward
  -- one evaluation, in which the run is shared
  generalize hs : (start ⟨600, 1000⟩ 0).run agingStores = s at hanswers hcounters hforward ⊢
  have hfacts : (s.cache.cleanup s.now).1 = 1
      ∧ (s.answers agingProbes).map Option.isSome = [false, true, false, false]
      ∧ (s.run agingProbes).cache.counters = (1, 3) := by
    rw [← hs]
    decide +kernel
  obtain ⟨hdropped, hfound, hcounted⟩ := hfacts
  exact ⟨hprobes, hforward, hdropped, hfound, hanswers, hcounters.trans hcounted⟩

end Clocked

end Downlevel.Cache
