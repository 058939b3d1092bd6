/-
Downlevel.Proofs.Cache.Eviction — eviction drops what was used least
recently, and no more than it has to.

`DropsLeastRecent` says what an eviction does to a cache in terms of the
order of last uses: a beginning of that order is dropped, it brings the size
down to the limit, and no shorter one would. `Tracks.dropsLeastRecent` is
the induction over the eviction; `run_drops_least_recent` says it of every
store and every shrinking after any run.
-/
import Downlevel.Proofs.Cache.Recency

namespace Downlevel.Cache

/-! ## Bytes -/

/-- The bytes of the entries of some keys. -/
def bytesOf (c : Cache) (keys : List String) : Nat :=
  (keys.map fun key => ((c.slots.get? key).map (·.entry.size)).getD 0).sum

theorem bytesOf_remove {c : Cache} {key : String} {keys : List String} (h : key ∉ keys) :
    (c.remove key).bytesOf keys = c.bytesOf keys := by
  have hget : ∀ k ∈ keys, (c.remove key).slots.get? k = c.slots.get? k := by
    intro k hk
    rw [get?_remove, if_neg]
    rintro rfl
    exact h hk
  rw [bytesOf, bytesOf, List.map_congr_left fun k hk => by rw [hget k hk]]

/-- The bytes of all keys are the bytes of all entries. -/
theorem Counted.totalSize_eq_bytesOf {c : Cache} (h : c.Counted) {keys : List String}
    (hnodup : keys.Nodup) (hmem : ∀ key, key ∈ keys ↔ c.slots.contains key = true) :
    c.totalSize = c.bytesOf keys := by
  induction keys generalizing c with
  | nil =>
    have hnil : c.slots.entries = [] := by
      refine List.eq_nil_iff_forall_not_mem.mpr fun e he => ?_
      have hget : c.slots.get? e.1 = some e.2 := SortedMap.get?_eq_some_iff.mpr he
      have := (hmem e.1).mpr (by simp [SortedMap.contains, hget])
      cases this
    rw [h, entryBytes, SortedMap.sum, hnil]
    rfl
  | cons key rest ih =>
    obtain ⟨hkey, hrest⟩ := List.nodup_cons.mp hnodup
    obtain ⟨slot, hslot⟩ := Option.isSome_iff_exists.mp ((hmem key).mp List.mem_cons_self)
    have hothers : ∀ other, other ∈ rest ↔ (c.remove key).slots.contains other = true := by
      intro other
      have hother := hmem other
      rw [SortedMap.contains, get?_remove]
      by_cases heq : other = key
      · simp [heq, hkey]
      · simpa [heq, SortedMap.contains] using hother
    have hsize := ih (h.remove key) hrest hothers
    rw [bytesOf_remove hkey, remove_of_some hslot] at hsize
    have hle := h.size_le hslot
    simp only at hsize
    simp only [bytesOf, List.map_cons, List.sum_cons, hslot, Option.map_some,
      Option.getD_some] at hsize ⊢
    omega

/-! ## Eviction -/

/-- Of a cache the least recently used entries were dropped, as few as it
takes to come down to the limit. -/
structure DropsLeastRecent (used : List String) (c : Cache) (limit dropped : Nat)
    (rest : Cache) : Prop where
  /-- Every entry has its place in the order. -/
  mem_iff : ∀ key, key ∈ byLastUse used c ↔ c.slots.contains key = true
  dropped_le : dropped ≤ (byLastUse used c).length
  get?_eq : ∀ key, rest.slots.get? key
    = if key ∈ (byLastUse used c).take dropped then none else c.slots.get? key
  /-- What was dropped was used less recently than what is left. -/
  older : ∀ k l, c.slots.contains k = true → rest.slots.contains k = false →
    rest.slots.contains l = true → usesSince used l < usesSince used k
  totalSize_eq : rest.totalSize = c.bytesOf ((byLastUse used c).drop dropped)
  fits : rest.totalSize ≤ limit
  /-- Fewer would not do. -/
  needed : ∀ n < dropped, limit < c.bytesOf ((byLastUse used c).drop n)

namespace Tracks

variable {c : Cache} {now : Nat} {used : List String}

/-- Without its first key the order is that of the others. -/
theorem byLastUse_remove {first : String} {rest : List String}
    (horder : byLastUse used c = first :: rest) : byLastUse used (c.remove first) = rest := by
  have hnodup := byLastUse_nodup used c
  rw [horder] at hnodup
  have hfirst := (List.nodup_cons.mp hnodup).1
  have hkeep : ∀ key, (c.remove first).slots.contains key
      = (c.slots.contains key && key != first) := by
    intro key
    rw [SortedMap.contains, get?_remove]
    by_cases hkey : key = first
    · simp [hkey]
    · simp [hkey, SortedMap.contains]
  have hfilter : byLastUse used (c.remove first)
      = (byLastUse used c).filter (· != first) := by
    rw [byLastUse, byLastUse, List.filter_filter]
    refine List.filter_congr fun key _ => ?_
    rw [hkeep, Bool.and_comm]
  rw [hfilter, horder, List.filter_cons_of_neg (by simp), List.filter_eq_self]
  intro key hkey
  refine bne_iff_ne.mpr ?_
  rintro rfl
  exact hfirst hkey

/-- Dropping a beginning of the order leaves what was used more recently. -/
theorem usesSince_lt_of_dropped (h : c.Tracks now used) {rest : Cache} {dropped : Nat}
    (hget : ∀ key, rest.slots.get? key
      = if key ∈ (byLastUse used c).take dropped then none else c.slots.get? key)
    (k l : String) (hk : c.slots.contains k = true) (hgone : rest.slots.contains k = false)
    (hl : rest.slots.contains l = true) : usesSince used l < usesSince used k := by
  have hpairwise := byLastUse_pairwise used c
  rw [← List.take_append_drop dropped (byLastUse used c)] at hpairwise
  rw [SortedMap.contains, hget] at hgone hl
  have hktake : k ∈ (byLastUse used c).take dropped := by
    by_contra hnot
    rw [if_neg hnot, ← SortedMap.contains, hk] at hgone
    cases hgone
  have hltake : l ∉ (byLastUse used c).take dropped := by
    intro hmem
    rw [if_pos hmem] at hl
    cases hl
  rw [if_neg hltake] at hl
  have hlmem := h.mem_byLastUse_iff.mpr hl
  rw [← List.take_append_drop dropped (byLastUse used c)] at hlmem
  have hldrop := (List.mem_append.mp hlmem).resolve_left hltake
  exact (List.pairwise_append.mp hpairwise).2.2 k hktake l hldrop

theorem totalSize_eq_bytesOf (h : c.Tracks now used) (hc : c.Counted) :
    c.totalSize = c.bytesOf (byLastUse used c) :=
  hc.totalSize_eq_bytesOf (byLastUse_nodup used c) fun _ => h.mem_byLastUse_iff

/-- Where the size keeps to the limit, dropping nothing is enough. -/
theorem dropsNone (h : c.Tracks now used) (hc : c.Counted) {limit : Nat}
    (hle : c.totalSize ≤ limit) : DropsLeastRecent used c limit 0 c := by
  have hget : ∀ key, c.slots.get? key
      = if key ∈ (byLastUse used c).take 0 then none else c.slots.get? key := by simp
  refine ⟨fun _ => h.mem_byLastUse_iff, Nat.zero_le _, hget, h.usesSince_lt_of_dropped hget,
    ?_, hle, ?_⟩
  · rw [List.drop_zero]
    exact h.totalSize_eq_bytesOf hc
  · intro n hn
    cases hn

/-- Where it does not, the first key goes, and then what has to go of the
others. -/
theorem dropsFirst (h : c.Tracks now used) (hc : c.Counted) {limit dropped : Nat}
    {first : String} {others : List String} {rest : Cache} (hlt : limit < c.totalSize)
    (horder : byLastUse used c = first :: others)
    (hdrops : DropsLeastRecent used (c.remove first) limit dropped rest) :
    DropsLeastRecent used c limit (dropped + 1) rest := by
  have hnodup := byLastUse_nodup used c
  rw [horder] at hnodup
  have hfirst := (List.nodup_cons.mp hnodup).1
  have hnot : ∀ n, first ∉ others.drop n := fun n hmem => hfirst (List.mem_of_mem_drop hmem)
  obtain ⟨-, hle, hget, -, hsize, hfits, hneeded⟩ := hdrops
  rw [byLastUse_remove horder] at hle hget hsize hneeded
  have hgetAll : ∀ key, rest.slots.get? key
      = if key ∈ (byLastUse used c).take (dropped + 1) then none else c.slots.get? key := by
    intro key
    rw [hget, get?_remove, horder, List.take_succ_cons]
    by_cases hkey : key = first <;> simp [hkey]
  refine ⟨fun _ => h.mem_byLastUse_iff, ?_, hgetAll, h.usesSince_lt_of_dropped hgetAll, ?_,
    hfits, ?_⟩
  · rw [horder]
    exact Nat.succ_le_succ hle
  · rw [hsize, horder, List.drop_succ_cons, bytesOf_remove (hnot _)]
  · intro n hn
    cases n with
    | zero =>
      rw [List.drop_zero, ← h.totalSize_eq_bytesOf hc]
      exact hlt
    | succ n =>
      have hmore := hneeded n (Nat.lt_of_succ_lt_succ hn)
      rw [bytesOf_remove (hnot n)] at hmore
      rw [horder, List.drop_succ_cons]
      exact hmore

/-- **Eviction drops the shortest beginning of the order of last uses that
brings the size down to the limit.** -/
theorem dropsLeastRecent (h : c.Tracks now used) (hc : c.Counted) (limit : Nat) :
    DropsLeastRecent used c limit (c.evictTo limit).1 (c.evictTo limit).2 := by
  induction c using evictTo.induct limit with
  | case1 c hlt e he _ _ _ ih =>
    -- the stalest slot is that of the first key
    have hhead := h.stalest?_eq_head?
    rw [he, Option.map_some, eq_comm, List.head?_eq_some_iff] at hhead
    obtain ⟨others, horder⟩ := hhead
    rw [evictTo_of_lt hlt he]
    exact h.dropsFirst hc hlt horder (ih (h.remove e.1) (hc.remove e.1))
  | case2 c hlt hnone =>
    -- without entries there is nothing above the limit
    have hzero := hc.evictTo_le limit
    rw [evictTo_of_none limit hnone] at hzero
    exact absurd hzero (Nat.not_le.mpr hlt)
  | case3 c hle =>
    have hle := Nat.not_lt.mp hle
    rw [evictTo_of_le hle]
    exact h.dropsNone hc hle

end Tracks

/-! ## Runs -/

namespace Clocked

/-- **What goes first is what was used least recently.** After any
operations under a clock that does not go back, one slot is staler than
another exactly where its key was last used before the other's, at whatever
times that was, and the stalest slot is that of the least recently used key.
A shrinking, and an accepted store once the old entry of its key is gone,
drop the shortest beginning of the order of last uses that brings the size
down to what is allowed: to the fraction of the present size, between none and
all of it, and to what the new entry leaves of all bytes. -/
theorem run_drops_least_recent (limits : CacheLimits) (begin : Nat)
    (operations : List Operation) (hforward : Forward begin operations) :
    let s := (start limits begin).run operations
    let used := usedKeys ((start limits begin).history operations)
    (∀ k l slot other, s.cache.slots.get? k = some slot → s.cache.slots.get? l = some other →
      (slot.isStaler other = true ↔ usesSince used l < usesSince used k))
    ∧ (stalest? s.cache.slots.entries).map (·.1) = (byLastUse used s.cache).head?
    ∧ (∀ fraction : Float,
        let share := if fraction < 0.0 then 0.0 else if 1.0 < fraction then 1.0 else fraction
        DropsLeastRecent used s.cache (Float.ofNat s.cache.totalSize * share).toUInt64.toNat
          (s.cache.shrink fraction).1 (s.cache.shrink fraction).2)
    ∧ (∀ source c text metadata,
        (s.cache.store s.now (key source c) text metadata).1 = true →
          let entry := CacheEntry.new s.now (key source c) text metadata
          ∃ dropped room,
            DropsLeastRecent used (s.cache.remove (key source c))
              (limits.maxBytes - entry.size) dropped room
              ∧ (s.cache.store s.now (key source c) text metadata).2.slots
                = room.slots.insert (key source c) ⟨entry, room.uses + 1⟩) := by
  intro s used
  have htracks : s.cache.Tracks s.now used := .run_start limits hforward
  have hcounted : s.cache.Counted := (run_consistent (.empty limits) operations).counted
  have hlimits : s.cache.limits = limits := run_limits _ operations
  refine ⟨fun _ _ _ _ => htracks.isStaler_iff_usesSince_lt, htracks.stalest?_eq_head?,
    fun fraction => htracks.dropsLeastRecent hcounted _, ?_⟩
  intro source c text metadata hstored entry
  have hfits : entry.size ≤ s.cache.limits.maxBytes := by
    by_contra hnot
    rw [store_of_not_fits hnot] at hstored
    cases hstored
  refine ⟨_, _, (htracks.remove (key source c)).dropsLeastRecent
    (hcounted.remove (key source c)) (limits.maxBytes - entry.size), ?_⟩
  rw [store_of_fits hfits, ← hlimits]
  rfl

/-- Two stores and a hit on the first one, all at one time. -/
def hitAtOnce : List Operation := [
  .store "a" .standard "A" .empty, .store "b" .standard "B" .empty, .lookup "a" .standard]

/-- Both entries were last used at one time, and still it is the one
without a hit that makes room for a third, or that goes when the cache is
shrunk to a half. -/
theorem run_drops_least_recent_at_one_time :
    let s := (start ⟨600, 1000⟩ 5).run hitAtOnce
    let used := usedKeys ((start ⟨600, 1000⟩ 5).history hitAtOnce)
    Forward 5 hitAtOnce
      ∧ (s.cache.slots.entries.map fun e => e.2.entry.lastAccessedAt) = [5, 5]
      ∧ (stalest? s.cache.slots.entries).map (·.1) = some (key "b" .standard)
      ∧ (∃ dropped room,
        DropsLeastRecent used (s.cache.remove (key "c" .standard)) 368 dropped room
          ∧ room.slots.get? (key "b" .standard) = none)
      ∧ s.cache.totalSize = 464
      ∧ DropsLeastRecent used s.cache 232 1 (s.cache.shrink 0.5).2
      ∧ (s.cache.shrink 0.5).2.slots.get? (key "b" .standard) = none := by
  have hforward : Forward 5 hitAtOnce := by decide
  have hall := run_drops_least_recent ⟨600, 1000⟩ 5 hitAtOnce hforward
  -- what is evaluated is stated of the names that the run and its uses get here
  generalize hs : (start ⟨600, 1000⟩ 5).run hitAtOnce = s at hall ⊢
  generalize hused : usedKeys ((start ⟨600, 1000⟩ 5).history hitAtOnce) = used at hall ⊢
  -- one evaluation, in which the run is shared
  have hfacts : (s.cache.slots.entries.map fun e => e.2.entry.lastAccessedAt) = [5, 5]
      ∧ byLastUse used s.cache = [key "b" .standard, key "a" .standard]
      ∧ (s.cache.store s.now (key "c" .standard) "C" .empty).1 = true
      ∧ (⟨600, 1000⟩ : CacheLimits).maxBytes
        - (CacheEntry.new s.now (key "c" .standard) "C" .empty).size = 368
      ∧ (s.cache.store s.now (key "c" .standard) "C" .empty).2.slots.get?
        (key "b" .standard) = none
      ∧ s.cache.totalSize = 464 ∧ (s.cache.shrink 0.5).1 = 1
      ∧ (s.cache.shrink 0.5).2.slots.get? (key "b" .standard) = none := by
    rw [← hs, ← hused]
    decide +kernel
  have hhalf : (Float.ofNat 464 * if (0.5 : Float) < 0.0 then 0.0
      else if (1.0 : Float) < 0.5 then 1.0 else 0.5).toUInt64.toNat = 232 := by
    decide +kernel
  obtain ⟨htimes, horder, hstored, hsize, hgone, htotal, hcount, hshrunk⟩ := hfacts
  have hne : key "b" .standard ≠ key "c" .standard := by
    decide +kernel
  obtain ⟨-, hstalest, hshrink, hstore⟩ := hall
  obtain ⟨dropped, room, hdrops, hslots⟩ := hstore "c" .standard "C" .empty hstored
  have hhalved := hshrink 0.5
  rw [horder, List.head?_cons] at hstalest
  rw [hsize] at hdrops
  rw [hslots, SortedMap.get?_insert, if_neg hne] at hgone
  dsimp only at hhalved
  rw [htotal, hhalf, hcount] at hhalved
  exact ⟨hforward, htimes, hstalest, ⟨dropped, room, hdrops, hgone⟩, htotal, hhalved, hshrunk⟩

end Clocked

end Downlevel.Cache
