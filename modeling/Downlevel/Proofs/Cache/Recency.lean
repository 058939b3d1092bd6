/-
Downlevel.Proofs.Cache.Recency — the slots of a cache stand in the order of
their last uses.

An accepted store and a hit are the uses of a key. `usedKeys` reads them off
a history, and `usesSince` counts how many uses there have been since the
last one of a key; so the order of last uses is settled by the history and
not by what the slots say of themselves.

`Tracks` ties the two together: a slot is numbered with the last use of its
key, and a later use is not at an earlier time. So the stalest slot is the
least recently used one, also where many uses fall on one time
(`Tracks.stalest?_eq_head?`). Every operation keeps this as long as the
clock does not go back (`Tracks.step`).
-/
import Downlevel.Proofs.Cache.History

namespace Downlevel.Cache

/-! ## Clocks that do not go back -/

/-- The time that the clock comes to show, if it does. -/
def Operation.time? : Operation → Option Nat
  | .tick now => some now
  | _ => none

/-- The clock never goes back. -/
def Clocked.Forward (begin : Nat) (operations : List Operation) : Prop :=
  (begin :: operations.filterMap Operation.time?).Pairwise (· ≤ ·)

instance (begin : Nat) (operations : List Operation) :
    Decidable (Clocked.Forward begin operations) :=
  inferInstanceAs (Decidable (List.Pairwise _ _))

theorem Clocked.step_now (s : Clocked) (operation : Operation) :
    (s.step operation).now = operation.time?.getD s.now := by
  cases operation <;> simp only [step, Operation.time?, Option.getD_none, Option.getD_some]

theorem Clocked.Forward.step {s : Clocked} {operation : Operation} {rest : List Operation}
    (h : Forward s.now (operation :: rest)) :
    (∀ time, operation.time? = some time → s.now ≤ time)
      ∧ Forward (s.step operation).now rest := by
  rw [step_now]
  rw [Forward, List.filterMap_cons] at h
  cases htime : operation.time? with
  | none =>
    rw [htime] at h
    refine ⟨fun time hsome => ?_, h⟩
    cases hsome
  | some time =>
    rw [htime] at h
    obtain ⟨hle, hrest⟩ := List.pairwise_cons.mp h
    refine ⟨fun other hother => ?_, hrest⟩
    obtain rfl : time = other := Option.some.inj hother
    exact hle time List.mem_cons_self

/-! ## Uses -/

/-- The key that was used, if this was a use. -/
def Happening.usedKey? : Happening → Option String
  | .stored key _ _ _ | .hit key => some key
  | .missed _ | .evicted _ | .expired _ | .cleared => none

/-- The keys that were used, one for each use. -/
def usedKeys (h : List Happening) : List String := h.filterMap Happening.usedKey?

/-- The number of uses since the last one of a key. -/
def usesSince (used : List String) (key : String) : Nat := used.reverse.idxOf key

/-- The keys of the entries, the least recently used first. -/
def byLastUse (used : List String) (c : Cache) : List String :=
  used.dedup.filter c.slots.contains

@[simp] theorem usedKeys_nil : usedKeys [] = [] := rfl

@[simp] theorem usedKeys_cleared : usedKeys [.cleared] = [] := rfl

theorem usedKeys_append (h more : List Happening) :
    usedKeys (h ++ more) = usedKeys h ++ usedKeys more :=
  List.filterMap_append

theorem usedKeys_map {drop : String → Happening} (hdrop : ∀ key, (drop key).usedKey? = none)
    (keys : List String) : usedKeys (keys.map drop) = [] := by
  simp [usedKeys, hdrop]

@[simp] theorem usesSince_append_self (used : List String) (key : String) :
    usesSince (used ++ [key]) key = 0 := by
  simp [usesSince]

theorem usesSince_append_of_ne {key other : String} (h : other ≠ key) (used : List String) :
    usesSince (used ++ [key]) other = usesSince used other + 1 := by
  rw [usesSince, List.reverse_append, List.reverse_singleton, List.singleton_append,
    List.idxOf_cons_ne _ h.symm]
  rfl

theorem usesSince_lt_length_iff {used : List String} {key : String} :
    usesSince used key < used.length ↔ key ∈ used := by
  rw [usesSince, ← List.length_reverse, List.idxOf_lt_length_iff, List.mem_reverse]

/-- Each use is of one key. -/
theorem usesSince_inj {used : List String} {k l : String} (hk : k ∈ used)
    (h : usesSince used k = usesSince used l) : k = l :=
  (List.idxOf_inj (List.mem_reverse.mpr hk)).mp h

/-- Without repetitions, each key stands where its last use was. -/
theorem pairwise_dedup (used : List String) :
    used.dedup.Pairwise fun k l => usesSince used l < usesSince used k := by
  induction used with
  | nil => exact List.Pairwise.nil
  | cons key rest ih =>
    have hlater : ∀ l ∈ rest, usesSince (key :: rest) l = usesSince rest l := by
      intro l hl
      rw [usesSince, List.reverse_cons, List.idxOf_append_of_mem (List.mem_reverse.mpr hl)]
      rfl
    have hrest : rest.dedup.Pairwise
        fun k l => usesSince (key :: rest) l < usesSince (key :: rest) k := by
      refine ih.imp_of_mem fun {k l} hk hl hlt => ?_
      rwa [hlater k (List.mem_dedup.mp hk), hlater l (List.mem_dedup.mp hl)]
    by_cases hkey : key ∈ rest
    · rwa [List.dedup_cons_of_mem hkey]
    · rw [List.dedup_cons_of_notMem hkey]
      refine List.pairwise_cons.mpr ⟨fun l hl => ?_, hrest⟩
      have hl := List.mem_dedup.mp hl
      have hfirst : usesSince (key :: rest) key = rest.length := by
        rw [usesSince, List.reverse_cons, List.idxOf_append_of_notMem (by simpa using hkey)]
        simp
      rw [hlater l hl, hfirst]
      exact usesSince_lt_length_iff.mpr hl

section ByLastUse

variable {used : List String} {c : Cache}

theorem byLastUse_pairwise (used : List String) (c : Cache) :
    (byLastUse used c).Pairwise fun k l => usesSince used l < usesSince used k :=
  (pairwise_dedup used).filter _

theorem byLastUse_nodup (used : List String) (c : Cache) : (byLastUse used c).Nodup :=
  (List.nodup_dedup used).filter _

theorem mem_byLastUse {key : String} :
    key ∈ byLastUse used c ↔ key ∈ used ∧ c.slots.contains key = true := by
  rw [byLastUse, List.mem_filter, List.mem_dedup]

end ByLastUse

/-! ## Slots and uses -/

theorem isStaler_iff {a b : CacheSlot} :
    a.isStaler b = true ↔ a.entry.lastAccessedAt < b.entry.lastAccessedAt
      ∨ a.entry.lastAccessedAt = b.entry.lastAccessedAt ∧ a.use < b.use := by
  simp [CacheSlot.isStaler]

/-- No slot is staler than the stalest one. -/
theorem not_isStaler_stalest? {entries : List (String × CacheSlot)} {e : String × CacheSlot}
    (h : stalest? entries = some e) : ∀ o ∈ entries, ¬o.2.isStaler e.2 = true := by
  induction entries generalizing e with
  | nil => cases h
  | cons head rest ih =>
    rw [stalest?] at h
    cases hrest : stalest? rest with
    | none =>
      obtain rfl : head = e := by simpa [hrest] using h
      obtain rfl : rest = [] := stalest?_eq_none hrest
      intro o ho
      obtain rfl : o = head := by simpa using ho
      rw [isStaler_iff]
      omega
    | some other =>
      have hother := ih hrest
      rw [hrest] at h
      by_cases hstaler : other.2.isStaler head.2 = true
      · obtain rfl : other = e := by simpa [hstaler] using h
        intro o ho
        rcases List.mem_cons.mp ho with rfl | ho
        · rw [isStaler_iff] at hstaler ⊢
          omega
        · exact hother o ho
      · obtain rfl : head = e := by simpa [hstaler] using h
        intro o ho
        rcases List.mem_cons.mp ho with rfl | ho
        · rw [isStaler_iff]
          omega
        · have hnot := hother o ho
          rw [isStaler_iff] at hstaler hnot ⊢
          omega

/-- The slots carry the numbers and the times of the last uses. -/
structure Tracks (c : Cache) (now : Nat) (used : List String) : Prop where
  uses_eq : c.uses = used.length
  mem_used : ∀ {key slot}, c.slots.get? key = some slot → key ∈ used
  use_eq : ∀ {key slot}, c.slots.get? key = some slot →
    slot.use + usesSince used key = c.uses
  time_le : ∀ {key slot}, c.slots.get? key = some slot → slot.entry.lastAccessedAt ≤ now
  time_mono : ∀ {k l s t}, c.slots.get? k = some s → c.slots.get? l = some t →
    s.use < t.use → s.entry.lastAccessedAt ≤ t.entry.lastAccessedAt

namespace Tracks

variable {c d : Cache} {now : Nat} {used : List String}

theorem empty (limits : CacheLimits) (now : Nat) : (Cache.empty limits).Tracks now [] := by
  refine ⟨rfl, ?_, ?_, ?_, ?_⟩
  · intro key slot h
    cases h
  · intro key slot h
    cases h
  · intro key slot h
    cases h
  · intro k l s t h
    cases h

/-- Fewer slots are still tracked. -/
theorem anti (h : c.Tracks now used) (huses : d.uses = c.uses)
    (hsub : ∀ {key slot}, d.slots.get? key = some slot → c.slots.get? key = some slot) :
    d.Tracks now used := by
  refine ⟨huses.trans h.uses_eq, ?_, ?_, ?_, ?_⟩
  · intro key slot hslot
    exact h.mem_used (hsub hslot)
  · intro key slot hslot
    rw [huses]
    exact h.use_eq (hsub hslot)
  · intro key slot hslot
    exact h.time_le (hsub hslot)
  · intro k l s t hs ht
    exact h.time_mono (hsub hs) (hsub ht)

theorem later (h : c.Tracks now used) {time : Nat} (hle : now ≤ time) : c.Tracks time used :=
  ⟨h.uses_eq, h.mem_used, h.use_eq, fun hslot => (h.time_le hslot).trans hle, h.time_mono⟩

/-- A use at the present time is the last one. -/
theorem use (h : c.Tracks now used) (key : String) {entry : CacheEntry}
    (htime : entry.lastAccessedAt = now) (huses : d.uses = c.uses + 1)
    (hd : ∀ other, d.slots.get? other
      = if other = key then some ⟨entry, c.uses + 1⟩ else c.slots.get? other) :
    d.Tracks now (used ++ [key]) := by
  -- either the slot that is used, or one that was there before
  have hcases : ∀ {k s}, d.slots.get? k = some s →
      (k = key ∧ s = ⟨entry, c.uses + 1⟩) ∨ (k ≠ key ∧ c.slots.get? k = some s) := by
    intro k s hs
    rw [hd] at hs
    by_cases hk : k = key
    · exact .inl ⟨hk, by simpa [hk, eq_comm] using hs⟩
    · exact .inr ⟨hk, by simpa [hk] using hs⟩
  have hold : ∀ {k s}, c.slots.get? k = some s → s.use ≤ c.uses := by
    intro k s hs
    have := h.use_eq hs
    omega
  refine ⟨?_, ?_, ?_, ?_, ?_⟩
  · rw [huses, h.uses_eq, List.length_append, List.length_singleton]
  · intro k s hs
    rcases hcases hs with ⟨rfl, -⟩ | ⟨-, hs⟩
    · simp
    · exact List.mem_append_left _ (h.mem_used hs)
  · intro k s hs
    rcases hcases hs with ⟨rfl, rfl⟩ | ⟨hk, hs⟩
    · simp [huses]
    · have huse := h.use_eq hs
      rw [usesSince_append_of_ne hk, huses]
      omega
  · intro k s hs
    rcases hcases hs with ⟨-, rfl⟩ | ⟨-, hs⟩
    · exact htime.le
    · exact h.time_le hs
  · intro k l s t hs ht hlt
    rcases hcases hs with ⟨-, rfl⟩ | ⟨-, hs⟩
    · rcases hcases ht with ⟨-, rfl⟩ | ⟨-, ht⟩
      · exact Nat.le_refl _
      · have hle := hold ht
        simp only at hlt
        omega
    · rcases hcases ht with ⟨-, rfl⟩ | ⟨-, ht⟩
      · exact (h.time_le hs).trans htime.ge
      · exact h.time_mono hs ht hlt

theorem remove (h : c.Tracks now used) (key : String) : (c.remove key).Tracks now used := by
  refine h.anti (remove_uses c key) fun {other slot} hslot => ?_
  rw [get?_remove] at hslot
  by_cases hother : other = key
  · simp [hother] at hslot
  · simpa [hother] using hslot

theorem evictTo (h : c.Tracks now used) (limit : Nat) : (c.evictTo limit).2.Tracks now used :=
  evictTo_induction (P := fun d => d.Tracks now used) (fun _ key hd => hd.remove key) limit c h

/-- **The order of the slots is the order of the last uses.** -/
theorem isStaler_iff_usesSince_lt (h : c.Tracks now used) {k l : String} {s t : CacheSlot}
    (hs : c.slots.get? k = some s) (ht : c.slots.get? l = some t) :
    s.isStaler t = true ↔ usesSince used l < usesSince used k := by
  have huseS := h.use_eq hs
  have huseT := h.use_eq ht
  have hle := h.time_mono hs ht
  have hge := h.time_mono ht hs
  rw [isStaler_iff]
  by_cases heq : s.use = t.use
  · -- two slots with one number are one slot
    obtain rfl : k = l := usesSince_inj (h.mem_used hs) (by omega)
    obtain rfl : s = t := Option.some.inj (hs.symm.trans ht)
    omega
  · omega

theorem mem_byLastUse_iff (h : c.Tracks now used) {key : String} :
    key ∈ byLastUse used c ↔ c.slots.contains key = true := by
  rw [mem_byLastUse]
  refine ⟨fun hmem => hmem.2, fun hkey => ⟨?_, hkey⟩⟩
  obtain ⟨slot, hslot⟩ := Option.isSome_iff_exists.mp hkey
  exact h.mem_used hslot

/-- **The stalest slot is the least recently used one**, also among slots
that were used at one time. -/
theorem stalest?_eq_head? (h : c.Tracks now used) :
    (stalest? c.slots.entries).map (·.1) = (byLastUse used c).head? := by
  have hpairwise := byLastUse_pairwise used c
  cases hstalest : stalest? c.slots.entries with
  | none =>
    have hnil : byLastUse used c = [] := by
      refine List.eq_nil_iff_forall_not_mem.mpr fun key hkey => ?_
      obtain ⟨slot, hslot⟩ := Option.isSome_iff_exists.mp (h.mem_byLastUse_iff.mp hkey)
      have hmem := SortedMap.get?_eq_some_iff.mp hslot
      rw [stalest?_eq_none hstalest] at hmem
      cases hmem
    rw [hnil]
    rfl
  | some e =>
    have he : c.slots.get? e.1 = some e.2 :=
      SortedMap.get?_eq_some_iff.mpr (stalest?_mem hstalest)
    have hmem : e.1 ∈ byLastUse used c :=
      h.mem_byLastUse_iff.mpr (by simp [SortedMap.contains, he])
    cases horder : byLastUse used c with
    | nil => simp [horder] at hmem
    | cons first rest =>
      rw [horder] at hmem hpairwise
      rcases List.mem_cons.mp hmem with heq | hrest
      · simp [heq]
      · -- otherwise the first key would have a staler slot
        have hlt := (List.pairwise_cons.mp hpairwise).1 _ hrest
        have hfirst : first ∈ byLastUse used c := by simp [horder]
        obtain ⟨slot, hslot⟩ := Option.isSome_iff_exists.mp (h.mem_byLastUse_iff.mp hfirst)
        have hstaler := (h.isStaler_iff_usesSince_lt hslot he).mpr hlt
        have hmemSlot := SortedMap.get?_eq_some_iff.mp hslot
        exact absurd hstaler (not_isStaler_stalest? hstalest _ hmemSlot)

/-! ## Operations -/

theorem cleanup (h : c.Tracks now used) (time : Nat) : (c.cleanup time).2.Tracks now used :=
  foldl_remove_induction (P := fun d => d.Tracks now used) (fun _ key hd => hd.remove key) _ c h

theorem clear (h : c.Tracks now used) : c.clear.Tracks now used := by
  refine h.anti rfl fun {key slot} hslot => ?_
  cases hslot

/-- An accepted store is a use of its key. -/
theorem store (h : c.Tracks now used) (key text : String) (metadata : Lowering.Metadata) :
    (c.store now key text metadata).2.Tracks now
      (used ++ usedKeys (c.storeHappenings now key text metadata)) := by
  by_cases hfits : (CacheEntry.new now key text metadata).size ≤ c.limits.maxBytes
  · have hroom := (h.remove key).evictTo
      (c.limits.maxBytes - (CacheEntry.new now key text metadata).size)
    have hused : usedKeys (c.storeHappenings now key text metadata) = [key] := by
      have hstored : (c.store now key text metadata).1 = true := by rw [store_of_fits hfits]
      rw [storeHappenings, if_pos hstored, usedKeys_append, usedKeys_map fun _ => rfl]
      rfl
    rw [hused]
    have hget : ∀ other, (c.store now key text metadata).2.slots.get? other
        = if other = key then some ⟨.new now key text metadata,
            (c.makeRoom key (CacheEntry.new now key text metadata).size).uses + 1⟩
          else (c.makeRoom key (CacheEntry.new now key text metadata).size).slots.get? other := by
      intro other
      rw [store_of_fits hfits]
      exact SortedMap.get?_insert _ _ _ _
    refine hroom.use key rfl ?_ hget
    rw [store_of_fits hfits]
    rfl
  · rw [storeHappenings, store_of_not_fits hfits]
    simpa [usedKeys] using h

/-- A hit is a use of its key; a lookup that finds nothing is none. -/
theorem lookup (h : c.Tracks now used) (key : String) :
    (c.lookup now key).2.Tracks now (used ++ usedKeys (c.lookupHappenings now key)) := by
  have hget := get?_lookup c now key
  rw [lookupHappenings]
  cases hfound : (c.lookup now key).1 with
  | some e =>
    rw [hfound] at hget
    obtain ⟨slot, -, -, rfl⟩ := lookup_eq_some_iff.mp hfound
    exact h.use key rfl (lookup_uses_of_some hfound) hget
  | none =>
    rw [hfound] at hget
    have hmissed : usedKeys (if key ∈ c.expiredKeys now then [.expired key, .missed key]
        else [.missed key]) = [] := by
      split <;> rfl
    simp only [Option.isSome_none, Bool.false_eq_true, if_false, hmissed, List.append_nil]
    refine h.anti (lookup_uses_of_none hfound) fun {other slot} hslot => ?_
    rw [hget] at hslot
    by_cases hother : other = key
    · simp [hother] at hslot
    · simpa [hother] using hslot

/-- **Every operation keeps the slots in the order of their last uses**, if
the clock does not go back. -/
theorem step {s : Clocked} (h : s.cache.Tracks s.now used) {operation : Operation}
    (hforward : ∀ time, operation.time? = some time → s.now ≤ time) :
    (s.step operation).cache.Tracks (s.step operation).now
      (used ++ usedKeys (s.happenings operation)) := by
  cases operation with
  | store source c text metadata =>
    simp only [Clocked.step, Clocked.happenings]
    exact h.store (key source c) text metadata
  | lookup source c =>
    simp only [Clocked.step, Clocked.happenings]
    exact h.lookup (key source c)
  | lookupKey key =>
    simp only [Clocked.step, Clocked.happenings]
    exact h.lookup key
  | cleanup =>
    simp only [Clocked.step, Clocked.happenings]
    rw [usedKeys_map fun _ => rfl, List.append_nil]
    exact h.cleanup s.now
  | shrink fraction =>
    simp only [Clocked.step, Clocked.happenings]
    rw [usedKeys_map fun _ => rfl, List.append_nil]
    exact h.evictTo (s.cache.fractionOfSize fraction)
  | clear =>
    simp only [Clocked.step, Clocked.happenings]
    rw [usedKeys_cleared, List.append_nil]
    exact h.clear
  | tick time =>
    simp only [Clocked.step, Clocked.happenings]
    rw [usedKeys_nil, List.append_nil]
    exact h.later (hforward time rfl)

theorem run {s : Clocked} (h : s.cache.Tracks s.now used) {operations : List Operation}
    (hforward : Clocked.Forward s.now operations) :
    (s.run operations).cache.Tracks (s.run operations).now
      (used ++ usedKeys (s.history operations)) := by
  induction operations generalizing s used with
  | nil => simpa [Clocked.run, Clocked.history] using h
  | cons operation rest ih =>
    obtain ⟨htime, hrest⟩ := hforward.step
    rw [Clocked.history, usedKeys_append, ← List.append_assoc]
    exact ih (h.step htime) hrest

theorem run_start (limits : CacheLimits) {begin : Nat} {operations : List Operation}
    (hforward : Clocked.Forward begin operations) :
    let s := (Clocked.start limits begin).run operations
    s.cache.Tracks s.now (usedKeys ((Clocked.start limits begin).history operations)) := by
  have hempty : (Clocked.start limits begin).cache.Tracks begin [] := .empty limits begin
  simpa using hempty.run hforward

end Tracks

end Downlevel.Cache
