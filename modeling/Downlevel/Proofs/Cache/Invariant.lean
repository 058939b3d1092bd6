/-
Downlevel.Proofs.Cache.Invariant — what holds of a cache at all times.

Two things are kept apart, because the operations touch them apart:

* `Numbered` — every slot stands under the key of its entry, and the slots
  carry different use numbers, none above the number of uses so far;
* `Counted` — the size counter is the sum of the sizes of all entries.

`Consistent` adds that the counter keeps to the budget. Every operation
keeps it (`Consistent.step`), so it holds after every run from an empty
cache (`run_consistent`).

In a counted cache no entry is larger than the counter. So no difference
ever falls below zero: a checked run succeeds and does what the run does
(`runChecked_eq`).
-/
import Downlevel.Proofs.Cache.Run
import Downlevel.Proofs.SortedMap

namespace Downlevel.Cache

/-! ## Numbered slots -/

/-- Slots under their own keys, each with a use number of its own. -/
structure Numbered (slots : SortedMap CacheSlot) (uses : Nat) : Prop where
  key_eq : ∀ {key slot}, slots.get? key = some slot → slot.entry.key = key
  use_le : ∀ {key slot}, slots.get? key = some slot → slot.use ≤ uses
  use_inj : ∀ {k l s t}, slots.get? k = some s → slots.get? l = some t → s.use = t.use → k = l

namespace Numbered

variable {slots : SortedMap CacheSlot} {uses : Nat}

theorem empty (uses : Nat) : Numbered .empty uses := by
  refine ⟨?_, ?_, ?_⟩
  · intro key slot h
    cases h
  · intro key slot h
    cases h
  · intro k l s t h
    cases h

/-- Fewer slots are still numbered. -/
theorem anti {fewer : SortedMap CacheSlot} (h : Numbered slots uses)
    (hsub : ∀ {key slot}, fewer.get? key = some slot → slots.get? key = some slot) :
    Numbered fewer uses := by
  refine ⟨?_, ?_, ?_⟩
  · intro key slot hslot
    exact h.key_eq (hsub hslot)
  · intro key slot hslot
    exact h.use_le (hsub hslot)
  · intro k l s t hs ht huse
    exact h.use_inj (hsub hs) (hsub ht) huse

/-- A use gets the next number. -/
theorem insert {key : String} {entry : CacheEntry} (h : Numbered slots uses)
    (hkey : entry.key = key) : Numbered (slots.insert key ⟨entry, uses + 1⟩) (uses + 1) := by
  -- either the slot that is used, or one that was there before
  have hcases : ∀ {k s}, (slots.insert key ⟨entry, uses + 1⟩).get? k = some s →
      (k = key ∧ s = ⟨entry, uses + 1⟩) ∨ slots.get? k = some s := by
    intro k s hs
    rw [SortedMap.get?_insert] at hs
    split at hs
    · next heq => exact .inl ⟨heq, (Option.some.inj hs).symm⟩
    · exact .inr hs
  refine ⟨?_, ?_, ?_⟩
  · intro k s hs
    rcases hcases hs with ⟨rfl, rfl⟩ | hold
    · exact hkey
    · exact h.key_eq hold
  · intro k s hs
    rcases hcases hs with ⟨rfl, rfl⟩ | hold
    · exact Nat.le_refl _
    · exact Nat.le_succ_of_le (h.use_le hold)
  · intro k l s t hs ht huse
    rcases hcases hs with ⟨hk, rfl⟩ | hs'
    · rcases hcases ht with ⟨hl, rfl⟩ | ht'
      · rw [hk, hl]
      · have hle := h.use_le ht'
        rw [← huse] at hle
        exact absurd hle (Nat.not_succ_le_self uses)
    · rcases hcases ht with ⟨hl, rfl⟩ | ht'
      · have hle := h.use_le hs'
        rw [huse] at hle
        exact absurd hle (Nat.not_succ_le_self uses)
      · exact h.use_inj hs' ht' huse

end Numbered

/-! ## Counted sizes -/

/-- The bytes of all entries, added up. -/
def entryBytes (c : Cache) : Nat := c.slots.sum fun slot => slot.entry.size

/-- The size counter is right. -/
def Counted (c : Cache) : Prop := c.totalSize = c.entryBytes

theorem Counted.size_le {c : Cache} (h : c.Counted) {key : String} {slot : CacheSlot}
    (hslot : c.slots.get? key = some slot) : slot.entry.size ≤ c.totalSize := by
  rw [h, entryBytes, ← SortedMap.sum_erase hslot]
  exact Nat.le_add_right _ _

theorem Counted.remove {c : Cache} (h : c.Counted) (key : String) : (c.remove key).Counted := by
  cases hget : c.slots.get? key with
  | none => rwa [remove_of_none hget]
  | some slot =>
    have hsum := SortedMap.sum_erase hget fun slot => slot.entry.size
    rw [remove_of_some hget]
    simp only [Counted, entryBytes] at h ⊢
    omega

theorem remove_totalSize_le (c : Cache) (key : String) :
    (c.remove key).totalSize ≤ c.totalSize := by
  unfold Cache.remove
  split
  · exact Nat.sub_le _ _
  · exact Nat.le_refl _

/-! ## Consistent caches -/

/-- What holds of a cache at all times. -/
structure Consistent (c : Cache) : Prop where
  numbered : Numbered c.slots c.uses
  counted : c.Counted
  within : c.totalSize ≤ c.limits.maxBytes

namespace Consistent

variable {c : Cache}

theorem empty (limits : CacheLimits) : (Cache.empty limits).Consistent :=
  ⟨.empty 0, rfl, Nat.zero_le _⟩

theorem remove (h : c.Consistent) (key : String) : (c.remove key).Consistent := by
  refine ⟨?_, h.counted.remove key, ?_⟩
  · rw [remove_uses]
    apply h.numbered.anti
    intro other slot hslot
    rw [get?_remove] at hslot
    split at hslot
    · cases hslot
    · exact hslot
  · rw [remove_limits]
    exact Nat.le_trans (remove_totalSize_le c key) h.within

theorem evictTo (h : c.Consistent) (limit : Nat) : (c.evictTo limit).2.Consistent :=
  evictTo_induction (fun _ key hd => hd.remove key) limit c h

end Consistent

/-- In a counted cache eviction always comes down to the limit: without
entries there are no bytes. -/
theorem Counted.evictTo_le {c : Cache} (h : c.Counted) (limit : Nat) :
    (c.evictTo limit).2.totalSize ≤ limit := by
  have hcounted : (c.evictTo limit).2.Counted :=
    evictTo_induction (fun _ key hd => hd.remove key) limit c h
  rcases evictTo_exit limit c with hle | hnil
  · exact hle
  · rw [hcounted, entryBytes, SortedMap.sum, hnil]
    exact Nat.zero_le _

namespace Consistent

variable {c : Cache}

theorem lookup (h : c.Consistent) (now : Nat) (key : String) :
    (c.lookup now key).2.Consistent := by
  unfold Cache.lookup
  split
  · exact ⟨h.numbered, h.counted, h.within⟩
  · next slot hslot =>
    split
    · have hd := h.remove key
      exact ⟨hd.numbered, hd.counted, hd.within⟩
    · refine ⟨h.numbered.insert (h.numbered.key_eq hslot), ?_, h.within⟩
      -- the entry is replaced by one of the same size
      have hsum := SortedMap.sum_replace
        (⟨{ slot.entry with lastAccessedAt := now, accessCount := slot.entry.accessCount + 1 },
          c.uses + 1⟩ : CacheSlot) hslot fun slot => slot.entry.size
      have htotal := h.counted
      simp only [Counted, entryBytes] at htotal hsum ⊢
      omega

theorem makeRoom (h : c.Consistent) (key : String) (size : Nat) :
    (c.makeRoom key size).Consistent :=
  (h.remove key).evictTo _

theorem makeRoom_le (h : c.Consistent) (key : String) (size : Nat) :
    (c.makeRoom key size).totalSize ≤ c.limits.maxBytes - size :=
  (h.counted.remove key).evictTo_le _

/-- The entry finds room, because what it may not share is dropped before
it is put in. -/
theorem store (h : c.Consistent) (now : Nat) (key text : String) (metadata : Lowering.Metadata) :
    (c.store now key text metadata).2.Consistent := by
  by_cases hfits : (CacheEntry.new now key text metadata).size ≤ c.limits.maxBytes
  · have hd := h.makeRoom key (CacheEntry.new now key text metadata).size
    have hle := h.makeRoom_le key (CacheEntry.new now key text metadata).size
    rw [store_of_fits hfits]
    refine ⟨hd.numbered.insert rfl, ?_, ?_⟩
    · have hgone := get?_makeRoom c key (CacheEntry.new now key text metadata).size
      have hsum := fun use => SortedMap.sum_insert
        (⟨.new now key text metadata, use⟩ : CacheSlot) hgone fun slot => slot.entry.size
      have htotal := hd.counted
      simp only [Counted, entryBytes] at htotal ⊢
      rw [hsum, htotal, Nat.add_comm]
    · rw [makeRoom_limits]
      exact Nat.add_le_of_le_sub hfits hle
  · rw [store_of_not_fits hfits]
    exact h

theorem cleanup (h : c.Consistent) (now : Nat) : (c.cleanup now).2.Consistent := by
  unfold Cache.cleanup
  exact foldl_remove_induction (fun _ key hd => hd.remove key) _ c h

theorem shrink (h : c.Consistent) (fraction : Float) : (c.shrink fraction).2.Consistent :=
  h.evictTo _

theorem clear (c : Cache) : c.clear.Consistent :=
  ⟨.empty c.uses, rfl, Nat.zero_le _⟩

end Consistent

/-! ## Runs -/

namespace Clocked

/-- **Every operation keeps a cache consistent.** -/
theorem step_consistent {s : Clocked} (h : s.cache.Consistent) (operation : Operation) :
    (s.step operation).cache.Consistent := by
  cases operation with
  | store source c text metadata =>
    simp only [step]
    exact h.store s.now (key source c) text metadata
  | lookup source c =>
    simp only [step]
    exact h.lookup s.now (key source c)
  | lookupKey key =>
    simp only [step]
    exact h.lookup s.now key
  | cleanup =>
    simp only [step]
    exact h.cleanup s.now
  | shrink fraction =>
    simp only [step]
    exact h.shrink fraction
  | clear => exact .clear s.cache
  | tick now => exact h

theorem run_consistent {s : Clocked} (h : s.cache.Consistent) (operations : List Operation) :
    (s.run operations).cache.Consistent := by
  induction operations generalizing s with
  | nil => exact h
  | cons operation rest ih => exact ih (step_consistent h operation)

end Clocked

/-! ## Differences -/

theorem difference?_of_le {a b : Nat} (h : b ≤ a) : difference? a b = some (a - b) := if_pos h

theorem Counted.removeChecked_eq {c : Cache} (h : c.Counted) (key : String) :
    c.removeChecked key = some (c.remove key) := by
  rw [removeChecked]
  cases hget : c.slots.get? key with
  | none => rw [remove_of_none hget]
  | some slot =>
    rw [remove_of_some hget]
    simp only [difference?_of_le (h.size_le hget)]
    rfl

theorem Counted.evictToChecked_eq {c : Cache} (h : c.Counted) (limit : Nat) :
    c.evictToChecked limit = some (c.evictTo limit) := by
  induction c using evictTo.induct limit with
  | case1 c hlt e he _ _ _ ih =>
    rw [evictToChecked, if_pos hlt]
    split
    · next found hfound =>
      rw [he] at hfound
      cases hfound
      split
      · next d hd =>
        rw [h.removeChecked_eq] at hd
        cases hd
        rw [ih (h.remove e.1), evictTo_of_lt hlt he]
        rfl
      · next hd =>
        rw [h.removeChecked_eq] at hd
        cases hd
    · next hnone =>
      rw [he] at hnone
      cases hnone
  | case2 c hlt hnone =>
    rw [evictToChecked, if_pos hlt, evictTo_of_none limit hnone]
    split
    · next e he =>
      rw [hnone] at he
      cases he
    · rfl
  | case3 c hle =>
    rw [evictToChecked, if_neg hle, evictTo_of_le (Nat.not_lt.mp hle)]

theorem Counted.lookupChecked_eq {c : Cache} (h : c.Counted) (now : Nat) (key : String) :
    c.lookupChecked now key = some (c.lookup now key) := by
  rw [lookupChecked, lookup]
  cases hget : c.slots.get? key with
  | none => rfl
  | some slot =>
    simp only
    split
    · rw [h.removeChecked_eq]
      rfl
    · rfl

theorem Counted.storeChecked_eq {c : Cache} (h : c.Counted) (now : Nat) (key text : String)
    (metadata : Lowering.Metadata) :
    c.storeChecked now key text metadata = some (c.store now key text metadata) := by
  unfold storeChecked
  by_cases hfits : (CacheEntry.new now key text metadata).size ≤ c.limits.maxBytes
  · simp only [if_neg (Nat.not_lt.mpr hfits)]
    rw [h.removeChecked_eq, store_of_fits hfits]
    simp only [difference?_of_le hfits, Option.bind_eq_bind, Option.bind_some,
      (h.remove key).evictToChecked_eq]
    rfl
  · simp only [if_pos (Nat.not_le.mp hfits)]
    rw [store_of_not_fits hfits]

theorem Counted.cleanupChecked_eq {c : Cache} (h : c.Counted) (now : Nat) :
    c.cleanupChecked now = some (c.cleanup now) := by
  have hall : ∀ (keys : List String) (d : Cache), d.Counted →
      keys.foldlM Cache.removeChecked d = some (keys.foldl Cache.remove d) := by
    intro keys
    induction keys with
    | nil =>
      intro d _
      rfl
    | cons key rest ih =>
      intro d hd
      rw [List.foldlM_cons, hd.removeChecked_eq, List.foldl_cons]
      exact ih _ (hd.remove key)
  rw [cleanupChecked, hall _ c h]
  rfl

namespace Clocked

theorem stepChecked_eq {s : Clocked} (h : s.cache.Counted) (operation : Operation) :
    s.stepChecked operation = some (s.step operation) := by
  cases operation with
  | store source c text metadata => rw [stepChecked, h.storeChecked_eq, Option.map_some, step]
  | lookup source c => rw [stepChecked, h.lookupChecked_eq, Option.map_some, step]
  | lookupKey key => rw [stepChecked, h.lookupChecked_eq, Option.map_some, step]
  | cleanup => rw [stepChecked, h.cleanupChecked_eq, Option.map_some, step]
  | shrink fraction =>
    rw [stepChecked, shrinkChecked, h.evictToChecked_eq, Option.map_some, step, shrink]
  | clear => rfl
  | tick now => rfl

/-- **No difference falls below zero**: a checked run goes through and
does what the run does. -/
theorem runChecked_eq {s : Clocked} (h : s.cache.Consistent) (operations : List Operation) :
    s.runChecked operations = some (s.run operations) := by
  induction operations generalizing s with
  | nil => rfl
  | cons operation rest ih =>
    rw [runChecked, List.foldlM_cons, stepChecked_eq h.counted]
    exact ih (step_consistent h operation)

/-- **A cache is consistent at all times**: after any operations the size
counter is the sum of all sizes and within the budget, every slot stands
under the key of its entry, and use numbers are distinct and at most the
number of uses; and no difference that any operation took fell below
zero. -/
theorem run_consistent_and_exact (limits : CacheLimits) (now : Nat)
    (operations : List Operation) :
    let s := (start limits now).run operations
    s.cache.Consistent ∧ s.cache.limits = limits
      ∧ (start limits now).runChecked operations = some s :=
  ⟨run_consistent (.empty limits) operations, run_limits _ operations,
    runChecked_eq (.empty limits) operations⟩

end Clocked

end Downlevel.Cache
