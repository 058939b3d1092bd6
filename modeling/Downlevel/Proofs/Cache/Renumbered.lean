/-
Downlevel.Proofs.Cache.Renumbered — what the counters of a cache do not
decide.

A cache numbers its uses and counts its lookups from its beginning, and
clearing it does not set these numbers back. `Cache.after` is a cache as if it
had been used before: the earlier uses and lookups come before its own. Every
operation answers as without them and leaves the same cache, again after them,
because uses are only ever compared with each other (`isStaler_after`).

A cache that was cleared is a new one after all that it went through
(`clear_eq_after`).
-/
import Downlevel.Proofs.Cache.Run
import Downlevel.Proofs.SortedMap

namespace Downlevel

/-- What a cache has counted. -/
structure CachePast where
  uses : Nat
  hits : Nat
  misses : Nat

/-- The slot with as many uses before its own. -/
def CacheSlot.after (uses : Nat) (slot : CacheSlot) : CacheSlot := ⟨slot.entry, uses + slot.use⟩

namespace Cache

/-- The cache as it would be if more had gone before. -/
def after (past : CachePast) (c : Cache) : Cache where
  limits := c.limits
  slots := c.slots.map (CacheSlot.after past.uses)
  totalSize := c.totalSize
  hits := past.hits + c.hits
  misses := past.misses + c.misses
  uses := past.uses + c.uses

def past (c : Cache) : CachePast := ⟨c.uses, c.hits, c.misses⟩

/-- A cleared cache is a new one that has a past. -/
theorem clear_eq_after (c : Cache) : c.clear = (empty c.limits).after c.past := rfl

variable (past : CachePast) (c : Cache)

/-! ## Dropping entries -/

theorem isStaler_after (uses : Nat) (a b : CacheSlot) :
    (a.after uses).isStaler (b.after uses) = a.isStaler b := by
  have huse : decide (uses + a.use < uses + b.use) = decide (a.use < b.use) :=
    decide_eq_decide.mpr Nat.add_lt_add_iff_left
  change (_ || (_ && decide (uses + a.use < uses + b.use))) = _
  rw [huse]
  rfl

theorem stalest?_after (uses : Nat) (entries : List (String × CacheSlot)) :
    stalest? (entries.map fun e => (e.1, e.2.after uses))
      = (stalest? entries).map fun e => (e.1, e.2.after uses) := by
  induction entries with
  | nil => rfl
  | cons head rest ih =>
    rw [List.map_cons, stalest?, stalest?, ih]
    cases stalest? rest with
    | none => rfl
    | some other =>
      simp only [Option.map_some, isStaler_after]
      split <;> rfl

theorem remove_after (key : String) : (c.after past).remove key = (c.remove key).after past := by
  have hget := c.slots.get?_map (CacheSlot.after past.uses) key
  cases hslot : c.slots.get? key with
  | none =>
    rw [hslot] at hget
    rw [remove_of_none hslot, remove_of_none (c := c.after past) hget]
  | some slot =>
    rw [hslot] at hget
    rw [remove_of_some hslot, remove_of_some (c := c.after past) hget]
    simp only [after, SortedMap.map_erase]
    rfl

theorem foldl_remove_after (keys : List String) :
    keys.foldl remove (c.after past) = (keys.foldl remove c).after past := by
  induction keys generalizing c with
  | nil => rfl
  | cons key rest ih => rw [List.foldl_cons, List.foldl_cons, remove_after, ih]

theorem evictTo_after (limit : Nat) :
    (c.after past).evictTo limit = ((c.evictTo limit).1, (c.evictTo limit).2.after past) := by
  induction c using evictTo.induct limit with
  | case1 c hlt e he _ _ _ ih =>
    have hafter := stalest?_after past.uses c.slots.entries
    rw [he] at hafter
    rw [evictTo_of_lt hlt he, evictTo_of_lt (c := c.after past) hlt hafter, remove_after, ih]
  | case2 c _ hnone =>
    have hafter := stalest?_after past.uses c.slots.entries
    rw [hnone] at hafter
    rw [evictTo_of_none limit hnone, evictTo_of_none (c := c.after past) limit hafter]
  | case3 c hle =>
    have hsmall := Nat.not_lt.mp hle
    rw [evictTo_of_le hsmall, evictTo_of_le (c := c.after past) hsmall]

/-! ## Operations -/

/-- A use comes after the earlier ones. -/
theorem use_after (key : String) (entry : CacheEntry) (size hits : Nat) :
    { c.after past with
      slots := (c.after past).slots.insert key ⟨entry, (c.after past).uses + 1⟩
      totalSize := size
      hits := past.hits + hits
      uses := (c.after past).uses + 1 }
      = after past
          { c with
            slots := c.slots.insert key ⟨entry, c.uses + 1⟩
            totalSize := size
            hits := hits
            uses := c.uses + 1 } := by
  simp only [after, SortedMap.map_insert]
  rfl

theorem lookup_after (now : Nat) (key : String) :
    (c.after past).lookup now key = ((c.lookup now key).1, (c.lookup now key).2.after past) := by
  have hget : (c.after past).slots.get? key = (c.slots.get? key).map (CacheSlot.after past.uses) :=
    c.slots.get?_map _ key
  unfold lookup
  rw [hget]
  cases c.slots.get? key with
  | none => rfl
  | some slot =>
    have hage : (slot.after past.uses).entry.isExpired (c.after past).limits now
        = slot.entry.isExpired c.limits now := rfl
    simp only [Option.map_some, hage, remove_after]
    split
    · rfl
    · exact congrArg (Prod.mk _) (use_after past c key _ c.totalSize (c.hits + 1))

theorem makeRoom_after (key : String) (size : Nat) :
    (c.after past).makeRoom key size = (c.makeRoom key size).after past := by
  rw [makeRoom, makeRoom, remove_after, evictTo_after]
  rfl

theorem store_after (now : Nat) (key text : String) (metadata : Lowering.Metadata) :
    (c.after past).store now key text metadata
      = ((c.store now key text metadata).1, (c.store now key text metadata).2.after past) := by
  by_cases hfits : (CacheEntry.new now key text metadata).size ≤ c.limits.maxBytes
  · rw [store_of_fits hfits, store_of_fits (c := c.after past) hfits]
    simp only [makeRoom_after]
    exact congrArg (Prod.mk true) (use_after past (c.makeRoom key _) key _ _ _)
  · rw [store_of_not_fits hfits, store_of_not_fits (c := c.after past) hfits]

theorem cleanup_after (now : Nat) :
    (c.after past).cleanup now = ((c.cleanup now).1, (c.cleanup now).2.after past) := by
  have hkeys : (c.after past).expiredKeys now = c.expiredKeys now :=
    SortedMap.keys_filter_map (fun _ _ => rfl) c.slots
  rw [cleanup, cleanup, hkeys, foldl_remove_after]

theorem shrink_after (fraction : Float) :
    (c.after past).shrink fraction = ((c.shrink fraction).1, (c.shrink fraction).2.after past) :=
  evictTo_after past c _

end Cache

end Downlevel
