/-
Downlevel.Proofs.Cache.Contents — what can be said of everything in a
cache.

`Holds P` says that `P` is true of the key, the text and the metadata of
every entry. No operation makes up an entry: a store adds what it is
given, a hit changes only when and how often an entry was used, and every
other operation at most drops entries. So only a store has something to
show (`Holds.store`), and what a lookup finds satisfies `P`
(`Holds.of_lookup`).
-/
import Downlevel.Proofs.Cache.Run

namespace Downlevel.Cache

/-- `P` is true of every entry, with its key, its text and its metadata. -/
def Holds (P : String → String → Lowering.Metadata → Prop) (c : Cache) : Prop :=
  ∀ (key : String) (slot : CacheSlot), c.slots.get? key = some slot →
    P key slot.entry.text slot.entry.metadata

namespace Holds

variable {P : String → String → Lowering.Metadata → Prop} {c : Cache}

theorem imp {Q : String → String → Lowering.Metadata → Prop} (h : c.Holds P)
    (hPQ : ∀ key text metadata, P key text metadata → Q key text metadata) : c.Holds Q :=
  fun key slot hslot => hPQ _ _ _ (h key slot hslot)

theorem empty (limits : CacheLimits) : (Cache.empty limits).Holds P := by
  intro key slot h
  cases h

theorem clear (c : Cache) : c.clear.Holds P := by
  intro key slot h
  cases h

theorem remove (h : c.Holds P) (key : String) : (c.remove key).Holds P := by
  intro other slot hslot
  rw [get?_remove] at hslot
  split at hslot
  · cases hslot
  · exact h _ _ hslot

theorem evictTo (h : c.Holds P) (limit : Nat) : (c.evictTo limit).2.Holds P :=
  evictTo_induction (P := Holds P) (fun _ key hd => hd.remove key) limit c h

theorem shrink (h : c.Holds P) (fraction : Float) : (c.shrink fraction).2.Holds P :=
  h.evictTo _

theorem cleanup (h : c.Holds P) (now : Nat) : (c.cleanup now).2.Holds P :=
  foldl_remove_induction (P := Holds P) (fun _ key hd => hd.remove key) _ c h

theorem lookup (h : c.Holds P) (now : Nat) (key : String) : (c.lookup now key).2.Holds P := by
  unfold Cache.lookup
  split
  · exact h
  · next slot hslot =>
    split
    · exact h.remove key
    · intro other found hfound
      rw [SortedMap.get?_insert] at hfound
      split at hfound
      · next heq =>
        obtain rfl := Option.some.inj hfound
        rw [heq]
        exact h key slot hslot
      · exact h _ _ hfound

/-- What a lookup finds was stored under that key. -/
theorem of_lookup (h : c.Holds P) {now : Nat} {key : String} {entry : CacheEntry}
    (hfound : (c.lookup now key).1 = some entry) : P key entry.text entry.metadata := by
  unfold Cache.lookup at hfound
  split at hfound
  · cases hfound
  · next slot hslot =>
    split at hfound
    · cases hfound
    · cases hfound
      exact h _ _ hslot

theorem store (h : c.Holds P) (now : Nat) {key text : String} {metadata : Lowering.Metadata}
    (hnew : P key text metadata) : (c.store now key text metadata).2.Holds P := by
  by_cases hfits : (CacheEntry.new now key text metadata).size ≤ c.limits.maxBytes
  · rw [store_of_fits hfits]
    intro other slot hslot
    rw [SortedMap.get?_insert] at hslot
    split at hslot
    · next heq =>
      obtain rfl := Option.some.inj hslot
      rw [heq]
      exact hnew
    · exact (h.remove key).evictTo _ other slot hslot
  · rw [store_of_not_fits hfits]
    exact h

end Holds

end Downlevel.Cache
