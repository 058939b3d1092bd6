/-
Downlevel.Proofs.Feature.Reduction — how the events of a text reduce to
features.

Several constructs imply one feature, and calls imply features by a table of
their own. But no two features that an event can imply share a name
(`catalogue_eq_of_name_eq`), so only the names matter for which sighting stays:
the features of two texts one after the other are those of the first and then
the new ones of the second, and the order in which events come decides only
the order of the features (`reduction_in_any_order`).
-/
import Downlevel.Feature.Basic
import Downlevel.Proofs.FirstSightings

namespace Downlevel

theorem EventKind.mem_all (kind : EventKind) : kind ∈ all := by
  cases kind <;> decide

namespace Feature

open FirstSightings (firsts)

/-! ## What an event can imply -/

/-- Every feature that an event can imply. -/
def catalogue : List Feature :=
  EventKind.all.filterMap ofKind? ++ apis.filterMap fun api => ofCall? api.1

theorem mem_catalogue {e : Event} {f : Feature} (h : ofEvent? e = some f) : f ∈ catalogue := by
  rw [ofEvent?] at h
  cases hkind : ofKind? e.kind with
  | some g =>
    obtain rfl : g = f := by simpa [hkind] using h
    exact List.mem_append_left _ (List.mem_filterMap.mpr ⟨e.kind, e.kind.mem_all, hkind⟩)
  | none =>
    simp only [hkind] at h
    split at h
    · obtain ⟨callee, -, hcall⟩ := Option.bind_eq_some_iff.mp h
      obtain ⟨name, hname, -⟩ := Option.map_eq_some_iff.mp hcall
      obtain ⟨before, after, happs, -⟩ := List.lookup_eq_some_iff.mp hname
      have hlisted : (callee, name) ∈ apis := by simp [happs]
      exact List.mem_append_right _ (List.mem_filterMap.mpr ⟨_, hlisted, hcall⟩)
    · cases h

/-- No two features of the catalogue share a name. -/
theorem catalogue_eq_of_name_eq :
    ∀ f ∈ catalogue, ∀ g ∈ catalogue, f.name = g.name → f = g := by
  decide +kernel

/-- **The name of a feature settles the feature.** -/
theorem eq_of_name_eq {d e : Event} {f g : Feature} (hf : ofEvent? d = some f)
    (hg : ofEvent? e = some g) (hname : f.name = g.name) : f = g :=
  catalogue_eq_of_name_eq f (mem_catalogue hf) g (mem_catalogue hg) hname

/-! ## The features of some events -/

theorem ofEvents_eq_firsts (events : List Event) :
    ofEvents events = firsts Feature.name (events.filterMap ofEvent?) := rfl

/-- Every feature was seen in an event. -/
theorem mem_ofEvents {events : List Event} {f : Feature} (h : f ∈ ofEvents events) :
    ∃ e ∈ events, ofEvent? e = some f :=
  List.mem_filterMap.mp ((FirstSightings.firsts_sublist _).subset h)

/-- **The reduction does not depend on the order of the events**, but for the
order of the features. The features of some events followed by others are those
of the first ones and then those of the others whose names are new. No name
comes twice; equal names stand for equal features, in kind, native support and
module; and the same events in another order give the same features in another
order. -/
theorem reduction_in_any_order :
    (∀ a b : List Event,
      ofEvents (a ++ b)
        = ofEvents a ++ (ofEvents b).filter fun f => f.name ∉ (ofEvents a).map Feature.name)
    ∧ (∀ events : List Event, ((ofEvents events).map Feature.name).Nodup)
    ∧ (∀ (a b : List Event) (f g : Feature), f ∈ ofEvents a → g ∈ ofEvents b →
        f.name = g.name → f = g)
    ∧ (∀ a b : List Event, a.Perm b → (ofEvents a).Perm (ofEvents b)) := by
  refine ⟨?_, ?_, ?_, ?_⟩
  · intro a b
    rw [ofEvents_eq_firsts, List.filterMap_append]
    exact FirstSightings.firsts_append _ _
  · intro events
    exact FirstSightings.nodup_map_firsts _
  · intro a b f g hf hg hname
    obtain ⟨d, -, hd⟩ := mem_ofEvents hf
    obtain ⟨e, -, he⟩ := mem_ofEvents hg
    exact eq_of_name_eq hd he hname
  · intro a b hperm
    rw [ofEvents_eq_firsts, ofEvents_eq_firsts]
    refine FirstSightings.firsts_perm ?_ (hperm.filterMap ofEvent?)
    intro f hf g hg hname
    obtain ⟨d, -, hd⟩ := List.mem_filterMap.mp hf
    obtain ⟨e, -, he⟩ := List.mem_filterMap.mp hg
    exact eq_of_name_eq hd he hname

/-- Two fragments of markup around a call, and then an element and a link. -/
def sightings : List Event := [
  .plain .markupFragment, .about .call "Array.from", .plain .markupElement,
  .plain .optionalChain]

/-- Backwards, other events are the first of their features, and the features
come the other way round. -/
theorem reduction_in_any_order_backwards :
    sightings.Perm sightings.reverse
      ∧ (ofEvents sightings).map Feature.name = ["jsx", "array-from", "optional-chaining"]
      ∧ (ofEvents sightings.reverse).map Feature.name = ["optional-chaining", "jsx", "array-from"]
      ∧ (ofEvents sightings).Perm (ofEvents sightings.reverse) := by
  have hperm : sightings.Perm sightings.reverse := (List.reverse_perm sightings).symm
  exact ⟨hperm, by decide, by decide, reduction_in_any_order.2.2.2 _ _ hperm⟩

end Feature

end Downlevel
