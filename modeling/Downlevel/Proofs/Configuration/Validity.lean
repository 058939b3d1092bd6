/-
Downlevel.Proofs.Configuration.Validity — what the check of a configuration
finds in a resolved one.

The check walks over the modules with the latest phase and the modules it
has seen. Where it starts says what it finds: nothing is misplaced exactly
where the phases ascend from the start (`misplacedAfter_eq_nil_iff`), and
where no module comes twice the only odd entries are those for modules
nobody registered (`oddEntries_of_nodup`). A resolved configuration is of
this kind, so only the name of an override can make it invalid
(`validity_of_resolve`).
-/
import Downlevel.Configuration.Validation
import Downlevel.Proofs.Configuration.Resolution
import Downlevel.Proofs.SortedMap

namespace Downlevel

/-! ## Latest phases -/

theorem Phase.types_le (p : Phase) : .types ≤ p := Nat.zero_le _

theorem Phase.not_lt_iff {p q : Phase} : ¬ p < q ↔ q ≤ p := Nat.not_lt

theorem Phase.max_of_le {p q : Phase} (h : p ≤ q) : max p q = q := if_pos h

namespace Validation

open ModuleSpec

variable {registry : Registry}

/-! ## Order -/

/-- **Nothing is misplaced exactly where the phases ascend** from the latest
one in front of the list. -/
theorem misplacedAfter_eq_nil_iff {latest : Phase} {modules : List ModuleSpec} :
    misplacedAfter registry latest modules = []
      ↔ (∀ m ∈ modules, latest ≤ registry.phaseOf m.id)
        ∧ modules.Pairwise fun a b => registry.phaseOf a.id ≤ registry.phaseOf b.id := by
  induction modules generalizing latest with
  | nil => simp [misplacedAfter]
  | cons m rest ih =>
    by_cases hlt : registry.phaseOf m.id < latest
    · have hnot : ¬ latest ≤ registry.phaseOf m.id := Nat.not_le.mpr hlt
      simp [misplacedAfter, hlt, hnot]
    · have hle : latest ≤ registry.phaseOf m.id := Phase.not_lt_iff.mp hlt
      rw [misplacedAfter, if_neg hlt, Phase.max_of_le hle, ih, List.pairwise_cons]
      constructor
      · rintro ⟨hfrom, hrest⟩
        refine ⟨List.forall_mem_cons.mpr ⟨hle, ?_⟩, hfrom, hrest⟩
        exact fun other hother => Nat.le_trans hle (hfrom other hother)
      · rintro ⟨-, hfrom, hrest⟩
        exact ⟨hfrom, hrest⟩

/-! ## Single entries -/

/-- Where no module comes twice, only modules nobody registered are odd. -/
theorem oddEntries_of_nodup {seen : List ModuleId} {modules : List ModuleSpec}
    (hnodup : (ids modules).Nodup) (hnew : ∀ m ∈ modules, m.id ∉ seen) :
    oddEntries registry seen modules
      = (modules.filter fun m => !registry.isRegistered m.id).map fun m =>
          .unregistered m.id.name := by
  induction modules generalizing seen with
  | nil => rfl
  | cons m rest ih =>
    obtain ⟨hm, hrest⟩ : m.id ∉ ids rest ∧ (ids rest).Nodup := List.nodup_cons.mp hnodup
    have hnext : ∀ other ∈ rest, other.id ∉ m.id :: seen := by
      intro other hother hmem
      rcases List.mem_cons.mp hmem with heq | hseen
      · exact hm (heq ▸ mem_ids hother)
      · exact hnew other (List.mem_cons_of_mem m hother) hseen
    rw [oddEntries, ih hrest hnext, if_neg (hnew m List.mem_cons_self)]
    cases hregistered : registry.isRegistered m.id <;> simp [hregistered]

/-! ## Overrides -/

theorem namelessOverrides_eq_nil_iff {overrides : Overrides} :
    namelessOverrides overrides = [] ↔ ∀ name ∈ overrides.keys, Text.isBlankText name = false := by
  simp [namelessOverrides, List.filter_eq_nil_iff]

theorem valid_iff {v : Validation} : v.valid = true ↔ v.errors = [] := List.isEmpty_iff

/-! ## Resolved configurations -/

section Resolved

open Downlevel.Configuration (IsResolution)

variable {d : Detection} {explicit base : ConfigurationLayer} {c : Configuration}

theorem misplacedAfter_of_isResolution (h : IsResolution registry d explicit base c) :
    misplacedAfter registry .types c.modules = [] :=
  misplacedAfter_eq_nil_iff.mpr ⟨fun _ _ => Phase.types_le _, h.phases⟩

theorem oddEntries_of_isResolution (h : IsResolution registry d explicit base c) :
    oddEntries registry [] c.modules
      = (c.modules.filter fun m => !registry.isRegistered m.id).map fun m =>
          .unregistered m.id.name :=
  oddEntries_of_nodup h.nodup (by simp)

end Resolved

/-- **A resolved configuration is in order.** Whatever the layers list and
however the modules are registered, every module comes once, the phases
ascend, and the check has nothing to say about either; it finds the
configuration valid exactly where no override of either layer has a blank
name. -/
theorem validity_of_resolve (registry : Registry) (d : Detection)
    (explicit base : ConfigurationLayer) :
    let c := Configuration.resolve registry d explicit base
    let v := ofConfiguration registry c
    (ids c.modules).Nodup
      ∧ (c.modules.Pairwise fun a b => registry.phaseOf a.id ≤ registry.phaseOf b.id)
      ∧ (∀ id phase after, .misplaced id phase after ∉ v.errors)
      ∧ (∀ id, .listedTwice id ∉ v.warnings)
      ∧ (v.valid = true ↔ ∀ name, name ∈ base.overrides.keys ∨ name ∈ explicit.overrides.keys →
          Text.isBlankText name = false) := by
  intro c v
  have hc := Configuration.resolve_isResolution registry d explicit base
  have herrors : v.errors = namelessOverrides c.overrides := by
    simp [v, ofConfiguration, misplacedAfter_of_isResolution hc, c]
  refine ⟨hc.nodup, hc.phases, ?_, ?_, ?_⟩
  · intro id phase after hmem
    rw [herrors] at hmem
    simp [namelessOverrides] at hmem
  · intro id hmem
    simp only [v, ofConfiguration, c, oddEntries_of_isResolution hc, List.mem_append,
      List.mem_map] at hmem
    rcases hmem with ⟨m, -, hm⟩ | hrivals
    · cases hm
    · split at hrivals <;> simp at hrivals
  · rw [valid_iff, herrors, namelessOverrides_eq_nil_iff]
    refine forall_congr' fun name => ?_
    have hkeys : name ∈ c.overrides.keys
        ↔ name ∈ base.overrides.keys ∨ name ∈ explicit.overrides.keys :=
      SortedMap.mem_keys_overlay
    rw [hkeys]

end Validation

end Downlevel
