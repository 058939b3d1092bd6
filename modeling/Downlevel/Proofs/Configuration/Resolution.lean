/-
Downlevel.Proofs.Configuration.Resolution — the one configuration that two
layers and a detection settle.

`IsResolution` says what a configuration has to be, scalar by scalar and
module by module, without saying how it is come by. There is at most one
such configuration (`IsResolution.unique`), and `resolve` is it
(`resolve_eq_iff`).
-/
import Downlevel.Configuration.Resolution
import Downlevel.Proofs.Configuration.Merge

namespace Downlevel

/-! ## What is settled -/

namespace ConfigurationLayer

/-- The first value that is there, or else the default. -/
def firstDefined {α : Type} (candidates : List (Option α)) (default : α) : α :=
  (candidates.findSome? id).getD default

/-- The override that the explicit layer names, or else the base layer. The
explicit layer's override of that name counts before the base layer's. -/
def namedOverride? (explicit base : ConfigurationLayer) : Option EnvironmentOverride :=
  (explicit.environment.or base.environment).bind fun name =>
    (explicit.overrides.get? name).or (base.overrides.get? name)

/-- All entries for modules, one layer after the other. -/
def entriesFor (registry : Registry) (d : Detection) (explicit base : ConfigurationLayer)
    (target : Edition) : List ModuleSpec :=
  base.modules.getD [] ++ d.languageModules registry target ++ d.frameworkModules
    ++ explicit.modules.getD [] ++ ((namedOverride? explicit base).map (·.modules)).getD []

end ConfigurationLayer

namespace Configuration

open ConfigurationLayer ModuleSpec

/-- A module comes in an earlier phase, or in the same phase with an earlier
first entry. -/
def Precedes (registry : Registry) (entries : List ModuleSpec) (a b : ModuleId) : Prop :=
  registry.phaseOf a < registry.phaseOf b
    ∨ registry.phaseOf a = registry.phaseOf b
      ∧ (ids entries).idxOf a < (ids entries).idxOf b

/-- What a configuration is that the layers and the detection settle. -/
structure IsResolution (registry : Registry) (d : Detection) (explicit base : ConfigurationLayer)
    (c : Configuration) : Prop where
  target : c.targetEnvironment = firstDefined [explicit.targetEnvironment,
    (namedOverride? explicit base).bind (·.targetEnvironment), base.targetEnvironment] .standard
  mode : c.sourceTypeMode = firstDefined [explicit.sourceTypeMode,
    (namedOverride? explicit base).bind (·.sourceTypeMode), base.sourceTypeMode]
    (if ∃ f ∈ d.features, f.name = "es-modules" ∨ f.name = "top-level-await"
      then .moduleGoal else .auto)
  overrides : ∀ name, c.overrides.get? name
    = (explicit.overrides.get? name).or (base.overrides.get? name)
  modules : ∀ id, id ∈ ids c.modules
    ↔ id ∈ ids (entriesFor registry d explicit base c.targetEnvironment)
  order : (ids c.modules).Pairwise
    (Precedes registry (entriesFor registry d explicit base c.targetEnvironment))
  setting : ∀ m ∈ c.modules, ∀ key, m.options.get? key
    = lastSetting? (entriesFor registry d explicit base c.targetEnvironment) m.id key

/-! ## At most one configuration -/

section Unique

variable {registry : Registry} {entries : List ModuleSpec}

theorem Precedes.irrefl (a : ModuleId) : ¬ Precedes registry entries a a := by
  rintro (hphase | ⟨-, hplace⟩)
  · exact Nat.lt_irrefl _ hphase
  · exact Nat.lt_irrefl _ hplace

theorem Precedes.asymm {a b : ModuleId} (hab : Precedes registry entries a b) :
    ¬ Precedes registry entries b a := by
  rintro (hphase | ⟨hsame, hplace⟩)
  · rcases hab with hlt | ⟨heq, -⟩
    · exact Nat.lt_asymm hlt hphase
    · rw [heq] at hphase
      exact Nat.lt_irrefl _ hphase
  · rcases hab with hlt | ⟨-, hlt⟩
    · rw [hsame] at hlt
      exact Nat.lt_irrefl _ hlt
    · exact Nat.lt_asymm hlt hplace

/-- Modules that stand in order stand there once. -/
theorem Precedes.nodup {xs : List ModuleId} (h : xs.Pairwise (Precedes registry entries)) :
    xs.Nodup := by
  refine h.imp ?_
  rintro a b hab rfl
  exact irrefl a hab

/-- Modules can stand in order in one way only. -/
theorem Precedes.eq_of_pairwise {xs ys : List ModuleId}
    (hxs : xs.Pairwise (Precedes registry entries)) (hys : ys.Pairwise (Precedes registry entries))
    (hmem : ∀ id, id ∈ xs ↔ id ∈ ys) : xs = ys := by
  have hperm : xs.Perm ys := (List.perm_ext_iff_of_nodup (nodup hxs) (nodup hys)).mpr hmem
  refine hperm.eq_of_pairwise ?_ hxs hys
  intro a b _ _ hab hba
  exact absurd hba hab.asymm

end Unique

/-- Entries for the same modules in the same order, with the same
settings, are the same. -/
theorem modules_eq {setting : ModuleId → String → Option Datum} {xs ys : List ModuleSpec}
    (hids : ids xs = ids ys) (hxs : ∀ m ∈ xs, ∀ key, m.options.get? key = setting m.id key)
    (hys : ∀ m ∈ ys, ∀ key, m.options.get? key = setting m.id key) : xs = ys := by
  induction xs generalizing ys with
  | nil => exact (List.map_eq_nil_iff.mp hids.symm).symm
  | cons x xs ih =>
    cases ys with
    | nil => cases hids
    | cons y ys =>
      obtain ⟨hid, hrest⟩ := List.cons.inj hids
      have hoptions : x.options = y.options := by
        refine SortedMap.ext_get? fun key => ?_
        rw [hxs x List.mem_cons_self, hys y List.mem_cons_self]
        exact congrArg (setting · key) hid
      have hhead : x = y := by
        cases x
        cases y
        simp_all
      rw [hhead, ih hrest (fun m hm => hxs m (List.mem_cons_of_mem x hm))
        fun m hm => hys m (List.mem_cons_of_mem y hm)]

variable {registry : Registry} {d : Detection} {explicit base : ConfigurationLayer}

/-- **The layers and the detection leave nothing open.** -/
theorem IsResolution.unique {a b : Configuration} (ha : IsResolution registry d explicit base a)
    (hb : IsResolution registry d explicit base b) : a = b := by
  have htarget : a.targetEnvironment = b.targetEnvironment := ha.target.trans hb.target.symm
  have hmode : a.sourceTypeMode = b.sourceTypeMode := ha.mode.trans hb.mode.symm
  have hoverrides : a.overrides = b.overrides := by
    refine SortedMap.ext_get? fun name => ?_
    rw [ha.overrides, hb.overrides]
  have hids : ids a.modules = ids b.modules := by
    refine Precedes.eq_of_pairwise ha.order ?_ fun id => ?_
    · rw [htarget]
      exact hb.order
    · rw [ha.modules, hb.modules, htarget]
  have hmodules : a.modules = b.modules := by
    refine modules_eq hids ha.setting ?_
    rw [htarget]
    exact hb.setting
  cases a
  cases b
  simp_all

/-! ## Order and repetition -/

theorem IsResolution.nodup {c : Configuration} (h : IsResolution registry d explicit base c) :
    (ids c.modules).Nodup :=
  Precedes.nodup h.order

theorem IsResolution.phases {c : Configuration} (h : IsResolution registry d explicit base c) :
    c.modules.Pairwise fun a b => registry.phaseOf a.id ≤ registry.phaseOf b.id := by
  refine (List.pairwise_map.mp h.order).imp ?_
  rintro a b (hlt | ⟨hsame, -⟩)
  · exact Nat.le_of_lt hlt
  · exact Nat.le_of_eq (congrArg Phase.rank hsame)

/-! ## The configuration that is resolved -/

theorem overridesOf_get? (explicit base : ConfigurationLayer) (name : String) :
    (overridesOf explicit base).get? name
      = (explicit.overrides.get? name).or (base.overrides.get? name) :=
  SortedMap.get?_overlay base.overrides explicit.overrides name

theorem activeOverride?_eq (explicit base : ConfigurationLayer) :
    activeOverride? explicit base = namedOverride? explicit base := by
  unfold activeOverride? namedOverride?
  congr 1
  funext name
  exact overridesOf_get? explicit base name

theorem firstDefined_three {α : Type} (x y z : Option α) (default : α) :
    firstDefined [x, y, z] default = ((x.or y).or z).getD default := by
  cases x <;> cases y <;> cases z <;> rfl

theorem flatten_moduleLayers (registry : Registry) (d : Detection)
    (explicit base : ConfigurationLayer) :
    (moduleLayers registry d explicit base).flatten
      = entriesFor registry d explicit base (targetOf explicit base) := by
  simp [moduleLayers, entriesFor, activeOverride?_eq]

theorem sourceMode_eq (d : Detection) :
    d.sourceMode = if ∃ f ∈ d.features, f.name = "es-modules" ∨ f.name = "top-level-await"
      then .moduleGoal else .auto := by
  have hfeature : (d.hasFeature "es-modules" || d.hasFeature "top-level-await") = true
      ↔ ∃ f ∈ d.features, f.name = "es-modules" ∨ f.name = "top-level-await" := by
    simp only [Detection.hasFeature, Bool.or_eq_true, List.any_eq_true, beq_iff_eq, and_or_left,
      exists_or]
  rw [Detection.sourceMode]
  simp only [hfeature]

/-- What `resolve` gives is what the layers and the detection settle. -/
theorem resolve_isResolution (registry : Registry) (d : Detection)
    (explicit base : ConfigurationLayer) :
    IsResolution registry d explicit base (resolve registry d explicit base) := by
  have hmerged := merged_mergeAll (moduleLayers registry d explicit base)
  rw [flatten_moduleLayers] at hmerged
  have hperm := registry.sortByPhase_perm (mergeAll (moduleLayers registry d explicit base))
  refine ⟨?_, ?_, overridesOf_get? explicit base, ?_, ?_, ?_⟩
  · rw [firstDefined_three, ← activeOverride?_eq]
    rfl
  · rw [firstDefined_three, ← activeOverride?_eq, ← sourceMode_eq]
    rfl
  · intro id
    exact (hperm.map _).mem_iff.trans (hmerged.mem_iff id)
  · exact List.pairwise_map.mpr (registry.pairwise_sortByPhase hmerged.order)
  · intro m hm key
    exact hmerged.setting m (hperm.mem_iff.mp hm) key

/-- **The resolved configuration is the one that the layers and the
detection settle.** Scalars come from the first that has one of the explicit
layer, the override that applies, the base layer and the default; modules
from all entries, by phase and then by their first entry, with every option
as the last entry sets it that sets it at all. -/
theorem resolve_eq_iff (registry : Registry) (d : Detection)
    (explicit base : ConfigurationLayer) (c : Configuration) :
    resolve registry d explicit base = c ↔ IsResolution registry d explicit base c := by
  constructor
  · rintro rfl
    exact resolve_isResolution registry d explicit base
  · intro h
    exact (resolve_isResolution registry d explicit base).unique h

end Configuration

end Downlevel
