/-
Downlevel.Proofs.Configuration.OlderTargets — what an older target does to the
modules of a resolved configuration.

Of the layers that are merged only the modules that the features call for depend
on the target (`mem_ids_resolve_withTarget`). A feature that no edition has
calls for its module whatever the target; another one does as long as the target
is older than the edition that the registry names for the module. So an older
target leaves every module in, and adds those of editions in between
(`needsLowering_older_iff`). What edition a module came with is for the registry
to say, also where the module was registered anew.
-/
import Downlevel.Proofs.Configuration.Derived

namespace Downlevel

/-! ## Modules that a target needs -/

theorem Edition.lt_of_le_of_lt {a b c : Edition} (hab : a ≤ b) (hbc : b < c) : a < c :=
  Nat.lt_of_le_of_lt hab hbc

theorem Edition.lt_or_le (a b : Edition) : a < b ∨ b ≤ a :=
  Nat.lt_or_ge a.rank b.rank

namespace Registry

variable (registry : Registry) {module : ModuleId} {supportsNative : Bool}

theorem needsLowering_iff {target : Edition} :
    registry.needsLowering module supportsNative target = true
      ↔ supportsNative = false
        ∨ ∃ introduced, registry.introduced? module = some introduced ∧ target < introduced := by
  unfold needsLowering
  cases registry.introduced? module with
  | none => simp
  | some introduced => simp

/-- An older target needs what a newer one needs, and the modules of native
constructs that came in between. -/
theorem needsLowering_older_iff {older newer : Edition} (h : older ≤ newer) :
    registry.needsLowering module supportsNative older = true
      ↔ registry.needsLowering module supportsNative newer = true
        ∨ supportsNative = true ∧ ∃ introduced, registry.introduced? module = some introduced
          ∧ older < introduced ∧ introduced ≤ newer := by
  rw [needsLowering_iff, needsLowering_iff]
  constructor
  · rintro (hforeign | ⟨introduced, hintroduced, hlt⟩)
    · exact .inl (.inl hforeign)
    · rcases Edition.lt_or_le newer introduced with hnewer | hbetween
      · exact .inl (.inr ⟨introduced, hintroduced, hnewer⟩)
      · cases supportsNative with
        | false => exact .inl (.inl rfl)
        | true => exact .inr ⟨rfl, introduced, hintroduced, hlt, hbetween⟩
  · rintro ((hforeign | ⟨introduced, hintroduced, hlt⟩) | ⟨-, introduced, hintroduced, hlt, -⟩)
    · exact .inl hforeign
    · exact .inr ⟨introduced, hintroduced, Edition.lt_of_le_of_lt h hlt⟩
    · exact .inr ⟨introduced, hintroduced, hlt⟩

end Registry

/-! ## Layers with a target -/

/-- The layer with a target of its own. -/
def ConfigurationLayer.withTarget (l : ConfigurationLayer) (target : Edition) :
    ConfigurationLayer :=
  { l with targetEnvironment := some target }

namespace Configuration

open ConfigurationLayer ModuleSpec

variable {registry : Registry} {d : Detection} {explicit base : ConfigurationLayer}

/-- The modules that are there for other reasons than a feature: what the layers
list, and what the dialect and the framework call for. -/
def unconditional (d : Detection) (explicit base : ConfigurationLayer) : List ModuleId :=
  ids (base.modules.getD []) ++ (if d.isTyped then [.known .presetTypescript] else [])
    ++ ids d.frameworkModules ++ ids (explicit.modules.getD [])
    ++ ids (((namedOverride? explicit base).map (·.modules)).getD [])

/-- The modules that a target leads to: those that are there whatever the target
is, and those of the features that the target cannot do without. -/
theorem mem_ids_resolve_withTarget {target : Edition} {id : ModuleId} :
    id ∈ ids (resolve registry d (explicit.withTarget target) base).modules
      ↔ id ∈ unconditional d explicit base
        ∨ ∃ f ∈ d.features, f.requiresModule = some id
          ∧ registry.needsLowering id f.supportsNative target = true := by
  have hmodules := (resolve_isResolution registry d (explicit.withTarget target) base).modules id
  have htyped : (d.isTyped = true ∧ id = .known .presetTypescript)
      ↔ id ∈ (if d.isTyped then [ModuleId.known .presetTypescript] else []) := by
    split <;> simp_all
  rw [hmodules, entriesFor]
  show id ∈ ids (base.modules.getD [] ++ d.languageModules registry target ++ d.frameworkModules
      ++ explicit.modules.getD [] ++ ((namedOverride? explicit base).map (·.modules)).getD []) ↔ _
  simp only [unconditional, ids_append, List.mem_append, Detection.mem_languageModules, htyped]
  exact iff_of_eq (by ac_rfl)

/-- **An older target drops no module.** For every registry, detection and pair
of layers: every module that is resolved for a target is resolved for an older
one too. What an older target adds are modules of native features, each of an
edition that the newer target has and the older one has not. -/
theorem ids_resolve_older (registry : Registry) (d : Detection)
    (explicit base : ConfigurationLayer) {older newer : Edition} (h : older ≤ newer) :
    let resolved := fun target =>
      ids (resolve registry d (explicit.withTarget target) base).modules
    (∀ id ∈ resolved newer, id ∈ resolved older)
      ∧ ∀ id ∈ resolved older, id ∉ resolved newer →
        ∃ f ∈ d.features, f.requiresModule = some id ∧ f.supportsNative = true
          ∧ ∃ introduced, registry.introduced? id = some introduced
            ∧ older < introduced ∧ introduced ≤ newer := by
  intro resolved
  constructor
  · intro id hnewer
    refine mem_ids_resolve_withTarget.mpr ?_
    rcases mem_ids_resolve_withTarget.mp hnewer with hthere | ⟨f, hf, hmodule, hneeds⟩
    · exact .inl hthere
    · exact .inr ⟨f, hf, hmodule, (registry.needsLowering_older_iff h).mpr (.inl hneeds)⟩
  · intro id holder hnone
    rcases mem_ids_resolve_withTarget.mp holder with hthere | ⟨f, hf, hmodule, hneeds⟩
    · exact absurd (mem_ids_resolve_withTarget.mpr (.inl hthere)) hnone
    · rcases (registry.needsLowering_older_iff h).mp hneeds with hnewer | ⟨hnative, hbetween⟩
      · exact absurd (mem_ids_resolve_withTarget.mpr (.inr ⟨f, hf, hmodule, hnewer⟩)) hnone
      · exact ⟨f, hf, hmodule, hnative, hbetween⟩

/-- The known modules, where a session says that optional chains came a year
later. -/
def lateChains : Registry :=
  Registry.builtin.register
    { KnownModule.pluginOptionalChaining.descriptor with introduced := some .es2021 }

/-- Chains, the operator that came with them, and decorators. -/
def mixedFeatures : Detection where
  features := [.native "optional-chaining" (some .pluginOptionalChaining),
    .native "nullish-coalescing" (some .pluginNullishCoalescing),
    .foreign "decorators" .pluginDecorators]
  frameworks := []
  language := none
  path := .tree

/-- With the edition of 2020 as the target the plugin for chains stays, and the
one for decorators; with that of 2019 the one for the operator is added. -/
theorem ids_resolve_older_mixed :
    let resolved := fun target =>
      ids (resolve lateChains mixedFeatures (ConfigurationLayer.empty.withTarget target)
        .empty).modules
    Edition.es2019 ≤ .es2020
      ∧ .known .pluginOptionalChaining ∈ resolved .es2019
      ∧ .known .pluginDecorators ∈ resolved .es2019
      ∧ .known .pluginNullishCoalescing ∈ resolved .es2019
      ∧ .known .pluginNullishCoalescing ∉ resolved .es2020
      ∧ ∃ introduced, lateChains.introduced? (.known .pluginNullishCoalescing) = some introduced
        ∧ Edition.es2019 < introduced ∧ introduced ≤ .es2020 := by
  intro resolved
  have hle : Edition.es2019 ≤ .es2020 := by decide
  obtain ⟨hkept, hgained⟩ := ids_resolve_older lateChains mixedFeatures .empty .empty hle
  have hchains : .known .pluginOptionalChaining ∈ resolved .es2020 :=
    mem_ids_resolve_withTarget.mpr (by decide +kernel)
  have hdecorators : .known .pluginDecorators ∈ resolved .es2020 :=
    mem_ids_resolve_withTarget.mpr (by decide +kernel)
  have hadded : .known .pluginNullishCoalescing ∈ resolved .es2019 :=
    mem_ids_resolve_withTarget.mpr (by decide +kernel)
  have hnone : .known .pluginNullishCoalescing ∉ resolved .es2020 :=
    fun hthere => absurd (mem_ids_resolve_withTarget.mp hthere) (by decide +kernel)
  obtain ⟨f, -, -, -, hbetween⟩ := hgained _ hadded hnone
  exact ⟨hle, hkept _ hchains, hkept _ hdecorators, hadded, hnone, hbetween⟩

end Configuration

end Downlevel
