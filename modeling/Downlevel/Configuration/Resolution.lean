/-
Downlevel.Configuration.Resolution — the configuration for a text.

A base layer and an explicit one, and what was found out about the text,
settle a configuration. Scalars come from the first of these that has
one: the explicit layer, the override that applies, the base layer, the
default. Module entries come from all of them, merged in the order base,
language, framework, explicit layer, override.

The override that applies is the one named by the explicit layer, or else
by the base layer, among the overrides of both.
-/
import Downlevel.Configuration.Basic
import Downlevel.Configuration.ModuleList
import Downlevel.Detection

namespace Downlevel

/-! ## Modules that a text calls for -/

namespace Registry

/-- Whether a construct has to be lowered for an edition. A construct that
no edition has always is; another one where the edition predates it. -/
def needsLowering (r : Registry) (module : ModuleId) (supportsNative : Bool) (target : Edition) :
    Bool :=
  !supportsNative || (r.introduced? module).any fun introduced => target < introduced

end Registry

namespace Detection

/-- Whether the text is written in a dialect with static types. -/
def isTyped (d : Detection) : Bool := d.language.any fun g => g.language.isTyped

/-- The modules that the dialect and the features call for. -/
def languageModules (d : Detection) (registry : Registry) (target : Edition) : List ModuleSpec :=
  let needed := d.features.filterMap fun f =>
    f.requiresModule.bind fun module =>
      if registry.needsLowering module f.supportsNative target then
        some (.registered registry module)
      else none
  if d.isTyped then .plain (.known .presetTypescript) :: needed else needed

/-- The options with which a framework lowers its markup. -/
def markupOptions (framework : String) : Options :=
  match framework with
  | "react" => .ofList [("runtime", .text "automatic")]
  | "preact" =>
    .ofList [("runtime", .text "classic"), ("pragma", .text "h"), ("pragmaFrag", .text "Fragment")]
  | "solid" => .ofList [("generate", .text "dom")]
  | _ => .empty

/-- The modules of the strongest framework, where there is markup to
lower. -/
def frameworkModules (d : Detection) : List ModuleSpec :=
  match d.frameworks with
  | [] => []
  | top :: _ =>
    if d.hasFeature Feature.markupName then
      top.requiredModules.map fun id => ⟨id, markupOptions top.frameworkName⟩
    else []

/-- The goal that the text shows: only a module has module forms and
awaits at its top level. -/
def sourceMode (d : Detection) : SourceMode :=
  if d.hasFeature "es-modules" || d.hasFeature "top-level-await" then .moduleGoal else .auto

end Detection

/-! ## Resolution -/

namespace ConfigurationLayer

/-- The overrides of both layers. -/
def overridesOf (explicit base : ConfigurationLayer) : Overrides :=
  base.overrides.overlay explicit.overrides

/-- The override that applies. -/
def activeOverride? (explicit base : ConfigurationLayer) : Option EnvironmentOverride :=
  (explicit.environment.or base.environment).bind (overridesOf explicit base).get?

def targetOf (explicit base : ConfigurationLayer) : Edition :=
  ((explicit.targetEnvironment.or
    ((activeOverride? explicit base).bind (·.targetEnvironment))).or
    base.targetEnvironment).getD .standard

def sourceModeOf (explicit base : ConfigurationLayer) (default : SourceMode) : SourceMode :=
  ((explicit.sourceTypeMode.or
    ((activeOverride? explicit base).bind (·.sourceTypeMode))).or
    base.sourceTypeMode).getD default

end ConfigurationLayer

namespace Configuration

open ConfigurationLayer

/-- The module lists that are merged, in order. -/
def moduleLayers (registry : Registry) (d : Detection) (explicit base : ConfigurationLayer) :
    List (List ModuleSpec) := [
  base.modules.getD [],
  d.languageModules registry (targetOf explicit base),
  d.frameworkModules,
  explicit.modules.getD [],
  ((activeOverride? explicit base).map (·.modules)).getD []]

/-- The configuration that two layers and what is known of a text amount
to. -/
def resolve (registry : Registry) (d : Detection) (explicit base : ConfigurationLayer) :
    Configuration where
  modules := registry.sortByPhase (ModuleSpec.mergeAll (moduleLayers registry d explicit base))
  targetEnvironment := targetOf explicit base
  sourceTypeMode := sourceModeOf explicit base d.sourceMode
  overrides := overridesOf explicit base

end Configuration

end Downlevel
