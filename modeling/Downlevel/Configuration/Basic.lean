/-
Downlevel.Configuration.Basic — what a lowering is to do.

A `Configuration` is complete. A `ConfigurationLayer` is one contribution
to it, in which everything may be left open; project files and callers
write layers. Either may hold overrides for named environments.

The canonical text of a configuration lists the keys of every object in
ascending order, so it does not depend on the order in which options or
overrides were given.
-/
import Downlevel.Configuration.Options
import Downlevel.Edition
import Downlevel.Json.Printer

namespace Downlevel

open Json.Record (required optional defaulted)

/-! ## Overrides -/

/-- What a configuration does differently in a named environment. -/
structure EnvironmentOverride where
  modules : List ModuleSpec
  targetEnvironment : Option Edition
  sourceTypeMode : Option SourceMode

namespace EnvironmentOverride

def toJson (o : EnvironmentOverride) : Json := .obj [
  ("modules", Json.ofList ModuleSpec.toJson o.modules),
  ("targetEnvironment", Json.ofOption Edition.toJson o.targetEnvironment),
  ("sourceTypeMode", Json.ofOption SourceMode.toJson o.sourceTypeMode)]

def ofJsonWith? (bare : Json.Bare) : Json → Option EnvironmentOverride := Json.Record.read do
  let modules ← defaulted "modules" [] (Json.items? ModuleSpec.ofJson?)
  let target ← defaulted "targetEnvironment" none (Json.nullable? (Edition.ofJsonWith? bare))
  let mode ← defaulted "sourceTypeMode" none (Json.nullable? (SourceMode.ofJsonWith? bare))
  return ⟨modules, target, mode⟩

def ofJson? : Json → Option EnvironmentOverride := ofJsonWith? Json.isNull

end EnvironmentOverride

/-- Overrides by the name of their environment. -/
abbrev Overrides := SortedMap EnvironmentOverride

/-! ## Configurations -/

/-- The complete configuration of a lowering. -/
structure Configuration where
  modules : List ModuleSpec
  targetEnvironment : Edition
  sourceTypeMode : SourceMode
  overrides : Overrides

namespace Configuration

/-- No modules, the standard edition, and no overrides. -/
def standard : Configuration := ⟨[], .standard, .auto, .empty⟩

instance : Inhabited Configuration := ⟨standard⟩

def hasModule (c : Configuration) (id : ModuleId) : Bool := c.modules.any fun m => m.id == id

def moduleNames (c : Configuration) : List String := c.modules.map fun m => m.id.name

def toJson (c : Configuration) : Json := .obj [
  ("modules", Json.ofList ModuleSpec.toJson c.modules),
  ("targetEnvironment", c.targetEnvironment.toJson),
  ("sourceTypeMode", c.sourceTypeMode.toJson),
  ("perEnvironmentOverrides", Json.ofMap EnvironmentOverride.toJson c.overrides)]

def ofJson? : Json → Option Configuration := Json.Record.read do
  let modules ← required "modules" (Json.items? ModuleSpec.ofJson?)
  let target ← required "targetEnvironment" Edition.ofJson?
  let mode ← required "sourceTypeMode" SourceMode.ofJson?
  let overrides ← defaulted "perEnvironmentOverrides" .empty (Json.map? EnvironmentOverride.ofJson?)
  return ⟨modules, target, mode, overrides⟩

/-- The text by which configurations are told apart. -/
def canonicalText (c : Configuration) : String := c.toJson.canonicalText

end Configuration

/-! ## Layers -/

/-- One contribution to a configuration. -/
structure ConfigurationLayer where
  modules : Option (List ModuleSpec)
  targetEnvironment : Option Edition
  sourceTypeMode : Option SourceMode
  overrides : Overrides
  /-- The environment whose override is to apply. -/
  environment : Option String

namespace ConfigurationLayer

/-- The layer that leaves everything open. -/
def empty : ConfigurationLayer := ⟨none, none, none, .empty, none⟩

instance : Inhabited ConfigurationLayer := ⟨empty⟩

/-- Whether nothing is left for detection to decide. -/
def isFullyExplicit (l : ConfigurationLayer) : Bool :=
  l.modules.isSome && l.targetEnvironment.isSome && l.sourceTypeMode.isSome

/-- The members of a layer, as they stand in a record of their own or
among the members of another one. -/
def members (l : ConfigurationLayer) : List (String × Json) := [
  ("modules", Json.ofOption (Json.ofList ModuleSpec.toJson) l.modules),
  ("targetEnvironment", Json.ofOption Edition.toJson l.targetEnvironment),
  ("sourceTypeMode", Json.ofOption SourceMode.toJson l.sourceTypeMode),
  ("perEnvironmentOverrides", Json.ofMap EnvironmentOverride.toJson l.overrides),
  ("environment", Json.ofOption Json.str l.environment)]

def toJson (l : ConfigurationLayer) : Json := .obj l.members

def reader (bare : Json.Bare) : Json.RecordReader ConfigurationLayer := do
  let modules ← defaulted "modules" none (Json.nullable? (Json.items? ModuleSpec.ofJson?))
  let target ← defaulted "targetEnvironment" none (Json.nullable? (Edition.ofJsonWith? bare))
  let mode ← defaulted "sourceTypeMode" none (Json.nullable? (SourceMode.ofJsonWith? bare))
  let overrides ←
    defaulted "perEnvironmentOverrides" .empty (Json.map? (EnvironmentOverride.ofJsonWith? bare))
  let environment ← defaulted "environment" none (Json.nullable? Json.str?)
  return ⟨modules, target, mode, overrides, environment⟩

def ofJson? : Json → Option ConfigurationLayer := Json.Record.read (reader Json.isNull)

end ConfigurationLayer

/-! ## Identifiers that come from names -/

/-- Every module of the list has an identifier that comes from a name. -/
def ModuleSpec.AreNamed (modules : List ModuleSpec) : Prop := ∀ m ∈ modules, m.id.IsNamed

instance (modules : List ModuleSpec) : Decidable (ModuleSpec.AreNamed modules) :=
  inferInstanceAs (Decidable (∀ m ∈ modules, m.id.IsNamed))

/-- So has every module of an override. -/
def Overrides.AreNamed (o : Overrides) : Prop := ∀ e ∈ o.entries, ModuleSpec.AreNamed e.2.modules

instance (o : Overrides) : Decidable o.AreNamed :=
  inferInstanceAs (Decidable (∀ e ∈ o.entries, ModuleSpec.AreNamed e.2.modules))

/-- Every identifier in the configuration comes from a name. -/
def Configuration.IsNamed (c : Configuration) : Prop :=
  ModuleSpec.AreNamed c.modules ∧ c.overrides.AreNamed

instance (c : Configuration) : Decidable c.IsNamed :=
  inferInstanceAs (Decidable (_ ∧ _))

/-- Every identifier in the layer comes from a name. -/
def ConfigurationLayer.IsNamed (l : ConfigurationLayer) : Prop :=
  ModuleSpec.AreNamed (l.modules.getD []) ∧ l.overrides.AreNamed

instance (l : ConfigurationLayer) : Decidable l.IsNamed :=
  inferInstanceAs (Decidable (_ ∧ _))

end Downlevel
