/-
Downlevel.Configuration.Validation — checks that never fail.

A configuration is checked for what will go wrong (errors) and for what
looks unintended (warnings). What a user wrote is checked before it is
read, so that the complaint names the place instead of the reader's first
difficulty.
-/
import Downlevel.Configuration.Basic
import Downlevel.Configuration.ModuleList

namespace Downlevel

/-! ## Findings -/

/-- Something a check found. -/
inductive ConfigurationIssue where
  /-- Nobody registered a module of this name. -/
  | unregistered (name : String)
  | listedTwice (id : ModuleId)
  /-- A module stands behind one of a later phase. -/
  | misplaced (id : ModuleId) (phase after : Phase)
  | rivalMarkup (ids : List ModuleId)
  | namelessOverride
  | notAnObject
  | modulesNotAnArray
  | entryWithoutId (index : Nat)
  | unknownSourceMode
  | unknownTarget (value : Json)
  | overridesNotAnObject

namespace ConfigurationIssue

def message : ConfigurationIssue → String
  | unregistered name => s!"Unregistered module '{name}'"
  | listedTwice id => s!"Module '{id.name}' is listed more than once"
  | misplaced id phase after =>
    s!"Module '{id.name}' ({phase.title} phase) is ordered after a {after.title} phase module"
  | rivalMarkup ids =>
    "Multiple markup modules configured: " ++ Text.join ", " (ids.map ModuleId.name)
  | namelessOverride => "Environment override with an empty name"
  | notAnObject => "Configuration must be an object"
  | modulesNotAnArray => "'modules' must be an array"
  | entryWithoutId index => s!"Module entry {index} has no id"
  | unknownSourceMode =>
    "'sourceTypeMode' must be one of " ++ Text.join ", " (SourceMode.all.map SourceMode.name)
  | unknownTarget value => s!"Unknown target environment {value.canonicalText}"
  | overridesNotAnObject => "'perEnvironmentOverrides' must be an object"

end ConfigurationIssue

/-- What a check found; without errors the checked value is valid. -/
structure Validation where
  errors : List ConfigurationIssue
  warnings : List ConfigurationIssue

namespace Validation

def valid (v : Validation) : Bool := v.errors.isEmpty

def toJson (v : Validation) : Json :=
  let messages (issues : List ConfigurationIssue) : Json :=
    Json.ofList Json.str (issues.map ConfigurationIssue.message)
  .obj [
    ("valid", .bool v.valid),
    ("errors", messages v.errors),
    ("warnings", messages v.warnings)]

/-! ## Configurations -/

/-- The entries that stand behind a module of a later phase, given the
latest phase in front of the list. -/
def misplacedAfter (registry : Registry) : Phase → List ModuleSpec → List ConfigurationIssue
  | _, [] => []
  | latest, m :: rest =>
    let phase := registry.phaseOf m.id
    let others := misplacedAfter registry (max latest phase) rest
    if phase < latest then .misplaced m.id phase latest :: others else others

/-- What is odd about single entries, given the modules in front of the
list. -/
def oddEntries (registry : Registry) : List ModuleId → List ModuleSpec → List ConfigurationIssue
  | _, [] => []
  | seen, m :: rest =>
    let unknown := if registry.isRegistered m.id then [] else [.unregistered m.id.name]
    let again := if m.id ∈ seen then [.listedTwice m.id] else []
    unknown ++ again ++ oddEntries registry (m.id :: seen) rest

/-- The entries that lower markup. -/
def markupModules (registry : Registry) (modules : List ModuleSpec) : List ModuleId :=
  (modules.map (·.id)).filter registry.isMarkup

def namelessOverrides (overrides : Overrides) : List ConfigurationIssue :=
  (overrides.keys.filter Text.isBlankText).map fun _ => .namelessOverride

/-- Checks a configuration. -/
def ofConfiguration (registry : Registry) (c : Configuration) : Validation where
  errors := misplacedAfter registry .types c.modules ++ namelessOverrides c.overrides
  warnings :=
    let markup := markupModules registry c.modules
    let rivals := if 1 < markup.length then [.rivalMarkup markup] else []
    oddEntries registry [] c.modules ++ rivals

/-! ## What a user wrote -/

/-- The identifier in an entry as it is written; none where it is
blank. -/
def entryId? (entry : Json) : Option String :=
  let written :=
    match entry with
    | .str id => some id
    | .arr (first :: _) => first.str?
    | .obj _ => (entry.member? "id").bind Json.str?
    | _ => none
  written.filter fun id => !Text.isBlankText id

/-- Errors and warnings about the entries from a place of the list on. -/
def ofEntries (registry : Registry) : Nat → List Json → Validation
  | _, [] => ⟨[], []⟩
  | index, entry :: rest =>
    let others := ofEntries registry (index + 1) rest
    match entryId? entry with
    | none => { others with errors := .entryWithoutId index :: others.errors }
    | some id =>
      if registry.isRegistered (.ofString id) then others
      else { others with warnings := .unregistered id :: others.warnings }

def ofModules (registry : Registry) : Option Json → Validation
  | none => ⟨[], []⟩
  | some (.arr entries) => ofEntries registry 0 entries
  | some _ => ⟨[.modulesNotAnArray], []⟩

/-- An issue, where a member is there and does not pass. -/
def checkMember (object : Json) (key : String) (passes : Json → Bool)
    (issue : Json → ConfigurationIssue) : List ConfigurationIssue :=
  match object.member? key with
  | some value => if passes value then [] else [issue value]
  | none => []

def isSourceMode (value : Json) : Bool :=
  value.str?.any fun text => (SourceMode.all.map SourceMode.name).contains text

def isObject : Json → Bool
  | .obj _ => true
  | _ => false

/-- Checks a value that is to be read as a layer of configuration. -/
def ofJson (registry : Registry) (value : Json) : Validation :=
  if isObject value then
    let modules := ofModules registry (value.member? "modules")
    { modules with
      errors := modules.errors
        ++ checkMember value "sourceTypeMode" isSourceMode (fun _ => .unknownSourceMode)
        ++ checkMember value "targetEnvironment" (fun j => (Edition.ofJson? j).isSome)
          .unknownTarget
        ++ checkMember value "perEnvironmentOverrides" isObject
          (fun _ => .overridesNotAnObject) }
  else ⟨[.notAnObject], []⟩

end Validation

end Downlevel
