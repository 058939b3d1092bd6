/-
Downlevel.Failure.Suggestion — what might help after a failure.

An action is written as an object whose member `type` names it. It may
also be given as an array of that name and the action's argument.

Suggestions of several failures are merged by kind and action, which
`Suggestion.dedupeKey` spells out as one text. It spells a module by its name.
-/
import Downlevel.Module.Id

namespace Downlevel

open Json.Record (required)

/-! ## Actions -/

inductive SuggestedAction where
  | addModule (module : ModuleId)
  | installPackage (package : String)
  | simplifyConfiguration
  | editSource (hint : String)
  deriving DecidableEq

namespace SuggestedAction

/-- The action in one line. -/
def line : SuggestedAction → String
  | addModule module => "add-module:" ++ module.name
  | installPackage package => "install:" ++ package
  | simplifyConfiguration => "simplify-config"
  | editSource hint => "edit-source:" ++ hint

/-- The module that the action adds to a configuration. Installing a
package adds a module where the package is a known one. -/
def module? : SuggestedAction → Option ModuleId
  | addModule module => some module
  | installPackage package => (KnownModule.ofName? package).map .known
  | _ => none

/-- The identifier of a module to add comes from a name. -/
def IsNamed : SuggestedAction → Prop
  | addModule module => module.IsNamed
  | _ => True

instance : (a : SuggestedAction) → Decidable a.IsNamed
  | addModule module => inferInstanceAs (Decidable module.IsNamed)
  | installPackage _ | simplifyConfiguration | editSource _ => inferInstanceAs (Decidable True)

def toJson : SuggestedAction → Json
  | addModule module => .obj [("type", .str "add-module"), ("module", module.toJson)]
  | installPackage package => .obj [("type", .str "install-package"), ("package", .str package)]
  | simplifyConfiguration => .obj [("type", .str "simplify-config")]
  | editSource hint => .obj [("type", .str "edit-source"), ("hint", .str hint)]

/-- The members of an action besides its name. -/
def reader? : String → Option (Json.RecordReader SuggestedAction)
  | "add-module" => some do return addModule (← required "module" ModuleId.ofJson?)
  | "install-package" => some do return installPackage (← required "package" Json.str?)
  | "simplify-config" => some (pure simplifyConfiguration)
  | "edit-source" => some do return editSource (← required "hint" Json.str?)
  | _ => none

def ofJson? : Json → Option SuggestedAction
  | .obj members => do
    let type ← (← Entries.get? "type" members).str?
    Json.Record.finish (← reader? type) (.byName members)
  | .arr (type :: arguments) => do
    Json.Record.finish (← reader? (← type.str?)) (.inOrder arguments)
  | _ => none

end SuggestedAction

/-! ## Suggestions -/

inductive SuggestionKind where
  | preset
  | plugin
  | dependency
  | configuration
  | syntactic
  deriving DecidableEq, Repr, Inhabited

namespace SuggestionKind

def all : List SuggestionKind := [.preset, .plugin, .dependency, .configuration, .syntactic]

def name : SuggestionKind → String
  | .preset => "preset"
  | .plugin => "plugin"
  | .dependency => "dependency"
  | .configuration => "config"
  | .syntactic => "syntax"

/-- The name of a kind in keys. -/
def title : SuggestionKind → String
  | .preset => "Preset"
  | .plugin => "Plugin"
  | .dependency => "Dependency"
  | .configuration => "Config"
  | .syntactic => "Syntax"

def toJson (k : SuggestionKind) : Json := .str k.name

def ofJson? : Json → Option SuggestionKind := Json.choice? (Json.named? name all) Json.isNull

end SuggestionKind

/-- How urgent a suggestion is, most urgent first. -/
inductive Priority where
  | high
  | medium
  | low
  deriving DecidableEq, Repr, Inhabited

namespace Priority

def all : List Priority := [.high, .medium, .low]

def name : Priority → String
  | .high => "high"
  | .medium => "medium"
  | .low => "low"

/-- The name of a priority in reports. -/
def title : Priority → String
  | .high => "High"
  | .medium => "Medium"
  | .low => "Low"

def rank : Priority → Nat
  | .high => 0
  | .medium => 1
  | .low => 2

instance : LE Priority := ⟨fun a b => a.rank ≤ b.rank⟩
instance (a b : Priority) : Decidable (a ≤ b) := inferInstanceAs (Decidable (a.rank ≤ b.rank))

def toJson (p : Priority) : Json := .str p.name

def ofJson? : Json → Option Priority := Json.choice? (Json.named? name all) Json.isNull

end Priority

structure Suggestion where
  kind : SuggestionKind
  description : String
  action : SuggestedAction
  /-- Whether it may be followed without asking. -/
  autoApplicable : Bool
  priority : Priority
  deriving DecidableEq

namespace Suggestion

def toJson (s : Suggestion) : Json := .obj [
  ("kind", s.kind.toJson),
  ("description", .str s.description),
  ("action", s.action.toJson),
  ("autoApplicable", .bool s.autoApplicable),
  ("priority", s.priority.toJson)]

def ofJson? : Json → Option Suggestion := Json.Record.read do
  let kind ← required "kind" SuggestionKind.ofJson?
  let description ← required "description" Json.str?
  let action ← required "action" SuggestedAction.ofJson?
  let autoApplicable ← required "autoApplicable" Json.bool?
  let priority ← required "priority" Priority.ofJson?
  return ⟨kind, description, action, autoApplicable, priority⟩

/-- The text by which suggestions of several failures are merged. -/
def dedupeKey (s : Suggestion) : String := s.kind.title ++ ":" ++ s.action.line

/-- The most urgent first; equally urgent ones keep their order. -/
def sortByPriority (suggestions : List Suggestion) : List Suggestion :=
  suggestions.mergeSort fun a b => a.priority ≤ b.priority

end Suggestion

end Downlevel
