/-
Downlevel.Failure.Diagnosis — from a backend's message to an account.

The kind of a failure decides whether its text may be degraded. A
message is looked at for missing packages first, then for options, then
for the text itself, and last for the name of a configured module.

Suggestions are made from the message, the source and what was found out
about it. None is made for a module that the configuration already has,
and those that add a module may be followed without asking.
-/
import Downlevel.Configuration.Basic
import Downlevel.Configuration.ModuleList
import Downlevel.Failure.Account
import Downlevel.Text.CharClass

namespace Downlevel

open Pattern

/-! ## What messages say -/

namespace BackendFailure

/-- One of several phrases, in any case. -/
def phrases (texts : List String) : Pattern := alts (texts.map literalAnyCase)

def missingDependency : Pattern :=
  phrases ["cannot find module", "cannot find package", "module not found", "could not resolve",
    "failed to resolve", "unknown preset", "unknown plugin", "is not installed",
    "unsupported module"]

def badOption : Pattern :=
  phrases ["unknown option", "invalid option", "invalid configuration", "unrecognized option"]
    ||| (literalAnyCase "option " ++ .star inLine ++ literal " " ++ phrases ["is", "are"]
      ++ literalAnyCase " not " ++ phrases ["valid", "allowed", "supported"])

def badText : Pattern :=
  alts [literalAnyCase "unexpected token",
    literalAnyCase "syntax" ++ opt (literal " ") ++ literalAnyCase "error",
    literalAnyCase "unterminated",
    literalAnyCase "expected " ++ plus inLine ++ literalAnyCase " but found",
    phrases ["missing semicolon", "parse error", "invalid or unexpected"]]

/-- The name of a package that a message misses, as group 1. -/
def missingPackage : Pattern :=
  alts [literalAnyCase "cannot find " ++ phrases ["module", "package"],
    literalAnyCase "module not found" ++ opt (literal ":"),
    literalAnyCase "could not resolve",
    literalAnyCase "failed to resolve",
    literalAnyCase "unsupported module" ++ opt (literal ":"),
    literalAnyCase "unknown " ++ phrases ["preset", "plugin"]]
    ++ blanks ++ opt (oneOf "'\"\x60") ++ .group 1 (plus (wordOr "@./-"))

def exhaustedMemory : Pattern :=
  alts [literalAnyCase "out of memory", literalAnyCase "heap " ++ phrases ["limit", "out"],
    phrases ["allocation failed", "maximum call stack"]]

def unreadMarkup : Pattern :=
  literalAnyCase "jsx" ||| (literalAnyCase "unexpected token " ++ opt (literal "'") ++ literal "<")

def unreadType : Pattern :=
  alts [phrases ["type annotation", "typescript"],
    literalAnyCase "unexpected token " ++ opt (literal "'") ++ literal ":",
    edge ++ phrases ["interface", "enum"] ++ edge]

/-- A line and a column: groups 1 and 2 in parentheses, 3 and 4 in
words. -/
def place : Pattern :=
  (literal "(" ++ .group 1 (plus digit) ++ literal ":" ++ .group 2 (plus digit) ++ literal ")")
    ||| (literalAnyCase "line " ++ .group 3 (plus digit) ++ opt (literal ",")
      ++ literalAnyCase " col" ++ opt (literalAnyCase "umn") ++ literal " "
      ++ .group 4 (plus digit))

def mentions (message : String) (p : Pattern) : Bool := p.occurs message.toList

end BackendFailure

namespace SourceLocation

/-- The value of ASCII digits, where it fits a location. -/
def number? (digits : List Char) : Option Nat :=
  if digits.all Char.isDigit then
    let value := digits.foldl (fun acc c => 10 * acc + (c.toNat - '0'.toNat)) 0
    if value < Nat.pow 2 32 then some value else none
  else none

/-- The first place that a message mentions. -/
def ofMessage? (message : String) : Option SourceLocation := do
  let text := message.toList
  let m ← BackendFailure.place.find? text
  let line ← number? (← (m.groupText? text 1).or (m.groupText? text 3))
  let column ← number? (← (m.groupText? text 2).or (m.groupText? text 4))
  return ⟨line, column⟩

end SourceLocation

namespace FailureKind

/-- The kind that the words of a failure show. -/
def ofMessage (message : String) (c : Configuration) : FailureKind :=
  if BackendFailure.mentions message BackendFailure.missingDependency then .dependency
  else if BackendFailure.mentions message BackendFailure.badOption then .configuration
  else if BackendFailure.mentions message BackendFailure.badText then .syntactic
  else if c.modules.any fun m => Text.contains message m.id.name then .plugin
  else .runtime

def ofFailure (failure : BackendFailure) (c : Configuration) : FailureKind :=
  match failure with
  | .unreadable _ _ => .syntactic
  | .unsupportedModule _ => .dependency
  | .timedOut _ => .runtime
  | .unlowerable _ | .other _ => ofMessage failure.message c

end FailureKind

/-! ## Suggestions -/

namespace Suggestion

/-- Advice to add a module, which may be followed without asking. -/
def toAdd (kind : SuggestionKind) (module : ModuleId) (description : String)
    (priority : Priority) : Suggestion :=
  ⟨kind, description, .addModule module, true, priority⟩

/-- Markup without a module that lowers it. The detected one is advised
where there is one. -/
def forMarkup (registry : Registry) (message : String) (c : Configuration) (d : Detection) :
    List Suggestion :=
  let feature := d.features.find? fun f => f.name == Feature.markupName
  let signalled := feature.isSome || BackendFailure.mentions message BackendFailure.unreadMarkup
  if signalled && !(c.modules.any fun m => registry.isMarkup m.id) then
    let module := (feature.bind (·.requiresModule)).getD (.known .presetReact)
    [toAdd .preset module "Add a markup preset to lower JSX" .high]
  else []

def forTypes (message : String) (c : Configuration) (d : Detection) : List Suggestion :=
  let typescript : ModuleId := .known .presetTypescript
  let signalled := (d.features.any fun f => f.requiresModule == some typescript)
    || BackendFailure.mentions message BackendFailure.unreadType
  if signalled && !c.hasModule typescript then
    [toAdd .preset typescript "Add the TypeScript preset to strip type syntax" .high]
  else []

/-- A construct that the source uses without the module that lowers it. -/
def forConstruct (feature token : String) (module : KnownModule) (description : String)
    (source : String) (c : Configuration) (d : Detection) : List Suggestion :=
  if (d.hasFeature feature || Text.contains source token) && !c.hasModule module then
    [toAdd .plugin module description .medium]
  else []

def forMemory (message : String) : List Suggestion :=
  if BackendFailure.mentions message BackendFailure.exhaustedMemory then
    [⟨.configuration, "Reduce the number of configured modules or split the input",
      .simplifyConfiguration, false, .medium⟩]
  else []

/-- The package that a failure misses. A sentence's closing marks do not
belong to its name. -/
def missingPackage? (failure : BackendFailure) : Option String :=
  match failure with
  | .unsupportedModule name => some name
  | _ => do
    let text := failure.message.toList
    let m ← BackendFailure.missingPackage.find? text
    let name ← m.groupText? text 1
    return String.ofList (name.reverse.dropWhile fun c => ".'\"".toList.contains c).reverse

def forPackage (failure : BackendFailure) : List Suggestion :=
  match missingPackage? failure with
  | some package =>
    [⟨.dependency, s!"Install '{package}'", .installPackage package, true, .high⟩]
  | none => []

/-- What helps against a text that cannot be read when nothing else
does. -/
def toEdit (failure : BackendFailure) : List Suggestion :=
  match failure with
  | .unreadable _ _ =>
    [⟨.syntactic, "Fix the reported syntax error", .editSource failure.message, false, .low⟩]
  | _ => []

/-- All suggestions in the order in which they come to mind. -/
def unsorted (registry : Registry) (failure : BackendFailure) (source : String)
    (c : Configuration) (d : Detection) : List Suggestion :=
  let message := failure.message
  let specific := forMarkup registry message c d
    ++ forTypes message c d
    ++ forConstruct "optional-chaining" "?." .pluginOptionalChaining
      "Add the optional chaining plugin" source c d
    ++ forConstruct "nullish-coalescing" "??" .pluginNullishCoalescing
      "Add the nullish coalescing plugin" source c d
    ++ forMemory message
    ++ forPackage failure
  if specific.isEmpty then toEdit failure else specific

/-- The suggestions for a failure, the most urgent first. -/
def ofFailure (registry : Registry) (failure : BackendFailure) (source : String)
    (c : Configuration) (d : Detection) : List Suggestion :=
  sortByPriority (unsorted registry failure source c d)

end Suggestion

/-! ## Following suggestions -/

/-- A configuration with the suggestions that were followed. -/
structure Remedy where
  configuration : Configuration
  applied : List Suggestion

namespace Remedy

def toJson (r : Remedy) : Json := .obj [
  ("updatedConfig", r.configuration.toJson),
  ("appliedSuggestions", Json.ofList Suggestion.toJson r.applied)]

/-- Follows one suggestion, where it adds a module that is not there. -/
def follow (registry : Registry) (r : Remedy) (s : Suggestion) : Remedy :=
  match s.action.module? with
  | some module =>
    if r.configuration.hasModule module then r
    else
      let modules := r.configuration.modules ++ [.registered registry module]
      ⟨{ r.configuration with modules := modules }, r.applied ++ [s]⟩
  | none => r

/-- Follows the suggestions that may be followed without asking. -/
def ofSuggestions (registry : Registry) (c : Configuration) (suggestions : List Suggestion) :
    Remedy :=
  let followed := (suggestions.filter (·.autoApplicable)).foldl (follow registry) ⟨c, []⟩
  let modules := registry.sortByPhase followed.configuration.modules
  { followed with configuration := { followed.configuration with modules := modules } }

end Remedy

/-! ## Accounts -/

namespace Recovery

/-- Degrades a text whose failure is of a kind that allows it. -/
def attempt? (kind : FailureKind) (source message : String) : Option Recovery :=
  if kind.isRecoverable then ofFailure? source message else none

end Recovery

namespace Failure

/-- The account of a backend's failure. -/
def ofBackend (registry : Registry) (failure : BackendFailure) (source : String)
    (c : Configuration) (d : Detection) : Failure :=
  let message := failure.message
  let kind := FailureKind.ofFailure failure c
  let recovery := Recovery.attempt? kind source message
  let outcome := if recovery.isSome then .recoveryAttempted else .unrecovered
  { kind := kind
    message := message
    location := failure.location?.or (SourceLocation.ofMessage? message)
    suggestions := Suggestion.ofFailure registry failure source c d
    recovery := recovery
    stages := [.raised, .classified, .suggestionsGenerated, outcome, .reported]
    circumstances := none
    performance := none }

end Failure

end Downlevel
