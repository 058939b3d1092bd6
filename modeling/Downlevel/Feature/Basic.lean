/-
Downlevel.Feature.Basic — language features and the modules they need.

Events reduce to features: each construct implies at most one, calls imply
a runtime interface where its name is listed, and only the first sighting
of a name counts. A feature's name determines everything else about it.
-/
import Downlevel.Event.Basic
import Downlevel.Module.Id

namespace Downlevel

open Json.Record (required optional)

/-! ## Features -/

inductive FeatureKind where
  /-- A form of the language. -/
  | form
  /-- A call of a runtime interface. -/
  | api
  deriving DecidableEq, Repr, Inhabited

namespace FeatureKind

def all : List FeatureKind := [.form, .api]

def name : FeatureKind → String
  | .form => "syntax"
  | .api => "api"

def toJson (k : FeatureKind) : Json := .str k.name

def ofJson? : Json → Option FeatureKind := Json.choice? (Json.named? name all) Json.isNull

end FeatureKind

structure Feature where
  name : String
  kind : FeatureKind
  /-- Whether some edition has the construct itself. -/
  supportsNative : Bool
  requiresModule : Option ModuleId
  deriving DecidableEq

namespace Feature

def toJson (f : Feature) : Json := .obj [
  ("name", .str f.name),
  ("kind", f.kind.toJson),
  ("supportsNative", .bool f.supportsNative),
  ("requiresModule", Json.ofOption ModuleId.toJson f.requiresModule)]

def ofJson? : Json → Option Feature := Json.Record.read do
  let name ← required "name" Json.str?
  let kind ← required "kind" FeatureKind.ofJson?
  let supportsNative ← required "supportsNative" Json.bool?
  let requiresModule ← optional "requiresModule" ModuleId.ofJson?
  return ⟨name, kind, supportsNative, requiresModule⟩

/-! ## Features of events -/

/-- The name of the feature that markup implies. -/
def markupName : String := "jsx"

/-- A construct that some edition has, and the module that lowers it. -/
def native (name : String) (module : Option KnownModule) : Feature :=
  ⟨name, .form, true, module.map .known⟩

/-- A construct that no edition has. -/
def foreign (name : String) (module : KnownModule) : Feature :=
  ⟨name, .form, false, some module⟩

/-- The feature that a construct implies. Imports, super classes and calls
imply none by themselves. -/
def ofKind? : EventKind → Option Feature
  | .optionalChain => some (native "optional-chaining" (some .pluginOptionalChaining))
  | .nullishCoalescing => some (native "nullish-coalescing" (some .pluginNullishCoalescing))
  | .logicalAssignment => some (native "logical-assignment" (some .pluginLogicalAssignment))
  | .exponentiation =>
    some (native "exponentiation-operator" (some .pluginExponentiationOperator))
  | .classField => some (native "class-properties" (some .pluginClassProperties))
  | .privateMember => some (native "private-members" (some .pluginPrivateMethods))
  | .staticBlock => some (native "class-static-block" (some .pluginClassStaticBlock))
  | .decorator => some (foreign "decorators" .pluginDecorators)
  | .asyncFunction => some (native "async-functions" (some .pluginAsyncToGenerator))
  | .asyncGenerator => some (native "async-generators" (some .pluginAsyncGenerators))
  | .forAwait => some (native "async-iteration" (some .pluginAsyncGenerators))
  | .topLevelAwait => some (native "top-level-await" none)
  | .objectSpread => some (native "object-spread" (some .pluginObjectRestSpread))
  | .objectRest => some (native "object-rest" (some .pluginObjectRestSpread))
  | .arrowFunction => some (native "arrow-functions" (some .pluginArrowFunctions))
  | .templateLiteral => some (native "template-literals" (some .pluginTemplateLiterals))
  | .blockScopedDeclaration => some (native "block-scoping" (some .pluginBlockScoping))
  | .classDeclaration => some (native "classes" (some .pluginClasses))
  | .bigInt => some (native "bigint" none)
  | .numericSeparator => some (native "numeric-separator" (some .pluginNumericSeparator))
  | .dynamicImport => some (native "dynamic-import" (some .pluginDynamicImport))
  | .importMeta => some (native "import-meta" none)
  | .moduleForm => some (native "es-modules" none)
  | .ascription => some (foreign "type-annotations" .presetTypescript)
  | .interfaceDeclaration => some (foreign "typescript-interface" .presetTypescript)
  | .typeAlias => some (foreign "type-aliases" .presetTypescript)
  | .enumDeclaration => some (foreign "typescript-enum" .presetTypescript)
  | .typeAssertion => some (foreign "type-assertions" .presetTypescript)
  | .markupElement => some (foreign markupName .presetReact)
  | .markupFragment => some (foreign markupName .presetReact)
  | .importSource => none
  | .classExtends => none
  | .call => none

/-- Runtime interfaces by the name under which they are called. -/
def apis : List (String × String) := [
  ("Object.fromEntries", "object-from-entries"),
  ("Object.entries", "object-entries"),
  ("Object.values", "object-values"),
  ("Promise.allSettled", "promise-all-settled"),
  ("Promise.any", "promise-any"),
  ("Array.from", "array-from"),
  ("structuredClone", "structured-clone"),
  ("queueMicrotask", "queue-microtask")]

/-- The feature of a call; interfaces need no module. -/
def ofCall? (callee : String) : Option Feature :=
  (apis.lookup callee).map fun name => ⟨name, .api, true, none⟩

def ofEvent? (e : Event) : Option Feature :=
  match ofKind? e.kind with
  | some feature => some feature
  | none => if e.kind = .call then e.data.bind ofCall? else none

/-! ## Feature lists -/

/-- Adds a feature unless its name is already listed. -/
def addNew (features : List Feature) (f : Feature) : List Feature :=
  if features.any fun g => g.name == f.name then features else features ++ [f]

/-- The features of a list of events, in the order of first sighting. -/
def ofEvents (events : List Event) : List Feature :=
  (events.filterMap ofEvent?).foldl addNew []

end Feature

/-! ## Dependencies -/

/-- A required module with the features that asked for it. -/
structure Dependency where
  module : ModuleId
  kind : DependencyKind
  features : List String
  deriving DecidableEq

namespace Dependency

def toJson (d : Dependency) : Json := .obj [
  ("module", d.module.toJson),
  ("kind", d.kind.toJson),
  ("features", Json.ofList Json.str d.features)]

/-- Notes that a feature asks for a module. -/
def request (module : ModuleId) (feature : String) : List Dependency → List Dependency
  | [] => [⟨module, module.dependencyKind, [feature]⟩]
  | d :: rest =>
    if d.module = module then { d with features := d.features ++ [feature] } :: rest
    else d :: request module feature rest

/-- The modules that a list of features requires, in the order of first
request. -/
def ofFeatures (features : List Feature) : List Dependency :=
  features.foldl (fun deps f =>
    match f.requiresModule with
    | some module => request module f.name deps
    | none => deps) []

end Dependency

end Downlevel
