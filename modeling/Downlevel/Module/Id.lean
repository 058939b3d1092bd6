/-
Downlevel.Module.Id — names of lowering modules.

The library knows a closed set of modules by name. A known module may be
written with a package scope (`@scope/preset-react`), with the longer
plugin name (`plugin-transform-classes`) and with blanks around it; every
other name stays as it was written (`ModuleId.ofString`).

A custom identifier may also be made without that, and then it may spell a
known module, whose name it shares. Identifiers that come from names are those
of which this is not so (`ModuleId.IsNamed`); their names tell them apart
(`ModuleId.name_injective`).
-/
import Downlevel.Json.Record
import Downlevel.Text.CharClass

namespace Downlevel

/-! ## Known modules -/

inductive KnownModule where
  | presetTypescript
  | pluginFlowStripTypes
  | presetReact
  | presetSolid
  | pluginVueJsx
  | pluginDecorators
  | pluginClassProperties
  | pluginPrivateMethods
  | pluginClassStaticBlock
  | pluginOptionalChaining
  | pluginNullishCoalescing
  | pluginLogicalAssignment
  | pluginNumericSeparator
  | pluginExponentiationOperator
  | pluginObjectRestSpread
  | pluginAsyncGenerators
  | pluginAsyncToGenerator
  | pluginDynamicImport
  | pluginTemplateLiterals
  | pluginArrowFunctions
  | pluginBlockScoping
  | pluginClasses
  | presetEnv
  | pluginTransformRuntime
  deriving DecidableEq, Repr, Inhabited

namespace KnownModule

def all : List KnownModule := [
  .presetTypescript, .pluginFlowStripTypes, .presetReact, .presetSolid, .pluginVueJsx,
  .pluginDecorators, .pluginClassProperties, .pluginPrivateMethods, .pluginClassStaticBlock,
  .pluginOptionalChaining, .pluginNullishCoalescing, .pluginLogicalAssignment,
  .pluginNumericSeparator, .pluginExponentiationOperator, .pluginObjectRestSpread,
  .pluginAsyncGenerators, .pluginAsyncToGenerator, .pluginDynamicImport,
  .pluginTemplateLiterals, .pluginArrowFunctions, .pluginBlockScoping, .pluginClasses,
  .presetEnv, .pluginTransformRuntime]

def name : KnownModule → String
  | .presetTypescript => "preset-typescript"
  | .pluginFlowStripTypes => "plugin-flow-strip-types"
  | .presetReact => "preset-react"
  | .presetSolid => "preset-solid"
  | .pluginVueJsx => "plugin-vue-jsx"
  | .pluginDecorators => "plugin-decorators"
  | .pluginClassProperties => "plugin-class-properties"
  | .pluginPrivateMethods => "plugin-private-methods"
  | .pluginClassStaticBlock => "plugin-class-static-block"
  | .pluginOptionalChaining => "plugin-optional-chaining"
  | .pluginNullishCoalescing => "plugin-nullish-coalescing"
  | .pluginLogicalAssignment => "plugin-logical-assignment"
  | .pluginNumericSeparator => "plugin-numeric-separator"
  | .pluginExponentiationOperator => "plugin-exponentiation-operator"
  | .pluginObjectRestSpread => "plugin-object-rest-spread"
  | .pluginAsyncGenerators => "plugin-async-generators"
  | .pluginAsyncToGenerator => "plugin-async-to-generator"
  | .pluginDynamicImport => "plugin-dynamic-import"
  | .pluginTemplateLiterals => "plugin-template-literals"
  | .pluginArrowFunctions => "plugin-arrow-functions"
  | .pluginBlockScoping => "plugin-block-scoping"
  | .pluginClasses => "plugin-classes"
  | .presetEnv => "preset-env"
  | .pluginTransformRuntime => "plugin-transform-runtime"

/-- The module with exactly this name. -/
def ofExactName? (text : List Char) : Option KnownModule :=
  all.find? fun m => m.name.toList == text

/-- A name without blanks around it and without its package scope. -/
def withoutScope (text : List Char) : List Char :=
  let text := Text.trim text
  match text with
  | '@' :: _ => Text.afterLast '/' text
  | _ => text

def longSpelling : List Char := "plugin-transform-".toList

/-- The known module that a name means. The longer plugin name counts
where the shorter one is known. -/
def ofName? (text : String) : Option KnownModule :=
  let bare := withoutScope text.toList
  let short :=
    if longSpelling.isPrefixOf bare then
      ofExactName? ("plugin-".toList ++ bare.drop longSpelling.length)
    else none
  short.or (ofExactName? bare)

end KnownModule

/-! ## Identifiers -/

/-- The identifier of a module: a known one, or a name that is taken as it
stands, whatever it would mean. -/
inductive ModuleId where
  | known (which : KnownModule)
  | custom (name : String)
  deriving DecidableEq

/-- Whether a module bundles several lowerings or is a single one. -/
inductive DependencyKind where
  | preset
  | plugin
  deriving DecidableEq, Repr, Inhabited

namespace DependencyKind

def all : List DependencyKind := [.preset, .plugin]

def name : DependencyKind → String
  | .preset => "preset"
  | .plugin => "plugin"

def toJson (k : DependencyKind) : Json := .str k.name

end DependencyKind

namespace ModuleId

instance : Coe KnownModule ModuleId := ⟨known⟩
instance : Inhabited ModuleId := ⟨known default⟩

/-- The identifier that a name means. -/
def ofString (text : String) : ModuleId :=
  match KnownModule.ofName? text with
  | some which => .known which
  | none => .custom text

def name : ModuleId → String
  | .known which => which.name
  | .custom text => text

def known? : ModuleId → Option KnownModule
  | .known which => some which
  | .custom _ => none

/-- By convention the names of bundles start with `preset-`, after any
package scope. -/
def dependencyKind (id : ModuleId) : DependencyKind :=
  let bare := Text.afterLast '/' id.name.toList
  if "preset-".toList.isPrefixOf bare || "preset_".toList.isPrefixOf bare then .preset else .plugin

def toJson (id : ModuleId) : Json := .str id.name

def ofJson? (j : Json) : Option ModuleId := j.str?.map ofString

/-- Every known module is known by its own name. -/
theorem ofName?_name (m : KnownModule) : KnownModule.ofName? m.name = some m := by
  have all : (KnownModule.all.all fun m => KnownModule.ofName? m.name == some m) = true := by
    decide +kernel
  have := List.all_eq_true.1 all m (by cases m <;> decide)
  simpa using this

theorem ofString_known (m : KnownModule) : ofString m.name = .known m := by
  rw [ofString, ofName?_name]

/-- Some name means this identifier. -/
def IsNamed (id : ModuleId) : Prop := ∃ text, ofString text = id

theorem isNamed_known (m : KnownModule) : (known m).IsNamed := ⟨m.name, ofString_known m⟩

/-- An identifier is meant by its own name, if by any. -/
theorem isNamed_iff {id : ModuleId} : id.IsNamed ↔ ofString id.name = id := by
  refine ⟨fun ⟨text, htext⟩ => ?_, fun h => ⟨_, h⟩⟩
  rw [ofString] at htext
  split at htext
  · subst htext
    exact ofString_known _
  · next hnone =>
    subst htext
    rw [name, ofString, hnone]

instance (id : ModuleId) : Decidable id.IsNamed := decidable_of_iff _ isNamed_iff.symm

theorem name_injective {a b : ModuleId} (ha : a.IsNamed) (hb : b.IsNamed) (h : a.name = b.name) :
    a = b := by
  rw [← isNamed_iff.mp ha, h, isNamed_iff.mp hb]

theorem ofJson?_toJson {id : ModuleId} (h : id.IsNamed) : ofJson? id.toJson = some id :=
  congrArg some (isNamed_iff.mp h)

end ModuleId

end Downlevel
