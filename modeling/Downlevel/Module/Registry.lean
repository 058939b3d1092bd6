/-
Downlevel.Module.Registry — what is known about each module.

A descriptor says in which phase a module runs, which edition made its
construct native, and whether it lowers markup. A registry holds one
descriptor per identifier, so registering a descriptor replaces an earlier
one of the same identifier (`Registry.get?_register`).
-/
import Downlevel.Configuration.Options
import Downlevel.Edition

namespace Downlevel

/-! ## Phases -/

/-- When a module runs; earlier phases first. -/
inductive Phase where
  | types
  | syntactic
  | environment
  deriving DecidableEq, Repr, Inhabited

namespace Phase

def all : List Phase := [.types, .syntactic, .environment]

def name : Phase → String
  | .types => "types"
  | .syntactic => "syntax"
  | .environment => "environment"

/-- The name of a phase in messages. -/
def title : Phase → String
  | .types => "Types"
  | .syntactic => "Syntax"
  | .environment => "Environment"

def rank : Phase → Nat
  | .types => 0
  | .syntactic => 1
  | .environment => 2

instance : LT Phase := ⟨fun a b => a.rank < b.rank⟩
instance : LE Phase := ⟨fun a b => a.rank ≤ b.rank⟩
instance (a b : Phase) : Decidable (a < b) := inferInstanceAs (Decidable (a.rank < b.rank))
instance (a b : Phase) : Decidable (a ≤ b) := inferInstanceAs (Decidable (a.rank ≤ b.rank))
instance : Max Phase := ⟨fun a b => if a ≤ b then b else a⟩

def toJson (p : Phase) : Json := .str p.name

def ofJson? : Json → Option Phase := Json.choice? (Json.named? name all) Json.isNull

end Phase

/-! ## Descriptors -/

structure ModuleDescriptor where
  id : ModuleId
  phase : Phase
  /-- The edition that made the construct native; none for a construct
  that never is, and for a module that no edition makes superfluous. -/
  introduced : Option Edition
  markup : Bool
  description : String
  defaultOptions : Options

namespace ModuleDescriptor

def toJson (d : ModuleDescriptor) : Json := .obj [
  ("id", d.id.toJson),
  ("phase", d.phase.toJson),
  ("introduced", Json.ofOption Edition.toJson d.introduced),
  ("markup", .bool d.markup),
  ("description", .str d.description),
  ("defaultOptions", d.defaultOptions.toJson)]

end ModuleDescriptor

namespace KnownModule

def phase : KnownModule → Phase
  | .presetTypescript | .pluginFlowStripTypes => .types
  | .presetEnv | .pluginTransformRuntime => .environment
  | _ => .syntactic

def introduced : KnownModule → Option Edition
  | .pluginTemplateLiterals | .pluginArrowFunctions | .pluginBlockScoping | .pluginClasses =>
    some .es2015
  | .pluginExponentiationOperator => some .es2016
  | .pluginAsyncToGenerator => some .es2017
  | .pluginObjectRestSpread | .pluginAsyncGenerators => some .es2018
  | .pluginOptionalChaining | .pluginNullishCoalescing | .pluginDynamicImport => some .es2020
  | .pluginLogicalAssignment | .pluginNumericSeparator => some .es2021
  | .pluginClassProperties | .pluginPrivateMethods | .pluginClassStaticBlock => some .es2022
  | _ => none

def markup : KnownModule → Bool
  | .presetReact | .presetSolid | .pluginVueJsx => true
  | _ => false

def description : KnownModule → String
  | .presetTypescript => "Strip static type syntax"
  | .pluginFlowStripTypes => "Strip Flow annotations"
  | .presetReact => "Lower JSX markup to element factory calls"
  | .presetSolid => "Compile JSX markup to fine-grained DOM updates"
  | .pluginVueJsx => "Lower JSX markup to Vue render functions"
  | .pluginDecorators => "Lower class and member decorators"
  | .pluginClassProperties => "Lower class fields"
  | .pluginPrivateMethods => "Lower #private members"
  | .pluginClassStaticBlock => "Lower static initialization blocks"
  | .pluginOptionalChaining => "Lower optional member access and calls"
  | .pluginNullishCoalescing => "Lower the ?? operator"
  | .pluginLogicalAssignment => "Lower &&=, ||= and ??="
  | .pluginNumericSeparator => "Remove numeric separators"
  | .pluginExponentiationOperator => "Lower ** to Math.pow"
  | .pluginObjectRestSpread => "Lower object rest and spread"
  | .pluginAsyncGenerators => "Lower async generators and for-await"
  | .pluginAsyncToGenerator => "Lower async functions to generators"
  | .pluginDynamicImport => "Lower dynamic import()"
  | .pluginTemplateLiterals => "Lower template literals"
  | .pluginArrowFunctions => "Lower arrow functions"
  | .pluginBlockScoping => "Lower let/const to var"
  | .pluginClasses => "Lower class declarations"
  | .presetEnv => "Target a runtime environment"
  | .pluginTransformRuntime => "Share runtime helpers"

def descriptor (m : KnownModule) : ModuleDescriptor :=
  ⟨.known m, m.phase, m.introduced, m.markup, m.description, .empty⟩

end KnownModule

/-! ## Registries -/

/-- Descriptors by identifier. -/
structure Registry where
  descriptors : List ModuleDescriptor

namespace Registry

/-- The registry of the known modules. -/
def builtin : Registry := ⟨KnownModule.all.map KnownModule.descriptor⟩

instance : Inhabited Registry := ⟨builtin⟩

def get? (r : Registry) (id : ModuleId) : Option ModuleDescriptor :=
  r.descriptors.find? fun d => d.id == id

def register (r : Registry) (d : ModuleDescriptor) : Registry :=
  ⟨d :: r.descriptors.filter fun e => e.id != d.id⟩

def isRegistered (r : Registry) (id : ModuleId) : Bool := (r.get? id).isSome

/-- A module nobody registered runs with the syntactic ones. -/
def phaseOf (r : Registry) (id : ModuleId) : Phase :=
  ((r.get? id).map (·.phase)).getD .syntactic

def isMarkup (r : Registry) (id : ModuleId) : Bool :=
  ((r.get? id).map (·.markup)).getD false

def introduced? (r : Registry) (id : ModuleId) : Option Edition :=
  (r.get? id).bind (·.introduced)

def defaultOptions (r : Registry) (id : ModuleId) : Options :=
  ((r.get? id).map (·.defaultOptions)).getD .empty

def size (r : Registry) : Nat := r.descriptors.length

theorem get?_register (r : Registry) (d : ModuleDescriptor) (id : ModuleId) :
    (r.register d).get? id = if id = d.id then some d else r.get? id := by
  unfold get? register
  by_cases h : id = d.id
  · subst h; simp
  · rw [List.find?_cons_of_neg (by simpa using Ne.symm h), if_neg h, List.find?_filter]
    congr 1
    funext e
    by_cases he : e.id = id
    · simp [he, h]
    · simp [he]

end Registry

end Downlevel
