/-
Downlevel.Compiler — a backend made from a compiler of one file.

The compiler takes flags instead of a configuration. Which modules are
configured decides the flags: types are stripped and markup is lowered
where a module asks for it, and a construct whose module is configured is
lowered even if the target edition has it. Since the compiler only knows
editions, the target is lowered instead, and a warning says so.

Some modules have no counterpart among the flags; a configuration with one
of them is refused before the text is read.
-/
import Downlevel.Backend
import Downlevel.Module.Registry

namespace Downlevel

/-! ## Flags -/

/-- How markup becomes calls. -/
inductive MarkupRuntime where
  | automatic
  | classic
  deriving DecidableEq, Repr, Inhabited

namespace MarkupRuntime

def all : List MarkupRuntime := [.automatic, .classic]

def name : MarkupRuntime → String
  | .automatic => "automatic"
  | .classic => "classic"

def ofJson? : Json → Option MarkupRuntime := Json.choice? (Json.named? name all) Json.isNull

end MarkupRuntime

/-- What a compiler is told besides the text. -/
structure CompilerFlags where
  isTyped : Bool
  hasMarkup : Bool
  isModule : Bool
  target : Edition
  runtime : MarkupRuntime
  pragma : Option String
  fragmentPragma : Option String
  isDevelopment : Bool
  deriving DecidableEq

/-- What a compiler says. -/
inductive CompilerReply where
  | code (text : String)
  | unreadable (reason : String)
  | unknownTarget (reason : String)
  | unlowerable (reason : String)
  deriving DecidableEq

abbrev Compiler := String → CompilerFlags → CompilerReply

namespace CompilerFlags

/-- The target edition, lowered as far as configured modules require: to
the edition before the one that introduced what a module lowers. -/
def targetFor (c : Configuration) : Edition :=
  let required :=
    c.modules.filterMap fun m => (Registry.builtin.introduced? m.id).map Edition.previous
  required.foldl min c.targetEnvironment

/-- The options of the first module that lowers markup. -/
def markupOptions (c : Configuration) : Options :=
  ((c.modules.find? fun m => Registry.builtin.isMarkup m.id).map (·.options)).getD .empty

def ofConfiguration (c : Configuration) : CompilerFlags :=
  let markup := markupOptions c
  { isTyped := c.hasModule (.known .presetTypescript)
    hasMarkup := c.modules.any fun m => Registry.builtin.isMarkup m.id
    isModule := c.sourceTypeMode != .scriptGoal
    target := targetFor c
    runtime := if markup.text? "runtime" = some "classic" then .classic else .automatic
    pragma := markup.text? "pragma"
    fragmentPragma := markup.text? "pragmaFrag"
    isDevelopment := (markup.flag? "development").getD false }

end CompilerFlags

/-! ## Lowering -/

namespace Compiler

/-- Whether the flags can express what a module does. -/
def supports (id : ModuleId) : Bool :=
  match id with
  | .known .presetSolid | .known .pluginFlowStripTypes => false
  | .known _ => true
  | .custom _ => false

/-- Said when the target was lowered for the sake of a module. -/
def targetWarnings (target : Edition) (c : Configuration) : List String :=
  if target < c.targetEnvironment then
    [s!"Lowered to {target.name} to honour explicitly configured plugins"]
  else []

/-- Lowers a text under a configuration. -/
def lower (compile : Compiler) (source : String) (c : Configuration) :
    Except BackendFailure BackendOutput :=
  match c.modules.find? fun m => !supports m.id with
  | some m => .error (.unsupportedModule m.id.name)
  | none =>
    let flags := CompilerFlags.ofConfiguration c
    match compile source flags with
    | .code text => .ok ⟨text, targetWarnings flags.target c⟩
    | .unreadable reason => .error (.unreadable reason none)
    | .unknownTarget reason =>
      .error (.unlowerable s!"invalid target {flags.target.name}: {reason}")
    | .unlowerable reason => .error (.unlowerable reason)

/-- A compiler as a backend. -/
def toBackend {m : Type → Type} [Monad m] (compile : Compiler) : Backend m := fun source c =>
  match lower compile source c with
  | .ok o => pure (.output o)
  | .error f => pure (.failure f)

end Compiler

end Downlevel
