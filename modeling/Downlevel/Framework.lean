/-
Downlevel.Framework — which framework a text is written for.

Each profile lists the evidence for a framework. The score of a profile is
a sum over the events of a text, in which only the first matching import
counts. Markup adds a bonus beside other evidence, a text without any
matching import gets a discount, and no score exceeds one.

The score is defined over any kind of number with the operations it needs.
Confidences are doubles; over exact fractions the score is independent of
the order of the events.
-/
import Downlevel.Event.Basic
import Downlevel.Module.Id

namespace Downlevel

open Json.Record (required)

/-! ## Profiles -/

structure FrameworkProfile where
  name : String
  importSources : List String
  /-- Calls of hooks count as evidence. -/
  hookCalls : Bool
  reactivePrimitives : List String
  componentFactories : List String
  componentBaseClasses : List String
  /-- The module that lowers the framework's markup. -/
  markupModule : KnownModule

namespace FrameworkProfile

def react : FrameworkProfile where
  name := "react"
  importSources := ["react", "react-dom", "react-dom/client", "react/jsx-runtime"]
  hookCalls := true
  reactivePrimitives := []
  componentFactories := [
    "React.createElement", "createElement", "React.forwardRef", "forwardRef", "React.memo", "memo",
    "createRoot", "ReactDOM.createRoot", "ReactDOM.render"]
  componentBaseClasses := ["React.Component", "React.PureComponent", "Component", "PureComponent"]
  markupModule := .presetReact

def preact : FrameworkProfile where
  name := "preact"
  importSources := ["preact", "preact/hooks", "preact/compat", "@preact/signals"]
  hookCalls := true
  reactivePrimitives := ["signal", "computed"]
  componentFactories := ["h", "render"]
  componentBaseClasses := ["Component"]
  markupModule := .presetReact

def solid : FrameworkProfile where
  name := "solid"
  importSources := ["solid-js", "solid-js/web", "solid-js/store"]
  hookCalls := false
  reactivePrimitives :=
    ["createSignal", "createEffect", "createMemo", "createResource", "createStore"]
  componentFactories := ["render", "lazy"]
  componentBaseClasses := []
  markupModule := .presetSolid

def vue : FrameworkProfile where
  name := "vue"
  importSources := ["vue", "@vue/runtime-dom", "@vue/reactivity"]
  hookCalls := false
  reactivePrimitives := ["ref", "reactive", "computed", "watch", "watchEffect"]
  componentFactories := ["defineComponent", "createApp", "Vue.createApp"]
  componentBaseClasses := []
  markupModule := .pluginVueJsx

def all : List FrameworkProfile := [react, preact, solid, vue]

def ofName? (name : String) : Option FrameworkProfile := all.find? fun p => p.name == name

def requiredModules (p : FrameworkProfile) : List ModuleId := [.known p.markupModule]

def toJson (p : FrameworkProfile) : Json := .obj [
  ("name", .str p.name),
  ("importSources", Json.ofList Json.str p.importSources),
  ("hookCalls", .bool p.hookCalls),
  ("reactivePrimitives", Json.ofList Json.str p.reactivePrimitives),
  ("componentFactories", Json.ofList Json.str p.componentFactories),
  ("componentBaseClasses", Json.ofList Json.str p.componentBaseClasses),
  ("requiredModules", Json.ofList ModuleId.toJson p.requiredModules)]

/-! ## Evidence -/

/-- What an event says about a framework. -/
inductive Evidence where
  | importOf
  | hook
  | reactive
  | component
  | markup
  | nothing
  deriving DecidableEq, Repr

/-- Hooks are called `use` and a capitalised name. -/
def isHookName (name : List Char) : Bool :=
  match name with
  | 'u' :: 's' :: 'e' :: first :: rest =>
    first.isUpper && rest.all fun c => c.isAlphanum || c == '_' || c == '$'
  | _ => false

/-- The first kind of evidence that an event is for a profile. A call is
judged by its last name, except that factories are called by their whole
name. -/
def evidence (p : FrameworkProfile) (e : Event) : Evidence :=
  let data := e.data.getD ""
  match e.kind with
  | .importSource => if p.importSources.contains data then .importOf else .nothing
  | .call =>
    let last := Text.afterLast '.' data.toList
    if p.hookCalls && isHookName last then .hook
    else if p.reactivePrimitives.contains (String.ofList last) then .reactive
    else if p.componentFactories.contains data then .component
    else .nothing
  | .classExtends => if p.componentBaseClasses.contains data then .component else .nothing
  | .markupElement => .markup
  | .markupFragment => .markup
  | _ => .nothing

end FrameworkProfile

/-! ## Scores -/

/-- What each kind of evidence weighs. -/
structure EvidenceWeights (R : Type) where
  none : R
  importOf : R
  hook : R
  reactive : R
  component : R
  markup : R
  /-- The share that counts without an import. -/
  withoutImport : R
  full : R

/-- How far the events have been weighed. -/
structure Tally (R : Type) where
  score : R
  imported : Bool
  markup : Bool

namespace Tally

variable {R : Type} [Add R] [Mul R] [LT R] [DecidableLT R] [LE R] [DecidableLE R]

def start (w : EvidenceWeights R) : Tally R := ⟨w.none, false, false⟩

/-- Weighs one event. Only the first import counts. -/
def weigh (w : EvidenceWeights R) (t : Tally R) : FrameworkProfile.Evidence → Tally R
  | .importOf =>
    if t.imported then t else { t with score := t.score + w.importOf, imported := true }
  | .hook => { t with score := t.score + w.hook }
  | .reactive => { t with score := t.score + w.reactive }
  | .component => { t with score := t.score + w.component }
  | .markup => { t with markup := true }
  | .nothing => t

/-- The score of what was weighed. Markup counts beside other evidence
only. -/
def finish (w : EvidenceWeights R) (t : Tally R) : R :=
  let score := if t.markup ∧ w.none < t.score then t.score + w.markup else t.score
  let score := if t.imported then score else score * w.withoutImport
  if score ≤ w.full then score else w.full

end Tally

namespace FrameworkProfile

variable {R : Type} [Add R] [Mul R] [LT R] [DecidableLT R] [LE R] [DecidableLE R]

/-- The score of a profile for the events of a text. -/
def score (w : EvidenceWeights R) (p : FrameworkProfile) (events : List Event) : R :=
  (events.foldl (fun t e => t.weigh w (p.evidence e)) (Tally.start w)).finish w

end FrameworkProfile

/-- The weights as doubles. -/
def EvidenceWeights.doubles : EvidenceWeights Float :=
  ⟨0.0, 0.5, 0.1, 0.15, 0.2, 0.1, 0.75, 1.0⟩

/-- Scores up to this one are not reported. -/
def leastConfidence : Float := 0.3

/-! ## Signals -/

/-- A framework that a text is probably written for. -/
structure FrameworkSignal where
  frameworkName : String
  confidence : Float
  requiredModules : List ModuleId
  deriving DecidableEq

namespace FrameworkSignal

def toJson (s : FrameworkSignal) : Json := .obj [
  ("frameworkName", .str s.frameworkName),
  ("confidence", .float s.confidence),
  ("requiredModules", Json.ofList ModuleId.toJson s.requiredModules)]

def ofJson? : Json → Option FrameworkSignal := Json.Record.read do
  let frameworkName ← required "frameworkName" Json.str?
  let confidence ← required "confidence" Json.float?
  let requiredModules ← required "requiredModules" (Json.items? ModuleId.ofJson?)
  return ⟨frameworkName, confidence, requiredModules⟩

/-- Profiles with their scores, best first; equal scores keep the order of
the profiles. Scores up to the least one are left out. -/
def rank {R : Type} [Add R] [Mul R] [LT R] [DecidableLT R] [LE R] [DecidableLE R]
    (w : EvidenceWeights R) (least : R) (profiles : List FrameworkProfile) (events : List Event) :
    List (FrameworkProfile × R) :=
  ((profiles.map fun p => (p, p.score w events)).filter fun s => least < s.2).mergeSort
    fun a b => b.2 ≤ a.2

/-- The frameworks that the events of a text point to. -/
def ofEvents (events : List Event) : List FrameworkSignal :=
  (rank .doubles leastConfidence FrameworkProfile.all events).map fun (p, confidence) =>
    ⟨p.name, confidence, p.requiredModules⟩

end FrameworkSignal

end Downlevel
