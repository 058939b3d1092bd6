/-
Downlevel.Detection — everything that is found out about a source text.

A text is looked at through its syntax tree where it has one and scanned
otherwise; both ways give events, and the same reduction follows. Markup
is lowered by the module of the strongest framework.
-/
import Downlevel.Event.Collector
import Downlevel.Event.TextScan
import Downlevel.Framework
import Downlevel.Language

namespace Downlevel

open Json.Record (required optional)

structure Detection where
  features : List Feature
  frameworks : List FrameworkSignal
  language : Option LanguageGuess
  path : DetectionPath
  deriving DecidableEq

namespace Detection

/-- What is known of a text nobody looked at. -/
def empty : Detection := ⟨[], [], none, .skipped⟩

instance : Inhabited Detection := ⟨empty⟩

def hasFeature (d : Detection) (name : String) : Bool := d.features.any fun f => f.name == name

def featureNames (d : Detection) : List String := d.features.map (·.name)

def frameworkNames (d : Detection) : List String := d.frameworks.map (·.frameworkName)

def toJson (d : Detection) : Json := .obj [
  ("features", Json.ofList Feature.toJson d.features),
  ("frameworks", Json.ofList FrameworkSignal.toJson d.frameworks),
  ("language", Json.ofOption LanguageGuess.toJson d.language),
  ("path", d.path.toJson)]

def ofJson? : Json → Option Detection := Json.Record.read do
  let features ← required "features" (Json.items? Feature.ofJson?)
  let frameworks ← required "frameworks" (Json.items? FrameworkSignal.ofJson?)
  let language ← optional "language" LanguageGuess.ofJson?
  let path ← required "path" DetectionPath.ofJson?
  return ⟨features, frameworks, language, path⟩

/-- Lets the strongest framework's module lower the markup. -/
def assignMarkup (frameworks : List FrameworkSignal) (features : List Feature) : List Feature :=
  match frameworks.head?.bind fun top => top.requiredModules.head? with
  | some module =>
    features.map fun f =>
      if f.name = Feature.markupName then { f with requiresModule := some module } else f
  | none => features

/-- What the events of a text amount to. A blank text says nothing about
its language. -/
def ofEvents (events : List Event) (path : DetectionPath) (source : String)
    (filename : Option String) : Detection :=
  let frameworks := FrameworkSignal.ofEvents events
  let features := assignMarkup frameworks (Feature.ofEvents events)
  let content :=
    if Text.isBlankText source then none else some (LanguageGuess.ofFeatures features path)
  ⟨features, frameworks,
    LanguageGuess.combine (filename.bind LanguageGuess.ofFilename?) content, path⟩

/-- Looks at a text through its syntax tree; a text without one is
scanned. -/
def ofSource (source : String) (tree : Option SyntaxTree) (filename : Option String) : Detection :=
  match tree with
  | some tree => ofEvents (tree.events source) .tree source filename
  | none => ofEvents (Event.scanText source) .scan source filename

end Detection

end Downlevel
