/-
Downlevel.Language — which dialect a text is written in.

A guess can be made from a file's name and from the features of its text.
Two guesses that agree support each other as independent evidence; of two
that differ the stronger one wins, at a discount.
-/
import Downlevel.Feature.Basic
import Downlevel.Text.Path

namespace Downlevel

open Json.Record (required)

/-! ## Dialects -/

inductive Language where
  | javaScript
  | jsx
  | typeScript
  | tsx
  deriving DecidableEq, Repr, Inhabited

namespace Language

def all : List Language := [.javaScript, .jsx, .typeScript, .tsx]

def name : Language → String
  | .javaScript => "javascript"
  | .jsx => "jsx"
  | .typeScript => "typescript"
  | .tsx => "tsx"

/-- Whether the dialect has static types. -/
def isTyped : Language → Bool
  | .typeScript | .tsx => true
  | .javaScript | .jsx => false

def toJson (l : Language) : Json := .str l.name

def ofJson? : Json → Option Language := Json.choice? (Json.named? name all) Json.isNull

end Language

/-- How a text was looked at. -/
inductive DetectionPath where
  /-- By its syntax tree. -/
  | tree
  /-- By scanning it. -/
  | scan
  | skipped
  deriving DecidableEq, Repr, Inhabited

namespace DetectionPath

def all : List DetectionPath := [.tree, .scan, .skipped]

def name : DetectionPath → String
  | .tree => "ast"
  | .scan => "regex"
  | .skipped => "skipped"

def toJson (p : DetectionPath) : Json := .str p.name

def ofJson? : Json → Option DetectionPath := Json.choice? (Json.named? name all) Json.isNull

end DetectionPath

/-! ## Guesses -/

structure LanguageGuess where
  language : Language
  confidence : Float
  requiresTranspilation : Bool
  deriving DecidableEq

namespace LanguageGuess

/-- Every dialect but the plain one has to be lowered. -/
def of (language : Language) (confidence : Float) : LanguageGuess :=
  ⟨language, confidence, language != .javaScript⟩

def toJson (g : LanguageGuess) : Json := .obj [
  ("language", g.language.toJson),
  ("confidence", .float g.confidence),
  ("requiresTranspilation", .bool g.requiresTranspilation)]

def ofJson? : Json → Option LanguageGuess := Json.Record.read do
  let language ← required "language" Language.ofJson?
  let confidence ← required "confidence" Json.float?
  let requiresTranspilation ← required "requiresTranspilation" Json.bool?
  return ⟨language, confidence, requiresTranspilation⟩

/-- What a file extension says. -/
def ofExtension? (extension : List Char) : Option LanguageGuess :=
  match String.ofList (Text.lowerAscii extension) with
  | "js" => some (of .javaScript 0.7)
  | "mjs" | "cjs" => some (of .javaScript 0.9)
  | "jsx" => some (of .jsx 0.9)
  | "ts" | "mts" | "cts" => some (of .typeScript 0.9)
  | "tsx" => some (of .tsx 0.95)
  | _ => none

def ofFilename? (filename : String) : Option LanguageGuess :=
  (Text.extension? filename.toList).bind ofExtension?

/-- What the features of a text say. A scan is trusted less than a tree. -/
def ofFeatures (features : List Feature) (path : DetectionPath) : LanguageGuess :=
  let typed := features.any fun f => f.requiresModule == some (.known .presetTypescript)
  let markup := features.any fun f => f.name == Feature.markupName
  let (language, confidence) : Language × Float :=
    match typed, markup with
    | true, true => (.tsx, 0.85)
    | true, false => (.typeScript, 0.8)
    | false, true => (.jsx, 0.8)
    | false, false => (.javaScript, 0.6)
  of language (if path = .scan then confidence * 0.75 else confidence)

/-- Two guesses that name the same dialect. -/
def reinforce (name content : LanguageGuess) : LanguageGuess :=
  { content with confidence := 1.0 - (1.0 - name.confidence) * (1.0 - content.confidence) }

/-- The stronger of two guesses, less half of the weaker one, but never
below a tenth. Of equally strong ones the content's counts. -/
def prevail (name content : LanguageGuess) : LanguageGuess :=
  let (winner, loser) :=
    if name.confidence ≤ content.confidence then (content, name) else (name, content)
  { winner with confidence := max (winner.confidence - loser.confidence * 0.5) 0.1 }

def combine (name content : Option LanguageGuess) : Option LanguageGuess :=
  match name, content with
  | some n, some c => some (if n.language = c.language then reinforce n c else prevail n c)
  | some n, none => some n
  | none, c => c

end LanguageGuess

end Downlevel
