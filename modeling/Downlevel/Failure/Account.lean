/-
Downlevel.Failure.Account — the full account of a failure.

An account grows stage by stage: the failure is raised, classified, given
suggestions, worked around or not, and reported. `stages` records the way.
-/
import Downlevel.Code.Degradation
import Downlevel.Detection
import Downlevel.Failure.Basic
import Downlevel.Failure.Suggestion
import Downlevel.Lowering

namespace Downlevel

open Json.Record (required optional)

/-! ## Stages -/

inductive FailureStage where
  | raised
  | classified
  | suggestionsGenerated
  | recoveryAttempted
  | unrecovered
  | reported
  deriving DecidableEq, Repr, Inhabited

namespace FailureStage

def all : List FailureStage :=
  [.raised, .classified, .suggestionsGenerated, .recoveryAttempted, .unrecovered, .reported]

def name : FailureStage → String
  | .raised => "raised"
  | .classified => "classified"
  | .suggestionsGenerated => "suggestions-generated"
  | .recoveryAttempted => "recovery-attempted"
  | .unrecovered => "unrecovered"
  | .reported => "reported"

def toJson (s : FailureStage) : Json := .str s.name

def ofJson? : Json → Option FailureStage := Json.choice? (Json.named? name all) Json.isNull

end FailureStage

/-! ## Circumstances -/

/-- What was known when a failure arose, for debugging. -/
structure Circumstances where
  detectionPath : DetectionPath
  features : List String
  frameworks : List String
  /-- The canonical text of the configuration. -/
  configuration : String
  backendMessage : String
  deriving DecidableEq

namespace Circumstances

def toJson (c : Circumstances) : Json := .obj [
  ("detectionPath", c.detectionPath.toJson),
  ("features", Json.ofList Json.str c.features),
  ("frameworks", Json.ofList Json.str c.frameworks),
  ("configuration", .str c.configuration),
  ("backendMessage", .str c.backendMessage)]

def ofJson? : Json → Option Circumstances := Json.Record.read do
  let detectionPath ← required "detectionPath" DetectionPath.ofJson?
  let features ← required "features" (Json.items? Json.str?)
  let frameworks ← required "frameworks" (Json.items? Json.str?)
  let configuration ← required "configuration" Json.str?
  let backendMessage ← required "backendMessage" Json.str?
  return ⟨detectionPath, features, frameworks, configuration, backendMessage⟩

end Circumstances

/-! ## Accounts -/

structure Failure where
  kind : FailureKind
  message : String
  location : Option SourceLocation
  suggestions : List Suggestion
  recovery : Option Recovery
  stages : List FailureStage
  circumstances : Option Circumstances
  performance : Option Performance
  deriving DecidableEq

namespace Failure

/-- The stage that the account has reached. -/
def stage (f : Failure) : FailureStage := f.stages.getLast?.getD .raised

def isRecovered (f : Failure) : Bool := f.recovery.isSome

/-- The account in one line. -/
def line (f : Failure) : String := f.kind.name ++ " error: " ++ f.message

def toJson (f : Failure) : Json := .obj [
  ("kind", f.kind.toJson),
  ("message", .str f.message),
  ("sourceLocation", Json.ofOption SourceLocation.toJson f.location),
  ("suggestions", Json.ofList Suggestion.toJson f.suggestions),
  ("recoveryResult", Json.ofOption Recovery.toJson f.recovery),
  ("stages", Json.ofList FailureStage.toJson f.stages),
  ("debug", Json.ofOption Circumstances.toJson f.circumstances),
  ("performance", Json.ofOption Performance.toJson f.performance)]

def ofJson? : Json → Option Failure := Json.Record.read do
  let kind ← required "kind" FailureKind.ofJson?
  let message ← required "message" Json.str?
  let location ← optional "sourceLocation" SourceLocation.ofJson?
  let suggestions ← required "suggestions" (Json.items? Suggestion.ofJson?)
  let recovery ← optional "recoveryResult" Recovery.ofJson?
  let stages ← required "stages" (Json.items? FailureStage.ofJson?)
  let circumstances ← optional "debug" Circumstances.ofJson?
  let performance ← optional "performance" Performance.ofJson?
  return ⟨kind, message, location, suggestions, recovery, stages, circumstances, performance⟩

end Failure

end Downlevel
