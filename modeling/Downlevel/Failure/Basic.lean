/-
Downlevel.Failure.Basic — what a backend reports when it fails.

A backend says why it failed in its own words; the kind of a failure is
found out from those words afterwards.
-/
import Downlevel.Json.Record

namespace Downlevel

open Json.Record (required)

/-! ## Places -/

/-- A place in a source text, as a backend counts. -/
structure SourceLocation where
  line : Nat
  column : Nat
  deriving DecidableEq, Repr

namespace SourceLocation

def toJson (l : SourceLocation) : Json := .obj [
  ("line", Json.ofNat l.line),
  ("column", Json.ofNat l.column)]

def ofJson? : Json → Option SourceLocation := Json.Record.read do
  let line ← required "line" Json.word32?
  let column ← required "column" Json.word32?
  return ⟨line, column⟩

end SourceLocation

/-! ## Failures of a backend -/

inductive BackendFailure where
  /-- The text could not be read. -/
  | unreadable (reason : String) (location : Option SourceLocation)
  /-- The text was read but could not be lowered. -/
  | unlowerable (reason : String)
  | unsupportedModule (name : String)
  | timedOut (milliseconds : Nat)
  | other (reason : String)
  deriving DecidableEq

namespace BackendFailure

def message : BackendFailure → String
  | unreadable reason _ => "parse error: " ++ reason
  | unlowerable reason => "transform error: " ++ reason
  | unsupportedModule name => "unsupported module: " ++ name
  | timedOut milliseconds =>
    s!"backend timed out after {milliseconds} ms"
  | other reason => reason

def location? : BackendFailure → Option SourceLocation
  | unreadable _ location => location
  | _ => none

end BackendFailure

/-! ## Kinds -/

inductive FailureKind where
  | syntactic
  | plugin
  | dependency
  | configuration
  | runtime
  deriving DecidableEq, Repr, Inhabited

namespace FailureKind

def all : List FailureKind := [.syntactic, .plugin, .dependency, .configuration, .runtime]

def name : FailureKind → String
  | .syntactic => "syntax"
  | .plugin => "plugin"
  | .dependency => "dependency"
  | .configuration => "configuration"
  | .runtime => "runtime"

def toJson (k : FailureKind) : Json := .str k.name

def ofJson? : Json → Option FailureKind := Json.choice? (Json.named? name all) Json.isNull

/-- Whether a failure of this kind may be worked around with a degraded
text. -/
def isRecoverable : FailureKind → Bool
  | .syntactic | .plugin => true
  | _ => false

end FailureKind

end Downlevel
