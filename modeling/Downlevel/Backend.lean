/-
Downlevel.Backend — what lowers a text.

A backend is a black box: it is given a text and a complete configuration
and answers with a lowered text or a failure. A session is run with one
backend and with a parser for looking at texts; together they are its
tools. Both are given from outside.
-/
import Downlevel.Configuration.Basic
import Downlevel.Event.SyntaxTree
import Downlevel.Failure.Basic

namespace Downlevel

/-! ## Answers -/

structure BackendOutput where
  text : String
  warnings : List String
  deriving DecidableEq

/-- What comes back from a backend. -/
inductive BackendReply where
  | output (output : BackendOutput)
  | failure (failure : BackendFailure)
  /-- Nothing, in all the time that it was given. -/
  | silence
  deriving DecidableEq

/-- The reply to a backend that may take a number of milliseconds. A
silent backend has used up all of them. -/
def BackendReply.within (limit : Option Nat) : BackendReply → Except BackendFailure BackendOutput
  | .output o => .ok o
  | .failure f => .error f
  | .silence => .error (.timedOut (limit.getD 0))

/-! ## Tools -/

abbrev Backend (m : Type → Type) := String → Configuration → m BackendReply

/-- The syntax tree of a text whose file may have a name; none where the
text cannot be read. -/
abbrev SourceParser := String → Option String → Option SyntaxTree

/-- What a session works with. -/
structure Tools (m : Type → Type) where
  parser : SourceParser
  backend : Backend m

end Downlevel
