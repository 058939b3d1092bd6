/-
Downlevel.Report — one input, its configuration and what came of it.

A report gathers an input, at most one lowering of it and any number of
failed attempts. Suggestions of several failures are merged: the first of
each kind and action stays, and the most urgent come first. A report has a
form for people (`Report.text`) and one for programs (`Report.toJson`).
-/
import Downlevel.Configuration.Basic
import Downlevel.Decimal.Notation
import Downlevel.Digest
import Downlevel.Failure.Account

namespace Downlevel

/-! ## Parts -/

/-- Where and when a report is made. -/
structure ReportOrigin where
  generatedAt : Nat
  os : String
  arch : String

/-- The version that reports show. -/
def ReportOrigin.version : String := "0.1.0"

/-- The measures of an input. -/
structure SourceSummary where
  bytes : Nat
  lines : Nat
  hash : String

namespace SourceSummary

def ofText (source : String) : SourceSummary :=
  ⟨source.utf8ByteSize, (Text.splitAt '\n' source.toList).length, Digest.ofText source⟩

def toJson (s : SourceSummary) : Json := .obj [
  ("bytes", Json.ofNat s.bytes),
  ("lines", Json.ofNat s.lines),
  ("hash", .str s.hash)]

end SourceSummary

/-- A failed attempt in short. -/
structure FailureSummary where
  kind : FailureKind
  message : String
  location : Option SourceLocation
  recovered : Bool

namespace FailureSummary

def ofFailure (f : Failure) : FailureSummary := ⟨f.kind, f.message, f.location, f.isRecovered⟩

def toJson (f : FailureSummary) : Json := .obj [
  ("kind", f.kind.toJson),
  ("message", .str f.message),
  ("location", Json.ofOption SourceLocation.toJson f.location),
  ("recovered", .bool f.recovered)]

/-- The place of a failure behind its kind. -/
def place (f : FailureSummary) : String :=
  match f.location with
  | some l => s!" at {l.line}:{l.column}"
  | none => ""

def line (number : Nat) (f : FailureSummary) : String :=
  let ending := if f.recovered then " (recovered)" else ""
  s!"  {number}. [{f.kind.name}]{f.place} {f.message}{ending}"

end FailureSummary

/-! ## Reports -/

structure Report where
  origin : ReportOrigin
  debug : Bool
  source : SourceSummary
  configuration : String
  modules : List String
  failures : List FailureSummary
  suggestions : List Suggestion
  timings : List Performance
  outputBytes : Option Nat
  warnings : List String

namespace Report

/-- The report on an input that nobody has tried to lower yet. -/
def new (origin : ReportOrigin) (source : String) (c : Configuration) (debug : Bool) : Report where
  origin := origin
  debug := debug
  source := .ofText source
  configuration := c.canonicalText
  modules := c.moduleNames
  failures := []
  suggestions := []
  timings := []
  outputBytes := none
  warnings := []

def withLowering (r : Report) (l : Lowering) : Report :=
  { r with
    outputBytes := some l.text.utf8ByteSize
    warnings := r.warnings ++ l.metadata.warnings
    timings := r.timings ++ [l.performance] }

/-- Adds a suggestion unless its kind and action are already listed. -/
def addNew (suggestions : List Suggestion) (s : Suggestion) : List Suggestion :=
  if suggestions.any fun t => t.dedupeKey == s.dedupeKey then suggestions else suggestions ++ [s]

/-- Merges the suggestions of another failure in. -/
def mergeSuggestions (suggestions new : List Suggestion) : List Suggestion :=
  Suggestion.sortByPriority (new.foldl addNew suggestions)

/-- Adds a failed attempt. -/
def addFailure (r : Report) (f : Failure) : Report :=
  { r with
    failures := r.failures ++ [.ofFailure f]
    suggestions := mergeSuggestions r.suggestions f.suggestions
    warnings := r.warnings ++ (f.recovery.map (·.warnings)).getD []
    timings := r.timings ++ f.performance.toList }

def addFailures (r : Report) (failures : List Failure) : Report := failures.foldl addFailure r

/-- The time of all attempts, summed up from minus zero. -/
def totalMilliseconds (r : Report) : Float :=
  r.timings.foldl (fun sum p => sum + p.milliseconds) (-0.0)

/-! ## Written forms -/

def toJson (r : Report) : Json := .obj [
  ("generatedAtMs", Json.ofNat r.origin.generatedAt),
  ("environment", .obj [
    ("crateVersion", .str ReportOrigin.version),
    ("os", .str r.origin.os),
    ("arch", .str r.origin.arch),
    ("debugMode", .bool r.debug)]),
  ("source", r.source.toJson),
  ("configuration", .str r.configuration),
  ("modules", Json.ofList Json.str r.modules),
  ("failures", Json.ofList FailureSummary.toJson r.failures),
  ("suggestions", Json.ofList Suggestion.toJson r.suggestions),
  ("timings", Json.ofList Performance.toJson r.timings),
  ("outputBytes", Json.ofOption Json.ofNat r.outputBytes),
  ("warnings", Json.ofList Json.str r.warnings)]

def suggestionLine (s : Suggestion) : String :=
  let ending := if s.autoApplicable then " [auto]" else ""
  s!"  - [{s.priority.title}] {s.description} ({s.action.line}){ending}"

/-- A part of a report with a blank line and a title before it; empty
without lines. -/
def part (title : String) (lines : List String) : List String :=
  if lines.isEmpty then [] else "" :: title :: lines

/-- The lines before the parts. -/
def summaryLines (r : Report) : List String :=
  let modules := if r.modules.isEmpty then "(none)" else Text.join ", " r.modules
  let output := r.outputBytes.map fun bytes => s!"Output: {bytes} bytes"
  let time := String.ofList (Decimal.fixed 2 r.totalMilliseconds)
  [ "=== Transform Diagnostic Report ===",
    "Environment: transpile-native " ++ ReportOrigin.version
      ++ s!" ({r.origin.os}/{r.origin.arch}), debug={r.debug}",
    s!"Generated at: {r.origin.generatedAt} ms",
    s!"Source: {r.source.bytes} bytes, {r.source.lines} lines, sha256 {r.source.hash}",
    s!"Modules: {modules}",
    s!"Configuration: {r.configuration}" ] ++ output.toList
    ++ [s!"Total time: {time} ms over {r.timings.length} attempt(s)"]

def lines (r : Report) : List String :=
  r.summaryLines
    ++ part s!"Failures ({r.failures.length}):"
      (r.failures.mapIdx fun index f => f.line (index + 1))
    ++ part "Suggestions:" (r.suggestions.map suggestionLine)
    ++ part "Warnings:" (r.warnings.map fun w => s!"  - {w}")

/-- The report for people; every line ends in a line break. -/
def text (r : Report) : String := String.join (r.lines.map fun line => line ++ "\n")

end Report

end Downlevel
