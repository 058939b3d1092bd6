/-
Downlevel.Lowering — lowered texts and what is told about them.

A `Lowering` is what a caller gets back: the text, where it came from, and
what it cost. `Lowering.Metadata` concerns the text and is kept with it;
`Performance` concerns one call only.
-/
import Downlevel.Json.Printer
import Downlevel.Json.Record
import Downlevel.Text.Bytes

namespace Downlevel

open Json.Record (required optional)

/-! ## Parts of a file -/

/-- How many chunks of a file had changed. -/
structure ChunkTally where
  changed : Nat
  total : Nat
  deriving DecidableEq, Repr

namespace ChunkTally

def toJson (t : ChunkTally) : Json := .obj [
  ("changedChunks", Json.ofNat t.changed),
  ("totalChunks", Json.ofNat t.total)]

def ofJson? : Json → Option ChunkTally := Json.Record.read do
  let changed ← required "changedChunks" Json.word64?
  let total ← required "totalChunks" Json.word64?
  return ⟨changed, total⟩

end ChunkTally

/-! ## Metadata -/

/-- What is told about a lowered text. -/
structure Lowering.Metadata where
  appliedModules : List String
  warnings : List String
  features : List String
  frameworks : List String
  /-- Whether degraded text made up for a failure. -/
  recovered : Bool
  incremental : Option ChunkTally
  deriving DecidableEq

namespace Lowering.Metadata

/-- Nothing to tell. -/
def empty : Metadata := ⟨[], [], [], [], false, none⟩

instance : Inhabited Metadata := ⟨empty⟩

def toJson (m : Metadata) : Json := .obj [
  ("appliedModules", Json.ofList Json.str m.appliedModules),
  ("warnings", Json.ofList Json.str m.warnings),
  ("features", Json.ofList Json.str m.features),
  ("frameworks", Json.ofList Json.str m.frameworks),
  ("recovered", .bool m.recovered),
  ("incremental", Json.ofOption ChunkTally.toJson m.incremental)]

def ofJson? : Json → Option Metadata := Json.Record.read do
  let appliedModules ← required "appliedModules" (Json.items? Json.str?)
  let warnings ← required "warnings" (Json.items? Json.str?)
  let features ← required "features" (Json.items? Json.str?)
  let frameworks ← required "frameworks" (Json.items? Json.str?)
  let recovered ← required "recovered" Json.bool?
  let incremental ← optional "incremental" ChunkTally.ofJson?
  return ⟨appliedModules, warnings, features, frameworks, recovered, incremental⟩

/-- The bytes that the metadata takes when it is written out. -/
def byteSize (m : Metadata) : Nat := Text.byteSize m.toJson.printChars

end Lowering.Metadata

/-! ## Performance -/

/-- What one call cost. -/
structure Performance where
  milliseconds : Float
  cacheHit : Bool
  memoryBytes : Nat
  deriving DecidableEq

namespace Performance

def toJson (p : Performance) : Json := .obj [
  ("transformTimeMs", .float p.milliseconds),
  ("cacheHit", .bool p.cacheHit),
  ("memoryUsageBytes", Json.ofNat p.memoryBytes)]

def ofJson? : Json → Option Performance := Json.Record.read do
  let milliseconds ← required "transformTimeMs" Json.float?
  let cacheHit ← required "cacheHit" Json.bool?
  let memoryBytes ← required "memoryUsageBytes" Json.word64?
  return ⟨milliseconds, cacheHit, memoryBytes⟩

end Performance

/-! ## Lowerings -/

structure Lowering where
  text : String
  metadata : Lowering.Metadata
  performance : Performance
  deriving DecidableEq

namespace Lowering

def toJson (l : Lowering) : Json := .obj [
  ("loweredText", .str l.text),
  ("metadata", l.metadata.toJson),
  ("performance", l.performance.toJson)]

def ofJson? : Json → Option Lowering := Json.Record.read do
  let text ← required "loweredText" Json.str?
  let metadata ← required "metadata" Metadata.ofJson?
  let performance ← required "performance" Performance.ofJson?
  return ⟨text, metadata, performance⟩

end Lowering

end Downlevel
