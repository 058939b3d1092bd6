/-
Downlevel.Request — what a caller asks for.

A request is a layer of configuration together with what concerns this
call only. Both are written as members of one object.
-/
import Downlevel.Configuration.Basic

namespace Downlevel

open Json.Record (defaulted)

structure RequestOptions where
  configuration : ConfigurationLayer
  filename : Option String
  /-- Which file the text is a state of; large texts with a file are
  compiled chunk by chunk. -/
  fileKey : Option String
  /-- Honoured only where the layer leaves nothing open. -/
  skipDetection : Bool
  bypassCache : Bool

namespace RequestOptions

def standard : RequestOptions := ⟨.empty, none, none, false, false⟩

instance : Inhabited RequestOptions := ⟨standard⟩

/-- Whether the text need not be looked at to configure its lowering. -/
def skipsDetection (r : RequestOptions) : Bool :=
  r.skipDetection && r.configuration.isFullyExplicit

def toJson (r : RequestOptions) : Json := .obj (r.configuration.members ++ [
  ("filename", Json.ofOption Json.str r.filename),
  ("fileKey", Json.ofOption Json.str r.fileKey),
  ("skipDetection", .bool r.skipDetection),
  ("bypassCache", .bool r.bypassCache)])

def ofJson? : Json → Option RequestOptions := Json.Record.readNamed do
  let configuration ← ConfigurationLayer.reader Json.isNullOrEmpty
  let filename ← defaulted "filename" none (Json.nullable? Json.str?)
  let fileKey ← defaulted "fileKey" none (Json.nullable? Json.str?)
  let skipDetection ← defaulted "skipDetection" false Json.bool?
  let bypassCache ← defaulted "bypassCache" false Json.bool?
  return ⟨configuration, filename, fileKey, skipDetection, bypassCache⟩

end RequestOptions

end Downlevel
