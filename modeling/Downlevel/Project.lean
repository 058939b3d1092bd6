/-
Downlevel.Project — the configuration file of a project.

A project file holds a layer of configuration and, under `settings`, the
settings of the sessions that use it. It is written in JSON or in TOML;
both are read into the same kind of value first. The value is checked
before it is read, and the warnings of the check are kept.
-/
import Downlevel.Configuration.Validation
import Downlevel.Json.Reader
import Downlevel.Settings
import Downlevel.Text.Path
import Downlevel.Toml.Reader

namespace Downlevel

/-! ## Formats -/

inductive ProjectFormat where
  | json
  | toml
  deriving DecidableEq, Repr

/-- Why a project file is of no use. -/
inductive ProjectError where
  /-- There is no such file. -/
  | missingFile
  | malformedJson
  | malformedToml
  /-- Some member does not have the type it needs. -/
  | mistyped
  | unsupportedFormat (path : String)
  /-- The check found errors. -/
  | rejected (errors : List ConfigurationIssue)

namespace ProjectError

/-- The message of an error that is not about the text of a file. -/
def message? : ProjectError → Option String
  | unsupportedFormat path => some ("unsupported configuration format: " ++ path)
  | rejected errors =>
    some ("configuration rejected: " ++ Text.join "; " (errors.map ConfigurationIssue.message))
  | _ => none

end ProjectError

namespace ProjectFormat

def all : List ProjectFormat := [.json, .toml]

def name : ProjectFormat → String
  | .json => "json"
  | .toml => "toml"

/-- The format that a file's extension says. -/
def ofPath (path : String) : Except ProjectError ProjectFormat :=
  match (Text.extension? path.toList).bind fun e => all.find? fun f => f.name.toList == e with
  | some format => .ok format
  | none => .error (.unsupportedFormat path)

/-- The value of a text in a format. -/
def parse (format : ProjectFormat) (text : String) : Except ProjectError Json :=
  match format with
  | .json => ((Json.parse? text).map Except.ok).getD (.error .malformedJson)
  | .toml => ((Toml.parse? text).map Except.ok).getD (.error .malformedToml)

end ProjectFormat

/-! ## Projects -/

structure Project where
  configuration : ConfigurationLayer
  settings : Settings
  warnings : List ConfigurationIssue

namespace Project

def toJson (p : Project) : Json := .obj [
  ("config", p.configuration.toJson),
  ("settings", p.settings.toJson),
  ("warnings", Json.ofList Json.str (p.warnings.map ConfigurationIssue.message))]

/-- Reads a value of the right type. -/
def typed (read : Json → Option α) (value : Json) : Except ProjectError α :=
  ((read value).map Except.ok).getD (.error .mistyped)

/-- The project that a value describes. -/
def ofJson (registry : Registry) (value : Json) : Except ProjectError Project := do
  let validation := Validation.ofJson registry value
  if validation.valid then
    let settings ←
      match value.member? "settings" with
      | some settings => typed Settings.ofJson? settings
      | none => pure .standard
    let configuration ← typed ConfigurationLayer.ofJson? value
    return ⟨configuration, settings, validation.warnings⟩
  else throw (.rejected validation.errors)

def ofText (registry : Registry) (format : ProjectFormat) (text : String) :
    Except ProjectError Project := do
  ofJson registry (← format.parse text)

/-- The project in a file, given the text of the file if there is one. -/
def ofFile (registry : Registry) (path : String) (text : Option String) :
    Except ProjectError Project := do
  let format ← ProjectFormat.ofPath path
  match text with
  | some text => ofText registry format text
  | none => throw .missingFile

end Project

end Downlevel
