/-
Downlevel.Configuration.Options — the options of a module and the entries
of a configuration's module list.

A module entry may be written as a name, as a pair of a name and options,
or as an object with an identifier. It is always written back as the
latter.
-/
import Downlevel.Module.Id

namespace Downlevel

/-! ## Options -/

/-- Options by name; their values are free-form. -/
abbrev Options := SortedMap Datum

namespace Options

def toJson (o : Options) : Json := Json.ofMap Datum.json o

def ofMembers (members : List (String × Json)) : Options :=
  SortedMap.ofList (members.map fun e => (e.1, Datum.ofJson e.2))

def ofJson? : Json → Option Options
  | .obj members => some (ofMembers members)
  | _ => none

/-- The text of an option whose value is a text. -/
def text? (o : Options) (key : String) : Option String := (o.get? key).bind fun d => d.json.str?

def flag? (o : Options) (key : String) : Option Bool := (o.get? key).bind fun d => d.json.bool?

end Options

/-! ## Module entries -/

/-- A module with the options it is to run with. -/
structure ModuleSpec where
  id : ModuleId
  options : Options

namespace ModuleSpec

/-- A module without options. -/
def plain (id : ModuleId) : ModuleSpec := ⟨id, .empty⟩

def toJson (m : ModuleSpec) : Json := .obj [
  ("id", m.id.toJson),
  ("options", m.options.toJson)]

def ofJson? : Json → Option ModuleSpec
  | .str name => some (plain (.ofString name))
  | .arr [.str name, .obj members] => some ⟨.ofString name, .ofMembers members⟩
  | .obj members =>
    match Entries.get? "id" members, Entries.get? "options" members with
    | some (.str name), some (.obj options) => some ⟨.ofString name, .ofMembers options⟩
    | some (.str name), none => some (plain (.ofString name))
    | _, _ => none
  | _ => none

end ModuleSpec

end Downlevel
