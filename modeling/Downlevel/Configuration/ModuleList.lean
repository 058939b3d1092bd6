/-
Downlevel.Configuration.ModuleList — lists of module entries.

Lists from several contributors are merged: an identifier keeps the place
of its first entry, and an option the value of its last one. Modules run
in the order of their phases; within a phase they keep the order of the
list.
-/
import Downlevel.Configuration.Options
import Downlevel.Module.Registry

namespace Downlevel

namespace ModuleSpec

/-- Adds an entry. The options of an entry for the same module are
overlaid in place. -/
def add (m : ModuleSpec) : List ModuleSpec → List ModuleSpec
  | [] => [m]
  | e :: rest =>
    if e.id = m.id then { e with options := e.options.overlay m.options } :: rest
    else e :: add m rest

/-- Adds entries one after the other. -/
def addAll (modules incoming : List ModuleSpec) : List ModuleSpec :=
  incoming.foldl (fun acc m => m.add acc) modules

/-- One list of entries out of several, each module once. -/
def mergeAll (layers : List (List ModuleSpec)) : List ModuleSpec := layers.foldl addAll []

/-- The entry with the options that a module is registered with. -/
def registered (registry : Registry) (id : ModuleId) : ModuleSpec :=
  ⟨id, registry.defaultOptions id⟩

end ModuleSpec

namespace Registry

/-- Puts entries into the order in which they run. -/
def sortByPhase (r : Registry) (modules : List ModuleSpec) : List ModuleSpec :=
  modules.mergeSort fun a b => r.phaseOf a.id ≤ r.phaseOf b.id

end Registry

end Downlevel
