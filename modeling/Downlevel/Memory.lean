/-
Downlevel.Memory — how much memory is in use, and what to do about it.

A reading may be missing, where a platform gives none; then there is no
pressure. Under pressure every reclaim hook is run, one after the other. A
hook may break down; that does not keep the others from running.
-/
import Downlevel.Json.Record

namespace Downlevel

/-! ## Readings -/

/-- Bytes in use and bytes there are. -/
structure MemoryUsage where
  used : Nat
  total : Nat
  deriving DecidableEq, Repr

namespace MemoryUsage

/-- What is shown where there is no reading. -/
def unknown : MemoryUsage := ⟨0, 0⟩

/-- Hundredths of the total in use; none of an unknown total. -/
def percentage (u : MemoryUsage) : Float :=
  if u.total = 0 then 0.0 else Float.ofNat u.used / Float.ofNat u.total * 100.0

def toJson (u : MemoryUsage) : Json := .obj [
  ("used", Json.ofNat u.used),
  ("total", Json.ofNat u.total),
  ("percentage", .float u.percentage)]

/-- Whether a reading exceeds a threshold. -/
def isPressing (threshold : Nat) : Option MemoryUsage → Bool
  | some usage => threshold < usage.used
  | none => false

end MemoryUsage

/-! ## Reclaiming -/

/-- A way to free memory: it changes a state and tells whether it ran to
its end. -/
abbrev ReclaimHook (σ : Type) := σ → Bool × σ

namespace ReclaimHook

/-- Runs hooks in order. Also gives the number of those that ran to their
end. -/
def runAll {σ : Type} : List (ReclaimHook σ) → σ → Nat × σ
  | [], state => (0, state)
  | hook :: rest, state =>
    let (completed, state) := hook state
    let (count, state) := runAll rest state
    (if completed then count + 1 else count, state)

end ReclaimHook

end Downlevel
