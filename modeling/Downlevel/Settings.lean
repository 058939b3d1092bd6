/-
Downlevel.Settings — how a session works.

Every setting has a standard value, which stands wherever none is given.
-/
import Downlevel.Cache.Basic

namespace Downlevel

open Json.Record (defaulted)

structure Settings where
  /-- Texts with a file and more bytes than this are compiled chunk by
  chunk. -/
  incrementalThreshold : Nat
  chunkLines : Nat
  /-- How many milliseconds a backend may take. -/
  backendTimeout : Option Nat
  cache : CacheLimits
  memoryThreshold : Nat
  /-- The part of the cache that is kept under memory pressure. -/
  pressureShrinkFraction : Float
  deriving DecidableEq

namespace Settings

def standard : Settings where
  incrementalThreshold := 100 * 1024
  chunkLines := 1000
  backendTimeout := none
  cache := .standard
  memoryThreshold := 512 * 1024 * 1024
  pressureShrinkFraction := 0.5

instance : Inhabited Settings := ⟨standard⟩

def toJson (s : Settings) : Json := .obj [
  ("incrementalThresholdBytes", Json.ofNat s.incrementalThreshold),
  ("chunkLines", Json.ofNat s.chunkLines),
  ("backendTimeoutMs", Json.ofOption Json.ofNat s.backendTimeout),
  ("cache", s.cache.toJson),
  ("memoryThresholdBytes", Json.ofNat s.memoryThreshold),
  ("pressureShrinkFraction", .float s.pressureShrinkFraction)]

def ofJson? : Json → Option Settings := Json.Record.read do
  let incremental ←
    defaulted "incrementalThresholdBytes" standard.incrementalThreshold Json.word64?
  let chunkLines ← defaulted "chunkLines" standard.chunkLines Json.word64?
  let timeout ← defaulted "backendTimeoutMs" standard.backendTimeout (Json.nullable? Json.word64?)
  let cache ← defaulted "cache" standard.cache CacheLimits.ofJson?
  let memory ← defaulted "memoryThresholdBytes" standard.memoryThreshold Json.word64?
  let fraction ← defaulted "pressureShrinkFraction" standard.pressureShrinkFraction Json.float?
  return ⟨incremental, chunkLines, timeout, cache, memory, fraction⟩

end Settings

end Downlevel
