/-
Downlevel.Session.Basic — the state of a session and its small steps.

A session keeps lowered texts, the chunks of large files and a tally of
its work. It also keeps the last readings of its surroundings: the clock
and the memory in use change only when the session is told.

A lowering touches the shared state in a few steps, each of them
indivisible: `lookup`, `relieve`, `store` and `forgetChunks`.
-/
import Downlevel.Backend
import Downlevel.Cache.Basic
import Downlevel.Chunk.Basic
import Downlevel.Configuration.Resolution
import Downlevel.Memory
import Downlevel.Report
import Downlevel.Request
import Downlevel.Settings

namespace Downlevel

/-! ## State -/

/-- How often a session did what. -/
structure SessionTally where
  transforms : Nat
  cacheHits : Nat
  recoveries : Nat
  failures : Nat
  incrementalRuns : Nat
  deriving DecidableEq, Repr

namespace SessionTally

def zero : SessionTally := ⟨0, 0, 0, 0, 0⟩

def toJson (t : SessionTally) : Json := .obj [
  ("transforms", Json.ofNat t.transforms),
  ("cacheHits", Json.ofNat t.cacheHits),
  ("recoveries", Json.ofNat t.recoveries),
  ("failures", Json.ofNat t.failures),
  ("incrementalRuns", Json.ofNat t.incrementalRuns)]

end SessionTally

structure Session where
  settings : Settings
  base : ConfigurationLayer
  registry : Registry
  cache : Cache
  chunks : ChunkStore
  clock : Nat
  /-- The last reading, where there is one. -/
  memory : Option MemoryUsage
  debug : Bool
  tally : SessionTally

namespace Session

def new (settings : Settings) (base : ConfigurationLayer) (registry : Registry) (clock : Nat)
    (memory : Option MemoryUsage) : Session where
  settings := settings
  base := base
  registry := registry
  cache := .empty settings.cache
  chunks := .empty
  clock := clock
  memory := memory
  debug := false
  tally := .zero

/-! ## Surroundings -/

/-- Lets time pass; the clock starts again after 64 bits. -/
def advance (s : Session) (milliseconds : Nat) : Session :=
  { s with clock := (s.clock + milliseconds) % Nat.pow 2 64 }

def readMemory (s : Session) (usage : MemoryUsage) : Session := { s with memory := some usage }

def setDebug (s : Session) (enabled : Bool) : Session := { s with debug := enabled }

def register (s : Session) (d : ModuleDescriptor) : Session :=
  { s with registry := s.registry.register d }

/-! ## Housekeeping -/

/-- Forgets every lowered text and every chunk. -/
def clearCache (s : Session) : Session := { s with cache := s.cache.clear, chunks := .empty }

/-- Drops what is too old. Also gives the number of texts dropped. -/
def cleanup (s : Session) : Nat × Session :=
  let (removed, cache) := s.cache.cleanup s.clock
  (removed, { s with cache := cache })

/-- The ways in which a session frees memory. -/
def reclaimHooks (settings : Settings) : List (ReclaimHook Cache) :=
  [fun cache => (true, (cache.shrink settings.pressureShrinkFraction).2)]

/-- Frees memory. Also gives the number of hooks that did. -/
def reclaim (s : Session) : Nat × Session :=
  let (count, cache) := ReclaimHook.runAll (reclaimHooks s.settings) s.cache
  (count, { s with cache := cache })

/-! ## Looking at texts -/

variable {m : Type → Type}

def detect (tools : Tools m) (source : String) (filename : Option String) : Detection :=
  Detection.ofSource source (tools.parser source filename) filename

/-- What is found out about a text for a request; nothing where the
request leaves nothing to find out. -/
def detectFor (tools : Tools m) (source : String) (options : RequestOptions) : Detection :=
  if options.skipsDetection then .empty else detect tools source options.filename

/-- The configuration with which a request is lowered. -/
def configurationFor (s : Session) (d : Detection) (options : RequestOptions) : Configuration :=
  Configuration.resolve s.registry d options.configuration s.base

def resolveConfiguration (s : Session) (tools : Tools m) (source : String)
    (options : RequestOptions) : Configuration :=
  s.configurationFor (detectFor tools source options) options

/-! ## Steps of a lowering -/

/-- What a session has settled about a request before it lowers anything. -/
structure Job where
  source : String
  options : RequestOptions
  detection : Detection
  configuration : Configuration

namespace Job

/-- The key of the lowered text. -/
def key (job : Job) : String := Cache.key job.source job.configuration

/-- What is told about a lowered text however it came about. -/
def metadata (job : Job) : Lowering.Metadata where
  appliedModules := job.configuration.moduleNames
  warnings := []
  features := job.detection.featureNames
  frameworks := job.detection.frameworkNames
  recovered := false
  incremental := none

end Job

def prepare (s : Session) (tools : Tools m) (source : String) (options : RequestOptions) : Job :=
  let detection := detectFor tools source options
  ⟨source, options, detection, s.configurationFor detection options⟩

/-- Looks the text of a job up, unless the request bypasses the cache. -/
def lookup (s : Session) (job : Job) : Option CacheEntry × Session :=
  if job.options.bypassCache then (none, s)
  else
    let (entry, cache) := s.cache.lookup s.clock job.key
    (entry, { s with cache := cache })

/-- Frees memory where there is pressure. -/
def relieve (s : Session) : Session :=
  if MemoryUsage.isPressing s.settings.memoryThreshold s.memory then s.reclaim.2 else s

/-- Keeps the text of a job, unless the request bypasses the cache. -/
def store (s : Session) (job : Job) (text : String) (metadata : Lowering.Metadata) : Session :=
  if job.options.bypassCache then s
  else { s with cache := (s.cache.store s.clock job.key text metadata).2 }

def forgetChunks (s : Session) (file : String) : Session :=
  { s with chunks := s.chunks.erase file }

/-- What a call cost. The time is left at zero, as nobody measures it
here. -/
def performance (s : Session) (cacheHit : Bool) : Performance :=
  ⟨0.0, cacheHit, (s.memory.getD .unknown).used⟩

/-! ## Counting -/

def count (s : Session) (change : SessionTally → SessionTally) : Session :=
  { s with tally := change s.tally }

def countTransform (s : Session) : Session :=
  s.count fun t => { t with transforms := t.transforms + 1 }

def countCacheHit (s : Session) : Session :=
  s.count fun t => { t with cacheHits := t.cacheHits + 1 }

def countRecovery (s : Session) : Session :=
  s.count fun t => { t with recoveries := t.recoveries + 1 }

def countFailure (s : Session) : Session :=
  s.count fun t => { t with failures := t.failures + 1 }

def countIncrementalRun (s : Session) : Session :=
  s.count fun t => { t with incrementalRuns := t.incrementalRuns + 1 }

/-! ## Reports -/

/-- The report on an input and what came of it. -/
def report (s : Session) (origin : ReportOrigin) (source : String) (c : Configuration)
    (lowering : Option Lowering) (failure : Option Failure) : Report :=
  let r := Report.new origin source c s.debug
  let r := lowering.elim r r.withLowering
  failure.elim r r.addFailure

end Session

end Downlevel
