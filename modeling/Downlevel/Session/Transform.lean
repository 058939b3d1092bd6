/-
Downlevel.Session.Transform — from a request to a lowered text.

A request is looked at, configured, and looked up. On a miss the backend
lowers the text: chunk by chunk where the file is known and the text is
large, and as a whole otherwise, or where a chunk fails. A failure is
accounted for and, if the rules allow it, worked around.

Only what the backend lowered is kept; a text that was worked around is
not.
-/
import Downlevel.Failure.Diagnosis
import Downlevel.Session.Basic

namespace Downlevel.Session

variable {m : Type → Type} [Monad m]

/-! ## Calling the backend -/

/-- Lowers a text with the backend, as long as it may take. -/
def invoke (s : Session) (tools : Tools m) (c : Configuration) (source : String) :
    ExceptT BackendFailure m BackendOutput :=
  ExceptT.mk do
    let reply ← tools.backend source c
    return reply.within s.settings.backendTimeout

/-- A text that the backend lowered, with the tally of its chunks where it
was lowered by chunks. -/
structure Lowered where
  output : BackendOutput
  chunks : Option ChunkTally
  deriving DecidableEq

/-- The file whose chunks a job is lowered by, where it is. -/
def chunkedFile? (s : Session) (job : Job) : Option String :=
  if s.settings.incrementalThreshold < job.source.utf8ByteSize then job.options.fileKey else none

/-- Lowers the text of a job as a whole. -/
def lowerWhole (s : Session) (tools : Tools m) (job : Job) :
    m (Except BackendFailure Lowered × Session) := do
  let result ← (s.invoke tools job.configuration job.source).run
  return (result.map fun output => ⟨output, none⟩, s)

/-- Lowers the text of a job by the chunks of a file. The chunks' own
warnings are not kept. Where a chunk fails the file is forgotten and the
text lowered as a whole. -/
def lowerChunks (s : Session) (tools : Tools m) (job : Job) (file : String) :
    m (Except BackendFailure Lowered × Session) := do
  let s := s.countIncrementalRun
  let lower (chunk : String) : ExceptT BackendFailure m String := do
    return (← s.invoke tools job.configuration chunk).text
  let (result, chunks) ← s.chunks.compile s.settings.chunkLines file job.source lower
  let s := { s with chunks := chunks }
  match result with
  | .ok (text, tally) => return (.ok ⟨⟨text, []⟩, some tally⟩, s)
  | .error _ => (s.forgetChunks file).lowerWhole tools job

def lower (s : Session) (tools : Tools m) (job : Job) :
    m (Except BackendFailure Lowered × Session) :=
  match s.chunkedFile? job with
  | some file => s.lowerChunks tools job file
  | none => s.lowerWhole tools job

/-! ## Outcomes -/

/-- The outcome of a hit. -/
def answerHit (s : Session) (entry : CacheEntry) : Except Failure Lowering × Session :=
  (.ok ⟨entry.text, entry.metadata, s.performance true⟩, s.countCacheHit)

/-- The outcome of a job that the backend lowered, which is kept. -/
def answerLowered (s : Session) (job : Job) (lowered : Lowered) :
    Except Failure Lowering × Session :=
  let metadata :=
    { job.metadata with warnings := lowered.output.warnings, incremental := lowered.chunks }
  (.ok ⟨lowered.output.text, metadata, s.performance false⟩,
    s.store job lowered.output.text metadata)

/-- What was known when a job failed. -/
def circumstances (job : Job) (failure : BackendFailure) : Circumstances where
  detectionPath := job.detection.path
  features := job.detection.featureNames
  frameworks := job.detection.frameworkNames
  configuration := job.configuration.canonicalText
  backendMessage := failure.message

/-- The account of a job that the backend could not lower. -/
def accountFor (s : Session) (job : Job) (failure : BackendFailure) : Failure :=
  let account := Failure.ofBackend s.registry failure job.source job.configuration job.detection
  { account with circumstances := if s.debug then some (circumstances job failure) else none }

/-- The outcome of a job that the backend could not lower: worked around,
or else failed. -/
def answerFailure (s : Session) (job : Job) (failure : BackendFailure) :
    Except Failure Lowering × Session :=
  let account := s.accountFor job failure
  match account.recovery with
  | some recovery =>
    let metadata := { job.metadata with recovered := true, warnings := recovery.warnings }
    (.ok ⟨recovery.loweredText, metadata, s.performance false⟩, s.countRecovery)
  | none => (.error { account with performance := some (s.performance false) }, s.countFailure)

/-! ## Transforming -/

/-- Lowers a job that was not found in the cache. -/
def transformMissed (s : Session) (tools : Tools m) (job : Job) :
    m (Except Failure Lowering × Session) := do
  let (result, s) ← s.relieve.lower tools job
  match result with
  | .ok lowered => return s.answerLowered job lowered
  | .error failure => return s.answerFailure job failure

/-- Lowers a text as requested. -/
def transform (s : Session) (tools : Tools m) (source : String) (options : RequestOptions) :
    m (Except Failure Lowering × Session) := do
  let s := s.countTransform
  let job := s.prepare tools source options
  let (entry, s) := s.lookup job
  match entry with
  | some entry => return s.answerHit entry
  | none => s.transformMissed tools job

end Downlevel.Session
