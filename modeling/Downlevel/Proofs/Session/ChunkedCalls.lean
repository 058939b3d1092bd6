/-
Downlevel.Proofs.Session.ChunkedCalls — what one call does to the chunks of
files.

A large text of a known file is compiled as the present state of that file,
and where a chunk fails the file is forgotten and the text lowered as a
whole. `callEffect` is the whole account of it: a call that hits leaves the
chunks alone, and so does one that is not lowered by chunks; a call that is
leaves the records of its own compilation, or none.

The text of a compilation and the records that it leaves are the same
thing seen twice, so whatever is known of the records is known of the text.
-/
import Downlevel.Proofs.Chunk.Compile
import Downlevel.Proofs.Session.Steps

namespace Downlevel.Session

/-! ## Outcomes -/

/-- The text that a backend gives, where it gives one. -/
def lowered? (tools : Tools Id) : LoweredText := fun text c =>
  match (tools.backend text c).run with
  | .output output => some output.text
  | _ => none

/-- Whether a lowering was put together from chunks just now. -/
def isByChunks (lowering : Lowering) : Bool :=
  lowering.metadata.incremental.isSome && !lowering.performance.cacheHit

/-- The outcome of a call whose text was lowered as a whole, if at all. -/
def IsWhole (outcome : Except Failure Lowering) : Prop :=
  ∀ lowering, outcome = .ok lowering →
    lowering.performance.cacheHit = false ∧ lowering.metadata.incremental = none

/-! ## Lowering a job -/

/-- What lowering a job comes to, and what it leaves of the chunks. -/
inductive LowerEffect (tools : Tools Id) (s : Session) (job : Job) :
    Except BackendFailure Lowered → ChunkStore → Prop
  | whole {result : Except BackendFailure Lowered} :
      s.chunkedFile? job = none → (∀ lowered, result = .ok lowered → lowered.chunks = none) →
      LowerEffect tools s job result s.chunks
  | compiled {file : String} {records : List ChunkRecord} {tally : ChunkTally}
      {lower : String → ExceptT BackendFailure Id String} :
      s.chunkedFile? job = some file →
      (∀ t o, (lower t).run.run = .ok o → lowered? tools t job.configuration = some o) →
      ((s.chunks.diff s.settings.chunkLines file job.source).lowerAll lower
        (s.chunks.recordsOf file)).run.run = .ok records →
      LowerEffect tools s job (.ok ⟨⟨ChunkRecord.joined records, []⟩, some tally⟩)
        (s.chunks.commit file records)
  | failed {file : String} {result : Except BackendFailure Lowered} :
      s.chunkedFile? job = some file →
      (∀ lowered, result = .ok lowered → lowered.chunks = none) →
      LowerEffect tools s job result (s.chunks.erase file)

variable {tools : Tools Id}

theorem chunks_of_lowerWhole {s : Session} {job : Job} {lowered : Lowered}
    (h : (s.lowerWhole tools job).run.1 = .ok lowered) : lowered.chunks = none := by
  rw [run_lowerWhole] at h
  cases hreply : (tools.backend job.source job.configuration).run.within
      s.settings.backendTimeout with
  | error failure =>
    rw [hreply] at h
    cases h
  | ok output =>
    rw [hreply] at h
    obtain rfl := Except.ok.inj h
    rfl

/-- Lowers a chunk with the backend. -/
def lowerChunk (s : Session) (tools : Tools Id) (c : Configuration) (chunk : String) :
    ExceptT BackendFailure Id String := do
  return (← s.invoke tools c chunk).text

theorem lowered?_of_lowerChunk {s : Session} {c : Configuration} {chunk text : String}
    (h : (s.lowerChunk tools c chunk).run.run = .ok text) : lowered? tools chunk c = some text := by
  rw [lowerChunk] at h
  simp only [ExceptT.run_bind, Id.run_bind, run_invoke] at h
  cases hreply : (tools.backend chunk c).run.within s.settings.backendTimeout with
  | error failure =>
    rw [hreply] at h
    cases h
  | ok output =>
    rw [hreply] at h
    obtain rfl := Except.ok.inj h
    rw [lowered?, output_of_within hreply]

/-- Lowering by chunks is compiling the text as the state of the file, or
lowering it as a whole where that fails. -/
theorem run_lowerChunks (s : Session) (job : Job) (file : String) :
    let t := s.countIncrementalRun
    (s.lowerChunks tools job file).run
      = match (t.chunks.compile t.settings.chunkLines file job.source
          (t.lowerChunk tools job.configuration)).run with
        | (.ok (text, tally), chunks) =>
          (.ok ⟨⟨text, []⟩, some tally⟩, { t with chunks := chunks })
        | (.error _, chunks) =>
          (({ t with chunks := chunks }.forgetChunks file).lowerWhole tools job).run := by
  intro t
  unfold lowerChunks lowerChunk
  simp only [Id.run_bind]
  rcases (t.chunks.compile t.settings.chunkLines file job.source fun chunk => do
    return (← t.invoke tools job.configuration chunk).text).run with ⟨result, chunks⟩
  cases result with
  | ok r => rfl
  | error failure => rfl

theorem lowerEffect (tools : Tools Id) (s : Session) (job : Job) :
    LowerEffect tools s job (s.lower tools job).run.1 (s.lower tools job).run.2.chunks := by
  cases hfile : s.chunkedFile? job with
  | none =>
    rw [run_lower_of_none hfile]
    exact .whole hfile fun _ h => chunks_of_lowerWhole h
  | some file =>
    have hlower : (s.lower tools job).run = (s.lowerChunks tools job file).run := by
      rw [lower, hfile]
    rw [hlower, run_lowerChunks, ChunkStore.run_compile]
    let t := s.countIncrementalRun
    cases hall : ((t.chunks.diff t.settings.chunkLines file job.source).lowerAll
        (t.lowerChunk tools job.configuration) (t.chunks.recordsOf file)).run.run with
    | ok records => exact .compiled hfile (fun _ _ => lowered?_of_lowerChunk) hall
    | error failure => exact .failed hfile fun _ h => chunks_of_lowerWhole h

/-! ## Calls -/

/-- What a call comes to, and what it leaves of the chunks. -/
inductive CallEffect (tools : Tools Id) (s : Session) (job : Job) :
    Except Failure Lowering → ChunkStore → Prop
  | hit {lowering : Lowering} :
      lowering.performance.cacheHit = true → CallEffect tools s job (.ok lowering) s.chunks
  | whole {outcome : Except Failure Lowering} :
      s.chunkedFile? job = none → IsWhole outcome → CallEffect tools s job outcome s.chunks
  | compiled {file : String} {records : List ChunkRecord} {lowering : Lowering}
      {lower : String → ExceptT BackendFailure Id String} :
      s.chunkedFile? job = some file →
      (∀ t o, (lower t).run.run = .ok o → lowered? tools t job.configuration = some o) →
      ((s.chunks.diff s.settings.chunkLines file job.source).lowerAll lower
        (s.chunks.recordsOf file)).run.run = .ok records →
      lowering.text = ChunkRecord.joined records → isByChunks lowering = true →
      CallEffect tools s job (.ok lowering) (s.chunks.commit file records)
  | failed {file : String} {outcome : Except Failure Lowering} :
      s.chunkedFile? job = some file → IsWhole outcome →
      CallEffect tools s job outcome (s.chunks.erase file)

theorem isWhole_answerLowered {s : Session} {job : Job} {lowered : Lowered}
    (h : lowered.chunks = none) : IsWhole (s.answerLowered job lowered).1 := by
  intro lowering hlowering
  obtain rfl := Except.ok.inj hlowering
  exact ⟨rfl, h⟩

theorem isWhole_answerFailure (s : Session) (job : Job) (failure : BackendFailure) :
    IsWhole (s.answerFailure job failure).1 := by
  intro lowering hlowering
  rcases s.answerFailure_cases job failure with ⟨made, hworkaround, heq⟩ | ⟨account, heq⟩
  · rw [heq] at hlowering
    obtain rfl := Except.ok.inj hlowering
    exact ⟨hworkaround.cacheHit, hworkaround.incremental⟩
  · rw [heq] at hlowering
    cases hlowering

/-- What a call does to the chunks depends on the setup and the chunks
only. -/
theorem CallEffect.congr {s t : Session} {job : Job} {outcome : Except Failure Lowering}
    {chunks : ChunkStore} (hsetup : s.SameSetup t) (hchunks : t.chunks = s.chunks)
    (h : CallEffect tools t job outcome chunks) : CallEffect tools s job outcome chunks := by
  have hfile := hsetup.chunkedFile? job
  cases h with
  | hit hcache =>
    rw [hchunks]
    exact .hit hcache
  | whole hnone hwhole =>
    rw [hchunks]
    exact .whole (hfile.symm.trans hnone) hwhole
  | compiled hsome hlower hall htext hby =>
    rw [hchunks, hsetup.settings] at hall
    rw [hchunks]
    exact .compiled (hfile.symm.trans hsome) hlower hall htext hby
  | failed hsome hwhole =>
    rw [hchunks]
    exact .failed (hfile.symm.trans hsome) hwhole

theorem callEffect_transformMissed (s : Session) (job : Job) :
    CallEffect tools s job (s.transformMissed tools job).run.1
      (s.transformMissed tools job).run.2.chunks := by
  have heffect := lowerEffect tools s.relieve job
  refine CallEffect.congr s.sameSetup_relieve s.chunks_relieve ?_
  rw [run_transformMissed]
  rcases hlower : (s.relieve.lower tools job).run with ⟨result, t⟩
  rw [hlower] at heffect
  cases result with
  | ok lowered =>
    have hchunks := t.chunks_answerLowered job lowered
    simp only [hchunks]
    generalize t.chunks = chunks at heffect
    cases heffect with
    | whole hnone hresult => exact .whole hnone (isWhole_answerLowered (hresult lowered rfl))
    | compiled hsome hchunk hall => exact .compiled hsome hchunk hall rfl rfl
    | failed hsome hresult => exact .failed hsome (isWhole_answerLowered (hresult lowered rfl))
  | error failure =>
    have hchunks := t.chunks_answerFailure job failure
    simp only [hchunks]
    generalize t.chunks = chunks at heffect
    cases heffect with
    | whole hnone _ => exact .whole hnone (t.isWhole_answerFailure job failure)
    | failed hsome _ => exact .failed hsome (t.isWhole_answerFailure job failure)

/-- **What a call does to the chunks of files.** -/
theorem callEffect (s : Session) (source : String) (options : RequestOptions) :
    CallEffect tools s (s.prepare tools source options)
      (s.transform tools source options).run.1
      (s.transform tools source options).run.2.chunks := by
  let job := s.countTransform.prepare tools source options
  have hcount : s.SameSetup s.countTransform := ⟨rfl, rfl, rfl⟩
  have hsetup := hcount.trans (s.countTransform.sameSetup_lookup job)
  have hchunks : (s.countTransform.lookup job).2.chunks = s.chunks :=
    s.countTransform.chunks_lookup job
  rw [run_transform]
  rcases hlookup : s.countTransform.lookup job with ⟨entry, t⟩
  rw [hlookup] at hsetup hchunks
  cases entry with
  | some entry => exact CallEffect.congr hsetup hchunks (.hit rfl)
  | none => exact CallEffect.congr hsetup hchunks (t.callEffect_transformMissed job)

end Downlevel.Session
