/-
Downlevel.Proofs.Session.Answers — how the outcome of a call comes about.

A call returns what it found, or what the backend made of its text, or what
the rules made of it, or it fails. `answer` is this account, and it shows
what the metadata of a lowering can be: of a text that was found it is what
was kept with the text, and otherwise it tells of the call itself
(`Tells`).

Of a text that the backend made, the warnings are those of the backend
where the text was lowered as a whole, and none where it was put together
from chunks (`backend_of_lower`).
-/
import Downlevel.Proofs.Session.ChunkedCalls

namespace Downlevel.Session

variable {tools : Tools Id} {s : Session} {job : Job}

/-! ## Metadata -/

/-- The metadata tells of the configuration of the job and of what was found
out about its text. -/
structure Tells (job : Job) (metadata : Lowering.Metadata) : Prop where
  appliedModules : metadata.appliedModules = job.configuration.moduleNames
  features : metadata.features = job.detection.featureNames
  frameworks : metadata.frameworks = job.detection.frameworkNames

/-- The metadata of a text that the backend made for the job. -/
def Job.metadataOf (job : Job) (lowered : Lowered) : Lowering.Metadata :=
  { job.metadata with warnings := lowered.output.warnings, incremental := lowered.chunks }

theorem tells_metadataOf (job : Job) (lowered : Lowered) : Tells job (job.metadataOf lowered) :=
  ⟨rfl, rfl, rfl⟩

theorem tells_answerFailure {failure : BackendFailure} {lowering : Lowering}
    (h : (s.answerFailure job failure).1 = .ok lowering) : Tells job lowering.metadata := by
  unfold answerFailure at h
  cases hrecovery : (s.accountFor job failure).recovery with
  | some recovery =>
    simp only [hrecovery] at h
    obtain rfl := Except.ok.inj h
    exact ⟨rfl, rfl, rfl⟩
  | none =>
    simp only [hrecovery] at h
    cases h

/-! ## What the backend made -/

/-- Where a text was lowered as a whole, the output is that of the backend;
where it was put together from chunks, there are no warnings. -/
theorem backend_of_lower {lowered : Lowered} (h : (s.lower tools job).run.1 = .ok lowered) :
    (lowered.chunks = none
        ∧ (tools.backend job.source job.configuration).run = .output lowered.output)
      ∨ (lowered.chunks.isSome ∧ lowered.output.warnings = []) := by
  have hwhole : ∀ {t : Session}, (t.lowerWhole tools job).run.1 = .ok lowered →
      lowered.chunks = none
        ∧ (tools.backend job.source job.configuration).run = .output lowered.output := by
    intro t ht
    rw [run_lowerWhole] at ht
    cases hreply : (tools.backend job.source job.configuration).run.within
        t.settings.backendTimeout with
    | error failure =>
      rw [hreply] at ht
      cases ht
    | ok output =>
      rw [hreply] at ht
      obtain rfl := Except.ok.inj ht
      exact ⟨rfl, output_of_within hreply⟩
  cases hfile : s.chunkedFile? job with
  | none =>
    rw [run_lower_of_none hfile] at h
    exact .inl (hwhole h)
  | some file =>
    have hlower : (s.lower tools job).run = (s.lowerChunks tools job file).run := by
      rw [lower, hfile]
    rw [hlower, run_lowerChunks] at h
    split at h
    · obtain rfl := Except.ok.inj h
      exact .inr ⟨rfl, rfl⟩
    · exact .inl (hwhole h)

/-! ## Outcomes -/

/-- How the outcome of a job comes about. -/
inductive Answer (tools : Tools Id) (s : Session) (job : Job) : Except Failure Lowering → Prop
  | found {entry : CacheEntry} {performance : Performance} :
      (s.lookup job).1 = some entry → performance.cacheHit = true →
      Answer tools s job (.ok ⟨entry.text, entry.metadata, performance⟩)
  | made {t : Session} {lowered : Lowered} {performance : Performance} :
      (s.lookup job).1 = none → (t.lower tools job).run.1 = .ok lowered →
      performance.cacheHit = false →
      Answer tools s job (.ok ⟨lowered.output.text, job.metadataOf lowered, performance⟩)
  | workedAround {lowering : Lowering} :
      (s.lookup job).1 = none → IsWorkaround lowering → Tells job lowering.metadata →
      Answer tools s job (.ok lowering)
  | failed {account : Failure} :
      (s.lookup job).1 = none → Answer tools s job (.error account)

/-- **How the outcome of a call comes about.** -/
theorem answer (tools : Tools Id) (s : Session) (source : String) (options : RequestOptions) :
    Answer tools s.countTransform (s.prepare tools source options)
      (s.transform tools source options).run.1 := by
  rcases hlookup : s.countTransform.lookup (s.prepare tools source options) with ⟨entry, t⟩
  have hfound : (s.countTransform.lookup (s.prepare tools source options)).1 = entry := by
    rw [hlookup]
  cases entry with
  | some entry =>
    rw [transform_of_hit hlookup]
    exact .found hfound rfl
  | none =>
    rw [transform_of_miss hlookup, run_transformMissed]
    rcases hlower : (t.relieve.lower tools (s.prepare tools source options)).run with ⟨result, u⟩
    cases result with
    | ok lowered =>
      have hmade : (t.relieve.lower tools (s.prepare tools source options)).run.1
          = .ok lowered := by rw [hlower]
      exact .made hfound hmade rfl
    | error failure =>
      rcases u.answerFailure_cases (s.prepare tools source options) failure with
        ⟨lowering, hworkaround, heq⟩ | ⟨account, heq⟩
      · have hok : (u.answerFailure (s.prepare tools source options) failure).1 = .ok lowering := by
          rw [heq]
        simp only [hok]
        exact .workedAround hfound hworkaround (tells_answerFailure hok)
      · simp only [heq]
        exact .failed hfound

/-- What a call returns that it has not found tells of the call. -/
theorem tells_of_missed {source : String} {options : RequestOptions} {lowering : Lowering}
    (hok : (s.transform tools source options).run.1 = .ok lowering)
    (hmissed : lowering.performance.cacheHit = false) :
    Tells (s.prepare tools source options) lowering.metadata := by
  have hanswer := answer tools s source options
  rw [hok] at hanswer
  cases hanswer with
  | found _ hhit =>
    rw [hhit] at hmissed
    cases hmissed
  | made _ _ _ => exact tells_metadataOf _ _
  | workedAround _ _ htells => exact htells

end Downlevel.Session
