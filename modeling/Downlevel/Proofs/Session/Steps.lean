/-
Downlevel.Proofs.Session.Steps — what the steps of a session leave alone.

Settings, base layer and registry make up the setup of a session. A call
never changes them (`SameSetup`), so how a request is prepared does not
depend on what other calls have done meanwhile.

The other two sections follow the caches: which steps can change the
lowered texts, and into what, and which leave the chunks of files alone.
-/
import Downlevel.Proofs.Cache.Contents
import Downlevel.Session.Transform

namespace Downlevel.Session

/-! ## Setup -/

/-- The second session differs from the first at most in what changes
while sessions are at work. -/
structure SameSetup (s t : Session) : Prop where
  settings : t.settings = s.settings
  base : t.base = s.base
  registry : t.registry = s.registry

namespace SameSetup

variable {s t u : Session}

theorem refl (s : Session) : s.SameSetup s := ⟨rfl, rfl, rfl⟩

theorem trans (h : s.SameSetup t) (k : t.SameSetup u) : s.SameSetup u :=
  ⟨k.settings.trans h.settings, k.base.trans h.base, k.registry.trans h.registry⟩

theorem configurationFor (h : s.SameSetup t) (d : Detection) (options : RequestOptions) :
    t.configurationFor d options = s.configurationFor d options := by
  rw [Session.configurationFor, Session.configurationFor, h.registry, h.base]

/-- A request is prepared alike. -/
theorem prepare {m : Type → Type} (h : s.SameSetup t) (tools : Tools m) (source : String)
    (options : RequestOptions) :
    t.prepare tools source options = s.prepare tools source options := by
  rw [Session.prepare, Session.prepare, h.configurationFor]

theorem chunkedFile? (h : s.SameSetup t) (job : Job) :
    t.chunkedFile? job = s.chunkedFile? job := by
  rw [Session.chunkedFile?, Session.chunkedFile?, h.settings]

end SameSetup

theorem sameSetup_lookup (s : Session) (job : Job) : s.SameSetup (s.lookup job).2 := by
  unfold lookup
  split
  · exact .refl s
  · exact ⟨rfl, rfl, rfl⟩

theorem sameSetup_reclaim (s : Session) : s.SameSetup s.reclaim.2 := ⟨rfl, rfl, rfl⟩

theorem sameSetup_relieve (s : Session) : s.SameSetup s.relieve := by
  unfold relieve
  split
  · exact s.sameSetup_reclaim
  · exact .refl s

theorem sameSetup_store (s : Session) (job : Job) (text : String) (metadata : Lowering.Metadata) :
    s.SameSetup (s.store job text metadata) := by
  unfold store
  split
  · exact .refl s
  · exact ⟨rfl, rfl, rfl⟩

theorem sameSetup_answerLowered (s : Session) (job : Job) (lowered : Lowered) :
    s.SameSetup (s.answerLowered job lowered).2 :=
  s.sameSetup_store job _ _

/-- A lowering that made up for a failure: it says so, and it was neither
found nor put together from chunks. -/
structure IsWorkaround (lowering : Lowering) : Prop where
  recovered : lowering.metadata.recovered = true
  incremental : lowering.metadata.incremental = none
  cacheHit : lowering.performance.cacheHit = false

/-- A failure is worked around or passed on. Either way it is only
counted. -/
theorem answerFailure_cases (s : Session) (job : Job) (failure : BackendFailure) :
    (∃ lowering, IsWorkaround lowering
        ∧ s.answerFailure job failure = (.ok lowering, s.countRecovery))
      ∨ ∃ account, s.answerFailure job failure = (.error account, s.countFailure) := by
  unfold answerFailure
  cases hrecovery : (s.accountFor job failure).recovery with
  | some recovery =>
    refine .inl ⟨⟨recovery.loweredText,
      { job.metadata with recovered := true, warnings := recovery.warnings },
      s.performance false⟩, ⟨rfl, rfl, rfl⟩, ?_⟩
    simp only [hrecovery]
  | none =>
    refine .inr ⟨{ s.accountFor job failure with performance := some (s.performance false) }, ?_⟩
    simp only [hrecovery]

theorem sameSetup_answerFailure (s : Session) (job : Job) (failure : BackendFailure) :
    s.SameSetup (s.answerFailure job failure).2 := by
  rcases s.answerFailure_cases job failure with ⟨_, _, heq⟩ | ⟨_, heq⟩
  · rw [heq]
    exact ⟨rfl, rfl, rfl⟩
  · rw [heq]
    exact ⟨rfl, rfl, rfl⟩

/-! ## Lowering as a whole -/

variable {tools : Tools Id}

theorem run_invoke (s : Session) (c : Configuration) (source : String) :
    (s.invoke tools c source).run
      = (tools.backend source c).run.within s.settings.backendTimeout := rfl

theorem run_lowerWhole (s : Session) (job : Job) :
    (s.lowerWhole tools job).run
      = (((tools.backend job.source job.configuration).run.within
          s.settings.backendTimeout).map fun output => ⟨output, none⟩, s) := rfl

theorem run_lower_of_none {s : Session} {job : Job} (h : s.chunkedFile? job = none) :
    (s.lower tools job).run = (s.lowerWhole tools job).run := by
  rw [lower, h]

theorem sameSetup_lower (tools : Tools Id) (s : Session) (job : Job) :
    s.SameSetup (s.lower tools job).run.2 := by
  rw [lower]
  split
  · next file _ =>
    rw [lowerChunks]
    simp only [Id.run_bind]
    split
    · exact ⟨rfl, rfl, rfl⟩
    · exact ⟨rfl, rfl, rfl⟩
  · exact .refl s

/-- Only an output is taken for a lowered text. -/
theorem output_of_within {limit : Option Nat} {reply : BackendReply} {output : BackendOutput}
    (h : reply.within limit = .ok output) : reply = .output output := by
  cases reply with
  | output o => rw [Except.ok.inj h]
  | failure f => cases h
  | silence => cases h

/-! ## Whole calls -/

theorem run_transformMissed (s : Session) (job : Job) :
    (s.transformMissed tools job).run
      = match (s.relieve.lower tools job).run with
        | (.ok lowered, t) => t.answerLowered job lowered
        | (.error failure, t) => t.answerFailure job failure := by
  simp only [transformMissed, Id.run_bind]
  rcases (s.relieve.lower tools job).run with ⟨result, t⟩
  cases result with
  | ok lowered => rfl
  | error failure => rfl

theorem run_transform (s : Session) (source : String) (options : RequestOptions) :
    let job := s.countTransform.prepare tools source options
    (s.transform tools source options).run
      = match s.countTransform.lookup job with
        | (some entry, t) => t.answerHit entry
        | (none, t) => (t.transformMissed tools job).run := by
  intro job
  simp only [transform]
  rcases s.countTransform.lookup job with ⟨entry, t⟩
  cases entry with
  | some entry => rfl
  | none => rfl

/-- A call that finds its text is done. -/
theorem transform_of_hit {m : Type → Type} [Monad m] {tools : Tools m} {s t : Session}
    {source : String} {options : RequestOptions} {entry : CacheEntry}
    (h : s.countTransform.lookup (s.prepare tools source options) = (some entry, t)) :
    s.transform tools source options = pure (t.answerHit entry) := by
  have hfound : s.countTransform.lookup (s.countTransform.prepare tools source options)
      = (some entry, t) := h
  simp only [transform, hfound]

theorem transform_of_miss {m : Type → Type} [Monad m] {tools : Tools m} {s t : Session}
    {source : String} {options : RequestOptions}
    (h : s.countTransform.lookup (s.prepare tools source options) = (none, t)) :
    s.transform tools source options
      = t.transformMissed tools (s.prepare tools source options) := by
  have hmissed : s.countTransform.lookup (s.countTransform.prepare tools source options)
      = (none, t) := h
  simp only [transform, hmissed]
  rfl

theorem sameSetup_transformMissed (s : Session) (job : Job) :
    s.SameSetup (s.transformMissed tools job).run.2 := by
  have hlower := s.sameSetup_relieve.trans (sameSetup_lower tools s.relieve job)
  rw [run_transformMissed]
  rcases hrun : (s.relieve.lower tools job).run with ⟨result, t⟩
  rw [hrun] at hlower
  cases result with
  | ok lowered => exact hlower.trans (t.sameSetup_answerLowered job lowered)
  | error failure => exact hlower.trans (t.sameSetup_answerFailure job failure)

theorem sameSetup_transform (tools : Tools Id) (s : Session) (source : String)
    (options : RequestOptions) : s.SameSetup (s.transform tools source options).run.2 := by
  let job := s.countTransform.prepare tools source options
  have hcount : s.SameSetup s.countTransform := ⟨rfl, rfl, rfl⟩
  have hlookup := hcount.trans (s.countTransform.sameSetup_lookup job)
  rw [run_transform]
  rcases hrun : s.countTransform.lookup job with ⟨entry, t⟩
  rw [hrun] at hlookup
  cases entry with
  | some entry => exact hlookup.trans ⟨rfl, rfl, rfl⟩
  | none => exact hlookup.trans (t.sameSetup_transformMissed job)

/-! ## Lowered texts -/

section Texts

variable {P : String → String → Lowering.Metadata → Prop} {s : Session}

theorem holds_lookup (h : s.cache.Holds P) (job : Job) : (s.lookup job).2.cache.Holds P := by
  unfold lookup
  split
  · exact h
  · exact h.lookup s.clock job.key

/-- What is found was kept under the key of the job. -/
theorem holds_of_lookup (h : s.cache.Holds P) {job : Job} {entry : CacheEntry}
    (hfound : (s.lookup job).1 = some entry) : P job.key entry.text entry.metadata := by
  unfold lookup at hfound
  split at hfound
  · cases hfound
  · exact h.of_lookup hfound

theorem holds_reclaim (h : s.cache.Holds P) : s.reclaim.2.cache.Holds P :=
  h.shrink s.settings.pressureShrinkFraction

theorem holds_relieve (h : s.cache.Holds P) : s.relieve.cache.Holds P := by
  unfold relieve
  split
  · exact holds_reclaim h
  · exact h

theorem cache_store (s : Session) (job : Job) (text : String) (metadata : Lowering.Metadata) :
    (s.store job text metadata).cache
      = if job.options.bypassCache then s.cache
        else (s.cache.store s.clock job.key text metadata).2 := by
  by_cases hbypass : job.options.bypassCache = true
  · rw [store, if_pos hbypass, if_pos hbypass]
  · rw [store, if_neg hbypass, if_neg hbypass]

theorem holds_store (h : s.cache.Holds P) {job : Job} {text : String}
    {metadata : Lowering.Metadata} (hnew : P job.key text metadata) :
    (s.store job text metadata).cache.Holds P := by
  have hstore := h.store s.clock hnew
  rw [cache_store]
  split
  · exact h
  · exact hstore

theorem cache_answerFailure (s : Session) (job : Job) (failure : BackendFailure) :
    (s.answerFailure job failure).2.cache = s.cache := by
  rcases s.answerFailure_cases job failure with ⟨_, _, heq⟩ | ⟨_, heq⟩
  · rw [heq]
    rfl
  · rw [heq]
    rfl

theorem holds_answerFailure (h : s.cache.Holds P) (job : Job) (failure : BackendFailure) :
    (s.answerFailure job failure).2.cache.Holds P := by
  rw [s.cache_answerFailure]
  exact h

theorem holds_cleanup (h : s.cache.Holds P) : s.cleanup.2.cache.Holds P :=
  h.cleanup s.clock

end Texts

/-! ## Chunks of files -/

theorem chunks_lookup (s : Session) (job : Job) : (s.lookup job).2.chunks = s.chunks := by
  unfold lookup
  split <;> rfl

theorem chunks_relieve (s : Session) : s.relieve.chunks = s.chunks := by
  unfold relieve
  split <;> rfl

theorem chunks_answerLowered (s : Session) (job : Job) (lowered : Lowered) :
    (s.answerLowered job lowered).2.chunks = s.chunks := by
  unfold answerLowered store
  split <;> rfl

theorem chunks_answerFailure (s : Session) (job : Job) (failure : BackendFailure) :
    (s.answerFailure job failure).2.chunks = s.chunks := by
  rcases s.answerFailure_cases job failure with ⟨_, _, heq⟩ | ⟨_, heq⟩
  · rw [heq]
    rfl
  · rw [heq]
    rfl

/-! ## A backend to try things with -/

/-- A backend that names the edition it lowers to. -/
def labelling : Tools Id where
  parser := fun _ _ => none
  backend := fun source c => .output ⟨c.targetEnvironment.name ++ ": " ++ source, []⟩

/-- A request that settles everything but the edition itself. -/
def plainRequest (edition : Edition) : RequestOptions :=
  { RequestOptions.standard with
    configuration := ⟨some [], some edition, some .auto, .empty, none⟩
    skipDetection := true }

end Downlevel.Session
