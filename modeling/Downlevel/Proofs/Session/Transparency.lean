/-
Downlevel.Proofs.Session.Transparency — the cache does not show in what
calls return.

Whatever calls are in flight and however their steps fall between those of
others, between clearings, clean-ups and moves of the clock: a lowering
that a call returns, unless it was worked around, is what the backend makes
of its source text under the configuration resolved for it. This is said of
runs in which no text is lowered by chunks (`System.lowersWhole`); a text
that could be may be found.

The invariant is `Truthful`. Every entry of the cache was lowered for some
call under the key of that call, and what a call has in hand was lowered
for itself or for another call with its key. Keys tell source texts and
canonical texts apart. They tell configurations apart where identifiers come
from names; otherwise a call may be given what was lowered for a
configuration that is only written like its own
(`cache_shows_between_spellings`).
-/
import Downlevel.Compiler
import Downlevel.Proofs.Cache.Key
import Downlevel.Proofs.Session.Calls

namespace Downlevel.Session

variable {tools : Tools Id}

/-! ## Runs without chunks -/

namespace System

/-- The event has a text lowered by chunks. -/
def lowersChunks (sys : System) : Event → Bool
  | .proceed index =>
    match sys.calls[index]? with
    | some ⟨job, .relieved⟩ => (sys.session.chunkedFile? job).isSome
    | _ => false
  | _ => false

/-- No event of a run has a text lowered by chunks. -/
def lowersWhole (tools : Tools Id) (sys : System) : List Event → Bool
  | [] => true
  | event :: rest => !sys.lowersChunks event && lowersWhole tools (sys.step tools event) rest

theorem lowersWhole_cons {sys : System} {event : Event} {rest : List Event} :
    sys.lowersWhole tools (event :: rest) = true
      ↔ sys.lowersChunks event = false ∧ (sys.step tools event).lowersWhole tools rest = true := by
  rw [lowersWhole, Bool.and_eq_true, Bool.not_eq_true']

/-- A call that is about to have its text lowered has it lowered as a whole. -/
theorem chunkedFile?_eq_none {sys : System} {index : Nat} {call : Call}
    (h : sys.lowersChunks (.proceed index) = false) (hcall : sys.calls[index]? = some call)
    (hstage : call.stage = .relieved) : sys.session.chunkedFile? call.job = none := by
  obtain ⟨job, stage⟩ := call
  obtain rfl : stage = .relieved := hstage
  simp only [lowersChunks, hcall] at h
  exact Option.isNone_iff_eq_none.mp (Option.isSome_eq_false_iff.mp h)

end System

/-! ## Keys of jobs -/

/-- The texts that enter into the keys of some jobs. -/
def hashedTexts (jobs : List Job) : Set String :=
  {text | ∃ job ∈ jobs, text = job.source ∨ text = job.configuration.canonicalText}

theorem hashedTexts_eq (jobs : List Job) :
    hashedTexts jobs
      = {text | text ∈ jobs.flatMap fun job => [job.source, job.configuration.canonicalText]} := by
  ext text
  simp [hashedTexts]

/-- The text is what the backend makes of the job. -/
def Job.IsLoweredTo (tools : Tools Id) (job : Job) (text : String) : Prop :=
  ∃ warnings, (tools.backend job.source job.configuration).run = .output ⟨text, warnings⟩

/-- A key shows the texts of its job. -/
theorem texts_eq_of_key_eq {jobs : List Job} (hfree : Digest.CollisionFree (hashedTexts jobs))
    {job other : Job} (hjob : job ∈ jobs) (hother : other ∈ jobs) (hkey : job.key = other.key) :
    job.source = other.source
      ∧ job.configuration.canonicalText = other.configuration.canonicalText := by
  have hsub : {job.source, other.source, job.configuration.canonicalText,
      other.configuration.canonicalText} ⊆ hashedTexts jobs := by
    rintro text (rfl | rfl | rfl | rfl)
    · exact ⟨job, hjob, .inl rfl⟩
    · exact ⟨other, hother, .inl rfl⟩
    · exact ⟨job, hjob, .inr rfl⟩
    · exact ⟨other, hother, .inr rfl⟩
  exact Cache.texts_eq_of_key_eq (hfree.mono hsub) hkey

/-! ## The invariant -/

/-- The text was lowered for one of the jobs, under its key. -/
def IsLoweredFor (tools : Tools Id) (jobs : List Job) (key text : String)
    (_metadata : Lowering.Metadata) : Prop :=
  ∃ job ∈ jobs, job.key = key ∧ job.IsLoweredTo tools text

/-- What a call has in hand was lowered for it, or for a job with its key. -/
def Stage.IsTruthful (tools : Tools Id) (jobs : List Job) (job : Job) : Stage → Prop
  | .lowered (.ok result) => job.IsLoweredTo tools result.output.text
  | .done (.ok lowering) =>
    lowering.metadata.recovered = false →
      IsLoweredFor tools jobs job.key lowering.text lowering.metadata
  | _ => True

/-- What holds of a system after every event: nothing in it is made up. -/
structure Truthful (tools : Tools Id) (s : Session) (jobs : List Job) (sys : System) : Prop where
  setup : s.SameSetup sys.session
  cache : sys.session.cache.Holds (IsLoweredFor tools jobs)
  known : ∀ call ∈ sys.calls, call.job ∈ jobs
  stages : ∀ call ∈ sys.calls, call.stage.IsTruthful tools jobs call.job

/-! ## Steps -/

/-- What one step of a job keeps. -/
structure StepKeeps (tools : Tools Id) (jobs : List Job) (s : Session) (job : Job)
    (r : Stage × Session) : Prop where
  setup : s.SameSetup r.2
  cache : r.2.cache.Holds (IsLoweredFor tools jobs)
  stage : r.1.IsTruthful tools jobs job

section Steps

variable {jobs : List Job} {s : Session} {job : Job}

/-- A lookup may find what was lowered for another job with the same key. -/
theorem stepKeeps_prepared (h : s.cache.Holds (IsLoweredFor tools jobs)) :
    StepKeeps tools jobs s job (job.step tools s .prepared) := by
  have hsetup := s.sameSetup_lookup job
  have hcache := holds_lookup h job
  rw [Job.step]
  rcases hlookup : s.lookup job with ⟨entry, t⟩
  rw [hlookup] at hsetup hcache
  cases entry with
  | none => exact ⟨hsetup, hcache, trivial⟩
  | some entry =>
    have hfound : (s.lookup job).1 = some entry := by rw [hlookup]
    exact ⟨hsetup.trans ⟨rfl, rfl, rfl⟩, hcache, fun _ => holds_of_lookup h hfound⟩

theorem stepKeeps_missed (h : s.cache.Holds (IsLoweredFor tools jobs)) :
    StepKeeps tools jobs s job (job.step tools s .missed) :=
  ⟨s.sameSetup_relieve, holds_relieve h, trivial⟩

/-- The backend is called for the job as a whole. -/
theorem stepKeeps_relieved (h : s.cache.Holds (IsLoweredFor tools jobs))
    (hwhole : s.chunkedFile? job = none) :
    StepKeeps tools jobs s job (job.step tools s .relieved) := by
  rw [Job.step, run_lower_of_none hwhole, run_lowerWhole]
  refine ⟨.refl s, h, ?_⟩
  cases hreply : (tools.backend job.source job.configuration).run.within
      s.settings.backendTimeout with
  | error failure => exact trivial
  | ok output => exact ⟨output.warnings, output_of_within hreply⟩

theorem stepKeeps_lowered (h : s.cache.Holds (IsLoweredFor tools jobs)) (hjob : job ∈ jobs)
    {result : Except BackendFailure Lowered}
    (hstage : (Stage.lowered result).IsTruthful tools jobs job) :
    StepKeeps tools jobs s job (job.step tools s (.lowered result)) := by
  cases result with
  | ok lowered =>
    exact ⟨s.sameSetup_answerLowered job lowered, holds_store h ⟨job, hjob, rfl, hstage⟩,
      fun _ => ⟨job, hjob, rfl, hstage⟩⟩
  | error failure =>
    refine ⟨s.sameSetup_answerFailure job failure, holds_answerFailure h job failure, ?_⟩
    rw [Job.step]
    rcases s.answerFailure_cases job failure with ⟨lowering, hworkaround, heq⟩ | ⟨account, heq⟩
    · rw [heq]
      intro hnot
      rw [hworkaround.recovered] at hnot
      cases hnot
    · rw [heq]
      exact trivial

/-- **Every step of a call keeps what is in the cache truthful**, and what
the call has in hand. -/
theorem stepKeeps_step (h : s.cache.Holds (IsLoweredFor tools jobs)) (hjob : job ∈ jobs)
    {stage : Stage} (hwhole : stage = .relieved → s.chunkedFile? job = none)
    (hstage : stage.IsTruthful tools jobs job) :
    StepKeeps tools jobs s job (job.step tools s stage) := by
  cases stage with
  | prepared => exact stepKeeps_prepared h
  | missed => exact stepKeeps_missed h
  | relieved => exact stepKeeps_relieved h (hwhole rfl)
  | lowered result => exact stepKeeps_lowered h hjob hstage
  | done outcome => exact ⟨.refl s, h, hstage⟩

end Steps

/-! ## Events -/

section Events

variable {jobs : List Job} {s : Session} {sys : System}

theorem Truthful.start (h : Truthful tools s jobs sys) {source : String}
    {options : RequestOptions} (hjob : s.prepare tools source options ∈ jobs) :
    Truthful tools s jobs (sys.start tools source options) := by
  have hprepare : sys.session.countTransform.prepare tools source options
      = s.prepare tools source options :=
    (h.setup.trans ⟨rfl, rfl, rfl⟩).prepare tools source options
  refine ⟨h.setup.trans ⟨rfl, rfl, rfl⟩, h.cache, ?_, ?_⟩
  · intro call hcall
    rcases List.mem_append.mp hcall with hold | hnew
    · exact h.known call hold
    · rw [List.mem_singleton.mp hnew, hprepare]
      exact hjob
  · intro call hcall
    rcases List.mem_append.mp hcall with hold | hnew
    · exact h.stages call hold
    · rw [List.mem_singleton.mp hnew]
      exact trivial

theorem Truthful.proceed (h : Truthful tools s jobs sys) {index : Nat}
    (hwhole : sys.lowersChunks (.proceed index) = false) :
    Truthful tools s jobs (sys.proceed tools index) := by
  rw [System.proceed]
  cases hcall : sys.calls[index]? with
  | none => exact h
  | some call =>
    have hmem := List.mem_of_getElem? hcall
    have hjob := h.known call hmem
    have hkeeps := stepKeeps_step h.cache hjob (System.chunkedFile?_eq_none hwhole hcall)
      (h.stages call hmem)
    refine ⟨h.setup.trans hkeeps.setup, hkeeps.cache, ?_, ?_⟩
    · intro other hother
      rcases List.mem_or_eq_of_mem_set hother with hold | rfl
      · exact h.known other hold
      · exact hjob
    · intro other hother
      rcases List.mem_or_eq_of_mem_set hother with hold | rfl
      · exact h.stages other hold
      · exact hkeeps.stage

theorem Truthful.step (h : Truthful tools s jobs sys) {event : Event}
    (hwhole : sys.lowersChunks event = false)
    (hjobs : ∀ job ∈ startedJobs tools s [event], job ∈ jobs) :
    Truthful tools s jobs (sys.step tools event) := by
  cases event with
  | start source options => exact h.start (hjobs _ (by simp [startedJobs]))
  | proceed index => exact h.proceed hwhole
  | clearCache => exact ⟨h.setup.trans ⟨rfl, rfl, rfl⟩, .clear _, h.known, h.stages⟩
  | cleanup => exact ⟨h.setup.trans ⟨rfl, rfl, rfl⟩, holds_cleanup h.cache, h.known, h.stages⟩
  | reclaim => exact ⟨h.setup.trans ⟨rfl, rfl, rfl⟩, holds_reclaim h.cache, h.known, h.stages⟩
  | advance milliseconds => exact ⟨h.setup.trans ⟨rfl, rfl, rfl⟩, h.cache, h.known, h.stages⟩
  | readMemory usage => exact ⟨h.setup.trans ⟨rfl, rfl, rfl⟩, h.cache, h.known, h.stages⟩
  | setDebug enabled => exact ⟨h.setup.trans ⟨rfl, rfl, rfl⟩, h.cache, h.known, h.stages⟩

theorem Truthful.run (h : Truthful tools s jobs sys) {events : List Event}
    (hwhole : sys.lowersWhole tools events = true)
    (hjobs : ∀ job ∈ startedJobs tools s events, job ∈ jobs) :
    Truthful tools s jobs (sys.run tools events) := by
  induction events generalizing sys with
  | nil => exact h
  | cons event rest ih =>
    obtain ⟨hevent, hrest⟩ := System.lowersWhole_cons.mp hwhole
    rw [startedJobs_cons] at hjobs
    refine ih (h.step hevent ?_) hrest ?_
    · intro job hjob
      exact hjobs job (List.mem_append_left _ hjob)
    · intro job hjob
      exact hjobs job (List.mem_append_right _ hjob)

theorem Truthful.new (settings : Settings) (base : ConfigurationLayer) (registry : Registry)
    (clock : Nat) (memory : Option MemoryUsage) (jobs : List Job) :
    Truthful tools (new settings base registry clock memory) jobs
      ⟨new settings base registry clock memory, []⟩ := by
  refine ⟨.refl _, .empty _, ?_, ?_⟩
  · intro call hcall
    cases hcall
  · intro call hcall
    cases hcall

/-- A job that came in was prepared from what the call gave. -/
theorem configuration_of_mem_startedJobs {events : List Event} {job : Job}
    (h : job ∈ startedJobs tools s events) :
    job.configuration = s.resolveConfiguration tools job.source job.options := by
  obtain ⟨event, -, hevent⟩ := List.mem_filterMap.mp h
  cases event with
  | start source options =>
    obtain rfl := Option.some.inj hevent
    rfl
  | _ => cases hevent

/-- **The cache is transparent.** Whatever events a new session sees, as
long as no text is lowered by chunks: the calls in flight are those that
came in, and each lowering that one of them has returned and that was not
worked around has the text which the backend gives for the source text
under the configuration resolved for a call with this source text and this
canonical text. If identifiers come from names, in the configurations
resolved for the calls, then this is the text that the backend gives for the
call itself — whether the text was found or lowered, looked up or not. -/
theorem cache_is_transparent (settings : Settings) (base : ConfigurationLayer)
    (registry : Registry) (clock : Nat) (memory : Option MemoryUsage) (tools : Tools Id)
    (events : List Event)
    (hwhole : System.lowersWhole tools ⟨new settings base registry clock memory, []⟩ events = true)
    (hfree : Digest.CollisionFree
      (hashedTexts (startedJobs tools (new settings base registry clock memory) events))) :
    let s := new settings base registry clock memory
    let jobs := startedJobs tools s events
    let calls := (System.run tools ⟨s, []⟩ events).calls
    calls.map (·.job) = jobs
      ∧ ∀ call ∈ calls, ∀ lowering, call.lowering? = some lowering →
        lowering.metadata.recovered = false →
        call.job.configuration
            = s.resolveConfiguration tools call.job.source call.job.options
          ∧ (∃ job ∈ jobs, job.source = call.job.source
            ∧ job.configuration.canonicalText = call.job.configuration.canonicalText
            ∧ ∃ warnings, (tools.backend job.source job.configuration).run
                = .output ⟨lowering.text, warnings⟩)
          ∧ ((∀ job ∈ jobs, job.configuration.IsNamed) →
            ∃ warnings, (tools.backend call.job.source call.job.configuration).run
              = .output ⟨lowering.text, warnings⟩) := by
  intro s jobs calls
  have hrun : Truthful tools s jobs (System.run tools ⟨s, []⟩ events) :=
    (Truthful.new settings base registry clock memory _).run hwhole fun _ hjob => hjob
  refine ⟨System.run_jobs tools (.refl s) events, ?_⟩
  intro call hcall lowering hlowering hrecovered
  have hcame := hrun.known call hcall
  have hstage := hrun.stages call hcall
  rw [Call.lowering?] at hlowering
  split at hlowering
  · next found hdone =>
    obtain rfl := Option.some.inj hlowering
    rw [hdone] at hstage
    obtain ⟨job, hjob, hkey, hlowered⟩ := hstage hrecovered
    obtain ⟨hsource, htext⟩ := texts_eq_of_key_eq hfree hjob hcame hkey
    refine ⟨configuration_of_mem_startedJobs hcame, ⟨job, hjob, hsource, htext, hlowered⟩, ?_⟩
    intro hnamed
    rw [← hsource, ← Configuration.canonicalText_injective (hnamed job hjob)
      (hnamed call.job hcame) htext]
    exact hlowered
  · cases hlowering

end Events

/-- Every text with a file could be lowered by chunks. -/
def eager : Settings := { Settings.standard with incrementalThreshold := 0 }

/-- Two calls for one text and two editions whose steps alternate, and a
third one that comes when the first text has been kept. The third one names a
file. -/
def alternating : List Event := [
  .start "let x" (plainRequest .es5), .start "let x" (plainRequest .es2017),
  .proceed 0, .proceed 1, .proceed 0, .proceed 1, .proceed 1, .proceed 0, .proceed 0,
  .advance 10, .start "let x" { plainRequest .es5 with fileKey := some "a.js" }, .proceed 2,
  .proceed 1]

/-- The third call is a hit: it gets the text that was lowered for the
first, and not the one for the other edition, and nothing is lowered by
chunks. -/
theorem cache_is_transparent_alternating :
    let s := new eager .empty .builtin 0 none
    System.lowersWhole labelling ⟨s, []⟩ alternating = true
      ∧ (∀ job ∈ startedJobs labelling s alternating, job.configuration.IsNamed)
      ∧ ∃ call ∈ (System.run labelling ⟨s, []⟩ alternating).calls, ∃ lowering,
        call.lowering? = some lowering ∧ lowering.performance.cacheHit = true
          ∧ s.chunkedFile? call.job = some "a.js"
          ∧ lowering.text = "es5: let x"
          ∧ ∃ warnings, (labelling.backend call.job.source call.job.configuration).run
              = .output ⟨lowering.text, warnings⟩ := by
  intro s
  have hwhole : System.lowersWhole labelling ⟨s, []⟩ alternating = true := by decide +kernel
  have hnamed : ∀ job ∈ startedJobs labelling s alternating, job.configuration.IsNamed := by
    decide +kernel
  have hfree : Digest.CollisionFree (hashedTexts (startedJobs labelling s alternating)) := by
    rw [hashedTexts_eq]
    exact Digest.collisionFree_of_all (by decide +kernel)
  have hhit : (System.run labelling ⟨s, []⟩ alternating).calls[2]?.bind
      (fun call => call.lowering?.map fun lowering => (s.chunkedFile? call.job, lowering))
      = some (some "a.js", ⟨"es5: let x", .empty, ⟨0.0, true, 0⟩⟩) := by
    decide +kernel
  obtain ⟨call, hcall, hfound⟩ := Option.bind_eq_some_iff.mp hhit
  obtain ⟨lowering, hlowering, heq⟩ := Option.map_eq_some_iff.mp hfound
  obtain ⟨hfile, rfl⟩ := Prod.mk.inj heq
  have hmem := List.mem_of_getElem? hcall
  obtain ⟨-, hcalls⟩ :=
    cache_is_transparent eager .empty .builtin 0 none labelling alternating hwhole hfree
  exact ⟨hwhole, hnamed, call, hmem, _, hlowering, rfl, hfile, rfl,
    (hcalls call hmem _ hlowering rfl).2.2 hnamed⟩

/-! ## Configurations that are written alike -/

/-- A compiler that leaves every text as it is. -/
def leaving : Tools Id where
  parser := fun _ _ => none
  backend := Compiler.toBackend fun source _ => .code source

/-- A request with one module. -/
def moduleRequest (id : ModuleId) : RequestOptions :=
  { plainRequest .es2022 with
    configuration := ⟨some [.plain id], some .es2022, some .auto, .empty, none⟩ }

/-- A call with a known module, and one with a custom module that has the same
name. -/
def spelledAlike : List Event :=
  .start "let x" (moduleRequest (.known .presetReact)) :: List.replicate 4 (.proceed 0)
    ++ [.start "let x" (moduleRequest (.custom "preset-react")), .proceed 1]

/-- **The cache shows** where an identifier spells the name of a known module
and is none: the second call is given what was lowered for the first, and the
compiler refuses its own configuration. -/
theorem cache_shows_between_spellings :
    let s := new .standard .empty .builtin 0 none
    System.lowersWhole leaving ⟨s, []⟩ spelledAlike = true
      ∧ Digest.CollisionFree (hashedTexts (startedJobs leaving s spelledAlike))
      ∧ ¬ ∀ call ∈ (System.run leaving ⟨s, []⟩ spelledAlike).calls, ∀ lowering,
        call.lowering? = some lowering → lowering.metadata.recovered = false →
          ∃ warnings, (leaving.backend call.job.source
              (s.resolveConfiguration leaving call.job.source call.job.options)).run
            = .output ⟨lowering.text, warnings⟩ := by
  intro s
  have hfree : Digest.CollisionFree (hashedTexts (startedJobs leaving s spelledAlike)) := by
    rw [hashedTexts_eq]
    exact Digest.collisionFree_of_all (by decide +kernel)
  have hhit : (System.run leaving ⟨s, []⟩ spelledAlike).calls[1]?.bind
      (fun call => call.lowering?.map fun lowering => (lowering.metadata.recovered,
        (leaving.backend call.job.source
          (s.resolveConfiguration leaving call.job.source call.job.options)).run))
      = some (false, .failure (.unsupportedModule "preset-react")) := by
    decide +kernel
  refine ⟨by decide +kernel, hfree, fun hclaim => ?_⟩
  obtain ⟨call, hcall, hfound⟩ := Option.bind_eq_some_iff.mp hhit
  obtain ⟨lowering, hlowering, heq⟩ := Option.map_eq_some_iff.mp hfound
  obtain ⟨hrecovered, hrefused⟩ := Prod.mk.inj heq
  obtain ⟨warnings, hserved⟩ :=
    hclaim call (List.mem_of_getElem? hcall) lowering hlowering hrecovered
  cases hrefused.symm.trans hserved

end Downlevel.Session
