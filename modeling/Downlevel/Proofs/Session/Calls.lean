/-
Downlevel.Proofs.Session.Calls — calls that are in flight at the same time.

A call takes its steps one by one: it looks its text up, frees memory where
that is due, has the backend lower the text, and answers, which is also
when the text is kept. Every step is indivisible, and between any two of
them other calls may take theirs, the clock may move and the caches may be
cleared. `System.run` is what comes of such a sequence of events.

`run_start_proceed` ties this to a call on its own: started and then left
to itself, a call does what `Session.transform` does. `run_jobs` says which
calls a run has seen: one for each call that came in, prepared as it would
have been at the start.
-/
import Downlevel.Proofs.Session.Steps

namespace Downlevel.Session

/-! ## Calls -/

/-- How far a call has come. -/
inductive Stage where
  | prepared
  | missed
  | relieved
  | lowered (result : Except BackendFailure Lowered)
  | done (outcome : Except Failure Lowering)

/-- The next step of a job. A job that is done takes no further step. -/
def Job.step (tools : Tools Id) (s : Session) (job : Job) : Stage → Stage × Session
  | .prepared =>
    match s.lookup job with
    | (some entry, s) => (.done (s.answerHit entry).1, (s.answerHit entry).2)
    | (none, s) => (.missed, s)
  | .missed => (.relieved, s.relieve)
  | .relieved => (.lowered (s.lower tools job).run.1, (s.lower tools job).run.2)
  | .lowered (.ok lowered) =>
    (.done (s.answerLowered job lowered).1, (s.answerLowered job lowered).2)
  | .lowered (.error failure) =>
    (.done (s.answerFailure job failure).1, (s.answerFailure job failure).2)
  | .done outcome => (.done outcome, s)

/-- A job and how far its call has come. -/
structure Call where
  job : Job
  stage : Stage

/-- What a call has returned, if it has returned a lowering. -/
def Call.lowering? (call : Call) : Option Lowering :=
  match call.stage with
  | .done (.ok lowering) => some lowering
  | _ => none

/-! ## Systems -/

/-- What may happen next. -/
inductive Event where
  /-- A call comes in. -/
  | start (source : String) (options : RequestOptions)
  /-- The call that came in as the one of this number takes a step. -/
  | proceed (call : Nat)
  | clearCache
  | cleanup
  | reclaim
  | advance (milliseconds : Nat)
  | readMemory (usage : MemoryUsage)
  | setDebug (enabled : Bool)

/-- A session and the calls that have come in, in the order in which they
came. -/
structure System where
  session : Session
  calls : List Call

namespace System

/-- A new call, counted and prepared. -/
def start (tools : Tools Id) (sys : System) (source : String) (options : RequestOptions) :
    System :=
  let s := sys.session.countTransform
  ⟨s, sys.calls ++ [⟨s.prepare tools source options, .prepared⟩]⟩

def proceed (tools : Tools Id) (sys : System) (index : Nat) : System :=
  match sys.calls[index]? with
  | some call =>
    let (stage, s) := call.job.step tools sys.session call.stage
    ⟨s, sys.calls.set index ⟨call.job, stage⟩⟩
  | none => sys

def step (tools : Tools Id) (sys : System) : Event → System
  | .start source options => sys.start tools source options
  | .proceed call => sys.proceed tools call
  | .clearCache => { sys with session := sys.session.clearCache }
  | .cleanup => { sys with session := sys.session.cleanup.2 }
  | .reclaim => { sys with session := sys.session.reclaim.2 }
  | .advance milliseconds => { sys with session := sys.session.advance milliseconds }
  | .readMemory usage => { sys with session := sys.session.readMemory usage }
  | .setDebug enabled => { sys with session := sys.session.setDebug enabled }

def run (tools : Tools Id) (sys : System) (events : List Event) : System :=
  events.foldl (step tools) sys

end System

/-! ## A call on its own -/

/-- The steps of a job from a stage on, one right after the other. -/
def Job.steps (tools : Tools Id) (job : Job) : Nat → Stage × Session → Stage × Session
  | 0, r => r
  | n + 1, r => job.steps tools n (job.step tools r.2 r.1)

theorem System.run_proceed (tools : Tools Id) (job : Job) (calls : List Call) (n : Nat)
    (stage : Stage) (s : Session) :
    System.run tools ⟨s, calls ++ [⟨job, stage⟩]⟩ (List.replicate n (.proceed calls.length))
      = ⟨(job.steps tools n (stage, s)).2, calls ++ [⟨job, (job.steps tools n (stage, s)).1⟩]⟩ := by
  induction n generalizing stage s with
  | zero => rfl
  | succ n ih =>
    have hstep : System.step tools ⟨s, calls ++ [⟨job, stage⟩]⟩ (.proceed calls.length)
        = ⟨(job.step tools s stage).2, calls ++ [⟨job, (job.step tools s stage).1⟩]⟩ := by
      simp [System.step, System.proceed]
    rw [List.replicate_succ, System.run, List.foldl_cons, hstep]
    exact ih (job.step tools s stage).1 (job.step tools s stage).2

/-- Three steps take a job that missed to its end. -/
theorem Job.steps_missed (tools : Tools Id) (job : Job) (s : Session) :
    job.steps tools 3 (.missed, s)
      = (.done (s.transformMissed tools job).run.1, (s.transformMissed tools job).run.2) := by
  simp only [Job.steps, Job.step, run_transformMissed]
  rcases (s.relieve.lower tools job).run with ⟨result, t⟩
  cases result with
  | ok lowered => rfl
  | error failure => rfl

/-- Four steps take a job to its end, whether it hits or misses. -/
theorem Job.steps_prepared (tools : Tools Id) (source : String) (options : RequestOptions)
    (s : Session) :
    let job := s.countTransform.prepare tools source options
    let r := (s.transform tools source options).run
    job.steps tools 4 (.prepared, s.countTransform) = (.done r.1, r.2) := by
  intro job r
  have hr : r = match s.countTransform.lookup job with
      | (some entry, t) => t.answerHit entry
      | (none, t) => (t.transformMissed tools job).run := s.run_transform source options
  show job.steps tools 3 (job.step tools s.countTransform .prepared) = (.done r.1, r.2)
  rw [hr, Job.step]
  rcases s.countTransform.lookup job with ⟨entry, t⟩
  cases entry with
  | some entry => rfl
  | none => exact job.steps_missed tools t

/-- **A call that nothing interrupts is `transform`.** -/
theorem System.run_start_proceed (tools : Tools Id) (sys : System) (source : String)
    (options : RequestOptions) :
    let r := (sys.session.transform tools source options).run
    sys.run tools (.start source options :: List.replicate 4 (.proceed sys.calls.length))
      = ⟨r.2, sys.calls ++ [⟨sys.session.countTransform.prepare tools source options,
          .done r.1⟩]⟩ := by
  intro r
  have hrun := System.run_proceed tools (sys.session.countTransform.prepare tools source options)
    sys.calls 4 .prepared sys.session.countTransform
  rw [Job.steps_prepared] at hrun
  exact hrun

/-! ## The calls of a run -/

/-- The jobs of the calls that come in. How a job is prepared depends on the
setup only, so the session that a run starts from settles them all. -/
def startedJobs (tools : Tools Id) (s : Session) (events : List Event) : List Job :=
  events.filterMap fun
    | .start source options => some (s.prepare tools source options)
    | _ => none

theorem startedJobs_cons (tools : Tools Id) (s : Session) (event : Event) (rest : List Event) :
    startedJobs tools s (event :: rest)
      = startedJobs tools s [event] ++ startedJobs tools s rest := by
  rw [startedJobs, startedJobs, startedJobs, ← List.filterMap_append, List.singleton_append]

theorem sameSetup_step (tools : Tools Id) (s : Session) (job : Job) (stage : Stage) :
    s.SameSetup (job.step tools s stage).2 := by
  cases stage with
  | prepared =>
    have hsetup := s.sameSetup_lookup job
    rw [Job.step]
    rcases hlookup : s.lookup job with ⟨entry, t⟩
    rw [hlookup] at hsetup
    cases entry with
    | none => exact hsetup
    | some entry => exact hsetup.trans ⟨rfl, rfl, rfl⟩
  | missed => exact s.sameSetup_relieve
  | relieved => exact sameSetup_lower tools s job
  | lowered result =>
    cases result with
    | ok lowered => exact s.sameSetup_answerLowered job lowered
    | error failure => exact s.sameSetup_answerFailure job failure
  | done outcome => exact .refl s

namespace System

theorem step_jobs {s : Session} {sys : System} (tools : Tools Id)
    (h : s.SameSetup sys.session) (event : Event) :
    s.SameSetup (sys.step tools event).session
      ∧ (sys.step tools event).calls.map (·.job)
        = sys.calls.map (·.job) ++ startedJobs tools s [event] := by
  cases event with
  | start source options =>
    have hcount : s.SameSetup sys.session.countTransform := h.trans ⟨rfl, rfl, rfl⟩
    refine ⟨hcount, ?_⟩
    rw [step, start, List.map_append, List.map_singleton, hcount.prepare]
    rfl
  | proceed index =>
    simp only [step, proceed]
    cases hcall : sys.calls[index]? with
    | none => exact ⟨h, (List.append_nil _).symm⟩
    | some call =>
      refine ⟨h.trans (sameSetup_step tools sys.session call.job call.stage), ?_⟩
      have hjob : (sys.calls.map (·.job))[index]? = some call.job := by
        rw [List.getElem?_map, hcall]
        rfl
      obtain ⟨hlt, hget⟩ := List.getElem?_eq_some_iff.mp hjob
      rw [List.map_set, ← hget, List.set_getElem_self hlt]
      exact (List.append_nil _).symm
  | clearCache => exact ⟨h.trans ⟨rfl, rfl, rfl⟩, (List.append_nil _).symm⟩
  | cleanup => exact ⟨h.trans ⟨rfl, rfl, rfl⟩, (List.append_nil _).symm⟩
  | reclaim => exact ⟨h.trans ⟨rfl, rfl, rfl⟩, (List.append_nil _).symm⟩
  | advance milliseconds => exact ⟨h.trans ⟨rfl, rfl, rfl⟩, (List.append_nil _).symm⟩
  | readMemory usage => exact ⟨h.trans ⟨rfl, rfl, rfl⟩, (List.append_nil _).symm⟩
  | setDebug enabled => exact ⟨h.trans ⟨rfl, rfl, rfl⟩, (List.append_nil _).symm⟩

/-- **The calls of a run are those that came in**, in their order. -/
theorem run_jobs {s : Session} {sys : System} (tools : Tools Id) (h : s.SameSetup sys.session)
    (events : List Event) :
    (sys.run tools events).calls.map (·.job)
      = sys.calls.map (·.job) ++ startedJobs tools s events := by
  induction events generalizing sys with
  | nil => exact (List.append_nil _).symm
  | cons event rest ih =>
    obtain ⟨hsetup, hjobs⟩ := step_jobs tools h event
    rw [startedJobs_cons, ← List.append_assoc, ← hjobs]
    exact ih hsetup

end System

end Downlevel.Session
