/-
Downlevel.Proofs.Session.Tally — what the counters of a session say.

A session counts every call when it begins, and once more at the exit by which
the call leaves: found, worked around or failed. A text that the backend lowered
leaves without being counted again. The cache counts lookups on its own. Nothing
resets a counter, so after any operations they are read off the calls that have
come to their end (`Ledger.Balances`).

For the exits to add up to the calls, no call may leave by two of them. A text
that was worked around is never kept, so a call that finds its text does not
hand on a workaround (`FinishedCall.IsSound`).
-/
import Downlevel.Proofs.Cache.Recall
import Downlevel.Proofs.Session.UnservedCalls

namespace Downlevel.Session

/-! ## Calls that have come to their end -/

structure FinishedCall where
  options : RequestOptions
  outcome : Except Failure Lowering

namespace FinishedCall

variable (call : FinishedCall)

def isFailed : Bool :=
  match call.outcome with
  | .ok _ => false
  | .error _ => true

/-- The text was found. -/
def isHit : Bool :=
  match call.outcome with
  | .ok lowering => lowering.performance.cacheHit
  | .error _ => false

/-- A failure was worked around. -/
def isRecovered : Bool :=
  match call.outcome with
  | .ok lowering => lowering.metadata.recovered
  | .error _ => false

/-- The text was lowered for the call, without a workaround. -/
def isLowered : Bool :=
  match call.outcome with
  | .ok lowering => !lowering.performance.cacheHit && !lowering.metadata.recovered
  | .error _ => false

def looksUp : Bool := !call.options.bypassCache

def isMiss : Bool := call.looksUp && !call.isHit

/-- What is found was looked for and is no workaround, and a workaround tells
its price. -/
structure IsSound : Prop where
  lookedFor : call.isHit = true → call.looksUp = true
  exclusive : ¬ (call.isHit = true ∧ call.isRecovered = true)
  warned : ∀ lowering, call.outcome = .ok lowering → lowering.metadata.recovered = true →
    lowering.metadata.warnings ≠ []

variable {call}

/-- A call leaves by one of four exits. -/
theorem IsSound.exit (h : call.IsSound) :
    call.isHit.toNat + call.isRecovered.toNat + call.isFailed.toNat + call.isLowered.toNat = 1 := by
  rcases call with ⟨options, outcome⟩
  cases outcome with
  | error failure => rfl
  | ok lowering =>
    have hexclusive := h.exclusive
    simp only [isHit, isRecovered, isFailed, isLowered] at hexclusive ⊢
    cases hhit : lowering.performance.cacheHit with
    | false => cases lowering.metadata.recovered <;> rfl
    | true =>
      have hdirect : lowering.metadata.recovered = false :=
        Bool.eq_false_iff.mpr fun hrecovered => hexclusive ⟨hhit, hrecovered⟩
      rw [hdirect]
      rfl

theorem IsSound.lookup (h : call.IsSound) :
    call.isHit.toNat + call.isMiss.toNat = call.looksUp.toNat := by
  rw [isMiss]
  cases hhit : call.isHit with
  | true => rw [h.lookedFor hhit]; rfl
  | false => simp

end FinishedCall

/-! ## Counters -/

/-- The counters of a session and of its cache, but for the one of the
compilations by chunks. -/
@[ext]
structure Counters where
  transforms : Nat
  cacheHits : Nat
  recoveries : Nat
  failures : Nat
  hits : Nat
  misses : Nat

def counters (s : Session) : Counters where
  transforms := s.tally.transforms
  cacheHits := s.tally.cacheHits
  recoveries := s.tally.recoveries
  failures := s.tally.failures
  hits := s.cache.hits
  misses := s.cache.misses

namespace Counters

/-- What the counters come to with one more call. -/
def after (c : Counters) (call : FinishedCall) : Counters where
  transforms := c.transforms + 1
  cacheHits := c.cacheHits + call.isHit.toNat
  recoveries := c.recoveries + call.isRecovered.toNat
  failures := c.failures + call.isFailed.toNat
  hits := c.hits + call.isHit.toNat
  misses := c.misses + call.isMiss.toNat

/-- What the counters come to with these calls. -/
def of (calls : List FinishedCall) : Counters where
  transforms := calls.length
  cacheHits := calls.countP (·.isHit)
  recoveries := calls.countP (·.isRecovered)
  failures := calls.countP (·.isFailed)
  hits := calls.countP (·.isHit)
  misses := calls.countP (·.isMiss)

end Counters

theorem countP_concat (p : FinishedCall → Bool) (calls : List FinishedCall) (call : FinishedCall) :
    (calls ++ [call]).countP p = calls.countP p + (p call).toNat := by
  rw [List.countP_append, List.countP_singleton]
  cases p call <;> rfl

theorem Counters.of_concat (calls : List FinishedCall) (call : FinishedCall) :
    of (calls ++ [call]) = (of calls).after call := by
  simp only [of, after, countP_concat, List.length_append, List.length_singleton]

section Sums

variable {calls : List FinishedCall}

/-- The exits of all calls add up. -/
theorem length_eq_exits (h : ∀ call ∈ calls, call.IsSound) :
    calls.length = calls.countP (·.isHit) + calls.countP (·.isRecovered)
      + calls.countP (·.isFailed) + calls.countP (·.isLowered) := by
  induction calls using List.reverseRecOn with
  | nil => rfl
  | append_singleton calls call ih =>
    have hcalls := ih fun other hother => h other (List.mem_append_left _ hother)
    have hexit := (h call (by simp)).exit
    simp only [countP_concat, List.length_append, List.length_singleton]
    omega

/-- And so do their lookups. -/
theorem countP_looksUp_eq (h : ∀ call ∈ calls, call.IsSound) :
    calls.countP (·.isHit) + calls.countP (·.isMiss) = calls.countP (·.looksUp) := by
  induction calls using List.reverseRecOn with
  | nil => rfl
  | append_singleton calls call ih =>
    have hcalls := ih fun other hother => h other (List.mem_append_left _ hother)
    have hlookup := (h call (by simp)).lookup
    simp only [countP_concat]
    omega

end Sums

/-! ## Steps that count nothing -/

theorem counters_eq {s t : Session} (htally : t.tally = s.tally)
    (hlookups : t.cache.counters = s.cache.counters) : t.counters = s.counters := by
  have hhits : t.cache.hits = s.cache.hits := congrArg Prod.fst hlookups
  have hmisses : t.cache.misses = s.cache.misses := congrArg Prod.snd hlookups
  rw [counters, counters, htally, hhits, hmisses]

theorem cache_reclaim (s : Session) :
    s.reclaim.2.cache = (s.cache.shrink s.settings.pressureShrinkFraction).2 := rfl

theorem counters_reclaim (s : Session) : s.reclaim.2.counters = s.counters := by
  refine counters_eq rfl ?_
  rw [cache_reclaim]
  exact Cache.evictTo_counters s.cache _

theorem counters_relieve (s : Session) : s.relieve.counters = s.counters := by
  unfold relieve
  split
  · exact s.counters_reclaim
  · rfl

theorem counters_cleanup (s : Session) : s.cleanup.2.counters = s.counters :=
  counters_eq rfl (s.cache.cleanup_counters s.clock)

theorem counters_store (s : Session) (job : Job) (text : String) (metadata : Lowering.Metadata) :
    (s.store job text metadata).counters = s.counters := by
  refine counters_eq ?_ ?_
  · unfold store
    split <;> rfl
  · have hstore := s.cache.store_counters s.clock job.key text metadata
    rw [cache_store]
    split
    · rfl
    · exact hstore

/-- Lowering counts at most a compilation by chunks. -/
theorem counters_lower (oracle : Oracle) (parser : SourceParser) (s : Session) (job : Job)
    (past : Transcript) :
    ((s.lower (oracle.tools parser) job).run past).run.1.2.counters = s.counters := by
  rw [lower]
  split
  · next file _ =>
    rcases hrun : recordsFrom oracle parser s.countIncrementalRun job file past with
      ⟨result, later⟩
    cases result with
    | ok records =>
      rw [run_lowerChunks_of_ok hrun]
      rfl
    | error failure =>
      rw [run_lowerChunks_of_error hrun]
      rfl
  · rfl

/-! ## What a call counts -/

/-- A lookup is counted once, unless the request bypasses the cache. -/
theorem counters_lookup (s : Session) (job : Job) :
    (s.lookup job).2.counters =
      { s.counters with
        hits := s.cache.hits + (s.lookup job).1.isSome.toNat
        misses := s.cache.misses
          + (!job.options.bypassCache && !(s.lookup job).1.isSome).toNat } := by
  by_cases hbypass : job.options.bypassCache = true
  · rw [lookup, if_pos hbypass, hbypass]
    rfl
  · rw [lookup, if_neg hbypass, Bool.eq_false_iff.mpr hbypass]
    have hlookups := Cache.lookup_counters s.cache s.clock job.key
    rcases hlookup : s.cache.lookup s.clock job.key with ⟨entry, cache⟩
    rw [hlookup] at hlookups
    cases entry with
    | none =>
      exact Counters.ext rfl rfl rfl rfl (congrArg Prod.fst hlookups) (congrArg Prod.snd hlookups)
    | some entry =>
      exact Counters.ext rfl rfl rfl rfl (congrArg Prod.fst hlookups) (congrArg Prod.snd hlookups)

/-- A workaround is told with the price of every rule that it took. -/
theorem warnings_ne_nil_of_answerFailure {s t : Session} {job : Job} {failure : BackendFailure}
    {lowering : Lowering} (h : s.answerFailure job failure = (.ok lowering, t)) :
    lowering.metadata.warnings ≠ [] := by
  unfold answerFailure at h
  cases hrecovery : (s.accountFor job failure).recovery with
  | none =>
    simp only [hrecovery] at h
    cases h
  | some recovery =>
    simp only [hrecovery] at h
    cases h
    have hattempt : Recovery.attempt? (FailureKind.ofFailure failure job.configuration) job.source
        failure.message = some recovery := hrecovery
    rw [Recovery.attempt?] at hattempt
    split at hattempt
    · rw [Recovery.ofFailure?] at hattempt
      split at hattempt
      · cases hattempt
      · next hwarned =>
        cases hattempt
        exact hwarned
    · cases hattempt

/-- What a call comes to that did not find its text. -/
structure MissedCall (s : Session) (call : FinishedCall) (t : Session) : Prop where
  isHit : call.isHit = false
  warned : ∀ lowering, call.outcome = .ok lowering → lowering.metadata.recovered = true →
    lowering.metadata.warnings ≠ []
  counters : t.counters =
    { s.counters with
      recoveries := s.counters.recoveries + call.isRecovered.toNat
      failures := s.counters.failures + call.isFailed.toNat }

theorem missedCall_answerLowered (s : Session) (job : Job) (lowered : Lowered)
    (options : RequestOptions) :
    s.MissedCall ⟨options, (s.answerLowered job lowered).1⟩ (s.answerLowered job lowered).2 where
  isHit := rfl
  warned lowering hlowering hrecovered := by
    cases hlowering
    cases hrecovered
  counters := s.counters_store job _ _

theorem missedCall_answerFailure (s : Session) (job : Job) (failure : BackendFailure)
    (options : RequestOptions) :
    s.MissedCall ⟨options, (s.answerFailure job failure).1⟩ (s.answerFailure job failure).2 := by
  rcases s.answerFailure_cases job failure with ⟨lowering, hwork, heq⟩ | ⟨account, heq⟩
  · have hwarned := warnings_ne_nil_of_answerFailure heq
    rw [heq]
    refine ⟨hwork.cacheHit, fun other hother _ => ?_, ?_⟩
    · obtain rfl := Except.ok.inj hother
      exact hwarned
    · simp only [FinishedCall.isRecovered, hwork.recovered]
      rfl
  · rw [heq]
    refine ⟨rfl, fun other hother => ?_, rfl⟩
    cases hother

theorem missedCall_transformMissed (oracle : Oracle) (parser : SourceParser) (s : Session)
    (job : Job) (past : Transcript) (options : RequestOptions) :
    let r := ((s.transformMissed (oracle.tools parser) job).run past).run
    s.MissedCall ⟨options, r.1.1⟩ r.1.2 := by
  intro r
  have hcounters := counters_lower oracle parser s.relieve job past
  rcases hrun : ((s.relieve.lower (oracle.tools parser) job).run past).run with
    ⟨⟨result, t⟩, later⟩
  rw [hrun, counters_relieve] at hcounters
  cases result with
  | ok lowered =>
    rw [show r = _ from run_transformMissed_of_ok hrun]
    obtain ⟨hmissed, hwarned, hcount⟩ := t.missedCall_answerLowered job lowered options
    exact ⟨hmissed, hwarned, hcounters ▸ hcount⟩
  | error failure =>
    rw [show r = _ from run_transformMissed_of_error hrun]
    obtain ⟨hmissed, hwarned, hcount⟩ := t.missedCall_answerFailure job failure options
    exact ⟨hmissed, hwarned, hcounters ▸ hcount⟩

/-- A call that found its text counts as a hit. -/
theorem counters_answerHit {s t : Session} {job : Job} {entry : CacheEntry}
    (h : s.countTransform.lookup job = (some entry, t))
    (hdirect : entry.metadata.recovered = false) :
    (⟨job.options, (t.answerHit entry).1⟩ : FinishedCall).IsSound
      ∧ (t.answerHit entry).2.counters = s.counters.after ⟨job.options, (t.answerHit entry).1⟩ := by
  have hlookups := s.countTransform.counters_lookup job
  rw [h] at hlookups
  have hrecovered : (⟨job.options, (t.answerHit entry).1⟩ : FinishedCall).isRecovered = false :=
    hdirect
  have hlooks : job.options.bypassCache = false := by
    refine Bool.eq_false_iff.mpr fun hbypass => ?_
    rw [lookup, if_pos hbypass] at h
    cases h
  refine ⟨⟨fun _ => ?_, fun hboth => ?_, fun lowering hlowering hwork => ?_⟩, ?_⟩
  · rw [FinishedCall.looksUp, hlooks]
    rfl
  · rw [hrecovered] at hboth
    cases hboth.2
  · obtain rfl := Except.ok.inj hlowering
    cases hdirect.symm.trans hwork
  · have hhit : (t.answerHit entry).2.counters
        = { t.counters with cacheHits := t.counters.cacheHits + 1 } := rfl
    rw [hhit, show t.counters = _ from hlookups, Counters.after, hrecovered,
      FinishedCall.isMiss, FinishedCall.looksUp, hlooks]
    rfl

/-- A call that found nothing counts as a miss, if it looked for a text. -/
theorem counters_missed {s t u : Session} {job : Job} {outcome : Except Failure Lowering}
    (h : s.countTransform.lookup job = (none, t))
    (hmissed : t.MissedCall ⟨job.options, outcome⟩ u) :
    (⟨job.options, outcome⟩ : FinishedCall).IsSound
      ∧ u.counters = s.counters.after ⟨job.options, outcome⟩ := by
  have hlookups := s.countTransform.counters_lookup job
  rw [h] at hlookups
  obtain ⟨hnot, hwarned, hcount⟩ := hmissed
  refine ⟨⟨fun hhit => ?_, fun hboth => ?_, hwarned⟩, ?_⟩
  · cases hnot.symm.trans hhit
  · cases hnot.symm.trans hboth.1
  · rw [hcount, show t.counters = _ from hlookups, Counters.after, FinishedCall.isMiss, hnot]
    rfl

/-- **What a call counts**, as its outcome shows. -/
theorem counters_transform {s : Session} {past : Transcript} (h : s.IsGenuine past)
    (oracle : Oracle) (parser : SourceParser) (source : String) (options : RequestOptions) :
    let r := ((s.transform (oracle.tools parser) source options).run past).run
    (⟨options, r.1.1⟩ : FinishedCall).IsSound
      ∧ r.1.2.counters = s.counters.after ⟨options, r.1.1⟩ := by
  intro r
  rcases hlookup : s.countTransform.lookup (s.prepare (oracle.tools parser) source options) with
    ⟨entry, t⟩
  cases entry with
  | some entry =>
    have hfound : (s.countTransform.lookup (s.prepare (oracle.tools parser) source options)).1
        = some entry := by rw [hlookup]
    have hdirect := (holds_of_lookup (s := s.countTransform) h.texts hfound).1
    have hr : r = (t.answerHit entry, past) := by
      rw [show r = _ from congrArg (fun call => (call.run past).run) (transform_of_hit hlookup)]
      rfl
    rw [hr]
    exact counters_answerHit hlookup hdirect
  | none =>
    rw [show r = _ from congrArg (fun call => (call.run past).run) (transform_of_miss hlookup)]
    exact counters_missed hlookup (missedCall_transformMissed oracle parser t _ past options)

/-! ## Ledgers -/

/-- A session and the calls made of it that have come to their end. -/
structure Ledger where
  session : Session
  calls : List FinishedCall

namespace Ledger

variable {m : Type → Type} [Monad m]

/-- The calls that an operation brings to their end. -/
def step (tools : Tools m) (ledger : Ledger) : Operation → m Ledger
  | .transform source options => do
    let (outcome, session) ← ledger.session.transform tools source options
    return ⟨session, ledger.calls ++ [⟨options, outcome⟩]⟩
  | operation => return ⟨← ledger.session.perform tools operation, ledger.calls⟩

def run (tools : Tools m) (ledger : Ledger) (operations : List Operation) : m Ledger :=
  operations.foldlM (step tools) ledger

/-- The ledger only watches the session. -/
theorem session_step [LawfulMonad m] (tools : Tools m) (ledger : Ledger) (operation : Operation) :
    session <$> ledger.step tools operation = ledger.session.perform tools operation := by
  cases operation with
  | transform source options => simp [step, perform]
  | _ => simp [step, perform]

theorem session_run [LawfulMonad m] (tools : Tools m) (ledger : Ledger)
    (operations : List Operation) :
    session <$> ledger.run tools operations = ledger.session.performAll tools operations := by
  induction operations generalizing ledger with
  | nil => simp [run, performAll]
  | cons operation rest ih =>
    simp only [run, performAll, List.foldlM_cons, map_bind] at ih ⊢
    simp only [ih, ← session_step, bind_map_left]

/-- The counters say what the calls show. -/
structure Balances (past : Transcript) (ledger : Ledger) : Prop where
  genuine : ledger.session.IsGenuine past
  sound : ∀ call ∈ ledger.calls, call.IsSound
  counters : ledger.session.counters = .of ledger.calls

section Balances

variable {past : Transcript} {ledger : Ledger}

theorem Balances.step (h : ledger.Balances past) (oracle : Oracle) (parser : SourceParser)
    (operation : Operation) :
    let r := ((ledger.step (oracle.tools parser) operation).run past).run
    r.1.Balances r.2 := by
  have hgenuine := (h.genuine.perform oracle parser operation).2
  cases operation with
  | transform source options =>
    obtain ⟨hsound, hcounters⟩ := counters_transform h.genuine oracle parser source options
    refine ⟨hgenuine, ?_, ?_⟩
    · exact List.forall_mem_append.mpr ⟨h.sound, List.forall_mem_singleton.mpr hsound⟩
    · refine Eq.trans ?_ (Counters.of_concat ledger.calls _).symm
      rw [← h.counters]
      exact hcounters
  | cleanup => exact ⟨hgenuine, h.sound, (counters_cleanup _).trans h.counters⟩
  | reclaim => exact ⟨hgenuine, h.sound, (counters_reclaim _).trans h.counters⟩
  | _ => exact ⟨hgenuine, h.sound, h.counters⟩

theorem Balances.run (h : ledger.Balances past) (oracle : Oracle) (parser : SourceParser)
    (operations : List Operation) :
    let r := ((ledger.run (oracle.tools parser) operations).run past).run
    r.1.Balances r.2 := by
  induction operations generalizing ledger past with
  | nil => exact h
  | cons operation rest ih => exact ih (h.step oracle parser operation)

end Balances

end Ledger

/-- **The counters of a session are those of its calls.** After any operations
on a new session, with any backend: every call counted has left by one of four
exits, and the counters for three of them, with the calls that left by the
fourth, add up to the calls. The cache has found what the calls found, and has
been asked by those that do not bypass it. No call hands on a workaround that
was found, and every workaround tells its price. -/
theorem counters_of_calls (settings : Settings) (base : ConfigurationLayer) (registry : Registry)
    (clock : Nat) (memory : Option MemoryUsage) (parser : SourceParser) (oracle : Oracle)
    (operations : List Operation) :
    let tools := oracle.tools parser
    let begin := new settings base registry clock memory
    let ledger := (((Ledger.mk begin []).run tools operations).run []).run.1
    let tally := ledger.session.tally
    let cache := ledger.session.cache
    ledger.session = ((begin.performAll tools operations).run []).run.1
      ∧ tally.transforms = ledger.calls.length
      ∧ tally.transforms = tally.cacheHits + tally.recoveries + tally.failures
        + ledger.calls.countP (·.isLowered)
      ∧ tally.failures = ledger.calls.countP (·.isFailed)
      ∧ tally.recoveries = ledger.calls.countP (·.isRecovered)
      ∧ tally.cacheHits = ledger.calls.countP (·.isHit)
      ∧ cache.hits = tally.cacheHits
      ∧ cache.hits + cache.misses = ledger.calls.countP (·.looksUp)
      ∧ ∀ call ∈ ledger.calls, ¬ (call.isHit = true ∧ call.isRecovered = true)
        ∧ ∀ lowering, call.outcome = .ok lowering → lowering.metadata.recovered = true →
          lowering.metadata.warnings ≠ [] := by
  intro tools begin ledger tally cache
  have hbalances : ledger.Balances _ :=
    Ledger.Balances.run ⟨.new settings base registry clock memory, List.forall_mem_nil _, rfl⟩
      oracle parser operations
  have hsession := Ledger.session_run tools ⟨begin, []⟩ operations
  obtain ⟨-, hsound, hcounters⟩ := hbalances
  have htransforms : tally.transforms = ledger.calls.length :=
    congrArg Counters.transforms hcounters
  have hfailures : tally.failures = _ := congrArg Counters.failures hcounters
  have hrecoveries : tally.recoveries = _ := congrArg Counters.recoveries hcounters
  have hcacheHits : tally.cacheHits = _ := congrArg Counters.cacheHits hcounters
  have hhits : cache.hits = _ := congrArg Counters.hits hcounters
  have hmisses : cache.misses = _ := congrArg Counters.misses hcounters
  refine ⟨congrArg (fun run => (run.run []).run.1) hsession, htransforms, ?_, hfailures,
    hrecoveries, hcacheHits, hhits.trans hcacheHits.symm, ?_,
    fun call hcall => ⟨(hsound call hcall).exclusive, (hsound call hcall).warned⟩⟩
  · rw [htransforms, hfailures, hrecoveries, hcacheHits]
    exact length_eq_exits hsound
  · rw [hhits, hmisses]
    exact countP_looksUp_eq hsound

end Downlevel.Session
