/-
Downlevel.Proofs.Session.FreshStart — clearing the cache is a fresh start.

A session whose cache was cleared keeps its counters and the numbers of its
last uses, and so it is not a new session. But it is a new session after a
past (`clearCache_eq_after`), and a past decides nothing: whatever is asked, a
session after a past gives the answer that it would give without one, and is
left as it would be without one, again after the past (`ask_after`). So two
runs that begin with the two sessions go side by side, however long.

This does not depend on the backend. Where the backend replies alike to equal
texts, the sessions that were reached so far are covered too
(`clearCache_starts_afresh`).
-/
import Downlevel.Proofs.Cache.Renumbered
import Downlevel.Proofs.Session.CachedMetadata
import Downlevel.Proofs.Session.UnservedCalls

namespace Downlevel

def SessionTally.plus (t u : SessionTally) : SessionTally where
  transforms := t.transforms + u.transforms
  cacheHits := t.cacheHits + u.cacheHits
  recoveries := t.recoveries + u.recoveries
  failures := t.failures + u.failures
  incrementalRuns := t.incrementalRuns + u.incrementalRuns

namespace Session

/-! ## Pasts -/

/-- What a session has counted. -/
structure Past where
  tally : SessionTally
  cache : CachePast

/-- The session as it would be if more had gone before. -/
def after (past : Past) (s : Session) : Session :=
  { s with cache := s.cache.after past.cache, tally := past.tally.plus s.tally }

def past (s : Session) : Past := ⟨s.tally, s.cache.past⟩

/-- A new session in the surroundings of another. -/
def renewed (s : Session) : Session :=
  (new s.settings s.base s.registry s.clock s.memory).setDebug s.debug

/-- A session whose cache was cleared is a new one that has a past. -/
theorem clearCache_eq_after {s : Session} (h : s.cache.limits = s.settings.cache) :
    s.clearCache = s.renewed.after s.past := by
  rw [clearCache, Cache.clear_eq_after, h]
  rfl

/-! ## Steps of a lowering -/

section Steps

variable (past : Past) (s : Session)

theorem lookup_after (job : Job) :
    (s.after past).lookup job = ((s.lookup job).1, (s.lookup job).2.after past) := by
  by_cases hbypass : job.options.bypassCache = true
  · rw [lookup, lookup, if_pos hbypass, if_pos hbypass]
  · rw [lookup, lookup, if_neg hbypass, if_neg hbypass]
    have hlookup := s.cache.lookup_after past.cache s.clock job.key
    exact congrArg (fun r => (r.1, { s.after past with cache := r.2 })) hlookup

theorem reclaim_after : (s.after past).reclaim = (s.reclaim.1, s.reclaim.2.after past) := by
  have hshrink := s.cache.shrink_after past.cache s.settings.pressureShrinkFraction
  exact congrArg (fun r => (1, { s.after past with cache := r.2 })) hshrink

theorem relieve_after : (s.after past).relieve = s.relieve.after past := by
  have hsame : MemoryUsage.isPressing (s.after past).settings.memoryThreshold (s.after past).memory
      = MemoryUsage.isPressing s.settings.memoryThreshold s.memory := rfl
  rw [relieve, relieve, hsame, reclaim_after]
  split <;> rfl

theorem cleanup_after : (s.after past).cleanup = (s.cleanup.1, s.cleanup.2.after past) := by
  have hcleanup := s.cache.cleanup_after past.cache s.clock
  exact congrArg (fun r => (r.1, { s.after past with cache := r.2 })) hcleanup

theorem store_after (job : Job) (text : String) (metadata : Lowering.Metadata) :
    (s.after past).store job text metadata = (s.store job text metadata).after past := by
  by_cases hbypass : job.options.bypassCache = true
  · rw [store, store, if_pos hbypass, if_pos hbypass]
  · rw [store, store, if_neg hbypass, if_neg hbypass]
    have hstore := s.cache.store_after past.cache s.clock job.key text metadata
    generalize s.cache.store s.clock job.key text metadata = stored at hstore ⊢
    exact congrArg (fun r => { s.after past with cache := r.2 }) hstore

end Steps

/-! ## Calls -/

section Calls

variable {m : Type → Type} [Monad m] [LawfulMonad m] (past : Past) (s : Session) (tools : Tools m)

theorem lowerWhole_after (job : Job) :
    (s.after past).lowerWhole tools job = Prod.map id (after past) <$> s.lowerWhole tools job := by
  simp only [lowerWhole, map_bind, map_pure]
  rfl

theorem lowerChunks_after (job : Job) (file : String) :
    (s.after past).lowerChunks tools job file
      = Prod.map id (after past) <$> s.lowerChunks tools job file := by
  simp only [lowerChunks, map_bind]
  refine bind_congr fun r => ?_
  rcases r with ⟨result, chunks⟩
  cases result with
  | ok compiled =>
    simp only [map_pure]
    rfl
  | error failure =>
    exact lowerWhole_after past ({ s.countIncrementalRun with chunks := chunks }.forgetChunks file)
      tools job

theorem lower_after (job : Job) :
    (s.after past).lower tools job = Prod.map id (after past) <$> s.lower tools job := by
  have hsame : (s.after past).chunkedFile? job = s.chunkedFile? job := rfl
  rw [lower, lower, hsame]
  split
  · exact lowerChunks_after past s tools job _
  · exact lowerWhole_after past s tools job

omit [Monad m] [LawfulMonad m] in
theorem answerFailure_after (job : Job) (failure : BackendFailure) :
    (s.after past).answerFailure job failure
      = Prod.map id (after past) (s.answerFailure job failure) := by
  have hsame : (s.after past).accountFor job failure = s.accountFor job failure := rfl
  unfold answerFailure
  simp only [hsame]
  split <;> rfl

theorem answerLowered_after (job : Job) (lowered : Lowered) :
    (s.after past).answerLowered job lowered
      = Prod.map id (after past) (s.answerLowered job lowered) :=
  congrArg (Prod.mk _) (store_after past s job _ _)

theorem transformMissed_after (job : Job) :
    (s.after past).transformMissed tools job
      = Prod.map id (after past) <$> s.transformMissed tools job := by
  simp only [transformMissed, relieve_after, lower_after, map_bind, bind_map_left]
  refine bind_congr fun r => ?_
  rcases r with ⟨result, t⟩
  cases result with
  | ok lowered =>
    exact (congrArg pure (answerLowered_after past t job lowered)).trans (map_pure _ _).symm
  | error failure =>
    exact (congrArg pure (answerFailure_after past t job failure)).trans (map_pure _ _).symm

/-- **A past decides nothing about a call.** -/
theorem transform_after (source : String) (options : RequestOptions) :
    (s.after past).transform tools source options
      = Prod.map id (after past) <$> s.transform tools source options := by
  have hlookup := s.countTransform.lookup_after past (s.prepare tools source options)
  rcases hfound : s.countTransform.lookup (s.prepare tools source options) with ⟨entry, t⟩
  rw [hfound] at hlookup
  cases entry with
  | some entry =>
    rw [transform_of_hit hfound, transform_of_hit (s := s.after past) hlookup, map_pure]
    rfl
  | none =>
    rw [transform_of_miss hfound, transform_of_miss (s := s.after past) hlookup]
    exact transformMissed_after past t tools _

end Calls

/-! ## Conversations -/

/-- What is handed back by an operation. -/
inductive Response where
  | outcome (outcome : Except Failure Lowering)
  | count (count : Nat)
  | done

section Conversations

variable {m : Type → Type} [Monad m]

/-- An operation with what is handed back. -/
def ask (tools : Tools m) (s : Session) : Operation → m (Response × Session)
  | .transform source options => return (← s.transform tools source options).map Response.outcome id
  | .clearCache => return (.done, s.clearCache)
  | .cleanup => return s.cleanup.map Response.count id
  | .reclaim => return s.reclaim.map Response.count id
  | .forgetChunks file => return (.done, s.forgetChunks file)
  | .advance milliseconds => return (.done, s.advance milliseconds)
  | .readMemory usage => return (.done, s.readMemory usage)
  | .setDebug enabled => return (.done, s.setDebug enabled)
  | .register d => return (.done, s.register d)

/-- The answers to some operations in order, with the session that is left. -/
def askAll (tools : Tools m) (s : Session) : List Operation → m (List Response × Session)
  | [] => return ([], s)
  | operation :: rest => do
    let (response, s) ← s.ask tools operation
    let (responses, s) ← s.askAll tools rest
    return (response :: responses, s)

variable [LawfulMonad m] (tools : Tools m)

/-- What an operation leaves does not depend on whether its answer is
looked at. -/
theorem perform_eq_ask (s : Session) (operation : Operation) :
    s.perform tools operation = Prod.snd <$> s.ask tools operation := by
  cases operation with
  | transform source options => simp [perform, ask]
  | _ => simp [perform, ask]

theorem performAll_eq_askAll (s : Session) (operations : List Operation) :
    s.performAll tools operations = Prod.snd <$> s.askAll tools operations := by
  induction operations generalizing s with
  | nil => simp [performAll, askAll]
  | cons operation rest ih =>
    rw [performAll, List.foldlM_cons, perform_eq_ask, bind_map_left, askAll, map_bind]
    refine bind_congr fun r => ?_
    exact (ih r.2).trans (by simp)

/-- **A past decides nothing**: the same answer, and the same session after
the past. -/
theorem ask_after (past : Past) (s : Session) (operation : Operation) :
    (s.after past).ask tools operation = Prod.map id (after past) <$> s.ask tools operation := by
  cases operation with
  | transform source options =>
    simp only [ask, transform_after, bind_map_left, map_bind, map_pure]
    rfl
  | cleanup => rw [ask, cleanup_after, ask, map_pure]; rfl
  | reclaim => rw [ask, reclaim_after, ask, map_pure]; rfl
  | _ => simp only [ask, map_pure]; rfl

theorem askAll_after (past : Past) (s : Session) (operations : List Operation) :
    (s.after past).askAll tools operations
      = Prod.map id (after past) <$> s.askAll tools operations := by
  induction operations generalizing s with
  | nil => simp only [askAll, map_pure]; rfl
  | cons operation rest ih =>
    rw [askAll, askAll, ask_after, bind_map_left, map_bind]
    refine bind_congr fun r => ?_
    simp only [Prod.map, ih, map_bind, bind_map_left, map_pure, id_eq]

/-- A session whose cache was cleared answers as a new one. -/
theorem askAll_clearCache {s : Session} (h : s.cache.limits = s.settings.cache)
    (operations : List Operation) :
    s.clearCache.askAll tools operations
      = Prod.map id (after s.past) <$> s.renewed.askAll tools operations := by
  rw [clearCache_eq_after h, askAll_after]

end Conversations

/-! ## Sessions that were reached -/

/-- The second session was built like the first. -/
structure SameBuild (s t : Session) : Prop where
  settings : t.settings = s.settings
  base : t.base = s.base
  limits : t.cache.limits = s.cache.limits

namespace SameBuild

variable {s t u : Session}

theorem refl (s : Session) : s.SameBuild s := ⟨rfl, rfl, rfl⟩

theorem trans (h : s.SameBuild t) (k : t.SameBuild u) : s.SameBuild u :=
  ⟨k.settings.trans h.settings, k.base.trans h.base, k.limits.trans h.limits⟩

theorem of_setup (h : s.SameSetup t) (hlimits : t.cache.limits = s.cache.limits) :
    s.SameBuild t :=
  ⟨h.settings, h.base, hlimits⟩

end SameBuild

variable (s : Session)

theorem sameBuild_lookup (job : Job) : s.SameBuild (s.lookup job).2 := by
  refine .of_setup (s.sameSetup_lookup job) ?_
  unfold lookup
  split
  · rfl
  · exact s.cache.lookup_limits s.clock job.key

theorem sameBuild_reclaim : s.SameBuild s.reclaim.2 :=
  ⟨rfl, rfl,
    Cache.evictTo_limits (s.cache.fractionOfSize s.settings.pressureShrinkFraction) s.cache⟩

theorem sameBuild_relieve : s.SameBuild s.relieve := by
  unfold relieve
  split
  · exact s.sameBuild_reclaim
  · exact .refl s

theorem sameBuild_answerLowered (job : Job) (lowered : Lowered) :
    s.SameBuild (s.answerLowered job lowered).2 := by
  refine .of_setup (s.sameSetup_answerLowered job lowered) ?_
  have hstore := s.cache.store_limits s.clock job.key
  rw [answerLowered, cache_store]
  split
  · rfl
  · exact hstore _ _

theorem sameBuild_transformMissed (tools : Tools Id) (job : Job) :
    s.SameBuild (s.transformMissed tools job).run.2 := by
  have hlower : s.SameBuild (s.relieve.lower tools job).run.2 :=
    s.sameBuild_relieve.trans (.of_setup (sameSetup_lower tools s.relieve job)
      (congrArg Cache.limits (cache_lower tools s.relieve job)))
  rw [run_transformMissed]
  rcases hrun : (s.relieve.lower tools job).run with ⟨result, t⟩
  rw [hrun] at hlower
  cases result with
  | ok lowered => exact hlower.trans (t.sameBuild_answerLowered job lowered)
  | error failure =>
    exact hlower.trans (.of_setup (t.sameSetup_answerFailure job failure)
      (congrArg Cache.limits (t.cache_answerFailure job failure)))

theorem sameBuild_transform (tools : Tools Id) (source : String) (options : RequestOptions) :
    s.SameBuild (s.transform tools source options).run.2 := by
  have hlookup := s.countTransform.sameBuild_lookup (s.prepare tools source options)
  rcases hfound : s.countTransform.lookup (s.prepare tools source options) with ⟨entry, t⟩
  rw [hfound] at hlookup
  cases entry with
  | some entry =>
    rw [transform_of_hit hfound]
    exact ⟨hlookup.settings, hlookup.base, hlookup.limits⟩
  | none =>
    have hmissed := t.sameBuild_transformMissed tools (s.prepare tools source options)
    rw [transform_of_miss hfound]
    exact SameBuild.trans ⟨hlookup.settings, hlookup.base, hlookup.limits⟩ hmissed

theorem sameBuild_apply (tools : Tools Id) (operation : Operation) :
    s.SameBuild (s.apply tools operation) := by
  cases operation with
  | transform source options => exact s.sameBuild_transform tools source options
  | cleanup => exact ⟨rfl, rfl, s.cache.cleanup_limits s.clock⟩
  | reclaim => exact s.sameBuild_reclaim
  | _ => exact ⟨rfl, rfl, rfl⟩

theorem sameBuild_run (tools : Tools Id) (operations : List Operation) :
    s.SameBuild (operations.foldl (apply tools) s) := by
  induction operations generalizing s with
  | nil => exact .refl s
  | cons operation rest ih =>
    exact (s.sameBuild_apply tools operation).trans (ih (s.apply tools operation))

/-- **Clearing the cache is a fresh start.** Take a session after any
operations on a new one, with a backend that replies alike to equal texts, and
clear its cache. Take a new session with the settings and the base of the first
one and with the modules, the debug flag, the clock and the memory reading that
it has come to. Then the two give the same answers to whatever is asked of
them; and what is left of them differs in the counters only, where the first
session still has its past. -/
theorem clearCache_starts_afresh (settings : Settings) (base : ConfigurationLayer)
    (registry : Registry) (clock : Nat) (memory : Option MemoryUsage) (tools : Tools Id)
    (operations further : List Operation) :
    let reached := operations.foldl (apply tools) (new settings base registry clock memory)
    let fresh := (new settings base reached.registry reached.clock reached.memory).setDebug
      reached.debug
    let resumed := (reached.clearCache.askAll tools further).run
    let started := (fresh.askAll tools further).run
    resumed.1 = started.1 ∧ resumed.2 = started.2.after reached.past := by
  intro reached fresh resumed started
  obtain ⟨hsettings, hbase, hlimits⟩ :
      (new settings base registry clock memory).SameBuild reached :=
    sameBuild_run _ tools operations
  have hfresh : reached.renewed = fresh := by
    rw [renewed, hsettings, hbase]
    rfl
  have hsame : resumed = started.map id (after reached.past) := by
    have hask := askAll_clearCache tools (s := reached) (by rw [hlimits, hsettings]; rfl) further
    rw [hfresh] at hask
    exact congrArg Id.run hask
  rw [hsame]
  exact ⟨rfl, rfl⟩

end Session

end Downlevel
