/-
Downlevel.Proofs.Session.UnservedCalls — what a call leaves behind that the
backend did not serve.

Such a call fails, or the rules work around the failure. By then it may have
looked its text up, freed memory, had some chunks lowered, forgotten the file
and had the backend try once more. `LeavesStores` says what is left of the
texts and the chunks that the session keeps: nothing new, and of the old all
but a text of the call that was too old, the texts that go under memory
pressure, and the chunks of its file.

The other half is `IsGenuine`, which holds after any operations with any
backend: no text that the session keeps was worked around, and each was made
by the backend. The two hang together, because a call that finds its text
would else hand on a workaround as its own.
-/
import Downlevel.Proofs.Cache.History
import Downlevel.Proofs.Session.Transcripts

namespace Downlevel.Session

/-! ## Losses -/

/-- The keys of the texts that go when memory is freed because there is
pressure. -/
def pressureVictims (s : Session) : List String :=
  if MemoryUsage.isPressing s.settings.memoryThreshold s.memory then
    s.cache.victims (s.cache.fractionOfSize s.settings.pressureShrinkFraction)
  else []

theorem get?_relieve (s : Session) (key : String) :
    s.relieve.cache.slots.get? key
      = if key ∈ s.pressureVictims then none else s.cache.slots.get? key := by
  rw [relieve, pressureVictims]
  split
  · exact Cache.get?_evictTo s.cache _ key
  · simp

/-- A job loses the text of a key when it looks the text up and finds it too
old, or when the text goes under memory pressure afterwards. -/
def Loses (s : Session) (job : Job) (key : String) : Prop :=
  (job.options.bypassCache = false ∧ key = job.key ∧ key ∈ s.cache.expiredKeys s.clock)
    ∨ key ∈ (s.lookup job).2.pressureVictims

/-- A lookup in vain drops the text of the job where it is too old. -/
theorem get?_lookup_of_none {s : Session} {job : Job} (h : (s.lookup job).1 = none)
    (key : String) :
    (s.lookup job).2.cache.slots.get? key
      = if job.options.bypassCache = false ∧ key = job.key ∧ key ∈ s.cache.expiredKeys s.clock
        then none else s.cache.slots.get? key := by
  unfold lookup at h ⊢
  cases hbypass : job.options.bypassCache with
  | true => simp
  | false =>
    simp only [hbypass, Bool.false_eq_true, if_false] at h ⊢
    rw [Cache.get?_lookup, h]
    by_cases hkey : key = job.key
    · subst hkey
      rcases Cache.lookup_eq_none_iff.mp h with hmissing | hold
      · simp [hmissing]
      · simp [hold]
    · simp [hkey]

/-- What a call in vain leaves of the texts and of the chunks that a session
keeps. -/
structure LeavesStores (s : Session) (job : Job) (t : Session) : Prop where
  lost : ∀ key, s.Loses job key → t.cache.slots.get? key = none
  kept : ∀ key, ¬ s.Loses job key → t.cache.slots.get? key = s.cache.slots.get? key
  chunks : t.chunks = s.chunksWithout job

theorem get?_relieve_lookup {s : Session} {job : Job} (h : (s.lookup job).1 = none)
    (key : String) :
    (s.Loses job key → (s.lookup job).2.relieve.cache.slots.get? key = none)
      ∧ (¬ s.Loses job key →
        (s.lookup job).2.relieve.cache.slots.get? key = s.cache.slots.get? key) := by
  rw [get?_relieve, get?_lookup_of_none h]
  constructor
  · rintro (hold | hvictim)
    · rw [if_pos hold, ite_self]
    · rw [if_pos hvictim]
  · intro hkept
    obtain ⟨hnotOld, hnotVictim⟩ := not_or.mp hkept
    rw [if_neg hnotVictim, if_neg hnotOld]

/-- Counting a call costs no text. -/
theorem loses_countTransform (s : Session) (job : Job) (key : String) :
    s.countTransform.Loses job key ↔ s.Loses job key := by
  have hvictims : (s.countTransform.lookup job).2.pressureVictims
      = (s.lookup job).2.pressureVictims := by
    unfold lookup
    split <;> rfl
  rw [Loses, Loses, hvictims]
  exact Iff.rfl

/-! ## Operations -/

/-- What one completed operation leaves of a session, with whatever the tools
do besides. -/
def perform {m : Type → Type} [Monad m] (tools : Tools m) (s : Session) :
    Operation → m Session
  | .transform source options => return (← s.transform tools source options).2
  | .clearCache => return s.clearCache
  | .cleanup => return s.cleanup.2
  | .reclaim => return s.reclaim.2
  | .forgetChunks file => return s.forgetChunks file
  | .advance milliseconds => return s.advance milliseconds
  | .readMemory usage => return s.readMemory usage
  | .setDebug enabled => return s.setDebug enabled
  | .register d => return s.register d

def performAll {m : Type → Type} [Monad m] (tools : Tools m) (s : Session)
    (operations : List Operation) : m Session :=
  operations.foldlM (perform tools) s

/-! ## What is kept -/

/-- Every text that the session keeps was made by the backend. -/
structure IsGenuine (past : Transcript) (s : Session) : Prop where
  texts : s.cache.Holds fun _ text metadata => metadata.recovered = false ∧ past.IsMadeOf text
  chunks : ChunksGiven past s.chunks

/-- The backend did not serve the call: it failed or was worked around. -/
def IsUnserved (outcome : Except Failure Lowering) : Prop :=
  ∀ lowering, outcome = .ok lowering → lowering.metadata.recovered = true

theorem IsGenuine.new (settings : Settings) (base : ConfigurationLayer) (registry : Registry)
    (clock : Nat) (memory : Option MemoryUsage) :
    (new settings base registry clock memory).IsGenuine [] :=
  ⟨.empty _, fun _ _ h => nomatch h⟩

section Calls

variable {s : Session} {past : Transcript}

/-- What a call comes to that did not find its text: the session stays
genuine, and a call in vain has changed no text since memory was freed. -/
theorem IsGenuine.transformMissed (h : s.IsGenuine past) (oracle : Oracle) (parser : SourceParser)
    (job : Job) :
    let r := ((s.transformMissed (oracle.tools parser) job).run past).run
    past <+: r.2 ∧ r.1.2.IsGenuine r.2
      ∧ (IsUnserved r.1.1 →
        r.1.2.cache = s.relieve.cache ∧ r.1.2.chunks = s.chunksWithout job) := by
  intro r
  have hwithout := chunksWithout_congr s.sameSetup_relieve s.chunks_relieve job
  have hgiven : ChunksGiven past s.relieve.chunks := by
    rw [s.chunks_relieve]
    exact h.chunks
  have hleaves := lowerLeaves oracle parser s.relieve job hgiven
  rcases hrun : ((s.relieve.lower (oracle.tools parser) job).run past).run with
    ⟨⟨result, t⟩, later⟩
  rw [hrun] at hleaves
  obtain ⟨hgrows, -, hcache, hgiven, hchunks, hforgotten⟩ := hleaves
  have htexts : t.cache.Holds fun _ text metadata =>
      metadata.recovered = false ∧ later.IsMadeOf text := by
    rw [hcache]
    exact (holds_relieve h.texts).imp fun _ _ _ hmade => ⟨hmade.1, hmade.2.mono hgrows⟩
  cases result with
  | ok lowered =>
    rw [show r = _ from run_transformMissed_of_ok hrun]
    refine ⟨hgrows, ⟨holds_store htexts ⟨rfl, hgiven lowered rfl⟩, ?_⟩, fun hvain => ?_⟩
    · rw [t.chunks_answerLowered]
      exact hchunks
    · cases hvain _ rfl
  | error failure =>
    rw [show r = _ from run_transformMissed_of_error hrun]
    refine ⟨hgrows, ⟨holds_answerFailure htexts job failure, ?_⟩, fun _ => ⟨?_, ?_⟩⟩
    · rw [t.chunks_answerFailure]
      exact hchunks
    · rw [t.cache_answerFailure]
      exact hcache
    · rw [t.chunks_answerFailure, ← hwithout]
      exact hforgotten failure rfl

/-- **What a call comes to**: the session stays genuine, and a call in vain
leaves its stores. -/
theorem IsGenuine.transform (h : s.IsGenuine past) (oracle : Oracle) (parser : SourceParser)
    (source : String) (options : RequestOptions) :
    let r := ((s.transform (oracle.tools parser) source options).run past).run
    past <+: r.2 ∧ r.1.2.IsGenuine r.2
      ∧ (IsUnserved r.1.1 →
        s.LeavesStores (s.prepare (oracle.tools parser) source options) r.1.2) := by
  intro r
  let job := s.prepare (oracle.tools parser) source options
  have htexts := holds_lookup (s := s.countTransform) h.texts job
  have hsetup := s.countTransform.sameSetup_lookup job
  have hchunks := s.countTransform.chunks_lookup job
  have hfound : ∀ entry, (s.countTransform.lookup job).1 = some entry →
      entry.metadata.recovered = false ∧ past.IsMadeOf entry.text :=
    fun _ => holds_of_lookup (s := s.countTransform) h.texts
  rcases hlookup : s.countTransform.lookup job with ⟨entry, t⟩
  rw [hlookup] at htexts hsetup hchunks hfound
  have hgenuine : t.IsGenuine past := ⟨htexts, by rw [hchunks]; exact h.chunks⟩
  cases entry with
  | some entry =>
    have hr : r = (t.answerHit entry, past) := by
      rw [show r = _ from congrArg (fun call => (call.run past).run) (transform_of_hit hlookup)]
      rfl
    rw [hr]
    refine ⟨List.prefix_rfl, ⟨hgenuine.texts, hgenuine.chunks⟩, fun hvain => ?_⟩
    -- a text that was found is no workaround
    have hserved := (hfound entry rfl).1
    rw [hvain _ rfl] at hserved
    cases hserved
  | none =>
    obtain ⟨hgrows, hkept, hvain⟩ :=
      hgenuine.transformMissed oracle parser job
    have hwithout : t.chunksWithout job = s.chunksWithout job :=
      chunksWithout_congr hsetup hchunks job
    rw [show r = _ from congrArg (fun call => (call.run past).run) (transform_of_miss hlookup)]
    refine ⟨hgrows, hkept, fun hunserved => ?_⟩
    obtain ⟨hcache, hrest⟩ := hvain hunserved
    have htexts := fun key => get?_relieve_lookup (s := s.countTransform) (by rw [hlookup]) key
    simp only [hlookup, ← hcache, loses_countTransform] at htexts
    exact ⟨fun key => (htexts key).1, fun key => (htexts key).2, hrest.trans hwithout⟩

/-! ## Runs -/

theorem IsGenuine.perform (h : s.IsGenuine past) (oracle : Oracle) (parser : SourceParser)
    (operation : Operation) :
    let r := ((s.perform (oracle.tools parser) operation).run past).run
    past <+: r.2 ∧ r.1.IsGenuine r.2 := by
  cases operation with
  | transform source options =>
    obtain ⟨hgrows, hgenuine, -⟩ :=
      h.transform oracle parser source options
    exact ⟨hgrows, hgenuine⟩
  | clearCache => exact ⟨List.prefix_rfl, .clear _, fun _ _ hr => nomatch hr⟩
  | cleanup => exact ⟨List.prefix_rfl, holds_cleanup h.texts, h.chunks⟩
  | reclaim => exact ⟨List.prefix_rfl, holds_reclaim h.texts, h.chunks⟩
  | forgetChunks file => exact ⟨List.prefix_rfl, h.texts, h.chunks.erase file⟩
  | advance milliseconds => exact ⟨List.prefix_rfl, h.texts, h.chunks⟩
  | readMemory usage => exact ⟨List.prefix_rfl, h.texts, h.chunks⟩
  | setDebug enabled => exact ⟨List.prefix_rfl, h.texts, h.chunks⟩
  | register d => exact ⟨List.prefix_rfl, h.texts, h.chunks⟩

/-- **A session stays genuine**, whatever is asked of it and whatever the
backend replies. -/
theorem IsGenuine.performAll (h : s.IsGenuine past) (oracle : Oracle) (parser : SourceParser)
    (operations : List Operation) :
    let r := ((s.performAll (oracle.tools parser) operations).run past).run
    past <+: r.2 ∧ r.1.IsGenuine r.2 := by
  induction operations generalizing s past with
  | nil => exact ⟨List.prefix_rfl, h⟩
  | cons operation rest ih =>
    obtain ⟨hgrows, hgenuine⟩ := h.perform oracle parser operation
    obtain ⟨hmore, hrest⟩ := ih hgenuine
    exact ⟨hgrows.trans hmore, hrest⟩

end Calls

/-- **What a call leaves that the backend did not serve.** After any
operations on a new session, with any backend: every text kept was made by
the backend and is no workaround. And a call that fails or is worked around
leaves the texts as they were but for its own where that is too old and for
those that go under memory pressure, and the chunks as they were but for
those of its file. -/
theorem unserved_calls_leave_stores (settings : Settings) (base : ConfigurationLayer)
    (registry : Registry) (clock : Nat) (memory : Option MemoryUsage) (parser : SourceParser)
    (oracle : Oracle) (operations : List Operation) (source : String)
    (options : RequestOptions) :
    let tools := oracle.tools parser
    let reached :=
      (((new settings base registry clock memory).performAll tools operations).run []).run
    let r := ((reached.1.transform tools source options).run reached.2).run
    reached.1.IsGenuine reached.2
      ∧ (IsUnserved r.1.1 →
        reached.1.LeavesStores (reached.1.prepare tools source options) r.1.2) := by
  intro tools reached r
  have hreached : reached.1.IsGenuine reached.2 :=
    ((IsGenuine.new settings base registry clock memory).performAll oracle parser operations).2
  exact ⟨hreached, (hreached.transform oracle parser source options).2.2⟩

/-! ## A backend that breaks down -/

/-- A backend that hands back what it is given, twice, and is silent from
then on. -/
def wearyOracle : Oracle := fun past source _ =>
  if past.length < 2 then .output ⟨source, []⟩ else .silence

/-- Texts of files are compiled line by line and kept for five
milliseconds. -/
def shortLived : Settings := { lineByLine with cache := ⟨1000, 5⟩ }

/-- Two states of a file. By the time that the first one is asked for again,
what is kept is too old and the backend is silent. -/
def wearyOperations : List Operation := [
  .transform "a" (fileRequest .es5), .transform "b" (fileRequest .es5), .advance 10]

def weary : Session × Transcript :=
  (((new shortLived .empty .builtin 0 none).performAll (wearyOracle.tools fun _ _ => none)
    wearyOperations).run []).run

def wearyJob (source : String) : Job :=
  weary.1.prepare (wearyOracle.tools fun _ _ => none) source (fileRequest .es5)

def wearyCall : (Except Failure Lowering × Session) × Transcript :=
  ((weary.1.transform (wearyOracle.tools fun _ _ => none) "a" (fileRequest .es5)).run weary.2).run

/-- What there is before the call: an old text for it, another text, and
chunks of the file. The call comes to nothing. -/
theorem weary_keeps :
    (weary.1.cache.slots.get? (wearyJob "a").key).isSome
      ∧ (weary.1.cache.slots.get? (wearyJob "b").key).isSome
      ∧ (wearyJob "a").options.bypassCache = false
      ∧ (wearyJob "a").key ∈ weary.1.cache.expiredKeys weary.1.clock
      ∧ (wearyJob "b").key ≠ (wearyJob "a").key
      ∧ (weary.1.lookup (wearyJob "a")).2.pressureVictims = []
      ∧ (weary.1.chunks.get? "a.js").isSome
      ∧ (weary.1.chunksWithout (wearyJob "a")).get? "a.js" = none
      ∧ wearyCall.1.1.toOption = none := by decide +kernel

/-- The call is in vain. Its own text, which was too old, is gone, and so are
the chunks of the file; the text of the other state is as it was, old as it
is. -/
theorem unserved_calls_leave_stores_weary :
    IsUnserved wearyCall.1.1
      ∧ (weary.1.cache.slots.get? (wearyJob "a").key).isSome
      ∧ wearyCall.1.2.cache.slots.get? (wearyJob "a").key = none
      ∧ (weary.1.cache.slots.get? (wearyJob "b").key).isSome
      ∧ wearyCall.1.2.cache.slots.get? (wearyJob "b").key
        = weary.1.cache.slots.get? (wearyJob "b").key
      ∧ (weary.1.chunks.get? "a.js").isSome ∧ wearyCall.1.2.chunks.get? "a.js" = none := by
  obtain ⟨hown, hother, hlooks, hold, hdiffer, hcalm, hchunks, hwithout, hvain⟩ := weary_keeps
  have hunserved : IsUnserved wearyCall.1.1 := by
    intro lowering hlowering
    rw [hlowering] at hvain
    cases hvain
  have hleaves : weary.1.LeavesStores (wearyJob "a") wearyCall.1.2 :=
    (unserved_calls_leave_stores shortLived .empty .builtin 0 none (fun _ _ => none)
      wearyOracle wearyOperations "a" (fileRequest .es5)).2 hunserved
  refine ⟨hunserved, hown, hleaves.lost _ (.inl ⟨hlooks, rfl, hold⟩), hother,
    hleaves.kept _ ?_, hchunks, hleaves.chunks ▸ hwithout⟩
  rintro (⟨-, heq, -⟩ | hvictim)
  · exact hdiffer heq
  · rw [hcalm] at hvictim
    cases hvictim

end Downlevel.Session
