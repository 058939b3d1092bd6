/-
Downlevel.Proofs.Session.Transcripts — sessions whose backend need not give
the same reply twice.

A backend may reply to the same text differently from one time to the next,
break down now and then, or stay silent. An `Oracle` settles its reply from
everything that it was asked and replied before, and its backend writes every
exchange down. So a run of a session leaves a transcript of what the backend
was really asked, whatever it replied.

`lowerLeaves` is the account of a lowering under such a backend: what comes
out was given by the backend, as the transcript shows, or put together from
texts that were, some of them by earlier calls.
-/
import Downlevel.Proofs.Session.Provenance

namespace Downlevel

/-! ## Backends with a past -/

/-- What a backend was asked, and what it replied. -/
structure Exchange where
  source : String
  configuration : Configuration
  reply : BackendReply

/-- The exchanges with a backend, from the first one on. -/
abbrev Transcript := List Exchange

/-- How a backend replies after what has passed. -/
abbrev Oracle := Transcript → String → Configuration → BackendReply

namespace Oracle

/-- Replies by the oracle and writes the exchange down. -/
def backend (oracle : Oracle) : Backend (StateM Transcript) := fun source c => do
  let past ← get
  let reply := oracle past source c
  set (past ++ [⟨source, c, reply⟩])
  return reply

def tools (oracle : Oracle) (parser : SourceParser) : Tools (StateM Transcript) :=
  ⟨parser, oracle.backend⟩

end Oracle

namespace Transcript

/-- The backend gave this text. -/
def Gave (past : Transcript) (text : String) : Prop :=
  ∃ exchange ∈ past, ∃ warnings, exchange.reply = .output ⟨text, warnings⟩

/-- The text is one that the backend gave, or several of them joined at line
breaks. -/
def IsMadeOf (past : Transcript) (text : String) : Prop :=
  ∃ parts, parts ≠ [] ∧ (∀ part ∈ parts, past.Gave part) ∧ text = Text.join "\n" parts

variable {past later : Transcript} {text : String}

theorem Gave.mono (h : past.Gave text) (hle : past <+: later) : later.Gave text := by
  obtain ⟨exchange, hexchange, hreply⟩ := h
  exact ⟨exchange, hle.subset hexchange, hreply⟩

theorem IsMadeOf.mono (h : past.IsMadeOf text) (hle : past <+: later) : later.IsMadeOf text := by
  obtain ⟨parts, hsome, hgave, htext⟩ := h
  exact ⟨parts, hsome, fun part hpart => (hgave part hpart).mono hle, htext⟩

theorem Gave.isMadeOf (h : past.Gave text) : past.IsMadeOf text := by
  refine ⟨[text], List.cons_ne_nil _ _, List.forall_mem_singleton.mpr h, ?_⟩
  simp [Text.join]

end Transcript

/-! ## Traversals that ask -/

/-- A step of work that asks the backend: the transcript grows, and what
comes of the step satisfies `P` by then. -/
def Asks {ε β : Type} (P : Transcript → β → Prop) (past : Transcript)
    (work : ExceptT ε (StateM Transcript) β) : Prop :=
  let r := (work.run.run past).run
  past <+: r.2 ∧ ∀ y, r.1 = .ok y → P r.2 y

theorem Asks.mapM {ε α β : Type} {P : Transcript → β → Prop}
    (hmono : ∀ past later y, past <+: later → P past y → P later y)
    {f : α → ExceptT ε (StateM Transcript) β} {start : Transcript}
    (hf : ∀ x past, start <+: past → Asks P past (f x)) (xs : List α) {past : Transcript}
    (hstart : start <+: past) :
    Asks (fun later ys => ys.length = xs.length ∧ ∀ y ∈ ys, P later y) past (xs.mapM f) := by
  induction xs generalizing past with
  | nil =>
    refine ⟨List.prefix_rfl, fun ys hys => ?_⟩
    obtain rfl : [] = ys := Except.ok.inj hys
    exact ⟨rfl, List.forall_mem_nil _⟩
  | cons x xs ih =>
    obtain ⟨hfirst, hx⟩ := hf x past hstart
    rw [List.mapM_cons]
    simp only [Asks, ExceptT.run_bind, StateT.run_bind, Id.run_bind]
    rcases hrun : ((f x).run.run past).run with ⟨result, between⟩
    rw [hrun] at hfirst hx
    cases result with
    | error failure =>
      refine ⟨hfirst, fun ys hys => ?_⟩
      cases hys
    | ok y =>
      obtain ⟨hrest, hys⟩ := ih (hstart.trans hfirst)
      simp only [StateT.run_bind, Id.run_bind]
      rcases hruns : ((xs.mapM f).run.run between).run with ⟨results, later⟩
      rw [hruns] at hrest hys
      cases results with
      | error failure =>
        refine ⟨hfirst.trans hrest, fun ys hys => ?_⟩
        cases hys
      | ok ys =>
        refine ⟨hfirst.trans hrest, fun zs hzs => ?_⟩
        obtain rfl : y :: ys = zs := Except.ok.inj hzs
        obtain ⟨hlength, hall⟩ := hys ys rfl
        exact ⟨congrArg Nat.succ hlength,
          List.forall_mem_cons.mpr ⟨hmono _ _ y hrest (hx y rfl), hall⟩⟩

/-! ## Lowering -/

namespace Session

variable {oracle : Oracle} {parser : SourceParser}

theorem run_invoke_oracle (s : Session) (c : Configuration) (source : String)
    (past : Transcript) :
    ((s.invoke (oracle.tools parser) c source).run.run past).run
      = ((oracle past source c).within s.settings.backendTimeout,
          past ++ [⟨source, c, oracle past source c⟩]) := rfl

/-- Whatever a backend is taken to have given, it gave. -/
theorem asks_invoke (oracle : Oracle) (parser : SourceParser) (s : Session) (c : Configuration)
    (source : String) (past : Transcript) :
    Asks (fun later output => later.Gave output.text) past
      (s.invoke (oracle.tools parser) c source) := by
  refine ⟨List.prefix_append past _, fun output houtput => ?_⟩
  have hreply : oracle past source c = .output output := output_of_within houtput
  refine ⟨⟨source, c, oracle past source c⟩, ?_, output.warnings, hreply⟩
  rw [run_invoke_oracle]
  exact List.mem_append_right past (List.mem_singleton_self _)

theorem asks_recordOf {s : Session} {c : Configuration} {records : List ChunkRecord}
    {start past : Transcript} (hrecords : ∀ r ∈ records, start.Gave r.loweredText)
    (hstart : start <+: past) (changed : List Nat) (chunk : Chunk) :
    Asks (fun later (r : ChunkRecord) => later.Gave r.loweredText) past
      (ChunkDiff.recordOf (fun text => do return (← s.invoke (oracle.tools parser) c text).text)
        records changed chunk) := by
  rw [ChunkDiff.recordOf]
  cases hreuse : ChunkDiff.reusable? records changed chunk with
  | some text =>
    refine ⟨List.prefix_rfl, fun r hr => ?_⟩
    obtain rfl : (⟨chunk.index, chunk.hash, text⟩ : ChunkRecord) = r := Except.ok.inj hr
    obtain ⟨old, hold, -, htext⟩ := ChunkDiff.reusable?_some hreuse
    exact htext ▸ (hrecords old hold).mono hstart
  | none =>
    obtain ⟨hgrows, hgave⟩ := asks_invoke oracle parser s c chunk.text past
    simp only [Asks, ExceptT.run_bind, StateT.run_bind, Id.run_bind]
    rcases hrun : ((s.invoke (oracle.tools parser) c chunk.text).run.run past).run with
      ⟨result, later⟩
    rw [hrun] at hgrows hgave
    cases result with
    | error failure =>
      refine ⟨hgrows, fun r hr => ?_⟩
      cases hr
    | ok output =>
      refine ⟨hgrows, fun r hr => ?_⟩
      obtain rfl : (⟨chunk.index, chunk.hash, output.text⟩ : ChunkRecord) = r := Except.ok.inj hr
      exact hgave output rfl

theorem asks_lowerAll (oracle : Oracle) (parser : SourceParser) (s : Session)
    (c : Configuration) {records : List ChunkRecord} {past : Transcript}
    (hrecords : ∀ r ∈ records, past.Gave r.loweredText) (d : ChunkDiff) :
    Asks (fun later (rs : List ChunkRecord) =>
        rs.length = d.chunks.length ∧ ∀ r ∈ rs, later.Gave r.loweredText) past
      (d.lowerAll (fun text => do return (← s.invoke (oracle.tools parser) c text).text)
        records) :=
  Asks.mapM (fun _ _ _ hle hgave => hgave.mono hle)
    (fun chunk _ hstart => asks_recordOf hrecords hstart d.changed chunk) d.chunks
    List.prefix_rfl

/-- The chunks of files without those of the file that the job is lowered by,
if it is lowered by chunks. -/
def chunksWithout (s : Session) (job : Job) : ChunkStore :=
  match s.chunkedFile? job with
  | some file => s.chunks.erase file
  | none => s.chunks

theorem chunksWithout_congr {s t : Session} (hsetup : s.SameSetup t) (hchunks : t.chunks = s.chunks)
    (job : Job) : t.chunksWithout job = s.chunksWithout job := by
  rw [chunksWithout, chunksWithout, hsetup.chunkedFile?, hchunks]

/-- Everything recorded of chunks was given by the backend. -/
def ChunksGiven (past : Transcript) (chunks : ChunkStore) : Prop :=
  ∀ file, ∀ r ∈ chunks.recordsOf file, past.Gave r.loweredText

theorem ChunksGiven.mono {past later : Transcript} {chunks : ChunkStore}
    (h : ChunksGiven past chunks) (hle : past <+: later) : ChunksGiven later chunks :=
  fun file r hr => (h file r hr).mono hle

theorem ChunksGiven.erase {past : Transcript} {chunks : ChunkStore} (h : ChunksGiven past chunks)
    (file : String) : ChunksGiven past (chunks.erase file) := by
  intro other r hr
  rw [recordsOf_erase] at hr
  split at hr
  · cases hr
  · exact h other r hr

theorem ChunksGiven.commit {past : Transcript} {chunks : ChunkStore} (h : ChunksGiven past chunks)
    {records : List ChunkRecord} (hnew : ∀ r ∈ records, past.Gave r.loweredText) (file : String) :
    ChunksGiven past (chunks.commit file records) := by
  intro other r hr
  rw [ChunkStore.commit, recordsOf_insert] at hr
  split at hr
  · exact hnew r hr
  · exact h other r hr

/-- What lowering a job leaves, with the transcript by then. -/
structure LowerLeaves (s : Session) (job : Job) (past : Transcript)
    (r : (Except BackendFailure Lowered × Session) × Transcript) : Prop where
  grows : past <+: r.2
  setup : s.SameSetup r.1.2
  cache : r.1.2.cache = s.cache
  given : ∀ lowered, r.1.1 = .ok lowered → r.2.IsMadeOf lowered.output.text
  chunks : ChunksGiven r.2 r.1.2.chunks
  forgotten : ∀ failure, r.1.1 = .error failure → r.1.2.chunks = s.chunksWithout job

theorem lowerLeaves_whole {s t : Session} {job : Job} {past between : Transcript}
    (hgrows : past <+: between) (hsetup : s.SameSetup t) (hcache : t.cache = s.cache)
    (hgiven : ChunksGiven between t.chunks) (hchunks : t.chunks = s.chunksWithout job) :
    LowerLeaves s job past ((t.lowerWhole (oracle.tools parser) job).run between).run := by
  obtain ⟨hmore, hgave⟩ :=
    asks_invoke oracle parser t job.configuration job.source between
  refine ⟨hgrows.trans hmore, hsetup, hcache, fun lowered hlowered => ?_, hgiven.mono hmore,
    fun _ _ => hchunks⟩
  change (Except.map _ _ : Except BackendFailure Lowered) = _ at hlowered
  cases hreply : (oracle between job.source job.configuration).within
      t.settings.backendTimeout with
  | error failure =>
    rw [hreply] at hlowered
    cases hlowered
  | ok output =>
    rw [hreply] at hlowered
    obtain rfl := Except.ok.inj hlowered
    exact (hgave output hreply).isMadeOf

/-- The records that a compilation by chunks comes to, and the transcript by
then. -/
def recordsFrom (oracle : Oracle) (parser : SourceParser) (s : Session) (job : Job)
    (file : String) (past : Transcript) : Except BackendFailure (List ChunkRecord) × Transcript :=
  let d := s.chunks.diff s.settings.chunkLines file job.source
  ((d.lowerAll (fun text => do
    return (← s.invoke (oracle.tools parser) job.configuration text).text)
    (s.chunks.recordsOf file)).run.run past).run

theorem run_lowerChunks_of_ok {s : Session} {job : Job} {file : String} {past later : Transcript}
    {records : List ChunkRecord}
    (h : recordsFrom oracle parser s.countIncrementalRun job file past = (.ok records, later)) :
    ((s.lowerChunks (oracle.tools parser) job file).run past).run
      = ((.ok ⟨⟨ChunkRecord.joined records, []⟩,
            some (s.chunks.diff s.settings.chunkLines file job.source).tally⟩,
          { s.countIncrementalRun with chunks := s.chunks.commit file records }), later) := by
  rw [recordsFrom] at h
  simp only [lowerChunks, ChunkStore.compile, ChunkStore.compileChanged, StateT.run_bind,
    Id.run_bind, h]
  rfl

theorem run_lowerChunks_of_error {s : Session} {job : Job} {file : String}
    {past later : Transcript} {failure : BackendFailure}
    (h : recordsFrom oracle parser s.countIncrementalRun job file past
      = (.error failure, later)) :
    ((s.lowerChunks (oracle.tools parser) job file).run past).run
      = (((s.countIncrementalRun.forgetChunks file).lowerWhole (oracle.tools parser) job).run
          later).run := by
  rw [recordsFrom] at h
  simp only [lowerChunks, ChunkStore.compile, ChunkStore.compileChanged, StateT.run_bind,
    Id.run_bind, h]
  rfl

/-- **What lowering leaves**: the cache as it was, chunks that the backend
gave, and where it fails, nothing of the file it was to be put together
from. -/
theorem lowerLeaves (oracle : Oracle) (parser : SourceParser) (s : Session) (job : Job)
    {past : Transcript} (hgiven : ChunksGiven past s.chunks) :
    LowerLeaves s job past ((s.lower (oracle.tools parser) job).run past).run := by
  cases hfile : s.chunkedFile? job with
  | none =>
    have hlower : s.lower (oracle.tools parser) job = s.lowerWhole (oracle.tools parser) job := by
      rw [lower, hfile]
    rw [hlower]
    refine lowerLeaves_whole List.prefix_rfl (.refl s) rfl hgiven ?_
    rw [chunksWithout, hfile]
  | some file =>
    have hlower : s.lower (oracle.tools parser) job
        = s.lowerChunks (oracle.tools parser) job file := by
      rw [lower, hfile]
    let t := s.countIncrementalRun
    have hknown : ∀ r ∈ t.chunks.recordsOf file, past.Gave r.loweredText := hgiven file
    obtain ⟨hgrows, hrecords⟩ := asks_lowerAll oracle parser t job.configuration hknown
      (t.chunks.diff t.settings.chunkLines file job.source)
    rw [hlower]
    rcases hrun : recordsFrom oracle parser t job file past with ⟨result, later⟩
    have hsame := hrun
    rw [recordsFrom] at hsame
    rw [hsame] at hgrows hrecords
    cases result with
    | ok records =>
      obtain ⟨hlength, hgave⟩ := hrecords records rfl
      rw [run_lowerChunks_of_ok hrun]
      refine ⟨hgrows, ⟨rfl, rfl, rfl⟩, rfl, fun lowered hlowered => ?_,
        (hgiven.mono hgrows).commit hgave file, ?_⟩
      · obtain rfl := Except.ok.inj hlowered
        refine ⟨records.map (·.loweredText), ?_, List.forall_mem_map.mpr hgave, rfl⟩
        rw [Ne, List.map_eq_nil_iff, ← List.length_eq_zero_iff, hlength,
          List.length_eq_zero_iff]
        exact Chunk.partition_ne_nil _ _
      · intro failure hfailure
        cases hfailure
    | error failure =>
      rw [run_lowerChunks_of_error hrun]
      refine lowerLeaves_whole hgrows ⟨rfl, rfl, rfl⟩ rfl ((hgiven.mono hgrows).erase file) ?_
      rw [chunksWithout, hfile]
      rfl

/-! ## Calls -/

theorem run_transformMissed_of_ok {s t : Session} {job : Job} {past later : Transcript}
    {lowered : Lowered}
    (h : ((s.relieve.lower (oracle.tools parser) job).run past).run = ((.ok lowered, t), later)) :
    ((s.transformMissed (oracle.tools parser) job).run past).run
      = (t.answerLowered job lowered, later) := by
  simp only [transformMissed, StateT.run_bind, Id.run_bind, h]
  rfl

theorem run_transformMissed_of_error {s t : Session} {job : Job} {past later : Transcript}
    {failure : BackendFailure}
    (h : ((s.relieve.lower (oracle.tools parser) job).run past).run
      = ((.error failure, t), later)) :
    ((s.transformMissed (oracle.tools parser) job).run past).run
      = (t.answerFailure job failure, later) := by
  simp only [transformMissed, StateT.run_bind, Id.run_bind, h]
  rfl

end Session

end Downlevel
