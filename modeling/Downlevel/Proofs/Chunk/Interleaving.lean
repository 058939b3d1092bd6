/-
Downlevel.Proofs.Chunk.Interleaving — compilations that are in flight at the
same time.

A compilation compares its chunks with the store, takes a snapshot of the
records of its file, has the chunks lowered one by one, and then puts all its
records into the store at once. Each of these is indivisible, and between any
two of them other compilations may take theirs, files may be forgotten, and
the compilation itself may be dropped. `System.run` is what comes of such a
sequence of events.

`run_enter_proceed` ties this to `compile`: left to itself, a compilation
does what `compile` does, wherever its lowerings may fail. `step_store` says
which events change the store, and `run_finished` that a compilation that has
come to its end stays there.
-/
import Downlevel.Proofs.Chunk.Compile

namespace Downlevel.ChunkStore

/-! ## Compilations -/

/-- How far a compilation has come. While it is lowering it knows the
records of the snapshot, has some records ready, and has chunks waiting. -/
inductive Stage (ε : Type) where
  | entered
  | compared (d : ChunkDiff)
  | lowering (d : ChunkDiff) (known ready : List ChunkRecord) (waiting : List Chunk)
  | finished (outcome : Except ε (String × ChunkTally))
  | dropped

/-- A text that is compiled as the state of a file, and how far that has
come. -/
structure Compilation (ε : Type) where
  file : String
  text : String
  stage : Stage ε

namespace Compilation

variable {ε : Type}

/-- The next step. A compilation that is at its end takes no further one. -/
def step (lines : Nat) (lower : String → ExceptT ε Id String) (call : Compilation ε)
    (store : ChunkStore) : Compilation ε × ChunkStore :=
  match call.stage with
  | .entered => ({ call with stage := .compared (store.diff lines call.file call.text) }, store)
  | .compared d =>
    ({ call with stage := .lowering d (store.recordsOf call.file) [] d.chunks }, store)
  | .lowering d known ready (chunk :: waiting) =>
    match (ChunkDiff.recordOf lower known d.changed chunk).run.run with
    | .ok record => ({ call with stage := .lowering d known (ready ++ [record]) waiting }, store)
    | .error e => ({ call with stage := .finished (.error e) }, store)
  | .lowering d _ ready [] =>
    ({ call with stage := .finished (.ok (ChunkRecord.joined ready, d.tally)) },
      store.commit call.file ready)
  | .finished _ => (call, store)
  | .dropped => (call, store)

/-- Nobody waits for the outcome any more. -/
def drop (call : Compilation ε) : Compilation ε :=
  match call.stage with
  | .finished _ => call
  | _ => { call with stage := .dropped }

/-- The text that a compilation has returned, if it completed. -/
def output? (call : Compilation ε) : Option String :=
  match call.stage with
  | .finished (.ok (output, _)) => some output
  | _ => none

/-- Whether the compilation failed or was dropped. -/
def isLost (call : Compilation ε) : Bool :=
  match call.stage with
  | .finished (.error _) => true
  | .dropped => true
  | _ => false

end Compilation

/-! ## Systems -/

/-- What may happen next. -/
inductive Event (ε : Type) where
  /-- A text is to be compiled as the state of a file. -/
  | enter (file text : String)
  /-- The compilation of this number takes a step. Where that is a lowering,
  it may fail. -/
  | proceed (call : Nat) (failure : Option ε)
  | drop (call : Nat)
  | clearFile (file : String)
  | clearAll

namespace Event

variable {ε : Type}

/-- The compilation that an event is about. -/
def call? : Event ε → Option Nat
  | .proceed call _ | .drop call => some call
  | .enter _ _ | .clearFile _ | .clearAll => none

/-- The file and the text of a compilation that comes in. -/
def entered? : Event ε → Option (String × String)
  | .enter file text => some (file, text)
  | _ => none

end Event

/-- A store and the compilations that have come in, in the order in which
they came. -/
structure System (ε : Type) where
  store : ChunkStore
  calls : List (Compilation ε)

namespace System

variable {ε : Type}

/-- A lowering of the chunks of a file, which fails where it has to. -/
def lowering (lower : String → String → String) (failure : Option ε) (file : String)
    (text : String) : ExceptT ε Id String :=
  match failure with
  | some e => throw e
  | none => pure (lower file text)

/-- One event. What a chunk is lowered to depends on its file and its text. -/
def step (lines : Nat) (lower : String → String → String) (sys : System ε) :
    Event ε → System ε
  | .enter file text => { sys with calls := sys.calls ++ [⟨file, text, .entered⟩] }
  | .proceed index failure =>
    match sys.calls[index]? with
    | some call =>
      let r := call.step lines (lowering lower failure call.file) sys.store
      ⟨r.2, sys.calls.set index r.1⟩
    | none => sys
  | .drop index =>
    match sys.calls[index]? with
    | some call => { sys with calls := sys.calls.set index call.drop }
    | none => sys
  | .clearFile file => { sys with store := sys.store.erase file }
  | .clearAll => { sys with store := .empty }

def run (lines : Nat) (lower : String → String → String) (sys : System ε)
    (events : List (Event ε)) : System ε :=
  events.foldl (step lines lower) sys

end System

/-! ## A compilation on its own -/

namespace Compilation

variable {ε : Type}

/-- Steps of a compilation, one right after the other. -/
def steps (lines : Nat) (lower : String → ExceptT ε Id String) :
    Nat → Compilation ε × ChunkStore → Compilation ε × ChunkStore
  | 0, r => r
  | n + 1, r => steps lines lower n (r.1.step lines lower r.2)

theorem step_of_finished {call : Compilation ε} {outcome : Except ε (String × ChunkTally)}
    (h : call.stage = .finished outcome) (lines : Nat) (lower : String → ExceptT ε Id String)
    (store : ChunkStore) : call.step lines lower store = (call, store) := by
  simp [step, h]

theorem steps_of_finished {call : Compilation ε} {outcome : Except ε (String × ChunkTally)}
    (h : call.stage = .finished outcome) (n : Nat) (store : ChunkStore) :
    steps lines lower n (call, store) = (call, store) := by
  induction n with
  | zero => rfl
  | succ n ih => rw [steps, step_of_finished h, ih]

/-- One step for each chunk and one more take a compilation that is lowering
to its end. -/
theorem steps_lowering (lines : Nat) (lower : String → ExceptT ε Id String)
    (file text : String) (d : ChunkDiff) (known : List ChunkRecord) (store : ChunkStore)
    (waiting : List Chunk) (ready : List ChunkRecord) :
    steps lines lower (waiting.length + 1)
        (⟨file, text, .lowering d known ready waiting⟩, store)
      = match (waiting.mapM (ChunkDiff.recordOf lower known d.changed)).run.run with
        | .ok records =>
          (⟨file, text, .finished (.ok (ChunkRecord.joined (ready ++ records), d.tally))⟩,
            store.commit file (ready ++ records))
        | .error e => (⟨file, text, .finished (.error e)⟩, store) := by
  induction waiting generalizing ready with
  | nil =>
    show _ = ((⟨file, text, .finished (.ok (ChunkRecord.joined (ready ++ []), d.tally))⟩,
      store.commit file (ready ++ [])) : Compilation ε × ChunkStore)
    rw [List.append_nil]
    rfl
  | cons chunk waiting ih =>
    rw [List.length_cons, steps, step, List.mapM_cons]
    simp only [ExceptT.run_bind, Id.run_bind]
    cases (ChunkDiff.recordOf lower known d.changed chunk).run.run with
    | error e => exact steps_of_finished rfl _ store
    | ok record =>
      rw [ih (ready ++ [record])]
      simp only [Id.run_bind]
      cases (waiting.mapM (ChunkDiff.recordOf lower known d.changed)).run.run with
      | error e => rfl
      | ok records =>
        have happend : ready ++ [record] ++ records = ready ++ record :: records := by simp
        simp only [happend]
        rfl

/-- **A compilation that nothing interrupts is `compile`**, also where a
lowering fails. -/
theorem steps_entered (lines : Nat) (lower : String → ExceptT ε Id String)
    (store : ChunkStore) (file text : String) :
    let r := (store.compile lines file text lower).run
    steps lines lower ((Chunk.partition lines text).length + 3) (⟨file, text, .entered⟩, store)
      = (⟨file, text, .finished r.1⟩, r.2) := by
  intro r
  have hsteps := steps_lowering lines lower file text (store.diff lines file text)
    (store.recordsOf file) store (store.diff lines file text).chunks []
  rw [show r = _ from store.run_compile lines file text lower, ChunkDiff.lowerAll, steps, steps]
  refine hsteps.trans ?_
  cases ((store.diff lines file text).chunks.mapM (ChunkDiff.recordOf lower
    (store.recordsOf file) (store.diff lines file text).changed)).run.run with
  | ok records => rfl
  | error e => rfl

theorem step_file (lines : Nat) (lower : String → ExceptT ε Id String) (call : Compilation ε)
    (store : ChunkStore) :
    (call.step lines lower store).1.file = call.file
      ∧ (call.step lines lower store).1.text = call.text := by
  unfold step
  split
  · exact ⟨rfl, rfl⟩
  · exact ⟨rfl, rfl⟩
  · split <;> exact ⟨rfl, rfl⟩
  · exact ⟨rfl, rfl⟩
  · exact ⟨rfl, rfl⟩
  · exact ⟨rfl, rfl⟩

theorem drop_file (call : Compilation ε) :
    call.drop.file = call.file ∧ call.drop.text = call.text := by
  unfold drop
  split <;> exact ⟨rfl, rfl⟩

/-- A step leaves the store alone, or it is the last one of a compilation
that completes. -/
theorem step_store (lines : Nat) (lower : String → ExceptT ε Id String) (call : Compilation ε)
    (store : ChunkStore) :
    (call.step lines lower store).2 = store
      ∨ ∃ d known ready, call.stage = .lowering d known ready []
        ∧ call.step lines lower store
          = ({ call with stage := .finished (.ok (ChunkRecord.joined ready, d.tally)) },
            store.commit call.file ready) := by
  cases hstage : call.stage with
  | entered => exact .inl (by simp [step, hstage])
  | compared d => exact .inl (by simp [step, hstage])
  | lowering d known ready waiting =>
    cases waiting with
    | nil => exact .inr ⟨d, known, ready, rfl, by simp [step, hstage]⟩
    | cons chunk waiting =>
      refine .inl ?_
      simp only [step, hstage]
      split <;> rfl
  | finished outcome => exact .inl (by simp [step, hstage])
  | dropped => exact .inl (by simp [step, hstage])

theorem drop_of_finished {call : Compilation ε} {outcome : Except ε (String × ChunkTally)}
    (h : call.stage = .finished outcome) : call.drop = call := by
  simp [drop, h]

end Compilation

/-! ## Runs -/

namespace System

variable {ε : Type} (lines : Nat) (lower : String → String → String)

theorem run_cons (sys : System ε) (event : Event ε) (rest : List (Event ε)) :
    sys.run lines lower (event :: rest) = (sys.step lines lower event).run lines lower rest := rfl

theorem run_append (sys : System ε) (before after : List (Event ε)) :
    sys.run lines lower (before ++ after)
      = (sys.run lines lower before).run lines lower after :=
  List.foldl_append

theorem run_proceed (calls : List (Compilation ε)) (n : Nat) (call : Compilation ε)
    (store : ChunkStore) :
    let r := Compilation.steps lines (lowering lower none call.file) n (call, store)
    run lines lower ⟨store, calls ++ [call]⟩ (List.replicate n (.proceed calls.length none))
      = ⟨r.2, calls ++ [r.1]⟩ := by
  induction n generalizing call store with
  | zero => rfl
  | succ n ih =>
    have hstep : step lines lower ⟨store, calls ++ [call]⟩ (.proceed calls.length none)
        = ⟨(call.step lines (lowering lower none call.file) store).2,
          calls ++ [(call.step lines (lowering lower none call.file) store).1]⟩ := by
      simp [step]
    have hrest := ih (call.step lines (lowering lower none call.file) store).1
      (call.step lines (lowering lower none call.file) store).2
    rw [(call.step_file lines _ store).1] at hrest
    rw [List.replicate_succ, run_cons, hstep]
    exact hrest

/-- **Left to itself, a compilation that comes in does what `compile`
does.** -/
theorem run_enter_proceed (sys : System ε) (file text : String) :
    let r := (sys.store.compile lines file text (lowering lower (none : Option ε) file)).run
    sys.run lines lower (.enter file text :: List.replicate
        ((Chunk.partition lines text).length + 3) (.proceed sys.calls.length none))
      = ⟨r.2, sys.calls ++ [⟨file, text, .finished r.1⟩]⟩ := by
  intro r
  have hrun := run_proceed lines lower sys.calls ((Chunk.partition lines text).length + 3)
    ⟨file, text, .entered⟩ sys.store
  rw [Compilation.steps_entered] at hrun
  exact hrun

/-- What is compiled, and as which file, stays as it came in. -/
theorem map_set {calls : List (Compilation ε)} {index : Nat} {call next : Compilation ε}
    (hcall : calls[index]? = some call) (hnext : next.file = call.file ∧ next.text = call.text) :
    (calls.set index next).map (fun call => (call.file, call.text))
      = calls.map fun call => (call.file, call.text) := by
  have hsame : (calls.map fun call => (call.file, call.text))[index]?
      = some (next.file, next.text) := by
    rw [List.getElem?_map, hcall, hnext.1, hnext.2]
    rfl
  obtain ⟨hlt, hget⟩ := List.getElem?_eq_some_iff.mp hsame
  rw [List.map_set, ← hget, List.set_getElem_self hlt]

theorem step_calls (sys : System ε) (event : Event ε) :
    (sys.step lines lower event).calls.map (fun call => (call.file, call.text))
      = sys.calls.map (fun call => (call.file, call.text)) ++ event.entered?.toList := by
  cases event with
  | enter file text => simp [step, Event.entered?]
  | proceed index failure =>
    simp only [step, Event.entered?, Option.toList_none, List.append_nil]
    cases hcall : sys.calls[index]? with
    | none => rfl
    | some call => exact map_set hcall (call.step_file lines _ sys.store)
  | drop index =>
    simp only [step, Event.entered?, Option.toList_none, List.append_nil]
    cases hcall : sys.calls[index]? with
    | none => rfl
    | some call => exact map_set hcall call.drop_file
  | clearFile file => exact (List.append_nil _).symm
  | clearAll => exact (List.append_nil _).symm

/-- **The compilations of a run are those that came in**, in their order. -/
theorem run_calls (sys : System ε) (events : List (Event ε)) :
    (sys.run lines lower events).calls.map (fun call => (call.file, call.text))
      = sys.calls.map (fun call => (call.file, call.text))
        ++ events.filterMap Event.entered? := by
  induction events generalizing sys with
  | nil => simp [run]
  | cons event rest ih =>
    rw [run_cons, ih, step_calls, List.append_assoc]
    cases hentered : event.entered? with
    | none => simp [hentered]
    | some e => simp [hentered]

/-- A compilation that is at its end stays as it is. -/
theorem step_finished {sys : System ε} {index : Nat} {call : Compilation ε}
    {outcome : Except ε (String × ChunkTally)} (hcall : sys.calls[index]? = some call)
    (hfinished : call.stage = .finished outcome) (event : Event ε) :
    (sys.step lines lower event).calls[index]? = some call := by
  obtain ⟨hlt, -⟩ := List.getElem?_eq_some_iff.mp hcall
  -- another compilation may change, but not this one
  have hset : ∀ {other : Nat} {old next : Compilation ε}, sys.calls[other]? = some old →
      (old.stage = .finished outcome → next = old) →
        (sys.calls.set other next)[index]? = some call := by
    intro other old next hold hnext
    by_cases hother : other = index
    · subst hother
      obtain rfl : old = call := Option.some.inj (hold.symm.trans hcall)
      rw [List.getElem?_set_self hlt, hnext hfinished]
    · rw [List.getElem?_set_ne hother, hcall]
  cases event with
  | enter file text =>
    simp only [step]
    rw [List.getElem?_append_left hlt, hcall]
  | proceed other failure =>
    simp only [step]
    cases hold : sys.calls[other]? with
    | none => exact hcall
    | some old =>
      refine hset hold fun hend => ?_
      rw [Compilation.step_of_finished hend]
  | drop other =>
    simp only [step]
    cases hold : sys.calls[other]? with
    | none => exact hcall
    | some old => exact hset hold fun hend => Compilation.drop_of_finished hend
  | clearFile file => exact hcall
  | clearAll => exact hcall

theorem run_finished {sys : System ε} {index : Nat} {call : Compilation ε}
    {outcome : Except ε (String × ChunkTally)} (hcall : sys.calls[index]? = some call)
    (hfinished : call.stage = .finished outcome) (events : List (Event ε)) :
    (sys.run lines lower events).calls[index]? = some call := by
  induction events generalizing sys with
  | nil => exact hcall
  | cons event rest ih => exact ih (step_finished lines lower hcall hfinished event)

/-- **The store changes when a compilation completes, and when files are
forgotten**, and at no other event. -/
theorem step_store (sys : System ε) (event : Event ε) :
    (sys.step lines lower event).store = sys.store
      ∨ (∃ index failure call ready output tally, event = .proceed index failure
        ∧ sys.calls[index]? = some call
        ∧ (sys.step lines lower event).calls[index]?
          = some { call with stage := .finished (.ok (output, tally)) }
        ∧ (sys.step lines lower event).store = sys.store.commit call.file ready)
      ∨ (∃ file, event = .clearFile file
        ∧ (sys.step lines lower event).store = sys.store.erase file)
      ∨ (event = .clearAll ∧ (sys.step lines lower event).store = .empty) := by
  cases event with
  | enter file text => exact .inl rfl
  | proceed index failure =>
    cases hcall : sys.calls[index]? with
    | none => exact .inl (by simp only [step, hcall])
    | some call =>
      rcases call.step_store lines (lowering lower failure call.file) sys.store with
        hsame | ⟨d, known, ready, -, hdone⟩
      · exact .inl (by simpa only [step, hcall] using hsame)
      · refine .inr (.inl ⟨index, failure, call, ready, ChunkRecord.joined ready, d.tally, rfl,
          hcall, ?_, ?_⟩)
        · obtain ⟨hlt, -⟩ := List.getElem?_eq_some_iff.mp hcall
          simp only [step, hcall, hdone]
          exact List.getElem?_set_self hlt
        · simp only [step, hcall, hdone]
  | drop index =>
    refine .inl ?_
    simp only [step]
    split <;> rfl
  | clearFile file => exact .inr (.inr (.inl ⟨file, rfl, rfl⟩))
  | clearAll => exact .inr (.inr (.inr ⟨rfl, rfl⟩))

end System

end Downlevel.ChunkStore
