/-
Downlevel.Proofs.Chunk.Integrity — compilations of the same files at the same
time do not disturb each other.

A snapshot is out of date as soon as another compilation of the file
completes or the file is forgotten, and so is the comparison that was made
before it. What makes reuse right all the same is that a record speaks for
itself: it was made from some text of the file, and where its digest is that
of a chunk, this was the text of the chunk (`ChunkRecord.MadeFrom`,
`ChunkDiff.recordOf_eq`).

`System.Sound` says that of every snapshot, and that what the store has of a
file are the records of one compilation that completed. Each event keeps this
(`System.Sound.step`).
-/
import Downlevel.Proofs.Chunk.Interleaving

namespace Downlevel

/-! ## Records of a text -/

/-- The record of a chunk that is lowered. -/
def ChunkRecord.ofChunk (lower : String → String) (c : Chunk) : ChunkRecord :=
  ⟨c.index, c.hash, lower c.text⟩

/-- The records that a text compiles to from nothing. -/
def Chunk.recordsFor (lines : Nat) (lower : String → String) (text : String) :
    List ChunkRecord :=
  (partition lines text).mapIdx fun i c => ⟨i, Digest.ofText c.text, lower c.text⟩

theorem Chunk.map_ofChunk_partition (lines : Nat) (lower : String → String) (text : String) :
    (partition lines text).map (ChunkRecord.ofChunk lower) = recordsFor lines lower text := by
  apply List.ext_getElem?
  intro i
  rw [recordsFor, List.getElem?_map, List.getElem?_mapIdx]
  cases hc : (partition lines text)[i]? with
  | none => rfl
  | some c =>
    obtain ⟨hindex, hhash⟩ := getElem?_partition hc
    simp [ChunkRecord.ofChunk, hindex, hhash]

theorem Chunk.joined_recordsFor (lines : Nat) (lower : String → String) (text : String) :
    ChunkRecord.joined (recordsFor lines lower text)
      = Text.join "\n" ((partition lines text).map fun c => lower c.text) := by
  rw [← map_ofChunk_partition, ChunkRecord.joined, List.map_map]
  rfl

/-- The record was made from one of these texts. -/
def ChunkRecord.MadeFrom (lower : String → String) (texts : Set String) (r : ChunkRecord) :
    Prop :=
  ∃ text ∈ texts, r.sourceHash = Digest.ofText text ∧ r.loweredText = lower text

theorem Chunk.madeFrom_of_mem_recordsFor {lines : Nat} {lower : String → String} {text : String}
    {texts : Set String} (htexts : ∀ c ∈ partition lines text, c.text ∈ texts)
    {r : ChunkRecord} (h : r ∈ recordsFor lines lower text) : r.MadeFrom lower texts := by
  obtain ⟨i, c, hc, rfl⟩ : ∃ i c, (partition lines text)[i]? = some c
      ∧ (⟨i, Digest.ofText c.text, lower c.text⟩ : ChunkRecord) = r := by
    obtain ⟨i, hi⟩ := List.mem_iff_getElem?.mp h
    rw [recordsFor, List.getElem?_mapIdx] at hi
    obtain ⟨c, hc, hr⟩ := Option.map_eq_some_iff.mp hi
    exact ⟨i, c, hc, hr⟩
  exact ⟨c.text, htexts c (List.mem_of_getElem? hc), rfl, rfl⟩

namespace ChunkDiff

/-- **Whatever is reused is what the chunk would be lowered to.** Neither the
comparison nor the snapshot needs to be up to date. -/
theorem recordOf_eq {ε : Type} {lower : String → String} {effect : String → ExceptT ε Id String}
    {texts : Set String} {known : List ChunkRecord} {changed : List Nat} {c : Chunk}
    {r : ChunkRecord} (hfree : Digest.CollisionFree texts)
    (hknown : ∀ r ∈ known, r.MadeFrom lower texts) (hc : c.text ∈ texts)
    (hhash : c.hash = Digest.ofText c.text)
    (heffect : ∀ t o, (effect t).run.run = .ok o → o = lower t)
    (h : (recordOf effect known changed c).run.run = .ok r) : r = .ofChunk lower c := by
  obtain ⟨hindex, hrhash, hreused | ⟨-, hlowered⟩⟩ := of_recordOf_ok h
  · obtain ⟨old, hold, holdHash, holdText⟩ := reusable?_some hreused
    obtain ⟨text, htext, hdigest, hout⟩ := hknown old hold
    -- one digest, so one text
    obtain rfl : text = c.text := hfree htext hc (by rw [← hdigest, holdHash, hhash])
    cases r
    simp_all [ChunkRecord.ofChunk]
  · have hout := heffect _ _ hlowered
    cases r
    simp_all [ChunkRecord.ofChunk]

end ChunkDiff

namespace ChunkStore

variable {ε : Type} {lines : Nat} {lower : String → String → String} {texts : Set String}

/-! ## Sound compilations -/

/-- What is so far is right, and the snapshot holds nothing wrong. -/
def Compilation.Sound (lines : Nat) (lower : String → String → String) (texts : Set String)
    (call : Compilation ε) : Prop :=
  match call.stage with
  | .compared d => d.chunks = Chunk.partition lines call.text
  | .lowering _ known ready waiting =>
    (∀ r ∈ known, r.MadeFrom (lower call.file) texts)
      ∧ ∃ done, Chunk.partition lines call.text = done ++ waiting
        ∧ ready = done.map (.ofChunk (lower call.file))
  | .finished (.ok (output, _)) =>
    output = ChunkRecord.joined (Chunk.recordsFor lines (lower call.file) call.text)
  | .entered | .finished (.error _) | .dropped => True

namespace Compilation

theorem lowering_ok {failure : Option ε} {file t o : String}
    (h : (System.lowering lower failure file t).run.run = .ok o) : o = lower file t := by
  cases failure with
  | none => exact (Except.ok.inj h).symm
  | some e => cases h

theorem Sound.ready_eq {call : Compilation ε} (h : call.Sound lines lower texts) {d : ChunkDiff}
    {known ready : List ChunkRecord} (hstage : call.stage = .lowering d known ready []) :
    ready = Chunk.recordsFor lines (lower call.file) call.text := by
  simp only [Sound, hstage] at h
  obtain ⟨-, done, hparts, hready⟩ := h
  rw [hready, ← Chunk.map_ofChunk_partition, hparts, List.append_nil]

/-- A step keeps a compilation sound, as long as the records that it may take
a snapshot of are. -/
theorem Sound.step {call : Compilation ε} {store : ChunkStore}
    (h : call.Sound lines lower texts) (hfree : Digest.CollisionFree texts)
    (htexts : ∀ c ∈ Chunk.partition lines call.text, c.text ∈ texts)
    (hstore : ∀ r ∈ store.recordsOf call.file, r.MadeFrom (lower call.file) texts)
    (failure : Option ε) :
    (call.step lines (System.lowering lower failure call.file) store).1.Sound
      lines lower texts := by
  unfold Compilation.step
  cases hstage : call.stage with
  | entered => rfl
  | compared d =>
    simp only [Sound, hstage] at h
    exact ⟨hstore, [], h.symm, rfl⟩
  | lowering d known ready waiting =>
    cases waiting with
    | nil =>
      show ChunkRecord.joined ready = _
      rw [h.ready_eq hstage]
    | cons chunk waiting =>
      simp only [Sound, hstage] at h
      obtain ⟨hknown, done, hparts, hready⟩ := h
      have hplace : (Chunk.partition lines call.text)[done.length]? = some chunk := by
        rw [hparts]
        simp
      have hmem := List.mem_of_getElem? hplace
      simp only
      cases hrecord : (ChunkDiff.recordOf (System.lowering lower failure call.file) known
          d.changed chunk).run.run with
      | error e => trivial
      | ok record =>
        have hnew := ChunkDiff.recordOf_eq hfree hknown (htexts chunk hmem)
          (Chunk.getElem?_partition hplace).2 (fun _ _ => lowering_ok) hrecord
        refine ⟨hknown, done ++ [chunk], ?_, ?_⟩
        · rw [hparts, List.append_assoc, List.singleton_append]
        · rw [hready, hnew, List.map_append, List.map_singleton]
  | finished outcome => exact h
  | dropped => exact h

theorem Sound.drop {call : Compilation ε} (h : call.Sound lines lower texts) :
    call.drop.Sound lines lower texts := by
  unfold Compilation.drop
  split
  · exact h
  · trivial

end Compilation

/-! ## Sound systems -/

/-- Every compilation is sound, and what there is of a file are the records
of one that completed. -/
structure System.Sound (lines : Nat) (lower : String → String → String) (texts : Set String)
    (sys : System ε) : Prop where
  hashed : ∀ call ∈ sys.calls, ∀ c ∈ Chunk.partition lines call.text, c.text ∈ texts
  calls : ∀ call ∈ sys.calls, call.Sound lines lower texts
  store : ∀ file records, sys.store.get? file = some records →
    ∃ call ∈ sys.calls, call.file = file ∧ call.output?.isSome = true
      ∧ records = Chunk.recordsFor lines (lower file) call.text

/-- The chunks of a text that comes in. -/
def Event.chunkTexts (lines : Nat) (event : Event ε) : List String :=
  match event.entered? with
  | some (_, text) => (Chunk.partition lines text).map (·.text)
  | none => []

/-- The texts that are hashed as chunks. -/
def chunkTexts (lines : Nat) (events : List (Event ε)) : List String :=
  events.flatMap (Event.chunkTexts lines)

namespace System.Sound

variable {sys : System ε}

theorem empty : (⟨.empty, []⟩ : System ε).Sound lines lower texts := by
  refine ⟨?_, ?_, ?_⟩
  · intro call hcall
    cases hcall
  · intro call hcall
    cases hcall
  · intro file records hrecords
    cases hrecords

/-- Every snapshot that can be taken was made from these texts. -/
theorem madeFrom_recordsOf (h : sys.Sound lines lower texts) (file : String) :
    ∀ r ∈ sys.store.recordsOf file, r.MadeFrom (lower file) texts := by
  intro r hr
  rw [recordsOf] at hr
  cases hrecords : sys.store.get? file with
  | none => simp [hrecords] at hr
  | some records =>
    obtain ⟨call, hcall, -, -, rfl⟩ := h.store file records hrecords
    rw [hrecords, Option.getD_some] at hr
    exact Chunk.madeFrom_of_mem_recordsFor (h.hashed call hcall) hr

/-- The compilations that the records are of are still there after the next
event. -/
theorem records_step (h : sys.Sound lines lower texts) (event : Event ε) (file : String)
    (records : List ChunkRecord) (hrecords : sys.store.get? file = some records) :
    ∃ call ∈ (sys.step lines lower event).calls, call.file = file
      ∧ call.output?.isSome = true
      ∧ records = Chunk.recordsFor lines (lower file) call.text := by
  obtain ⟨call, hcall, hfile, houtput, hrecs⟩ := h.store file records hrecords
  obtain ⟨index, hindex⟩ := List.mem_iff_getElem?.mp hcall
  refine ⟨call, ?_, hfile, houtput, hrecs⟩
  cases hstage : call.stage with
  | finished outcome => exact List.mem_of_getElem? (step_finished lines lower hindex hstage event)
  | _ => simp [Compilation.output?, hstage] at houtput

/-- A sound compilation of the same text may stand in for one, where the
store is right. -/
theorem set (h : sys.Sound lines lower texts) {index : Nat} {call next : Compilation ε}
    {store : ChunkStore} (hcall : sys.calls[index]? = some call) (htext : next.text = call.text)
    (hnext : next.Sound lines lower texts)
    (hstore : ∀ file records, store.get? file = some records →
      ∃ call ∈ sys.calls.set index next, call.file = file ∧ call.output?.isSome = true
        ∧ records = Chunk.recordsFor lines (lower file) call.text) :
    (⟨store, sys.calls.set index next⟩ : System ε).Sound lines lower texts := by
  refine ⟨?_, ?_, hstore⟩
  · intro other hother
    rcases List.mem_or_eq_of_mem_set hother with hold | rfl
    · exact h.hashed other hold
    · rw [htext]
      exact h.hashed call (List.mem_of_getElem? hcall)
  · intro other hother
    rcases List.mem_or_eq_of_mem_set hother with hold | rfl
    · exact h.calls other hold
    · exact hnext

/-- A step of a compilation that does not complete by it leaves the records
as they are, and otherwise they become its own. -/
theorem proceed (h : sys.Sound lines lower texts) (hfree : Digest.CollisionFree texts)
    (index : Nat) (failure : Option ε) :
    (sys.step lines lower (.proceed index failure)).Sound lines lower texts := by
  have hkeep := h.records_step (.proceed index failure)
  cases hcall : sys.calls[index]? with
  | none => simpa only [System.step, hcall] using h
  | some call =>
    have hmem := List.mem_of_getElem? hcall
    simp only [System.step, hcall] at hkeep ⊢
    refine h.set hcall (call.step_file lines _ sys.store).2
      ((h.calls call hmem).step hfree (h.hashed call hmem) (h.madeFrom_recordsOf call.file) failure)
      ?_
    rcases call.step_store lines (lowering lower failure call.file) sys.store with
      hsame | ⟨d, known, ready, hstage, hdone⟩
    · rw [hsame]
      exact hkeep
    · rw [hdone] at hkeep ⊢
      intro file records hrecords
      rw [commit, SortedMap.get?_insert] at hrecords
      by_cases hfile : file = call.file
      · subst hfile
        rw [if_pos rfl] at hrecords
        obtain ⟨hlt, -⟩ := List.getElem?_eq_some_iff.mp hcall
        refine ⟨_, List.mem_of_getElem? (List.getElem?_set_self hlt), rfl, rfl, ?_⟩
        rw [← Option.some.inj hrecords]
        exact (h.calls call hmem).ready_eq hstage
      · rw [if_neg hfile] at hrecords
        exact hkeep file records hrecords

/-- **Every event keeps a system sound**, unless chunk texts collide. -/
theorem step (h : sys.Sound lines lower texts) (hfree : Digest.CollisionFree texts)
    {event : Event ε} (hevent : ∀ t ∈ event.chunkTexts lines, t ∈ texts) :
    (sys.step lines lower event).Sound lines lower texts := by
  have hkeep := h.records_step event
  cases event with
  | enter file text =>
    refine ⟨?_, ?_, hkeep⟩
    · intro call hcall c hc
      rcases List.mem_append.mp hcall with hold | hnew
      · exact h.hashed call hold c hc
      · obtain rfl := List.mem_singleton.mp hnew
        exact hevent _ (List.mem_map_of_mem hc)
    · intro call hcall
      rcases List.mem_append.mp hcall with hold | hnew
      · exact h.calls call hold
      · obtain rfl := List.mem_singleton.mp hnew
        trivial
  | proceed index failure => exact h.proceed hfree index failure
  | drop index =>
    cases hcall : sys.calls[index]? with
    | none => simpa only [System.step, hcall] using h
    | some call =>
      simp only [System.step, hcall] at hkeep ⊢
      exact h.set hcall call.drop_file.2 (h.calls call (List.mem_of_getElem? hcall)).drop hkeep
  | clearFile file =>
    refine ⟨h.hashed, h.calls, ?_⟩
    intro other records hrecords
    simp only [System.step, SortedMap.get?_erase] at hrecords
    split at hrecords
    · cases hrecords
    · exact hkeep other records hrecords
  | clearAll =>
    refine ⟨h.hashed, h.calls, ?_⟩
    intro file records hrecords
    cases hrecords

theorem run (h : sys.Sound lines lower texts) (hfree : Digest.CollisionFree texts)
    {events : List (Event ε)} (hevents : ∀ t ∈ chunkTexts lines events, t ∈ texts) :
    (sys.run lines lower events).Sound lines lower texts := by
  induction events generalizing sys with
  | nil => exact h
  | cons event rest ih =>
    refine ih (h.step hfree fun t ht => hevents t ?_) fun t ht => hevents t ?_
    · exact List.mem_flatMap.mpr ⟨event, List.mem_cons_self, ht⟩
    · obtain ⟨other, hother, ht⟩ := List.mem_flatMap.mp ht
      exact List.mem_flatMap.mpr ⟨other, List.mem_cons_of_mem event hother, ht⟩

end System.Sound

/-! ## Runs -/

namespace System

/-- No event of a compilation that fails or is dropped changes the store. -/
theorem step_store_of_lost (lines : Nat) (lower : String → String → String) (sys : System ε)
    {event : Event ε} (after : List (Event ε)) {index : Nat} {call : Compilation ε}
    (hevent : event.call? = some index)
    (hcall : (sys.run lines lower (event :: after)).calls[index]? = some call)
    (hlost : call.isLost = true) : (sys.step lines lower event).store = sys.store := by
  rcases step_store lines lower sys event with
    hsame | ⟨other, failure, old, ready, output, tally, rfl, -, hdone, -⟩ | ⟨file, rfl, -⟩
      | ⟨rfl, -⟩
  · exact hsame
  · -- had it completed, it would not be lost
    obtain rfl : other = index := Option.some.inj hevent
    rw [run_cons, run_finished lines lower hdone rfl after] at hcall
    obtain rfl := Option.some.inj hcall
    cases hlost
  · cases hevent
  · cases hevent

/-- **Compilations do not disturb each other.** Whatever comes between their
steps, each that completes returns what its own text is lowered to, chunk by
chunk; what there is of a file are the records of one compilation that
completed; and those that fail or are dropped leave no trace. One that comes
in and is left to itself does what `compile` does. -/
theorem run_isolated (lines : Nat) (lower : String → String → String) (events : List (Event ε))
    (hfree : Digest.CollisionFree {t | t ∈ chunkTexts lines events}) :
    let sys := run lines lower ⟨.empty, []⟩ events
    sys.calls.map (fun call => (call.file, call.text)) = events.filterMap Event.entered?
    ∧ (∀ call ∈ sys.calls, ∀ output, call.output? = some output →
      output = Text.join "\n"
        ((Chunk.partition lines call.text).map fun c => lower call.file c.text))
    ∧ (∀ file records, sys.store.get? file = some records →
      ∃ call ∈ sys.calls, call.file = file ∧ call.output?.isSome = true
        ∧ records = (Chunk.partition lines call.text).mapIdx fun i c =>
          ⟨i, Digest.ofText c.text, lower file c.text⟩)
    ∧ (∀ before event after index call, events = before ++ event :: after →
      event.call? = some index → sys.calls[index]? = some call → call.isLost = true →
        (run lines lower ⟨.empty, []⟩ (before ++ [event])).store
          = (run lines lower ⟨.empty, []⟩ before).store)
    ∧ (∀ file text,
      let r := (sys.store.compile lines file text (lowering lower (none : Option ε) file)).run
      sys.run lines lower (.enter file text :: List.replicate
          ((Chunk.partition lines text).length + 3) (.proceed sys.calls.length none))
        = ⟨r.2, sys.calls ++ [⟨file, text, .finished r.1⟩]⟩) := by
  intro sys
  have hsound : sys.Sound lines lower {t | t ∈ chunkTexts lines events} :=
    System.Sound.empty.run hfree fun t ht => ht
  refine ⟨run_calls lines lower ⟨.empty, []⟩ events, ?_, hsound.store, ?_,
    run_enter_proceed lines lower sys⟩
  · intro call hcall output houtput
    have hright := hsound.calls call hcall
    unfold Compilation.output? at houtput
    split at houtput
    · next found tally hstage =>
      simp only [Compilation.Sound, hstage] at hright
      rw [← Option.some.inj houtput, hright, Chunk.joined_recordsFor]
    · cases houtput
  · intro before event after index call hevents hevent hcall hlost
    rw [run_append]
    refine step_store_of_lost lines lower _ after hevent ?_ hlost
    rw [← run_append, ← hevents]
    exact hcall

/-- Four compilations of one file. The second compares its chunks with those
of the first and takes its snapshot when the third has replaced them; the
fourth fails at its second chunk. -/
def tangled : List (Event String) := [
  .enter "f" "a\nb", .proceed 0 none, .proceed 0 none, .proceed 0 none, .proceed 0 none,
  .proceed 0 none, .enter "f" "a\nc", .enter "f" "c", .enter "f" "a\nb", .proceed 1 none,
  .clearFile "f", .proceed 2 none, .proceed 2 none, .proceed 2 none, .proceed 2 none,
  .proceed 3 none, .proceed 1 none, .proceed 3 none, .proceed 1 none, .proceed 3 none,
  .proceed 1 none, .proceed 3 (some "lost"), .proceed 1 none]

/-- The second compilation returns what its text is lowered to, the file has
the records of one that completed, and the failure changes nothing. -/
theorem run_isolated_tangled :
    let mark := fun file text => file ++ ":" ++ text
    let sys := run 1 mark ⟨.empty, []⟩ tangled
    (∃ call ∈ sys.calls, call.text = "a\nc" ∧ call.output? = some "f:a\nf:c")
      ∧ (∃ records, sys.store.get? "f" = some records ∧ ∃ call ∈ sys.calls,
        records = (Chunk.partition 1 call.text).mapIdx fun i c =>
          ⟨i, Digest.ofText c.text, mark "f" c.text⟩)
      ∧ (run 1 mark ⟨.empty, []⟩ (tangled.take 21 ++ [.proceed 3 (some "lost")])).store
        = (run 1 mark ⟨.empty, []⟩ (tangled.take 21)).store := by
  intro mark
  have hfree : Digest.CollisionFree {t | t ∈ chunkTexts 1 tangled} :=
    Digest.collisionFree_of_all (by decide +kernel)
  obtain ⟨-, houtputs, hrecords, hlost, -⟩ := run_isolated 1 mark tangled hfree
  have hfacts : ((run 1 mark ⟨.empty, []⟩ tangled).calls[1]?.map fun call =>
        (call.file, call.text, call.output?.isSome)) = some ("f", "a\nc", true)
      ∧ (run 1 mark ⟨.empty, []⟩ tangled).calls[3]?.map (·.isLost) = some true
      ∧ ((run 1 mark ⟨.empty, []⟩ tangled).store.get? "f").isSome = true := by
    decide +kernel
  obtain ⟨hsecond, hfourth, hstored⟩ := hfacts
  have hlowered : Text.join "\n" ((Chunk.partition 1 "a\nc").map fun c => mark "f" c.text)
      = "f:a\nf:c" := by
    decide +kernel
  refine ⟨?_, ?_, ?_⟩
  · obtain ⟨call, hcall, hfacts⟩ := Option.map_eq_some_iff.mp hsecond
    simp only [Prod.mk.injEq] at hfacts
    obtain ⟨hfile, htext, hdone⟩ := hfacts
    obtain ⟨output, houtput⟩ := Option.isSome_iff_exists.mp hdone
    have hmem := List.mem_of_getElem? hcall
    have hright := houtputs call hmem output houtput
    rw [htext, hfile, hlowered] at hright
    exact ⟨call, hmem, htext, by rw [houtput, hright]⟩
  · obtain ⟨records, hget⟩ := Option.isSome_iff_exists.mp hstored
    obtain ⟨call, hcall, -, -, hrecs⟩ := hrecords "f" records hget
    exact ⟨records, hget, call, hcall, hrecs⟩
  · obtain ⟨call, hcall, hgone⟩ := Option.map_eq_some_iff.mp hfourth
    exact hlost (tangled.take 21) _ [.proceed 1 none] 3 call rfl rfl hcall hgone

end System

end ChunkStore

end Downlevel
