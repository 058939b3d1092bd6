/-
Downlevel.Proofs.Chunk.Locality — a compilation lowers what was edited, and
nothing else.

What a compilation does is settled before it begins: it lowers the texts of
`ChunkDiff.toLower`, in their order, and puts the outcomes where nothing can
be reused (`ChunkStore.compile_eq`). So the records that it leaves have the
places and the digests of the chunks, whatever the lowering did
(`Remembers.of_compile`), and calls for other files do not touch them
(`System.get?_run`).

From there on only texts are compared: the changed chunks are those in which
a line was edited (`ChunkStore.changed_after_compile`).
-/
import Downlevel.Proofs.Chunk.Interleaving
import Downlevel.Proofs.Chunk.Partition

namespace Downlevel

/-! ## What is lowered -/

namespace ChunkDiff

/-- The records of chunks, from what can be reused and, in their order, the
outcomes for the chunks of which nothing can. -/
def fill (reuse : Chunk → Option String) : List Chunk → List String → List ChunkRecord
  | [], _ => []
  | c :: rest, outcomes =>
    match reuse c with
    | some text => ⟨c.index, c.hash, text⟩ :: fill reuse rest outcomes
    | none => ⟨c.index, c.hash, outcomes.headD ""⟩ :: fill reuse rest outcomes.tail

/-- Places and digests are those of the chunks, whatever the outcomes. -/
theorem map_fill (reuse : Chunk → Option String) (chunks : List Chunk) (outcomes : List String) :
    (fill reuse chunks outcomes).map (fun r => (r.index, r.sourceHash))
      = chunks.map fun c => (c.index, c.hash) := by
  induction chunks generalizing outcomes with
  | nil => rfl
  | cons c rest ih =>
    rw [fill]
    cases reuse c with
    | some text => rw [List.map_cons, List.map_cons, ih]
    | none => rw [List.map_cons, List.map_cons, ih]

/-- The texts of the chunks of which nothing can be reused. -/
def toLower (d : ChunkDiff) (records : List ChunkRecord) : List String :=
  (d.chunks.filter fun c => (reusable? records d.changed c).isNone).map (·.text)

variable {ε : Type} {m : Type → Type} [Monad m] [LawfulMonad m]

/-- **All chunks are recorded by lowering the texts of some.** -/
theorem lowerAll_eq (d : ChunkDiff) (lower : String → ExceptT ε m String)
    (records : List ChunkRecord) :
    d.lowerAll lower records
      = fill (reusable? records d.changed) d.chunks <$> (d.toLower records).mapM lower := by
  rw [lowerAll, toLower]
  generalize d.changed = changed
  induction d.chunks with
  | nil => simp [fill]
  | cons c rest ih =>
    rw [List.mapM_cons, ih, recordOf]
    cases hreuse : reusable? records changed c with
    | some text => simp [fill, hreuse]
    | none => simp [fill, hreuse]

end ChunkDiff

namespace ChunkStore

variable {ε : Type}

/-- What a compilation returns and leaves, from the outcomes of its lowerings
or else the failure. -/
def afterLowering (store : ChunkStore) (file : String) (d : ChunkDiff) :
    Except ε (List String) → Except ε (String × ChunkTally) × ChunkStore
  | .ok outcomes =>
    let records := ChunkDiff.fill (ChunkDiff.reusable? (store.recordsOf file) d.changed)
      d.chunks outcomes
    (.ok (ChunkRecord.joined records, d.tally), store.commit file records)
  | .error e => (.error e, store)

/-- **A compilation is its lowerings, and nothing else has an effect.** -/
theorem compile_eq {m : Type → Type} [Monad m] [LawfulMonad m] (store : ChunkStore) (size : Nat)
    (file text : String) (lower : String → ExceptT ε m String) :
    let d := store.diff size file text
    store.compile size file text lower
      = store.afterLowering file d <$> ((d.toLower (store.recordsOf file)).mapM lower).run := by
  intro d
  rw [compile, compileChanged, ChunkDiff.lowerAll_eq, ExceptT.run_map, bind_assoc, bind_map_left,
    map_eq_pure_bind]
  refine bind_congr fun outcome => ?_
  cases outcome with
  | ok outcomes => exact pure_bind _ _
  | error e => exact pure_bind _ _

end ChunkStore

/-! ## What is remembered -/

namespace Chunk

variable {size : Nat} {text : String}

/-- A chunk is the one at its place, and goes by the digest of its text. -/
theorem textAt?_of_mem {c : Chunk} (h : c ∈ partition size text) :
    textAt? size text c.index = some c.text ∧ c.hash = Digest.ofText c.text := by
  obtain ⟨k, hk⟩ := List.mem_iff_getElem?.mp h
  obtain ⟨hindex, hhash⟩ := getElem?_partition hk
  refine ⟨?_, hhash⟩
  rw [textAt?, hindex, hk]
  rfl

theorem map_index_partition (size : Nat) (text : String) :
    (partition size text).map (·.index) = List.range (partition size text).length := by
  apply List.ext_getElem
  · rw [List.length_map, List.length_range]
  · intro k hk hk'
    rw [List.getElem_map, List.getElem_range]
    rw [List.length_map] at hk
    exact (getElem?_partition (List.getElem?_eq_getElem hk)).1

end Chunk

namespace ChunkStore

/-- The records of a file stand at the places of the chunks of a text, under
their digests. -/
def Remembers (store : ChunkStore) (size : Nat) (file text : String) : Prop :=
  (store.recordsOf file).map (fun r => (r.index, r.sourceHash))
    = (Chunk.partition size text).map fun c => (c.index, c.hash)

theorem Remembers.of_afterLowering {ε : Type} {store compiled : ChunkStore} {size : Nat}
    {file text : String} {lowered : Except ε (List String)} {outcome : String × ChunkTally}
    (h : store.afterLowering file (store.diff size file text) lowered = (.ok outcome, compiled)) :
    compiled.Remembers size file text := by
  cases lowered with
  | error e => cases h
  | ok outcomes =>
    obtain rfl := (Prod.mk.inj h).2
    rw [Remembers, recordsOf, commit, SortedMap.get?_insert, if_pos rfl]
    exact ChunkDiff.map_fill _ _ outcomes

/-- **A compilation that succeeds is remembered**, whatever the lowering does
and whatever was remembered before. -/
theorem Remembers.of_compile {σ ε : Type} {store compiled : ChunkStore} {size : Nat}
    {file text : String} {lower : String → ExceptT ε (StateM σ) String} {before after : σ}
    {outcome : String × ChunkTally}
    (h : (store.compile size file text lower).run before = ((.ok outcome, compiled), after)) :
    compiled.Remembers size file text := by
  rw [compile_eq, StateT.run_map] at h
  exact of_afterLowering (congrArg Prod.fst h)

namespace Remembers

variable {store : ChunkStore} {size : Nat} {file text : String}

theorem index_eq (h : store.Remembers size file text) {k : Nat} {r : ChunkRecord}
    (hr : (store.recordsOf file)[k]? = some r) : r.index = k := by
  have hk := congrArg (·[k]?) h
  simp only [List.getElem?_map, hr] at hk
  obtain ⟨c, hc, hsame⟩ := Option.map_eq_some_iff.mp hk.symm
  rw [← (Prod.mk.inj hsame).1]
  exact (Chunk.getElem?_partition hc).1

/-- What a text is lowered to is remembered at a place exactly where it is
the chunk at that place. -/
theorem isNone_remembered? {hashed : Set String} (h : store.Remembers size file text)
    (hfree : Digest.CollisionFree hashed)
    (hold : ∀ c ∈ Chunk.partition size text, c.text ∈ hashed)
    {other : String} (hother : other ∈ hashed) (k : Nat) :
    (ChunkRecord.remembered? (store.recordsOf file) k (Digest.ofText other)).isNone
      = (Chunk.textAt? size text k != some other) := by
  have hk := congrArg (·[k]?) h
  simp only [List.getElem?_map] at hk
  rw [ChunkRecord.remembered?]
  cases hr : (store.recordsOf file)[k]? with
  | none =>
    rw [hr, Option.map_none, eq_comm, Option.map_eq_none_iff] at hk
    rw [Chunk.textAt?, hk]
    rfl
  | some r =>
    rw [hr, Option.map_some] at hk
    obtain ⟨c, hc, hsame⟩ := Option.map_eq_some_iff.mp hk.symm
    have hhash : r.sourceHash = Digest.ofText c.text := by
      rw [← (Prod.mk.inj hsame).2]
      exact (Chunk.getElem?_partition hc).2
    have htext : Chunk.textAt? size text k = some c.text := by
      rw [Chunk.textAt?, hc]
      rfl
    by_cases heq : c.text = other
    · simp [htext, hhash, heq]
    · have hne : Digest.ofText c.text ≠ Digest.ofText other :=
        fun hdigest => heq (hfree (hold c (List.mem_of_getElem? hc)) hother hdigest)
      simp [htext, hhash, heq, hne]

end Remembers

end ChunkStore

/-! ## Other files -/

namespace ChunkStore

variable {ε : Type}

/-- The event neither compiles nor forgets the file. -/
def Event.Spares (file : String) : Event ε → Prop
  | .enter other _ | .clearFile other => other ≠ file
  | .proceed _ _ | .drop _ => True
  | .clearAll => False

namespace System

variable {sys : System ε} {event : Event ε} {file : String}

theorem step_apart (size : Nat) (lower : String → String → String)
    (h : ∀ call ∈ sys.calls, call.file ≠ file) (hevent : event.Spares file) :
    ∀ call ∈ (sys.step size lower event).calls, call.file ≠ file := by
  intro call hcall
  have hmem : (call.file, call.text)
      ∈ (sys.step size lower event).calls.map fun call => (call.file, call.text) :=
    List.mem_map_of_mem hcall
  rw [step_calls] at hmem
  rcases List.mem_append.mp hmem with hold | hnew
  · obtain ⟨old, hold, hsame⟩ := List.mem_map.mp hold
    rw [← (Prod.mk.inj hsame).1]
    exact h old hold
  · have hentered : event.entered? = some (call.file, call.text) := Option.mem_toList.mp hnew
    cases event with
    | enter other text =>
      rw [← (Prod.mk.inj (Option.some.inj hentered)).1]
      exact hevent
    | _ => cases hentered

theorem get?_step (size : Nat) (lower : String → String → String)
    (h : ∀ call ∈ sys.calls, call.file ≠ file) (hevent : event.Spares file) :
    (sys.step size lower event).store.get? file = sys.store.get? file := by
  rcases sys.step_store size lower event with
    hsame | ⟨index, failure, call, ready, output, tally, -, hcall, -, hdone⟩
      | ⟨other, rfl, hgone⟩ | ⟨rfl, -⟩
  · rw [hsame]
  · have hother := h call (List.mem_of_getElem? hcall)
    rw [hdone, commit, SortedMap.get?_insert, if_neg hother.symm]
  · rw [hgone, SortedMap.get?_erase, if_neg (Ne.symm hevent)]
  · exact hevent.elim

/-- **Calls for other files leave the records of a file as they are.** -/
theorem get?_run (size : Nat) (lower : String → String → String) {events : List (Event ε)}
    (h : ∀ call ∈ sys.calls, call.file ≠ file) (hevents : ∀ event ∈ events, event.Spares file) :
    (sys.run size lower events).store.get? file = sys.store.get? file := by
  induction events generalizing sys with
  | nil => rfl
  | cons event rest ih =>
    have hevent := hevents event List.mem_cons_self
    rw [run_cons, ih (step_apart size lower h hevent) fun other hother =>
      hevents other (List.mem_cons_of_mem event hother), get?_step size lower h hevent]

end System

end ChunkStore

/-! ## What has changed -/

namespace ChunkDiff

/-- The records have nothing for the chunk at its place. -/
def isNew (records : List ChunkRecord) (c : Chunk) : Bool :=
  (ChunkRecord.remembered? records c.index c.hash).isNone

theorem changed_ofChunks (records : List ChunkRecord) (chunks : List Chunk) :
    (ofChunks records chunks).changed = (chunks.filter (isNew records)).map (·.index) := by
  rw [ofChunks]
  refine congrArg (List.map _) (List.filter_congr fun c _ => ?_)
  rw [isNew, ChunkRecord.remembered?]
  cases records[c.index]? with
  | none => rfl
  | some r => by_cases hhash : r.sourceHash = c.hash <;> simp [hhash]

end ChunkDiff

namespace ChunkStore

variable {store : ChunkStore} {size : Nat} {file t u : String}

/-- The texts that are hashed as chunks of two texts. -/
def chunksOf (size : Nat) (t u : String) : Set String :=
  {chunk | chunk ∈ (Chunk.partition size t ++ Chunk.partition size u).map (·.text)}

namespace Remembers

/-- A chunk is new exactly where the text had another one. -/
theorem isNew_eq (h : store.Remembers size file t)
    (hfree : Digest.CollisionFree (chunksOf size t u)) {c : Chunk}
    (hc : c ∈ Chunk.partition size u) :
    ChunkDiff.isNew (store.recordsOf file) c
      = (Chunk.textAt? size t c.index != Chunk.textAt? size u c.index) := by
  obtain ⟨htext, hhash⟩ := Chunk.textAt?_of_mem hc
  rw [ChunkDiff.isNew, htext, hhash]
  refine h.isNone_remembered? hfree ?_ ?_ c.index
  · intro old hold
    exact List.mem_map_of_mem (List.mem_append_left _ hold)
  · exact List.mem_map_of_mem (List.mem_append_right _ hc)

/-- The changed chunks are those whose place had another text, or none. -/
theorem changed_diff (h : store.Remembers size file t)
    (hfree : Digest.CollisionFree (chunksOf size t u)) :
    (store.diff size file u).changed
      = (List.range (Chunk.partition size u).length).filter fun k =>
          Chunk.textAt? size t k != Chunk.textAt? size u k := by
  rw [diff, ChunkDiff.changed_ofChunks, ← Chunk.map_index_partition, List.filter_map]
  exact congrArg (List.map _) (List.filter_congr fun c hc => h.isNew_eq hfree hc)

/-- **What is lowered are the changed chunks**, in their order. -/
theorem toLower_diff (h : store.Remembers size file t) :
    let d := store.diff size file u
    d.toLower (store.recordsOf file) = d.changed.filterMap (Chunk.textAt? size u) := by
  intro d
  -- the snapshot is the one that the chunks were compared with
  have hreuse : ∀ c ∈ d.chunks,
      (ChunkDiff.reusable? (store.recordsOf file) d.changed c).isNone
        = ChunkDiff.isNew (store.recordsOf file) c := by
    intro c hc
    obtain ⟨k, hk⟩ := List.mem_iff_getElem?.mp hc
    rw [ChunkDiff.isNew, (Chunk.getElem?_partition hk).1]
    exact congrArg Option.isNone (ChunkDiff.reusable?_eq
      (fun _ _ hc => (Chunk.getElem?_partition hc).1) (fun _ _ => h.index_eq) hk)
  have htext : ∀ c ∈ d.chunks.filter (ChunkDiff.isNew (store.recordsOf file)),
      Chunk.textAt? size u c.index = some c.text :=
    fun c hc => (Chunk.textAt?_of_mem (List.mem_of_mem_filter hc)).1
  calc d.toLower (store.recordsOf file)
      = (d.chunks.filter (ChunkDiff.isNew (store.recordsOf file))).map (·.text) :=
        congrArg (List.map _) (List.filter_congr hreuse)
    _ = (d.chunks.filter (ChunkDiff.isNew (store.recordsOf file))).filterMap
          fun c => Chunk.textAt? size u c.index := by
        rw [List.filterMap_congr htext, List.filterMap_eq_map']
    _ = d.changed.filterMap (Chunk.textAt? size u) := by
        rw [show d.changed = _ from ChunkDiff.changed_ofChunks _ _, List.filterMap_map]
        rfl

/-- **Edited lines change the chunks that they are in**, and no others. -/
theorem mem_changed_iff (h : store.Remembers size file t) (hsize : 0 < size)
    (hfree : Digest.CollisionFree (chunksOf size t u))
    (hlength : (Text.lines t).length = (Text.lines u).length) {k : Nat} :
    k ∈ (store.diff size file u).changed
      ↔ ∃ i, (Text.lines t)[i]? ≠ (Text.lines u)[i]? ∧ i / size = k := by
  rw [h.changed_diff hfree, List.mem_filter, List.mem_range, bne_iff_ne, Ne,
    Chunk.textAt?_eq_iff hsize]
  constructor
  · rintro ⟨-, hne⟩
    obtain ⟨i, hi⟩ := not_forall.mp hne
    obtain ⟨hk, hline⟩ := Classical.not_imp.mp hi
    exact ⟨i, hline, hk⟩
  · rintro ⟨i, hline, hk⟩
    refine ⟨?_, fun hsame => hline (hsame i hk)⟩
    -- a line that differs is a line of the text
    have hi : i < (Text.lines u).length := by
      by_contra hbeyond
      refine hline ?_
      rw [List.getElem?_eq_none_iff.mpr (Nat.le_of_not_lt hbeyond),
        List.getElem?_eq_none_iff.mpr (by omega)]
    rw [Chunk.length_partition_gt_iff hsize, ← hk]
    exact Nat.lt_of_le_of_lt (Nat.div_mul_le_self i size) hi

end Remembers

/-- **A compilation lowers what was edited, and nothing else.** Once a text was
compiled as the state of a file, with calls only for other files since, a
comparison with another text names, in ascending order, the chunks that the
first text does not have or has otherwise. Where lines were edited in place,
these are the chunks of the edited lines. The next compilation lowers these
chunks in this order, each of them once, up to the first failure, and has no
other effect. The chunks of any text are the text, joined at line breaks, and all
but the last have `size` lines. -/
theorem changed_after_compile {σ ε ω : Type} {size : Nat} (hsize : 1 ≤ size)
    {file t u : String} (hfree : Digest.CollisionFree (chunksOf size t u))
    {store compiled : ChunkStore} {lower : String → ExceptT ε (StateM σ) String}
    {before after : σ} {outcome : String × ChunkTally}
    (hcompiled : (store.compile size file t lower).run before
      = ((.ok outcome, compiled), after))
    (others : String → String → String) {calls : List (Compilation ω)}
    (hcalls : ∀ call ∈ calls, call.file ≠ file) {events : List (Event ω)}
    (hevents : ∀ event ∈ events, event.Spares file) :
    let later := (System.run size others ⟨compiled, calls⟩ events).store
    let d := later.diff size file u
    d.changed = (List.range (Chunk.partition size u).length).filter (fun k =>
        Chunk.textAt? size t k != Chunk.textAt? size u k)
      ∧ (∀ edited : Finset Nat, (Text.lines t).length = (Text.lines u).length →
        (∀ i, i ∈ edited ↔ (Text.lines t)[i]? ≠ (Text.lines u)[i]?) →
          d.changed.toFinset = edited.image (· / size))
      ∧ (∀ (δ : Type) (m : Type → Type) [Monad m] [LawfulMonad m]
        (effect : String → ExceptT δ m String),
          later.compile size file u effect
            = later.afterLowering file d
              <$> ((d.changed.filterMap (Chunk.textAt? size u)).mapM effect).run)
      ∧ ∀ text, Text.join "\n" ((Chunk.partition size text).map (·.text)) = text
        ∧ ∀ (k : Nat) (chunk : Chunk), (Chunk.partition size text)[k]? = some chunk →
          k + 1 < (Chunk.partition size text).length →
            (Text.lines chunk.text).length = size := by
  intro later d
  have hlater : later.Remembers size file t := by
    have hsame : later.recordsOf file = compiled.recordsOf file :=
      congrArg (Option.getD · []) (System.get?_run size others hcalls hevents)
    rw [Remembers, hsame]
    exact Remembers.of_compile hcompiled
  refine ⟨hlater.changed_diff hfree, ?_, ?_, ?_⟩
  · intro edited hlength hedited
    ext k
    rw [List.mem_toFinset, hlater.mem_changed_iff hsize hfree hlength, Finset.mem_image]
    simp only [hedited]
  · intro δ m _ _ effect
    rw [compile_eq, hlater.toLower_diff]
  · intro text
    exact ⟨Chunk.join_partition size text,
      fun k chunk hchunk hlast => Chunk.length_lines_of_lt hsize hchunk hlast⟩

/-- Lowering that keeps a list of what it is called on. -/
def listing (text : String) : ExceptT String (StateM (List String)) String := do
  modify (· ++ [text])
  return text ++ ";"

/-- A compilation that is under way and another one that comes in, both of
another file, and a file that is forgotten. -/
def elsewhere : List (Event String) := [
  .proceed 0 none, .enter "g" "c", .proceed 1 none, .proceed 0 none, .proceed 1 none,
  .proceed 1 none, .drop 0, .clearFile "h", .proceed 1 none]

/-- Of three chunks of two lines the first and the last are edited, and these
two are lowered. -/
theorem changed_after_compile_edited :
    let t := "a\nb\nc\nd\ne"
    let u := "a\nB\nc\nd\nE"
    let compiled := Prod.snd (Prod.fst ((compile .empty 2 "f" t listing).run []))
    let later := (System.run 2 (fun file text => file ++ text)
      ⟨compiled, [⟨"g", "a\nb\nc", .entered⟩]⟩ elsewhere).store
    (later.diff 2 "f" u).changed.toFinset = ({1, 4} : Finset Nat).image (· / 2)
      ∧ Prod.snd ((later.compile 2 "f" u listing).run []) = ["a\nB", "E"] := by
  intro t u compiled later
  have hfree : Digest.CollisionFree (chunksOf 2 t u) :=
    Digest.collisionFree_of_all (by decide +kernel)
  obtain ⟨outcome, hcompiled⟩ : ∃ outcome, (compile .empty 2 "f" t listing).run []
      = ((.ok outcome, compiled), Prod.snd ((compile .empty 2 "f" t listing).run [])) := by
    have hok : (Prod.fst (Prod.fst ((compile .empty 2 "f" t listing).run []))).isOk = true := by
      decide +kernel
    cases hfirst : Prod.fst (Prod.fst ((compile .empty 2 "f" t listing).run [])) with
    | error e => simp [hfirst, Except.isOk, Except.toBool] at hok
    | ok outcome =>
      refine ⟨outcome, ?_⟩
      rw [← hfirst]
      rfl
  have hcalls : ∀ call ∈ ([⟨"g", "a\nb\nc", .entered⟩] : List (Compilation String)),
      call.file ≠ "f" := by
    simp
  have hevents : ∀ event ∈ elsewhere, event.Spares "f" := by
    simp [elsewhere, Event.Spares]
  obtain ⟨hchanged, hlines, hlowered, -⟩ := changed_after_compile (by decide) hfree hcompiled
    (fun file text => file ++ text) hcalls hevents
  have ht : Text.lines t = [['a'], ['b'], ['c'], ['d'], ['e']] := by decide +kernel
  have hu : Text.lines u = [['a'], ['B'], ['c'], ['d'], ['E']] := by decide +kernel
  refine ⟨hlines {1, 4} (by rw [ht, hu]; rfl) ?_, ?_⟩
  · intro i
    rw [ht, hu]
    match i with
    | 0 | 1 | 2 | 3 | 4 => decide
    | i + 5 => simp
  · have htexts : (later.diff 2 "f" u).changed.filterMap (Chunk.textAt? 2 u) = ["a\nB", "E"] := by
      rw [hchanged]
      decide +kernel
    rw [hlowered, htexts]
    rfl

end ChunkStore

end Downlevel
