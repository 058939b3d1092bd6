/-
Downlevel.Proofs.Chunk.Compile — where the parts of a compiled file come
from.

A record keeps the digest of a chunk and what the chunk was lowered to, but
not under which configuration. A `ChunkOrigin` is what the record leaves
out: the text and the configuration themselves. `Describes` ties the
records of a file to their origins.

`recompiled` says where the parts of the next compilation come from. A
chunk whose text is at its place unchanged keeps its origin, the
configuration included; every other chunk is lowered under the present
configuration. `describes_lowerAll`: that is exactly what a compilation
does, unless chunk texts collide.
-/
import Downlevel.Chunk.Basic
import Downlevel.Proofs.Cache.Key
import Downlevel.Proofs.Text.Lines

namespace Downlevel

/-! ## Chunks of a text -/

namespace Chunk

/-- Every text has at least one chunk. -/
theorem partition_ne_nil (lines : Nat) (text : String) : partition lines text ≠ [] := by
  rw [partition, Ne, List.mapIdx_eq_nil_iff]
  cases hparts : Text.splitAt '\n' text.toList with
  | nil => exact absurd hparts (Text.lines_ne_nil text)
  | cons part parts =>
    rw [groups]
    exact List.cons_ne_nil _ _

theorem getElem?_partition {lines : Nat} {text : String} {i : Nat} {chunk : Chunk}
    (h : (partition lines text)[i]? = some chunk) :
    chunk.index = i ∧ chunk.hash = Digest.ofText chunk.text := by
  rw [partition, List.getElem?_mapIdx] at h
  obtain ⟨part, -, rfl⟩ := Option.map_eq_some_iff.mp h
  exact ⟨rfl, rfl⟩

end Chunk

/-! ## Origins -/

/-- What a part of a compiled file was lowered from. -/
structure ChunkOrigin where
  text : String
  configuration : Configuration

namespace ChunkOrigin

/-- Where a chunk at a place comes from in the next compilation. -/
def next (origins : List ChunkOrigin) (c : Configuration) (i : Nat) (text : String) :
    ChunkOrigin :=
  match origins[i]? with
  | some origin => if origin.text = text then origin else ⟨text, c⟩
  | none => ⟨text, c⟩

/-- The origins after a compilation of these chunks. -/
def recompiled (origins : List ChunkOrigin) (c : Configuration) (texts : List String) :
    List ChunkOrigin :=
  texts.mapIdx fun i text => next origins c i text

theorem next_text (origins : List ChunkOrigin) (c : Configuration) (i : Nat) (text : String) :
    (next origins c i text).text = text := by
  unfold next
  split
  · split
    · next h => exact h
    · rfl
  · rfl

/-- The origins are those of the present chunks. -/
theorem map_text_recompiled (origins : List ChunkOrigin) (c : Configuration)
    (texts : List String) : (recompiled origins c texts).map (·.text) = texts := by
  apply List.ext_getElem?
  intro i
  rw [recompiled, List.getElem?_map, List.getElem?_mapIdx]
  cases texts[i]? with
  | none => rfl
  | some text => exact congrArg some (next_text origins c i text)

end ChunkOrigin

/-- What a text is lowered to under a configuration, where it is. -/
abbrev LoweredText := String → Configuration → Option String

/-- The records of a file were made from these origins. -/
structure Describes (out : LoweredText) (origins : List ChunkOrigin)
    (records : List ChunkRecord) : Prop where
  length_eq : records.length = origins.length
  record : ∀ (i : Nat) (origin : ChunkOrigin) (r : ChunkRecord),
    origins[i]? = some origin → records[i]? = some r →
      r.index = i ∧ r.sourceHash = Digest.ofText origin.text
        ∧ out origin.text origin.configuration = some r.loweredText

namespace Describes

variable {out : LoweredText} {origins : List ChunkOrigin} {records : List ChunkRecord}

theorem nil (out : LoweredText) : Describes out [] [] := by
  refine ⟨rfl, ?_⟩
  intro i origin r h
  cases h

/-- Records and origins stand at the same places. -/
theorem origin_of_record (h : Describes out origins records) {i : Nat} {r : ChunkRecord}
    (hr : records[i]? = some r) : ∃ origin, origins[i]? = some origin := by
  obtain ⟨hlt, -⟩ := List.getElem?_eq_some_iff.mp hr
  rw [h.length_eq] at hlt
  exact ⟨origins[i], List.getElem?_eq_getElem hlt⟩

theorem index_eq (h : Describes out origins records) {i : Nat} {r : ChunkRecord}
    (hr : records[i]? = some r) : r.index = i := by
  obtain ⟨origin, horigin⟩ := h.origin_of_record hr
  exact (h.record i origin r horigin hr).1

/-- What the records hold is what their origins are lowered to. -/
theorem map_out (h : Describes out origins records) :
    origins.map (fun origin => out origin.text origin.configuration)
      = records.map fun r => some r.loweredText := by
  apply List.ext_getElem?
  intro i
  rw [List.getElem?_map, List.getElem?_map]
  cases hr : records[i]? with
  | none =>
    rw [List.getElem?_eq_none_iff, h.length_eq, ← List.getElem?_eq_none_iff] at hr
    rw [hr]
    rfl
  | some r =>
    obtain ⟨origin, horigin⟩ := h.origin_of_record hr
    rw [horigin]
    exact congrArg some (h.record i origin r horigin hr).2.2

end Describes

/-! ## Reuse -/

/-- What records remember at a place for a digest. -/
def ChunkRecord.remembered? (records : List ChunkRecord) (i : Nat) (hash : String) :
    Option String :=
  match records[i]? with
  | some r => if r.sourceHash = hash then some r.loweredText else none
  | none => none

/-- **Records and origins are reused together**: equal digests mean equal
texts. So what the next origin of a place is lowered to is what the records
remember, or else what the text is lowered to now. -/
theorem Describes.out_next {out : LoweredText} {origins : List ChunkOrigin}
    {records : List ChunkRecord} {hashed : Set String} (h : Describes out origins records)
    (hfree : Digest.CollisionFree hashed) (hold : ∀ origin ∈ origins, origin.text ∈ hashed)
    {text : String} (htext : text ∈ hashed) (c : Configuration) (i : Nat) :
    out text (ChunkOrigin.next origins c i text).configuration
      = (ChunkRecord.remembered? records i (Digest.ofText text)).or (out text c) := by
  unfold ChunkOrigin.next ChunkRecord.remembered?
  cases hrecord : records[i]? with
  | none =>
    rw [List.getElem?_eq_none_iff, h.length_eq, ← List.getElem?_eq_none_iff] at hrecord
    rw [hrecord]
    rfl
  | some r =>
    obtain ⟨origin, horigin⟩ := h.origin_of_record hrecord
    obtain ⟨-, hhash, hout⟩ := h.record i origin r horigin hrecord
    simp only [horigin, hhash]
    by_cases heq : origin.text = text
    · subst heq
      simp only [if_true, hout]
      rfl
    · have hne : ¬ Digest.ofText origin.text = Digest.ofText text := by
        intro hdigest
        exact heq (hfree (hold origin (List.mem_of_getElem? horigin)) htext hdigest)
      simp only [if_neg heq, if_neg hne]
      rfl

namespace ChunkDiff

/-- Where records stand at their own places, the record with an index is
the one at that place. -/
theorem find?_index {records : List ChunkRecord}
    (hindex : ∀ (i : Nat) (r : ChunkRecord), records[i]? = some r → r.index = i) (i : Nat) :
    (records.reverse.find? fun r => r.index == i) = records[i]? := by
  cases hr : records[i]? with
  | some r =>
    cases hfind : records.reverse.find? fun r => r.index == i with
    | none =>
      have hmem := List.mem_reverse.mpr (List.mem_of_getElem? hr)
      have hne := List.find?_eq_none.mp hfind r hmem
      rw [hindex i r hr] at hne
      simp at hne
    | some found =>
      obtain ⟨j, hj⟩ := List.mem_iff_getElem?.mp
        (List.mem_reverse.mp (List.mem_of_find?_eq_some hfind))
      have hfound := List.find?_some hfind
      rw [hindex j found hj, beq_iff_eq] at hfound
      rw [hfound, hr] at hj
      exact hj.symm
  | none =>
    apply List.find?_eq_none.mpr
    intro found hmem
    obtain ⟨j, hj⟩ := List.mem_iff_getElem?.mp (List.mem_reverse.mp hmem)
    rw [hindex j found hj, beq_iff_eq]
    rintro rfl
    rw [hr] at hj
    cases hj

/-- A chunk that is as remembered is not among the changed ones. -/
theorem not_contains_changed {records : List ChunkRecord} {chunks : List Chunk}
    (hindex : ∀ (i : Nat) (c : Chunk), chunks[i]? = some c → c.index = i) {i : Nat} {c : Chunk}
    {r : ChunkRecord} (hc : chunks[i]? = some c) (hr : records[i]? = some r)
    (hhash : r.sourceHash = c.hash) :
    (ofChunks records chunks).changed.contains c.index = false := by
  apply Bool.eq_false_iff.mpr
  intro hcontains
  obtain ⟨other, hother, hplace⟩ := List.mem_map.mp (List.contains_iff_mem.mp hcontains)
  obtain ⟨hmem, hchanged⟩ := List.mem_filter.mp hother
  -- the other chunk with this index is the chunk itself
  obtain ⟨j, hj⟩ := List.mem_iff_getElem?.mp hmem
  rw [hindex j other hj, hindex i c hc] at hplace
  rw [hplace, hc] at hj
  obtain rfl := Option.some.inj hj
  rw [hindex i c hc, hr] at hchanged
  simp [hhash] at hchanged

/-- A chunk is reused exactly where it is as remembered. -/
theorem reusable?_eq {records : List ChunkRecord} {chunks : List Chunk}
    (hchunks : ∀ (i : Nat) (c : Chunk), chunks[i]? = some c → c.index = i)
    (hrecords : ∀ (i : Nat) (r : ChunkRecord), records[i]? = some r → r.index = i)
    {i : Nat} {c : Chunk} (hc : chunks[i]? = some c) :
    reusable? records (ofChunks records chunks).changed c
      = ChunkRecord.remembered? records i c.hash := by
  rw [reusable?, ChunkRecord.remembered?, hchunks i c hc, find?_index hrecords]
  cases hr : records[i]? with
  | none => rfl
  | some r =>
    by_cases hhash : r.sourceHash = c.hash
    · have hnot := not_contains_changed hchunks hc hr hhash
      rw [hchunks i c hc] at hnot
      simp only [hhash, hnot]
      rfl
    · simp [hhash]

/-- What is reused is in the records, under the digest of the chunk. -/
theorem reusable?_some {records : List ChunkRecord} {changed : List Nat} {c : Chunk}
    {text : String} (h : reusable? records changed c = some text) :
    ∃ r ∈ records, r.sourceHash = c.hash ∧ r.loweredText = text := by
  unfold reusable? at h
  cases hfind : records.reverse.find? fun r => r.index == c.index with
  | none => simp [hfind] at h
  | some r =>
    have hmem := List.mem_reverse.mp (List.mem_of_find?_eq_some hfind)
    simp only [hfind] at h
    split at h
    · next hsame =>
      rw [Bool.and_eq_true, decide_eq_true_eq] at hsame
      exact ⟨r, hmem, hsame.1, Option.some.inj h⟩
    · cases h

/-! ## Lowering all chunks -/

variable {ε : Type}

/-- A traversal that succeeds has succeeded at every place. -/
theorem getElem?_of_mapM_ok {α β : Type} {f : α → ExceptT ε Id β} {xs : List α} {ys : List β}
    (h : (xs.mapM f).run.run = .ok ys) :
    ys.length = xs.length
      ∧ ∀ (i : Nat) (y : β), ys[i]? = some y → ∃ x, xs[i]? = some x ∧ (f x).run.run = .ok y := by
  induction xs generalizing ys with
  | nil =>
    obtain rfl : [] = ys := Except.ok.inj h
    refine ⟨rfl, ?_⟩
    intro i y hy
    cases hy
  | cons x xs ih =>
    rw [List.mapM_cons] at h
    simp only [ExceptT.run_bind, Id.run_bind] at h
    cases hx : (f x).run.run with
    | error e =>
      rw [hx] at h
      cases h
    | ok z =>
      rw [hx] at h
      simp only [Id.run_bind] at h
      cases hxs : (xs.mapM f).run.run with
      | error e =>
        rw [hxs] at h
        cases h
      | ok zs =>
        rw [hxs] at h
        obtain rfl : z :: zs = ys := Except.ok.inj h
        obtain ⟨hlength, hget⟩ := ih hxs
        refine ⟨congrArg Nat.succ hlength, ?_⟩
        intro i y hy
        cases i with
        | zero =>
          obtain rfl : z = y := Option.some.inj hy
          exact ⟨x, rfl, hx⟩
        | succ i => exact hget i y hy

/-- The record of a chunk holds what is reused, or else what the chunk is
lowered to. -/
theorem of_recordOf_ok {lower : String → ExceptT ε Id String} {records : List ChunkRecord}
    {changed : List Nat} {c : Chunk} {r : ChunkRecord}
    (h : (recordOf lower records changed c).run.run = .ok r) :
    r.index = c.index ∧ r.sourceHash = c.hash
      ∧ (reusable? records changed c = some r.loweredText
        ∨ reusable? records changed c = none ∧ (lower c.text).run.run = .ok r.loweredText) := by
  rw [recordOf] at h
  cases hreuse : reusable? records changed c with
  | some text =>
    rw [hreuse] at h
    obtain rfl : (⟨c.index, c.hash, text⟩ : ChunkRecord) = r := Except.ok.inj h
    exact ⟨rfl, rfl, .inl rfl⟩
  | none =>
    rw [hreuse] at h
    simp only [ExceptT.run_bind, Id.run_bind] at h
    cases hlower : (lower c.text).run.run with
    | error e =>
      rw [hlower] at h
      cases h
    | ok text =>
      rw [hlower] at h
      obtain rfl : (⟨c.index, c.hash, text⟩ : ChunkRecord) = r := Except.ok.inj h
      exact ⟨rfl, rfl, .inr ⟨rfl, rfl⟩⟩

/-- **A compilation reuses what is unchanged and lowers the rest.** -/
theorem describes_lowerAll {out : LoweredText} {origins : List ChunkOrigin}
    {records compiled : List ChunkRecord} {lower : String → ExceptT ε Id String}
    {c : Configuration} {lines : Nat} {text : String} {hashed : Set String}
    (hfree : Digest.CollisionFree hashed) (hold : ∀ origin ∈ origins, origin.text ∈ hashed)
    (hnew : ∀ chunk ∈ Chunk.partition lines text, chunk.text ∈ hashed)
    (hlower : ∀ t o, (lower t).run.run = .ok o → out t c = some o)
    (h : Describes out origins records)
    (hcompiled : ((ofChunks records (Chunk.partition lines text)).lowerAll lower records).run.run
      = .ok compiled) :
    Describes out (ChunkOrigin.recompiled origins c ((Chunk.partition lines text).map (·.text)))
      compiled := by
  obtain ⟨hlength, hget⟩ := getElem?_of_mapM_ok hcompiled
  refine ⟨?_, ?_⟩
  · rw [hlength, ChunkOrigin.recompiled, List.length_mapIdx, List.length_map]
    rfl
  intro i origin r horigin hr
  obtain ⟨chunk, hplace, hrecord⟩ := hget i r hr
  have hchunk : (Chunk.partition lines text)[i]? = some chunk := hplace
  obtain ⟨hindex, hhash⟩ := Chunk.getElem?_partition hchunk
  obtain ⟨hri, hrh, hrt⟩ := of_recordOf_ok hrecord
  rw [reusable?_eq (fun _ _ hc => (Chunk.getElem?_partition hc).1) (fun _ _ => h.index_eq)
    hchunk] at hrt
  -- the origin that the next compilation gives to this place
  have hnext : origin = ChunkOrigin.next origins c i chunk.text := by
    rw [ChunkOrigin.recompiled, List.getElem?_mapIdx, List.getElem?_map, hchunk] at horigin
    exact (Option.some.inj horigin).symm
  have hout := h.out_next hfree hold (hnew chunk (List.mem_of_getElem? hchunk)) c i
  rw [hhash] at hrt
  rw [hnext, ChunkOrigin.next_text]
  refine ⟨hri.trans hindex, hrh.trans hhash, hout.trans ?_⟩
  rcases hrt with hreused | ⟨hnone, hlowered⟩
  · rw [hreused, Option.some_or]
  · rw [hnone, Option.none_or]
    exact hlower _ _ hlowered

end ChunkDiff

/-- A compilation remembers its records when every chunk was lowered, and
changes nothing otherwise. -/
theorem ChunkStore.run_compile {ε : Type} (store : ChunkStore) (lines : Nat) (file text : String)
    (lower : String → ExceptT ε Id String) :
    (store.compile lines file text lower).run
      = match ((store.diff lines file text).lowerAll lower (store.recordsOf file)).run.run with
        | .ok records =>
          (.ok (ChunkRecord.joined records, (store.diff lines file text).tally),
            store.commit file records)
        | .error e => (.error e, store) := by
  simp only [compile, compileChanged, Id.run_bind]
  cases ((store.diff lines file text).lowerAll lower (store.recordsOf file)).run.run with
  | ok records => rfl
  | error e => rfl

end Downlevel
