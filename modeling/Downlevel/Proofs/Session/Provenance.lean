/-
Downlevel.Proofs.Session.Provenance — where the chunks of a lowered file
come from.

Chunks that are as the last compilation of their file left them are not
lowered again, and the records of that compilation do not show its
configuration. So a chunk may come out as it was lowered for an earlier
call, under the configuration of that call.

`Traced` is a session beside which the origin of every recorded chunk is
written down. It is kept up from what callers see alone: which requests
they made and what they got back. `chunked_text_eq` says from it what a
call returns whose text was lowered by chunks: its chunks, each lowered
under the configuration of its origin. That is the configuration of the
call itself, except where a chunk is unchanged at its place.

`chunked_text_ne` shows that the exception is real: two calls for one file
under two configurations, and the second comes out with a chunk of the
first.
-/
import Downlevel.Proofs.Session.ChunkedCalls

namespace Downlevel.Session

/-! ## Histories -/

/-- What a caller may ask of a session. -/
inductive Operation where
  | transform (source : String) (options : RequestOptions)
  | clearCache
  | cleanup
  | reclaim
  | forgetChunks (file : String)
  | advance (milliseconds : Nat)
  | readMemory (usage : MemoryUsage)
  | setDebug (enabled : Bool)
  | register (d : ModuleDescriptor)

/-- What is left of a session by one completed operation. -/
def apply (tools : Tools Id) (s : Session) : Operation → Session
  | .transform source options => (s.transform tools source options).run.2
  | .clearCache => s.clearCache
  | .cleanup => s.cleanup.2
  | .reclaim => s.reclaim.2
  | .forgetChunks file => s.forgetChunks file
  | .advance milliseconds => s.advance milliseconds
  | .readMemory usage => s.readMemory usage
  | .setDebug enabled => s.setDebug enabled
  | .register d => s.register d

/-- The source texts of the calls in a history. -/
def sourcesOf (operations : List Operation) : List String :=
  operations.filterMap fun
    | .transform source _ => some source
    | _ => none

/-! ## Traces -/

/-- For each file, where its recorded chunks come from. -/
abbrev Origins := SortedMap (List ChunkOrigin)

/-- The texts of the chunks of a source text. -/
def chunkTexts (lines : Nat) (source : String) : List String :=
  (Chunk.partition lines source).map (·.text)

namespace Origins

def of (origins : Origins) (file : String) : List ChunkOrigin := (origins.get? file).getD []

/-- The origins after a call with this outcome. A compilation that went
through shows in the outcome; one that did not has made the session forget
the file. -/
def afterCall (origins : Origins) (s : Session) (job : Job) (outcome : Except Failure Lowering) :
    Origins :=
  match s.chunkedFile? job, outcome with
  | some file, .ok lowering =>
    if lowering.performance.cacheHit then origins
    else if lowering.metadata.incremental.isSome then
      origins.insert file (ChunkOrigin.recompiled (origins.of file) job.configuration
        (chunkTexts s.settings.chunkLines job.source))
    else origins.erase file
  | some file, .error _ => origins.erase file
  | none, _ => origins

theorem of_insert (origins : Origins) (file other : String) (new : List ChunkOrigin) :
    of (origins.insert file new) other = if other = file then new else origins.of other := by
  rw [of, SortedMap.get?_insert]
  split <;> rfl

theorem of_erase (origins : Origins) (file other : String) :
    of (origins.erase file) other = if other = file then [] else origins.of other := by
  rw [of, SortedMap.get?_erase]
  split <;> rfl

section AfterCall

variable {s : Session} {job : Job} (origins : Origins)

theorem afterCall_hit {lowering : Lowering} (h : lowering.performance.cacheHit = true) :
    origins.afterCall s job (.ok lowering) = origins := by
  unfold afterCall
  cases s.chunkedFile? job with
  | none => rfl
  | some file => exact if_pos h

theorem afterCall_none {outcome : Except Failure Lowering} (h : s.chunkedFile? job = none) :
    origins.afterCall s job outcome = origins := by
  unfold afterCall
  rw [h]

theorem afterCall_compiled {file : String} {lowering : Lowering}
    (h : s.chunkedFile? job = some file) (hby : isByChunks lowering = true) :
    origins.afterCall s job (.ok lowering)
      = origins.insert file (ChunkOrigin.recompiled (origins.of file) job.configuration
          (chunkTexts s.settings.chunkLines job.source)) := by
  rw [isByChunks, Bool.and_eq_true, Bool.not_eq_true'] at hby
  unfold afterCall
  rw [h]
  simp only [hby.1, hby.2]
  rfl

theorem afterCall_failed {file : String} {outcome : Except Failure Lowering}
    (h : s.chunkedFile? job = some file) (hwhole : IsWhole outcome) :
    origins.afterCall s job outcome = origins.erase file := by
  unfold afterCall
  rw [h]
  cases outcome with
  | error failure => rfl
  | ok lowering =>
    obtain ⟨hcache, hincremental⟩ := hwhole lowering rfl
    simp only [hcache, hincremental]
    rfl

end AfterCall

end Origins

/-- A session and the origins of its chunks. -/
structure Traced where
  session : Session
  origins : Origins

namespace Traced

def step (tools : Tools Id) (t : Traced) (operation : Operation) : Traced where
  session := t.session.apply tools operation
  origins :=
    match operation with
    | .transform source options =>
      t.origins.afterCall t.session (t.session.prepare tools source options)
        (t.session.transform tools source options).run.1
    | .clearCache => .empty
    | .forgetChunks file => t.origins.erase file
    | _ => t.origins

def run (tools : Tools Id) (t : Traced) (operations : List Operation) : Traced :=
  operations.foldl (step tools) t

/-- Writing down the origins leaves the session alone. -/
theorem run_session (tools : Tools Id) (t : Traced) (operations : List Operation) :
    (t.run tools operations).session = operations.foldl (apply tools) t.session := by
  induction operations generalizing t with
  | nil => rfl
  | cons operation rest ih => exact ih (t.step tools operation)

end Traced

/-! ## Soundness of traces -/

theorem recordsOf_insert (store : ChunkStore) (file other : String)
    (records : List ChunkRecord) :
    ChunkStore.recordsOf (store.insert file records) other
      = if other = file then records else store.recordsOf other := by
  rw [ChunkStore.recordsOf, SortedMap.get?_insert]
  split <;> rfl

theorem recordsOf_erase (store : ChunkStore) (file other : String) :
    ChunkStore.recordsOf (store.erase file) other
      = if other = file then [] else store.recordsOf other := by
  rw [ChunkStore.recordsOf, SortedMap.get?_erase]
  split <;> rfl

/-- The records of every file were made from the origins written down for
it, whose texts are among those that were hashed. -/
structure Agrees (tools : Tools Id) (hashed : Set String) (origins : Origins)
    (store : ChunkStore) : Prop where
  described : ∀ file, Describes (lowered? tools) (origins.of file) (store.recordsOf file)
  hashed : ∀ file, ∀ origin ∈ origins.of file, origin.text ∈ hashed

section Agreement

variable {tools : Tools Id} {hashed : Set String} {origins : Origins} {store : ChunkStore}

theorem Agrees.empty : Agrees tools hashed .empty .empty := by
  refine ⟨fun file => .nil _, ?_⟩
  intro file origin horigin
  cases horigin

theorem Agrees.erase (h : Agrees tools hashed origins store) (file : String) :
    Agrees tools hashed (origins.erase file) (store.erase file) := by
  refine ⟨?_, ?_⟩
  · intro other
    rw [Origins.of_erase, recordsOf_erase]
    split
    · exact .nil _
    · exact h.described other
  · intro other origin horigin
    rw [Origins.of_erase] at horigin
    split at horigin
    · cases horigin
    · exact h.hashed other origin horigin

theorem Agrees.insert (h : Agrees tools hashed origins store) {file : String}
    {new : List ChunkOrigin} {records : List ChunkRecord}
    (hnew : Describes (lowered? tools) new records)
    (htexts : ∀ origin ∈ new, origin.text ∈ hashed) :
    Agrees tools hashed (origins.insert file new) (store.insert file records) := by
  refine ⟨?_, ?_⟩
  · intro other
    rw [Origins.of_insert, recordsOf_insert]
    split
    · exact hnew
    · exact h.described other
  · intro other origin horigin
    rw [Origins.of_insert] at horigin
    split at horigin
    · exact htexts origin horigin
    · exact h.hashed other origin horigin

/-- **A call keeps the trace in agreement with the chunks.** -/
theorem Agrees.afterCall {s : Session} {job : Job} {outcome : Except Failure Lowering}
    {chunks : ChunkStore} (h : Agrees tools hashed origins s.chunks)
    (hfree : Digest.CollisionFree hashed)
    (htexts : ∀ text ∈ chunkTexts s.settings.chunkLines job.source, text ∈ hashed)
    (heffect : CallEffect tools s job outcome chunks) :
    Agrees tools hashed (origins.afterCall s job outcome) chunks := by
  cases heffect with
  | hit hcache =>
    rw [Origins.afterCall_hit origins hcache]
    exact h
  | whole hnone _ =>
    rw [Origins.afterCall_none origins hnone]
    exact h
  | compiled hsome hlower hall _ hby =>
    rw [Origins.afterCall_compiled origins hsome hby]
    refine h.insert (ChunkDiff.describes_lowerAll hfree (h.hashed _) ?_ hlower (h.described _) hall)
      ?_
    · intro chunk hchunk
      exact htexts chunk.text (List.mem_map_of_mem hchunk)
    · intro origin horigin
      have htext := List.mem_map_of_mem (f := ChunkOrigin.text) horigin
      rw [ChunkOrigin.map_text_recompiled] at htext
      exact htexts origin.text htext
  | failed hsome hwhole =>
    rw [Origins.afterCall_failed origins hsome hwhole]
    exact h.erase _

end Agreement

namespace Traced

/-- What holds of a trace after every operation. -/
structure Sound (tools : Tools Id) (settings : Settings) (hashed : Set String) (t : Traced) :
    Prop where
  settings : t.session.settings = settings
  agrees : Agrees tools hashed t.origins t.session.chunks

/-- The trace of a new session. -/
def new (settings : Settings) (base : ConfigurationLayer) (registry : Registry) (clock : Nat)
    (memory : Option MemoryUsage) : Traced :=
  ⟨.new settings base registry clock memory, .empty⟩

section Runs

variable {tools : Tools Id} {settings : Settings} {hashed : Set String} {t : Traced}

theorem Sound.step (h : t.Sound tools settings hashed) (hfree : Digest.CollisionFree hashed)
    {operation : Operation}
    (htexts : ∀ source ∈ sourcesOf [operation],
      ∀ text ∈ chunkTexts settings.chunkLines source, text ∈ hashed) :
    (t.step tools operation).Sound tools settings hashed := by
  cases operation with
  | transform source options =>
    have hsource : source ∈ sourcesOf [.transform source options] := List.mem_singleton.mpr rfl
    refine ⟨(sameSetup_transform tools t.session source options).settings.trans h.settings, ?_⟩
    refine h.agrees.afterCall hfree ?_ (t.session.callEffect source options)
    rw [h.settings]
    exact htexts source hsource
  | clearCache => exact ⟨h.settings, .empty⟩
  | forgetChunks file => exact ⟨h.settings, h.agrees.erase file⟩
  | cleanup => exact ⟨h.settings, h.agrees⟩
  | reclaim => exact ⟨h.settings, h.agrees⟩
  | advance milliseconds => exact ⟨h.settings, h.agrees⟩
  | readMemory usage => exact ⟨h.settings, h.agrees⟩
  | setDebug enabled => exact ⟨h.settings, h.agrees⟩
  | register d => exact ⟨h.settings, h.agrees⟩

theorem Sound.run (h : t.Sound tools settings hashed) (hfree : Digest.CollisionFree hashed)
    {operations : List Operation}
    (htexts : ∀ source ∈ sourcesOf operations,
      ∀ text ∈ chunkTexts settings.chunkLines source, text ∈ hashed) :
    (t.run tools operations).Sound tools settings hashed := by
  induction operations generalizing t with
  | nil => exact h
  | cons operation rest ih =>
    have hsplit : sourcesOf (operation :: rest) = sourcesOf [operation] ++ sourcesOf rest := by
      rw [sourcesOf, sourcesOf, sourcesOf, ← List.filterMap_append, List.singleton_append]
    rw [hsplit] at htexts
    refine ih (h.step hfree ?_) ?_
    · intro source hsource
      exact htexts source (List.mem_append_left _ hsource)
    · intro source hsource
      exact htexts source (List.mem_append_right _ hsource)

end Runs

end Traced

/-! ## Texts put together from chunks -/

/-- The texts of the chunks that the calls of a history have hashed. -/
def hashedChunks (lines : Nat) (sources : List String) : Set String :=
  {text | ∃ source ∈ sources, text ∈ chunkTexts lines source}

theorem hashedChunks_eq (lines : Nat) (sources : List String) :
    hashedChunks lines sources = {text | text ∈ sources.flatMap (chunkTexts lines)} := by
  ext text
  rw [Set.mem_ofPred_eq, List.mem_flatMap]
  rfl

/-- What a call returns that was lowered by chunks, if the trace is sound. -/
theorem Traced.Sound.text_eq {tools : Tools Id} {settings : Settings} {hashed : Set String}
    {t : Traced} (h : t.Sound tools settings hashed) (hfree : Digest.CollisionFree hashed)
    {source : String} {options : RequestOptions}
    (htexts : ∀ text ∈ chunkTexts settings.chunkLines source, text ∈ hashed)
    {lowering : Lowering}
    (hok : (t.session.transform tools source options).run.1 = .ok lowering)
    (hby : isByChunks lowering = true) :
    ∃ file outputs,
      t.session.chunkedFile? (t.session.prepare tools source options) = some file
        ∧ lowering.text = Text.join "\n" outputs
        ∧ (ChunkOrigin.recompiled (t.origins.of file)
            (t.session.resolveConfiguration tools source options)
            (chunkTexts settings.chunkLines source)).map
              (fun origin => lowered? tools origin.text origin.configuration)
          = outputs.map some := by
  have heffect : CallEffect tools t.session (t.session.prepare tools source options)
      (t.session.transform tools source options).run.1
      (t.session.transform tools source options).run.2.chunks :=
    t.session.callEffect source options
  rw [hok] at heffect
  rw [isByChunks, Bool.and_eq_true, Bool.not_eq_true'] at hby
  obtain ⟨hincremental, hcache⟩ := hby
  generalize (t.session.transform tools source options).run.2.chunks = chunks at heffect
  cases heffect with
  | hit hhit =>
    rw [hhit] at hcache
    cases hcache
  | whole _ hwhole =>
    rw [(hwhole lowering rfl).2] at hincremental
    cases hincremental
  | failed _ hwhole =>
    rw [(hwhole lowering rfl).2] at hincremental
    cases hincremental
  | compiled hsome hlower hall htext _ =>
    rw [h.settings] at hall
    have hdescribes := ChunkDiff.describes_lowerAll hfree (h.agrees.hashed _)
      (fun chunk hchunk => htexts chunk.text (List.mem_map_of_mem hchunk)) hlower
      (h.agrees.described _) hall
    refine ⟨_, _, hsome, htext, hdescribes.map_out.trans ?_⟩
    rw [List.map_map]
    rfl

theorem fileKey_of_chunkedFile? {s : Session} {job : Job} {file : String}
    (h : s.chunkedFile? job = some file) : job.options.fileKey = some file := by
  unfold chunkedFile? at h
  split at h
  · exact h
  · cases h

/-- **What a call by chunks returns.** After any operations on a new
session, a call that the session lowers by chunks returns the chunks of its
source text, each lowered under the configuration of its origin, joined at
line breaks. These are the chunks lowered under the configuration of the
call itself exactly where the backend makes the same of every chunk under
the two. -/
theorem chunked_text_eq (settings : Settings) (base : ConfigurationLayer) (registry : Registry)
    (clock : Nat) (memory : Option MemoryUsage) (tools : Tools Id) (operations : List Operation)
    (source : String) (options : RequestOptions) (lowering : Lowering)
    (hfree : Digest.CollisionFree
      (hashedChunks settings.chunkLines (source :: sourcesOf operations)))
    (hok : (((Traced.new settings base registry clock memory).run tools
      operations).session.transform tools source options).run.1 = .ok lowering)
    (hby : isByChunks lowering = true) :
    let t := (Traced.new settings base registry clock memory).run tools operations
    let c := t.session.resolveConfiguration tools source options
    let texts := chunkTexts settings.chunkLines source
    ∃ file outputs, options.fileKey = some file ∧ lowering.text = Text.join "\n" outputs
      ∧ let origins := ChunkOrigin.recompiled (t.origins.of file) c texts
        origins.map (fun origin => lowered? tools origin.text origin.configuration)
            = outputs.map some
          ∧ (texts.map (fun text => lowered? tools text c) = outputs.map some ↔
            ∀ origin ∈ origins,
              lowered? tools origin.text c = lowered? tools origin.text origin.configuration) := by
  intro t c texts
  let hashed := hashedChunks settings.chunkLines (source :: sourcesOf operations)
  have hnew : (Traced.new settings base registry clock memory).Sound tools settings hashed :=
    ⟨rfl, .empty⟩
  have hsound : t.Sound tools settings hashed :=
    hnew.run hfree fun other hother text htext => ⟨other, List.mem_cons_of_mem _ hother, htext⟩
  obtain ⟨file, outputs, hfile, htext, horigins⟩ := hsound.text_eq hfree
    (fun text htext => ⟨source, List.mem_cons_self, htext⟩) hok hby
  refine ⟨file, outputs, fileKey_of_chunkedFile? hfile, htext, horigins, ?_⟩
  have htexts : (ChunkOrigin.recompiled (t.origins.of file) c texts).map (·.text) = texts :=
    ChunkOrigin.map_text_recompiled _ _ _
  have hmap : texts.map (fun text => lowered? tools text c)
      = (ChunkOrigin.recompiled (t.origins.of file) c texts).map
          fun origin => lowered? tools origin.text c := by
    conv_lhs => rw [← htexts, List.map_map]
    rfl
  rw [hmap, ← horigins, List.map_inj_left]

/-! ## Two configurations for one file -/

/-- Chunks of one line, in every file. -/
def lineByLine : Settings := { Settings.standard with incrementalThreshold := 0, chunkLines := 1 }

def fileRequest (edition : Edition) : RequestOptions :=
  { plainRequest edition with fileKey := some "a.js" }

/-- What the second call returns: its first line is as the first call left
it. -/
def mixedLowering : Lowering :=
  ⟨"es5: a\nes2017: c", { Lowering.Metadata.empty with incremental := some ⟨1, 2⟩ },
    ⟨0.0, false, 0⟩⟩

theorem eq_ok_of_toOption {outcome : Except Failure Lowering} {lowering : Lowering}
    (h : outcome.toOption = some lowering) : outcome = .ok lowering := by
  cases outcome with
  | ok found => rw [Option.some.inj h]
  | error failure => cases h

theorem mixed_ok :
    (((Traced.new lineByLine .empty .builtin 0 none).run labelling
        [.transform "a\nb" (fileRequest .es5)]).session.transform labelling "a\nc"
          (fileRequest .es2017)).run.1 = .ok mixedLowering :=
  eq_ok_of_toOption (by decide +kernel)

theorem mixed_collisionFree :
    Digest.CollisionFree (hashedChunks lineByLine.chunkLines
      ("a\nc" :: sourcesOf [.transform "a\nb" (fileRequest .es5)])) := by
  rw [hashedChunks_eq]
  exact Digest.collisionFree_of_all (by decide +kernel)

/-- The first line of the second call was lowered for the first one. -/
theorem chunked_text_eq_mixed :
    ∃ outputs, mixedLowering.text = Text.join "\n" outputs
      ∧ (chunkTexts 1 "a\nc").map (fun text => lowered? labelling text
          (((Traced.new lineByLine .empty .builtin 0 none).run labelling
            [.transform "a\nb" (fileRequest .es5)]).session.resolveConfiguration labelling "a\nc"
              (fileRequest .es2017)))
        ≠ outputs.map some := by
  obtain ⟨file, outputs, hfile, htext, horigins, hiff⟩ := chunked_text_eq lineByLine .empty
    .builtin 0 none labelling [.transform "a\nb" (fileRequest .es5)] "a\nc" (fileRequest .es2017)
    mixedLowering mixed_collisionFree mixed_ok (by decide)
  obtain rfl : "a.js" = file := Option.some.inj hfile
  refine ⟨outputs, htext, ?_⟩
  intro heq
  have hsame := hiff.mp heq
  revert hsame
  decide +kernel

/-- **Chunks do cross configurations**: a call by chunks need not return
the chunks of its source text lowered under its own configuration. -/
theorem chunked_text_ne :
    ¬ ∀ (settings : Settings) (base : ConfigurationLayer) (registry : Registry) (clock : Nat)
      (memory : Option MemoryUsage) (tools : Tools Id) (operations : List Operation)
      (source : String) (options : RequestOptions) (lowering : Lowering),
      Digest.CollisionFree (hashedChunks settings.chunkLines (source :: sourcesOf operations)) →
      (((Traced.new settings base registry clock memory).run tools
        operations).session.transform tools source options).run.1 = .ok lowering →
      isByChunks lowering = true →
      ∃ outputs, lowering.text = Text.join "\n" outputs
        ∧ (chunkTexts settings.chunkLines source).map (fun text => lowered? tools text
            (((Traced.new settings base registry clock memory).run tools
              operations).session.resolveConfiguration tools source options))
          = outputs.map some := by
  intro hclaim
  obtain ⟨outputs, htext, houtputs⟩ := hclaim lineByLine .empty .builtin 0 none labelling
    [.transform "a\nb" (fileRequest .es5)] "a\nc" (fileRequest .es2017) mixedLowering
    mixed_collisionFree mixed_ok (by decide)
  have hexpected : [some "es2017: a", some "es2017: c"] = outputs.map some := by
    rw [← houtputs]
    decide +kernel
  obtain rfl : ["es2017: a", "es2017: c"] = outputs :=
    List.map_injective_iff.mpr (Option.some_injective _) hexpected
  revert htext
  decide +kernel

end Downlevel.Session
