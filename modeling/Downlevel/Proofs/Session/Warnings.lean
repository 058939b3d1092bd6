/-
Downlevel.Proofs.Session.Warnings — whose warnings a call passes on.

A text that is lowered as a whole comes with the warnings of the backend.
Chunks do not: what is recorded of a chunk is its text alone, so a text
that is put together from chunks comes without any warnings, whether its
chunks were lowered just now or by earlier calls.

`lowered_warnings_eq` says so for every call that the backend served, part
by part, and `chunk_warnings_lost` shows a call that loses one.
-/
import Downlevel.Proofs.Session.Answers
import Downlevel.Proofs.Session.Provenance

namespace Downlevel.Session

/-! ## Parts of a text -/

/-- What the text of a call was lowered from: the chunks of its file, each
with the configuration of its origin, or else the source text as a whole. -/
def Traced.partsOf (tools : Tools Id) (t : Traced) (source : String) (options : RequestOptions)
    (lowering : Lowering) : List ChunkOrigin :=
  let c := t.session.resolveConfiguration tools source options
  match lowering.metadata.incremental, options.fileKey with
  | some _, some file =>
    ChunkOrigin.recompiled (t.origins.of file) c
      (chunkTexts t.session.settings.chunkLines source)
  | _, _ => [⟨source, c⟩]

/-- The reply of the backend to a part. -/
def replyTo (tools : Tools Id) (part : ChunkOrigin) : BackendReply :=
  (tools.backend part.text part.configuration).run

variable {tools : Tools Id}

theorem replyTo_of_lowered? {part : ChunkOrigin} {text : String}
    (h : lowered? tools part.text part.configuration = some text) :
    ∃ output, replyTo tools part = .output output ∧ output.text = text := by
  unfold lowered? at h
  split at h
  · next output hreply => exact ⟨output, hreply, Option.some.inj h⟩
  · cases h

theorem outputs_of_lowered? {parts : List ChunkOrigin} {texts : List String}
    (h : parts.map (fun part => lowered? tools part.text part.configuration) = texts.map some) :
    ∃ outputs : List BackendOutput,
      parts.map (replyTo tools) = outputs.map .output ∧ outputs.map (·.text) = texts := by
  induction parts generalizing texts with
  | nil =>
    obtain rfl : texts = [] := List.map_eq_nil_iff.mp h.symm
    exact ⟨[], rfl, rfl⟩
  | cons part parts ih =>
    cases texts with
    | nil => cases h
    | cons text texts =>
      obtain ⟨hpart, hparts⟩ := List.cons.inj h
      obtain ⟨output, hreply, htext⟩ := replyTo_of_lowered? hpart
      obtain ⟨outputs, hreplies, htexts⟩ := ih hparts
      refine ⟨output :: outputs, ?_, ?_⟩
      · rw [List.map_cons, List.map_cons, hreply, hreplies]
      · rw [List.map_cons, htext, htexts]

/-! ## Warnings -/

/-- What a call passes on of the outputs for its parts. -/
structure PassesOn (lowering : Lowering) (outputs : List BackendOutput) : Prop where
  text : lowering.text = Text.join "\n" (outputs.map (·.text))
  warnings : lowering.metadata.warnings
    = if lowering.metadata.incremental.isSome then [] else outputs.flatMap (·.warnings)

/-- No warning is lost exactly where the text was lowered as a whole or
there is nothing to lose. -/
theorem PassesOn.subset_iff {lowering : Lowering} {outputs : List BackendOutput}
    (h : PassesOn lowering outputs) :
    (∀ output ∈ outputs, output.warnings ⊆ lowering.metadata.warnings)
      ↔ lowering.metadata.incremental = none ∨ ∀ output ∈ outputs, output.warnings = [] := by
  rw [h.warnings]
  cases lowering.metadata.incremental with
  | none =>
    refine iff_of_true (fun output houtput warning hwarning => ?_) (.inl rfl)
    exact List.mem_flatMap.mpr ⟨output, houtput, hwarning⟩
  | some tally =>
    simp only [Option.isSome_some, if_true, List.subset_nil, reduceCtorEq, false_or]

/-- What a call passes on that the backend served, if the trace is sound. -/
theorem Traced.Sound.passesOn {settings : Settings} {hashed : Set String} {t : Traced}
    (h : t.Sound tools settings hashed) (hfree : Digest.CollisionFree hashed)
    {source : String} {options : RequestOptions}
    (htexts : ∀ text ∈ chunkTexts settings.chunkLines source, text ∈ hashed)
    {lowering : Lowering}
    (hok : (t.session.transform tools source options).run.1 = .ok lowering)
    (hmissed : lowering.performance.cacheHit = false)
    (hserved : lowering.metadata.recovered = false) :
    ∃ outputs, (t.partsOf tools source options lowering).map (replyTo tools)
        = outputs.map .output
      ∧ PassesOn lowering outputs := by
  have hanswer := answer tools t.session source options
  rw [hok] at hanswer
  cases hanswer with
  | found _ hhit =>
    rw [hhit] at hmissed
    cases hmissed
  | workedAround _ hworkaround _ =>
    rw [hworkaround.recovered] at hserved
    cases hserved
  | @made _ lowered performance _ hlower hcache =>
    rcases backend_of_lower hlower with ⟨hwhole, hreply⟩ | ⟨hchunks, hnone⟩
    · refine ⟨[lowered.output], ?_, ?_, ?_⟩
      · have hparts : t.partsOf tools source options
            ⟨lowered.output.text, (t.session.prepare tools source options).metadataOf lowered,
              performance⟩
            = [⟨source, t.session.resolveConfiguration tools source options⟩] := by
          simp only [partsOf, Job.metadataOf, hwhole]
        rw [hparts]
        exact congrArg (fun reply => [reply]) hreply
      · simp [Text.join]
      · simp [Job.metadataOf, hwhole]
    · have hby : isByChunks ⟨lowered.output.text,
          (t.session.prepare tools source options).metadataOf lowered, performance⟩ = true := by
        simp only [isByChunks, Job.metadataOf, hchunks, hcache]
        rfl
      obtain ⟨file, texts, hfile, htext, hparts⟩ := h.text_eq hfree htexts hok hby
      obtain ⟨outputs, hreplies, houtputs⟩ := outputs_of_lowered? hparts
      refine ⟨outputs, ?_, ?_, ?_⟩
      · obtain ⟨tally, htally⟩ := Option.isSome_iff_exists.mp hchunks
        have hkey : options.fileKey = some file := fileKey_of_chunkedFile? hfile
        simp only [partsOf, Job.metadataOf, htally, hkey, h.settings]
        exact hreplies
      · rw [houtputs]
        exact htext
      · simp only [Job.metadataOf, hchunks, hnone]
        rfl

/-- **Whose warnings a call passes on.** After any operations on a new
session, a call that the backend served returns the outputs for the parts
of its text, joined at line breaks. Where the text was lowered as a whole it
comes with the warnings for it; where it was put together from chunks it
comes with none. So no warning is lost exactly where the text was lowered as
a whole or the backend has no warning for any of the chunks. -/
theorem lowered_warnings_eq (settings : Settings) (base : ConfigurationLayer)
    (registry : Registry) (clock : Nat) (memory : Option MemoryUsage) (tools : Tools Id)
    (operations : List Operation) (source : String) (options : RequestOptions)
    (lowering : Lowering)
    (hfree : Digest.CollisionFree
      (hashedChunks settings.chunkLines (source :: sourcesOf operations)))
    (hok : (((Traced.new settings base registry clock memory).run tools
      operations).session.transform tools source options).run.1 = .ok lowering)
    (hmissed : lowering.performance.cacheHit = false)
    (hserved : lowering.metadata.recovered = false) :
    let t := (Traced.new settings base registry clock memory).run tools operations
    ∃ outputs : List BackendOutput,
      (t.partsOf tools source options lowering).map (replyTo tools) = outputs.map .output
        ∧ PassesOn lowering outputs
        ∧ ((∀ output ∈ outputs, output.warnings ⊆ lowering.metadata.warnings)
          ↔ lowering.metadata.incremental = none ∨ ∀ output ∈ outputs, output.warnings = []) := by
  intro t
  let hashed := hashedChunks settings.chunkLines (source :: sourcesOf operations)
  have hnew : (Traced.new settings base registry clock memory).Sound tools settings hashed :=
    ⟨rfl, .empty⟩
  have hsound : t.Sound tools settings hashed :=
    hnew.run hfree fun other hother text htext => ⟨other, List.mem_cons_of_mem _ hother, htext⟩
  obtain ⟨outputs, hreplies, hpasses⟩ := hsound.passesOn hfree
    (fun text htext => ⟨source, List.mem_cons_self, htext⟩) hok hmissed hserved
  exact ⟨outputs, hreplies, hpasses, hpasses.subset_iff⟩

/-! ## A backend that warns -/

/-- A backend that hands back what it is given, with a warning. -/
def warning : Tools Id where
  parser := fun _ _ => none
  backend := fun source _ => .output ⟨source, ["lowered " ++ source]⟩

def chunkRequest : RequestOptions := { fileRequest .es5 with bypassCache := true }

/-- A file of two lines that has been lowered before with another second
line. -/
def warnedBefore : Traced :=
  (Traced.new lineByLine .empty .builtin 0 none).run warning [.transform "a\nb" chunkRequest]

def warnedLowering : Lowering :=
  ⟨"a\nc", { Lowering.Metadata.empty with incremental := some ⟨1, 2⟩ }, ⟨0.0, false, 0⟩⟩

theorem warned_ok :
    (warnedBefore.session.transform warning "a\nc" chunkRequest).run.1 = .ok warnedLowering :=
  eq_ok_of_toOption (by decide +kernel)

theorem warned_collisionFree :
    Digest.CollisionFree (hashedChunks lineByLine.chunkLines
      ("a\nc" :: sourcesOf [.transform "a\nb" chunkRequest])) := by
  rw [hashedChunks_eq]
  exact Digest.collisionFree_of_all (by decide +kernel)

theorem warned_replies :
    (warnedBefore.partsOf warning "a\nc" chunkRequest warnedLowering).map (replyTo warning)
      = [.output ⟨"a", ["lowered a"]⟩, .output ⟨"c", ["lowered c"]⟩] := by
  decide +kernel

/-- One line is reused and one is lowered. There is a warning for each, and
both are lost. -/
theorem lowered_warnings_eq_warned :
    ∃ outputs : List BackendOutput,
      outputs.flatMap (·.warnings) = ["lowered a", "lowered c"]
        ∧ PassesOn warnedLowering outputs
        ∧ ¬ ∀ output ∈ outputs, output.warnings ⊆ warnedLowering.metadata.warnings := by
  obtain ⟨outputs, hreplies, hpasses, hiff⟩ := lowered_warnings_eq lineByLine .empty .builtin 0
    none warning [.transform "a\nb" chunkRequest] "a\nc" chunkRequest warnedLowering
    warned_collisionFree warned_ok rfl rfl
  have houtputs : outputs = [⟨"a", ["lowered a"]⟩, ⟨"c", ["lowered c"]⟩] := by
    refine List.map_injective_iff.mpr (fun _ _ h => BackendReply.output.inj h)
      (hreplies.symm.trans warned_replies)
  refine ⟨outputs, by rw [houtputs]; rfl, hpasses, ?_⟩
  rw [hiff, houtputs]
  decide

/-- **Warnings for chunks are lost**: a call that the backend served need not
pass on the warnings for all parts of its text. -/
theorem chunk_warnings_lost :
    ¬ ∀ (settings : Settings) (base : ConfigurationLayer) (registry : Registry) (clock : Nat)
      (memory : Option MemoryUsage) (tools : Tools Id) (operations : List Operation)
      (source : String) (options : RequestOptions) (lowering : Lowering),
      let t := (Traced.new settings base registry clock memory).run tools operations
      Digest.CollisionFree (hashedChunks settings.chunkLines (source :: sourcesOf operations)) →
      (t.session.transform tools source options).run.1 = .ok lowering →
      lowering.performance.cacheHit = false → lowering.metadata.recovered = false →
      ∀ part ∈ t.partsOf tools source options lowering, ∀ output,
        replyTo tools part = .output output →
          output.warnings ⊆ lowering.metadata.warnings := by
  intro hclaim
  have hparts := hclaim lineByLine .empty .builtin 0 none warning
    [.transform "a\nb" chunkRequest] "a\nc" chunkRequest warnedLowering warned_collisionFree
    warned_ok rfl rfl
  have hmem : BackendReply.output ⟨"a", ["lowered a"]⟩
      ∈ (warnedBefore.partsOf warning "a\nc" chunkRequest warnedLowering).map
        (replyTo warning) := by
    rw [warned_replies]
    exact List.mem_cons_self
  obtain ⟨part, hpart, hreply⟩ := List.mem_map.mp hmem
  have hsubset := hparts part hpart _ hreply
  exact List.not_mem_nil (hsubset List.mem_cons_self)

end Downlevel.Session
