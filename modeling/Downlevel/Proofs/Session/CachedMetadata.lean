/-
Downlevel.Proofs.Session.CachedMetadata — what metadata comes with a text
that was found.

A text is kept with the metadata of the call that it was lowered for, and a
later call with the same key gets both. The key shows the source text and
the canonical text of the configuration, in which all names of modules stand.
So the later call gets the names of the modules that apply to it, but the
features and frameworks that the earlier call saw: the earlier one may have
read the text under another file name, or not have looked at it.

The invariant is that whatever is kept was returned by a call of the history
(`WasReturned`). `cached_metadata_of_earlier_call` compares what is found
with what the same call returns where nothing is kept, and
`cached_features_differ` shows two calls of which the second would have seen
a feature.
-/
import Downlevel.Proofs.Cache.History
import Downlevel.Proofs.Session.Answers
import Downlevel.Proofs.Session.Provenance
import Downlevel.Proofs.Session.Transparency

namespace Downlevel.Session

variable {tools : Tools Id}

/-! ## Calls that the backend served -/

/-- The call had its text lowered by the backend and returned it. -/
structure Served (tools : Tools Id) (s : Session) (source : String) (options : RequestOptions)
    (lowering : Lowering) : Prop where
  ok : (s.transform tools source options).run.1 = .ok lowering
  missed : lowering.performance.cacheHit = false
  direct : lowering.metadata.recovered = false

theorem cache_lower (tools : Tools Id) (s : Session) (job : Job) :
    (s.lower tools job).run.2.cache = s.cache := by
  rw [lower]
  split
  · rw [lowerChunks]
    simp only [Id.run_bind]
    split <;> rfl
  · rfl

/-- A call adds to the cache at most what it returns. -/
theorem holds_transform {P : String → String → Lowering.Metadata → Prop} {s : Session}
    (h : s.cache.Holds P) {source : String} {options : RequestOptions}
    (hnew : ∀ lowering, Served tools s source options lowering →
      P (s.prepare tools source options).key lowering.text lowering.metadata) :
    (s.transform tools source options).run.2.cache.Holds P := by
  let job := s.prepare tools source options
  have hlooked : (s.countTransform.lookup job).2.cache.Holds P :=
    holds_lookup (s := s.countTransform) h job
  rcases hlookup : s.countTransform.lookup job with ⟨entry, t⟩
  rw [hlookup] at hlooked
  cases entry with
  | some entry =>
    rw [transform_of_hit hlookup]
    exact hlooked
  | none =>
    have hlowered : (t.relieve.lower tools job).run.2.cache.Holds P := by
      rw [cache_lower]
      exact holds_relieve hlooked
    have hrun := congrArg Id.run (transform_of_miss hlookup)
    rw [run_transformMissed] at hrun
    rcases hlower : (t.relieve.lower tools job).run with ⟨result, u⟩
    rw [hlower] at hrun hlowered
    rw [hrun]
    cases result with
    | error failure => exact holds_answerFailure hlowered job failure
    | ok lowered =>
      exact holds_store hlowered
        (hnew ⟨lowered.output.text, job.metadataOf lowered, u.performance false⟩
          ⟨congrArg Prod.fst hrun, rfl, rfl⟩)

/-- Where nothing is kept nothing is found. -/
theorem missed_of_empty {s : Session} (h : s.cache.slots = .empty) {source : String}
    {options : RequestOptions} {lowering : Lowering}
    (hok : (s.transform tools source options).run.1 = .ok lowering) :
    lowering.performance.cacheHit = false := by
  have hanswer := answer tools s source options
  rw [hok] at hanswer
  cases hanswer with
  | @found entry performance hfound _ =>
    have hmissing : s.cache.slots.get? (s.prepare tools source options).key = none := by
      rw [h]
      rfl
    unfold lookup at hfound
    split at hfound
    · cases hfound
    · have hnone : (s.cache.lookup s.clock (s.prepare tools source options).key).1 = none :=
        Cache.lookup_eq_none_iff.mpr (.inl hmissing)
      cases hnone.symm.trans hfound
  | made _ _ hcache => exact hcache
  | workedAround _ hworkaround _ => exact hworkaround.cacheHit

/-! ## Histories -/

/-- The jobs of an operation: one, if it is a call. -/
def Operation.jobs (tools : Tools Id) (s : Session) : Operation → List Job
  | .transform source options => [s.prepare tools source options]
  | _ => []

/-- The jobs of the calls of a history, each as its call prepared it. -/
def jobsOf (tools : Tools Id) (s : Session) : List Operation → List Job
  | [] => []
  | operation :: rest => operation.jobs tools s ++ jobsOf tools (s.apply tools operation) rest

theorem jobsOf_append (tools : Tools Id) (s : Session) (before after : List Operation) :
    jobsOf tools s (before ++ after)
      = jobsOf tools s before ++ jobsOf tools (before.foldl (apply tools) s) after := by
  induction before generalizing s with
  | nil => rfl
  | cons operation before ih =>
    rw [List.cons_append, jobsOf, jobsOf, ih, List.append_assoc]
    rfl

theorem mem_jobsOf (tools : Tools Id) (s : Session) (before after : List Operation)
    (source : String) (options : RequestOptions) :
    (before.foldl (apply tools) s).prepare tools source options
      ∈ jobsOf tools s (before ++ .transform source options :: after) := by
  rw [jobsOf_append, jobsOf, Operation.jobs]
  exact List.mem_append_right _ (List.mem_append_left _ (List.mem_singleton_self _))

/-- A call of the history that the backend served returned this text and
this metadata, and its key was this one. -/
def WasReturned (tools : Tools Id) (s : Session) (operations : List Operation)
    (key text : String) (metadata : Lowering.Metadata) : Prop :=
  ∃ before source options after, operations = before ++ .transform source options :: after
    ∧ ((before.foldl (apply tools) s).prepare tools source options).key = key
    ∧ ∃ lowering, Served tools (before.foldl (apply tools) s) source options lowering
      ∧ lowering.text = text ∧ lowering.metadata = metadata

theorem WasReturned.append {s : Session} {operations : List Operation} {key text : String}
    {metadata : Lowering.Metadata} (h : WasReturned tools s operations key text metadata)
    (more : List Operation) : WasReturned tools s (operations ++ more) key text metadata := by
  obtain ⟨before, source, options, after, rfl, hkey, hreturned⟩ := h
  refine ⟨before, source, options, after ++ more, ?_, hkey, hreturned⟩
  rw [List.append_assoc, List.cons_append]

/-- **Whatever is kept was returned before**, after every operation. -/
theorem holds_wasReturned (tools : Tools Id) {s : Session} (hempty : s.cache.slots = .empty)
    (operations : List Operation) :
    (operations.foldl (apply tools) s).cache.Holds (WasReturned tools s operations) := by
  induction operations using List.reverseRecOn with
  | nil =>
    intro key slot hslot
    rw [List.foldl_nil, hempty] at hslot
    cases hslot
  | append_singleton operations operation ih =>
    have hkept := ih.imp fun key text metadata h => h.append [operation]
    rw [List.foldl_append]
    cases operation with
    | transform source options =>
      refine holds_transform hkept fun lowering hserved => ?_
      exact ⟨operations, source, options, [], rfl, rfl, lowering, hserved, rfl, rfl⟩
    | clearCache => exact .clear _
    | cleanup => exact holds_cleanup hkept
    | reclaim => exact holds_reclaim hkept
    | forgetChunks file => exact hkept
    | advance milliseconds => exact hkept
    | readMemory usage => exact hkept
    | setDebug enabled => exact hkept
    | register d => exact hkept

/-! ## Metadata that was kept -/

/-- **What metadata comes with a text that was found.** After any operations
on a new session, a call that finds its text returns what an earlier call for
the same source text and the same canonical text returned, its metadata as a
whole; where identifiers come from names, the configurations of the two calls
are the same. Compared with what the call itself returns wherever nothing is
kept, the applied modules are the same; the features and the frameworks are
the same exactly where the two calls saw the same, as they do if both looked
at the text under one file name or neither looked at it. -/
theorem cached_metadata_of_earlier_call (settings : Settings) (base : ConfigurationLayer)
    (registry : Registry) (clock : Nat) (memory : Option MemoryUsage) (tools : Tools Id)
    (operations : List Operation) (source : String) (options : RequestOptions)
    (lowering : Lowering)
    (hfree : Digest.CollisionFree (hashedTexts (jobsOf tools
      (new settings base registry clock memory) (operations ++ [.transform source options]))))
    (hok : ((operations.foldl (apply tools)
      (new settings base registry clock memory)).transform tools source options).run.1
        = .ok lowering)
    (hhit : lowering.performance.cacheHit = true) :
    let start := new settings base registry clock memory
    let s := operations.foldl (apply tools) start
    ∃ before earlierOptions after earlier,
      operations = before ++ .transform source earlierOptions :: after
        ∧ Served tools (before.foldl (apply tools) start) source earlierOptions earlier
        ∧ (let resolved :=
            (before.foldl (apply tools) start).resolveConfiguration tools source earlierOptions
          let own := s.resolveConfiguration tools source options
          resolved.canonicalText = own.canonicalText
            ∧ (resolved.IsNamed → own.IsNamed → resolved = own))
        ∧ lowering.text = earlier.text ∧ lowering.metadata = earlier.metadata
        ∧ let seen := detectFor tools source earlierOptions
          let own := detectFor tools source options
          (earlierOptions.skipsDetection = options.skipsDetection →
            (options.skipsDetection = false → earlierOptions.filename = options.filename) →
              seen = own)
          ∧ ∀ (fresh : Session) (other : Lowering), s.SameSetup fresh →
            fresh.cache.slots = .empty →
            (fresh.transform tools source options).run.1 = .ok other →
              lowering.metadata.appliedModules = other.metadata.appliedModules
                ∧ (lowering.metadata.features = other.metadata.features
                  ↔ seen.featureNames = own.featureNames)
                ∧ (lowering.metadata.frameworks = other.metadata.frameworks
                  ↔ seen.frameworkNames = own.frameworkNames) := by
  intro start s
  have hkept : s.cache.Holds (WasReturned tools start operations) :=
    holds_wasReturned tools rfl operations
  have hanswer := answer tools s source options
  rw [hok] at hanswer
  cases hanswer with
  | made _ _ hcache =>
    rw [hcache] at hhit
    cases hhit
  | workedAround _ hworkaround _ =>
    rw [hworkaround.cacheHit] at hhit
    cases hhit
  | @found entry performance hfound _ =>
    obtain ⟨before, earlierSource, earlierOptions, after, hsplit, hkey, earlier, hserved, htext,
      hmetadata⟩ := holds_of_lookup (s := s.countTransform) hkept hfound
    let past := before.foldl (apply tools) start
    -- equal keys: the calls agree in their source texts and their canonical texts
    have hjob : s.prepare tools source options
        ∈ jobsOf tools start (operations ++ [.transform source options]) :=
      mem_jobsOf tools start operations [] source options
    have hearlier : past.prepare tools earlierSource earlierOptions
        ∈ jobsOf tools start (operations ++ [.transform source options]) := by
      rw [hsplit, List.append_assoc]
      exact mem_jobsOf tools start before _ earlierSource earlierOptions
    obtain ⟨hsource, hcanonical⟩ := texts_eq_of_key_eq hfree hearlier hjob hkey
    obtain rfl : earlierSource = source := hsource
    have htells := tells_of_missed hserved.ok hserved.missed
    rw [hmetadata] at htells
    refine ⟨before, earlierOptions, after, earlier, hsplit, hserved, ⟨hcanonical, ?_⟩, htext.symm,
      hmetadata.symm, ?_, ?_⟩
    · exact fun hresolved hown =>
        Configuration.canonicalText_injective hresolved hown hcanonical
    · intro hskips hfilename
      rw [detectFor, detectFor, hskips]
      cases hlooks : options.skipsDetection with
      | true => rfl
      | false => rw [hfilename hlooks]
    · intro fresh other hsetup hempty hother
      have hown := tells_of_missed hother (missed_of_empty hempty hother)
      rw [hsetup.prepare] at hown
      refine ⟨?_, ?_, ?_⟩
      · rw [htells.appliedModules, hown.appliedModules]
        exact Configuration.moduleNames_eq_of_canonicalText_eq hcanonical
      · rw [htells.features, hown.features]
        exact Iff.rfl
      · rw [htells.frameworks, hown.frameworks]
        exact Iff.rfl

/-! ## Looking and not looking -/

/-- The same as `plainRequest`, but the text is looked at. -/
def lookingRequest (edition : Edition) : RequestOptions :=
  { plainRequest edition with skipDetection := false }

/-- A session that has lowered a text without looking at it. -/
def unlooked : Session :=
  [Operation.transform "a ?? b" (plainRequest .es2022)].foldl (apply labelling)
    (new .standard .empty .builtin 0 none)

def unlookedLowering : Lowering := ⟨"es2022: a ?? b", .empty, ⟨0.0, true, 0⟩⟩

def lookedLowering : Lowering :=
  ⟨"es2022: a ?? b", { Lowering.Metadata.empty with features := ["nullish-coalescing"] },
    ⟨0.0, false, 0⟩⟩

theorem unlooked_ok :
    (unlooked.transform labelling "a ?? b" (lookingRequest .es2022)).run.1 = .ok unlookedLowering :=
  eq_ok_of_toOption (by decide +kernel)

theorem looked_ok :
    (unlooked.clearCache.transform labelling "a ?? b" (lookingRequest .es2022)).run.1
      = .ok lookedLowering :=
  eq_ok_of_toOption (by decide +kernel)

theorem unlooked_collisionFree :
    Digest.CollisionFree (hashedTexts (jobsOf labelling (new .standard .empty .builtin 0 none)
      [.transform "a ?? b" (plainRequest .es2022),
        .transform "a ?? b" (lookingRequest .es2022)])) := by
  rw [hashedTexts_eq]
  exact Digest.collisionFree_of_all (by decide +kernel)

/-- The modules are those of the call itself; the features are not, because
the earlier call did not look. -/
theorem cached_metadata_of_earlier_call_unlooked :
    unlookedLowering.metadata.appliedModules = lookedLowering.metadata.appliedModules
      ∧ unlookedLowering.metadata.frameworks = lookedLowering.metadata.frameworks
      ∧ ∃ earlierOptions,
        (detectFor labelling "a ?? b" earlierOptions).featureNames
          ≠ (detectFor labelling "a ?? b" (lookingRequest .es2022)).featureNames := by
  obtain ⟨before, earlierOptions, after, earlier, -, -, -, -, -, -, hfresh⟩ :=
    cached_metadata_of_earlier_call .standard .empty .builtin 0 none labelling
      [.transform "a ?? b" (plainRequest .es2022)] "a ?? b" (lookingRequest .es2022)
      unlookedLowering unlooked_collisionFree unlooked_ok rfl
  obtain ⟨hmodules, hfeatures, -⟩ := hfresh unlooked.clearCache lookedLowering ⟨rfl, rfl, rfl⟩ rfl
    looked_ok
  refine ⟨hmodules, rfl, earlierOptions, fun hseen => ?_⟩
  exact absurd (hfeatures.mpr hseen) (by decide)

/-- **Features may be those of another call**: a call that finds its text
need not return the features that it returns where nothing is kept. -/
theorem cached_features_differ :
    ¬ ∀ (settings : Settings) (base : ConfigurationLayer) (registry : Registry) (clock : Nat)
      (memory : Option MemoryUsage) (tools : Tools Id) (operations : List Operation)
      (source : String) (options : RequestOptions) (lowering : Lowering) (fresh : Session)
      (other : Lowering),
      let s := operations.foldl (apply tools) (new settings base registry clock memory)
      (s.transform tools source options).run.1 = .ok lowering →
      lowering.performance.cacheHit = true →
      s.SameSetup fresh → fresh.cache.slots = .empty →
      (fresh.transform tools source options).run.1 = .ok other →
      lowering.metadata.appliedModules = other.metadata.appliedModules
        ∧ lowering.metadata.features = other.metadata.features
        ∧ lowering.metadata.frameworks = other.metadata.frameworks := by
  intro hclaim
  have hsame := hclaim .standard .empty .builtin 0 none labelling
    [.transform "a ?? b" (plainRequest .es2022)] "a ?? b" (lookingRequest .es2022)
    unlookedLowering unlooked.clearCache lookedLowering unlooked_ok rfl ⟨rfl, rfl, rfl⟩ rfl
    looked_ok
  exact absurd hsame.2.1 (by decide)

end Downlevel.Session
