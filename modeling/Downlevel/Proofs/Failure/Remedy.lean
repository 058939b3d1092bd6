/-
Downlevel.Proofs.Failure.Remedy — following suggestions settles them in one
round.

A suggestion to add a module is made where something is missing: a module that
lowers markup, the typing preset, the plugin of a construct. Each of these
tests is met once the module that it asks for is there (`advice_settled`), and
following suggestions never takes a module away (`hasModule_followed`). So the
second round asks for nothing new. A package that the message names may be
advised again, but the module that it means is there by then.

The test for markup asks the registry. Its answer for a known module is that of
the library, whatever else was registered (`isMarkup_extended`), and a detection
made from events advises known modules only.
-/
import Downlevel.Failure.Diagnosis
import Downlevel.Proofs.Configuration.Derived

namespace Downlevel

/-! ## Registries with more modules -/

namespace Registry

/-- The known modules, and more that were registered on top. -/
def extended (more : List ModuleDescriptor) : Registry := more.foldl register builtin

/-- Custom modules leave the known ones as they are. -/
theorem get?_foldl_register {more : List ModuleDescriptor} (h : ∀ d ∈ more, d.id.known? = none)
    (r : Registry) (m : KnownModule) :
    (more.foldl register r).get? (.known m) = r.get? (.known m) := by
  induction more generalizing r with
  | nil => rfl
  | cons d rest ih =>
    obtain ⟨hd, hrest⟩ := List.forall_mem_cons.mp h
    have hne : ModuleId.known m ≠ d.id := by
      intro heq
      rw [← heq] at hd
      cases hd
    rw [List.foldl_cons, ih hrest, get?_register, if_neg hne]

theorem isMarkup_extended {more : List ModuleDescriptor} (h : ∀ d ∈ more, d.id.known? = none)
    (m : KnownModule) : (extended more).isMarkup (.known m) = m.markup := by
  rw [isMarkup, extended, get?_foldl_register h, get?_builtin]
  rfl

end Registry

/-! ## Following -/

theorem Configuration.hasModule_iff {c : Configuration} {id : ModuleId} :
    c.hasModule id = true ↔ ∃ m ∈ c.modules, m.id = id := by
  simp [hasModule]

namespace Remedy

variable (registry : Registry)

/-- Whatever the suggestions, no module is taken away. -/
theorem modules_follow (r : Remedy) (s : Suggestion) :
    ∀ m ∈ r.configuration.modules, m ∈ (r.follow registry s).configuration.modules := by
  intro m hm
  unfold follow
  split
  · split
    · exact hm
    · exact List.mem_append_left _ hm
  · exact hm

theorem hasModule_follow (r : Remedy) {s : Suggestion} {id : ModuleId}
    (h : s.action.module? = some id) : (r.follow registry s).configuration.hasModule id = true := by
  unfold follow
  rw [h]
  dsimp only
  split
  · next hthere => exact hthere
  · simp [Configuration.hasModule, ModuleSpec.registered]

/-- A suggestion whose module is there changes nothing. -/
theorem follow_of_hasModule {r : Remedy} {s : Suggestion}
    (h : ∀ id, s.action.module? = some id → r.configuration.hasModule id = true) :
    r.follow registry s = r := by
  unfold follow
  split
  · next id hid => rw [if_pos (h id hid)]
  · rfl

theorem foldl_follow_of_hasModule {r : Remedy} {suggestions : List Suggestion}
    (h : ∀ s ∈ suggestions, ∀ id, s.action.module? = some id →
      r.configuration.hasModule id = true) :
    suggestions.foldl (follow registry) r = r := by
  induction suggestions with
  | nil => rfl
  | cons s rest ih =>
    obtain ⟨hs, hrest⟩ := List.forall_mem_cons.mp h
    rw [List.foldl_cons, follow_of_hasModule registry hs, ih hrest]

section Rounds

variable {c : Configuration} {suggestions : List Suggestion}

/-- The configuration after a round of following. -/
abbrev followed (c : Configuration) (suggestions : List Suggestion) : Configuration :=
  (ofSuggestions registry c suggestions).configuration

theorem modules_foldl_follow (suggestions : List Suggestion) (r : Remedy) :
    ∀ m ∈ r.configuration.modules,
      m ∈ (suggestions.foldl (follow registry) r).configuration.modules := by
  induction suggestions generalizing r with
  | nil => exact fun m hm => hm
  | cons s rest ih => exact fun m hm => ih _ m (r.modules_follow registry s m hm)

theorem mem_followed_iff {m : ModuleSpec} :
    m ∈ (followed registry c suggestions).modules
      ↔ m ∈ ((suggestions.filter (·.autoApplicable)).foldl (follow registry)
          ⟨c, []⟩).configuration.modules :=
  (registry.sortByPhase_perm _).mem_iff

theorem modules_followed : ∀ m ∈ c.modules, m ∈ (followed registry c suggestions).modules :=
  fun m hm => (mem_followed_iff registry).mpr (modules_foldl_follow registry _ ⟨c, []⟩ m hm)

theorem hasModule_of_followed {id : ModuleId} (h : c.hasModule id = true) :
    (followed registry c suggestions).hasModule id = true := by
  obtain ⟨m, hm, hid⟩ := Configuration.hasModule_iff.mp h
  exact Configuration.hasModule_iff.mpr ⟨m, modules_followed registry m hm, hid⟩

/-- Every module that was asked for is there afterwards. -/
theorem hasModule_followed {s : Suggestion} {id : ModuleId} (hs : s ∈ suggestions)
    (hauto : s.autoApplicable = true) (hid : s.action.module? = some id) :
    (followed registry c suggestions).hasModule id = true := by
  obtain ⟨before, after, hsplit⟩ :=
    List.append_of_mem (List.mem_filter.mpr ⟨hs, hauto⟩ : s ∈ suggestions.filter (·.autoApplicable))
  let reached := before.foldl (follow registry) ⟨c, []⟩
  obtain ⟨m, hm, hmid⟩ := Configuration.hasModule_iff.mp (reached.hasModule_follow registry hid)
  refine Configuration.hasModule_iff.mpr ⟨m, (mem_followed_iff registry).mpr ?_, hmid⟩
  rw [hsplit, List.foldl_append, List.foldl_cons]
  exact modules_foldl_follow registry after _ m hm

/-- Where every module that is asked for is there and the modules stand in
order, following does nothing. -/
theorem ofSuggestions_of_hasModule (hsorted : registry.sortByPhase c.modules = c.modules)
    (h : ∀ s ∈ suggestions, s.autoApplicable = true → ∀ id, s.action.module? = some id →
      c.hasModule id = true) :
    ofSuggestions registry c suggestions = ⟨c, []⟩ := by
  have hfold : (suggestions.filter (·.autoApplicable)).foldl (follow registry) ⟨c, []⟩ = ⟨c, []⟩ :=
    foldl_follow_of_hasModule registry fun s hs =>
      h s (List.mem_filter.mp hs).1 (List.mem_filter.mp hs).2
  rw [ofSuggestions, hfold]
  simp only [hsorted]

theorem sortByPhase_followed :
    registry.sortByPhase (followed registry c suggestions).modules
      = (followed registry c suggestions).modules :=
  registry.sortByPhase_sortByPhase _

end Rounds

end Remedy

/-! ## Advice -/

namespace Suggestion

variable {registry : Registry} {failure : BackendFailure} {message source : String}
  {c c' : Configuration} {d : Detection} {s : Suggestion}

/-- The suggestions that ask for a module where one is missing. -/
def additions (registry : Registry) (message source : String) (c : Configuration) (d : Detection) :
    List Suggestion :=
  forMarkup registry message c d
    ++ forTypes message c d
    ++ forConstruct "optional-chaining" "?." .pluginOptionalChaining
      "Add the optional chaining plugin" source c d
    ++ forConstruct "nullish-coalescing" "??" .pluginNullishCoalescing
      "Add the nullish coalescing plugin" source c d

/-- The suggestions that are made whatever the modules. -/
def otherAdvice (failure : BackendFailure) : List Suggestion :=
  forMemory failure.message ++ forPackage failure

theorem mem_ofFailure_of_specific
    (h : s ∈ additions registry failure.message source c d ∨ s ∈ otherAdvice failure) :
    s ∈ ofFailure registry failure source c d := by
  have hspecific : s ∈ additions registry failure.message source c d ++ otherAdvice failure :=
    List.mem_append.mpr h
  refine List.mem_mergeSort.mpr ?_
  rw [unsorted]
  simp only [List.append_assoc, additions, otherAdvice] at hspecific ⊢
  split
  · next hempty =>
    rw [List.isEmpty_iff.mp hempty] at hspecific
    cases hspecific
  · exact hspecific

theorem mem_ofFailure (h : s ∈ ofFailure registry failure source c d) :
    s ∈ additions registry failure.message source c d ∨ s ∈ otherAdvice failure
      ∨ s ∈ toEdit failure := by
  have hunsorted := List.mem_mergeSort.mp h
  rw [unsorted] at hunsorted
  split at hunsorted
  · exact .inr (.inr hunsorted)
  · rw [List.append_assoc] at hunsorted
    exact (List.mem_append.mp hunsorted).imp_right .inl

theorem action_of_otherAdvice (h : s ∈ otherAdvice failure) (id : ModuleId) :
    s.action ≠ .addModule id := by
  intro hadd
  rcases List.mem_append.mp h with hmemory | hpackage
  · rw [forMemory] at hmemory
    split at hmemory
    · obtain rfl := List.mem_singleton.mp hmemory
      cases hadd
    · cases hmemory
  · rw [forPackage] at hpackage
    split at hpackage
    · obtain rfl := List.mem_singleton.mp hpackage
      cases hadd
    · cases hpackage

theorem action_of_toEdit (h : s ∈ toEdit failure) : ∃ hint, s.action = .editSource hint := by
  unfold toEdit at h
  split at h
  · obtain rfl := List.mem_singleton.mp h
    exact ⟨_, rfl⟩
  · cases h

/-! ## Settled advice -/

/-- **Advice that was followed is not given again**: something is missing, and
the advice is to add it. -/
theorem advice_settled {signalled : Bool} (missing : Bool) {missing' : Bool} {advice : Suggestion}
    (hkept : missing = false → missing' = false)
    (hmet : advice ∈ (if signalled && missing then [advice] else []) → missing' = false) :
    (if signalled && missing' then [advice] else []) = [] := by
  cases signalled with
  | false => rfl
  | true =>
    have hfound : missing' = false := by
      cases hmissing : missing with
      | false => exact hkept hmissing
      | true => exact hmet (by simp [hmissing])
    rw [hfound]
    rfl

section Settled

open Remedy (followed)

variable {given : List Suggestion}

/-- The advice to add a module is settled once it is there. -/
theorem toAdd_settled (registry : Registry) {signalled : Bool} {kind : SuggestionKind}
    {module : ModuleId} {description : String} {priority : Priority}
    (hgiven : ∀ s ∈ (if signalled && !c.hasModule module then
      [toAdd kind module description priority] else []), s ∈ given) :
    (if signalled && !(followed registry c given).hasModule module then
      [toAdd kind module description priority] else []) = [] := by
  refine advice_settled (!c.hasModule module) (fun hthere => ?_) fun hadvice => ?_
  · rw [Bool.not_eq_false'] at hthere ⊢
    exact Remedy.hasModule_of_followed registry hthere
  · rw [Bool.not_eq_false']
    exact Remedy.hasModule_followed registry (hgiven _ hadvice) rfl rfl

theorem forTypes_settled (registry : Registry)
    (hgiven : ∀ s ∈ forTypes message c d, s ∈ given) :
    forTypes message (followed registry c given) d = [] :=
  toAdd_settled registry hgiven

theorem forConstruct_settled (registry : Registry) {feature token description : String}
    {module : KnownModule}
    (hgiven : ∀ s ∈ forConstruct feature token module description source c d, s ∈ given) :
    forConstruct feature token module description source (followed registry c given) d = [] :=
  toAdd_settled registry hgiven

/-- The module that is advised for markup lowers markup. -/
theorem markup_of_advised (hd : d.IsDerived) :
    ∃ m : KnownModule, m.markup = true
      ∧ ((d.features.find? fun f => f.name == Feature.markupName).bind (·.requiresModule)).getD
        (.known .presetReact) = .known m := by
  obtain ⟨lowering, hlowering, hmarkup⟩ := hd.lowering
  cases hfind : d.features.find? fun f => f.name == Feature.markupName with
  | none => exact ⟨.presetReact, rfl, rfl⟩
  | some f =>
    have hname : f.name = Feature.markupName := by simpa using List.find?_some hfind
    have hasked := ((hd.features f (List.mem_of_find?_eq_some hfind)).markup hname).1
    refine ⟨lowering, hmarkup, ?_⟩
    rw [Option.bind_some, hasked, Option.getD_some, hlowering]

theorem forMarkup_settled (hd : d.IsDerived)
    (hregistry : ∀ m : KnownModule, registry.isMarkup (.known m) = m.markup)
    (hgiven : ∀ s ∈ forMarkup registry message c d, s ∈ given) :
    forMarkup registry message (followed registry c given) d = [] := by
  obtain ⟨lowering, hmarkup, hmodule⟩ := markup_of_advised hd
  refine advice_settled (!c.modules.any fun m => registry.isMarkup m.id)
    (fun hthere => ?_) fun hadvice => ?_
  · rw [Bool.not_eq_false', List.any_eq_true] at hthere ⊢
    obtain ⟨m, hm, hlowers⟩ := hthere
    exact ⟨m, Remedy.modules_followed registry m hm, hlowers⟩
  · have hthere := Remedy.hasModule_followed (c := c) registry (hgiven _ hadvice) rfl rfl
    obtain ⟨m, hm, hid⟩ := Configuration.hasModule_iff.mp hthere
    rw [Bool.not_eq_false', List.any_eq_true]
    refine ⟨m, hm, ?_⟩
    rw [hid, hmodule, hregistry, hmarkup]

theorem additions_settled (hd : d.IsDerived)
    (hregistry : ∀ m : KnownModule, registry.isMarkup (.known m) = m.markup)
    (hgiven : ∀ s ∈ additions registry message source c d, s ∈ given) :
    additions registry message source (followed registry c given) d = [] := by
  simp only [additions, List.forall_mem_append] at hgiven
  obtain ⟨⟨⟨hmarkup, htypes⟩, hchain⟩, hnullish⟩ := hgiven
  simp only [additions, forMarkup_settled hd hregistry hmarkup, forTypes_settled registry htypes,
    forConstruct_settled registry hchain, forConstruct_settled registry hnullish, List.append_nil]

end Settled

/-! ## Rounds -/

/-- **One round settles everything.** With the known modules registered, and
custom ones on top of them, take any failure of the backend, any source text,
any configuration, and what was found out about any text. Follow the
suggestions that may be followed without asking. With the configuration that
this leads to, no suggestion asks for a module, and following the suggestions
once more does nothing. -/
theorem settled_in_one_round (more : List ModuleDescriptor) (failure : BackendFailure)
    (source : String) (c : Configuration) (text : String) (tree : Option SyntaxTree)
    (filename : Option String) (hcustom : ∀ d ∈ more, d.id.known? = none) :
    let registry := Registry.extended more
    let d := Detection.ofSource text tree filename
    let updated :=
      (Remedy.ofSuggestions registry c (ofFailure registry failure source c d)).configuration
    let again := ofFailure registry failure source updated d
    (∀ s ∈ again, ∀ id, s.action ≠ .addModule id)
      ∧ Remedy.ofSuggestions registry updated again = ⟨updated, []⟩ := by
  intro registry d updated again
  have hd : d.IsDerived := by
    cases tree <;> exact Detection.isDerived_ofEvents _ _ _ _
  have hnone : additions registry failure.message source updated d = [] :=
    additions_settled hd (Registry.isMarkup_extended hcustom)
      fun s hs => mem_ofFailure_of_specific (.inl hs)
  have hagain : ∀ s ∈ again, s ∈ otherAdvice failure ∨ s ∈ toEdit failure := by
    intro s hs
    refine (mem_ofFailure hs).resolve_left fun hadded => ?_
    rw [hnone] at hadded
    cases hadded
  refine ⟨fun s hs id => ?_, ?_⟩
  · rcases hagain s hs with hother | hedit
    · exact action_of_otherAdvice hother id
    · obtain ⟨hint, haction⟩ := action_of_toEdit hedit
      rw [haction]
      intro heq
      cases heq
  · refine Remedy.ofSuggestions_of_hasModule registry (Remedy.sortByPhase_followed registry)
      fun s hs hauto id hid => ?_
    rcases hagain s hs with hother | hedit
    · -- it was advised in the first round too
      exact Remedy.hasModule_followed registry (mem_ofFailure_of_specific (.inr hother)) hauto hid
    · obtain ⟨hint, haction⟩ := action_of_toEdit hedit
      rw [haction] at hid
      cases hid

/-- A custom module that lowers markup. -/
def siteMarkup : ModuleDescriptor :=
  ⟨.ofString "site-markup", .syntactic, none, true, "Lower the markup of a site", .empty⟩

def unreadChain : BackendFailure := .unreadable "Unexpected token '?.'" none

/-- What is advised where a chain cannot be read. -/
def chainAdvice (c : Configuration) : List Suggestion :=
  ofFailure (.extended [siteMarkup]) unreadChain "a?.b" c (.ofSource "a?.b" none none)

/-- The plugin for the chain is added in the first round. If the chain still
cannot be read then, no module is left to advise. -/
theorem settled_in_one_round_chain :
    let updated := (Remedy.ofSuggestions (.extended [siteMarkup]) .standard
      (chainAdvice .standard)).configuration
    (∀ d ∈ [siteMarkup], d.id.known? = none)
      ∧ updated.moduleNames = ["plugin-optional-chaining"]
      ∧ (chainAdvice updated).map (·.action)
        = [.editSource "parse error: Unexpected token '?.'"]
      ∧ Remedy.ofSuggestions (.extended [siteMarkup]) updated (chainAdvice updated)
        = ⟨updated, []⟩ := by
  have hcustom : ∀ d ∈ [siteMarkup], d.id.known? = none := by decide +kernel
  exact ⟨hcustom, by decide +kernel, by decide +kernel,
    (settled_in_one_round [siteMarkup] unreadChain "a?.b" .standard "a?.b" none none hcustom).2⟩

end Suggestion

end Downlevel
