/-
Downlevel.Proofs.Failure.FollowedAdvice — which suggestions are followed, and
what they make of a configuration.

Suggestions are followed one after the other, and each one that is followed adds
its module. So of those that ask for one module only the first is followed, and
none where the module was there before (`AreFollowed`). The entries of the
configuration stay as they are, and one entry with the registered options is
added for each suggestion that was followed (`foldl_follow`).

Sorting by phase moves the new entries to their places. It is stable, so entries
that stood in order keep it (`sublist_sortByPhase`).
-/
import Downlevel.Proofs.Failure.Remedy

namespace Downlevel

/-! ## More entries -/

namespace Configuration

/-- The configuration with more entries behind its own. -/
def extended (c : Configuration) (more : List ModuleSpec) : Configuration :=
  { c with modules := c.modules ++ more }

@[simp] theorem extended_nil (c : Configuration) : c.extended [] = c := by
  simp [extended]

@[simp] theorem extended_extended (c : Configuration) (more later : List ModuleSpec) :
    (c.extended more).extended later = c.extended (more ++ later) := by
  simp [extended]

@[simp] theorem hasModule_extended (c : Configuration) (more : List ModuleSpec) (id : ModuleId) :
    (c.extended more).hasModule id = (c.hasModule id || more.any fun m => m.id == id) := by
  simp [extended, hasModule]

theorem hasModule_eq_false_iff {c : Configuration} {id : ModuleId} :
    c.hasModule id = false ↔ id ∉ ModuleSpec.ids c.modules := by
  simp [hasModule, ModuleSpec.ids]

end Configuration

namespace Registry

/-- Entries that stand in order, among others, keep it. -/
theorem sublist_sortByPhase (r : Registry) {some all : List ModuleSpec} (h : some.Sublist all)
    (hsorted : some.Pairwise fun a b => r.phaseOf a.id ≤ r.phaseOf b.id) :
    some.Sublist (r.sortByPhase all) :=
  List.sublist_mergeSort r.phase_trans r.phase_total
    (hsorted.imp fun hle => decide_eq_true hle) h

end Registry

namespace Remedy

/-! ## Which suggestions are followed -/

/-- The modules that suggestions ask for. -/
def targets (suggestions : List Suggestion) : List ModuleId :=
  suggestions.filterMap fun s => s.action.module?

/-- The entries for modules that are added. A registered module has the options
of its descriptor; a module that nobody registered has none. -/
def entriesFor (registry : Registry) (ids : List ModuleId) : List ModuleSpec :=
  ids.map fun id =>
    match registry.get? id with
    | some descriptor => ⟨id, descriptor.defaultOptions⟩
    | none => ⟨id, .empty⟩

/-- They are the entries that following a suggestion adds. -/
theorem entriesFor_eq (registry : Registry) (ids : List ModuleId) :
    entriesFor registry ids = ids.map (.registered registry) := by
  refine List.map_congr_left fun id _ => ?_
  rw [ModuleSpec.registered, Registry.defaultOptions]
  cases registry.get? id <;> rfl

@[simp] theorem ids_entriesFor (registry : Registry) (ids : List ModuleId) :
    ModuleSpec.ids (entriesFor registry ids) = ids := by
  simp [ModuleSpec.ids, entriesFor_eq, ModuleSpec.registered, Function.comp_def]

/-- The suggestions that are followed: some of those given, in their order. Each
asks for a module that the configuration does not have, no two for the same one,
and whatever missing module is asked for, one of them asks for it. -/
structure AreFollowed (c : Configuration) (given followed : List Suggestion) : Prop where
  sublist : followed.Sublist given
  missing : ∀ s ∈ followed, ∃ id, s.action.module? = some id ∧ c.hasModule id = false
  distinct : followed.Pairwise fun s t => s.action.module? ≠ t.action.module?
  complete : ∀ s ∈ given, ∀ id, s.action.module? = some id → c.hasModule id = false →
    ∃ t ∈ followed, t.action.module? = some id

namespace AreFollowed

variable {c : Configuration} {given followed : List Suggestion} {s : Suggestion} {id : ModuleId}

theorem nil (c : Configuration) : AreFollowed c [] [] :=
  ⟨.slnil, nofun, .nil, nofun⟩

/-- A suggestion whose module is there, or that asks for none, is passed over. -/
theorem pass (h : AreFollowed c given followed)
    (hs : ∀ id, s.action.module? = some id → c.hasModule id = true) :
    AreFollowed c (s :: given) followed := by
  refine ⟨h.sublist.cons s, h.missing, h.distinct, fun t ht id hid hmissing => ?_⟩
  rcases List.mem_cons.mp ht with rfl | ht
  · rw [hs id hid] at hmissing
    cases hmissing
  · exact h.complete t ht id hid hmissing

/-- A suggestion whose module is missing is followed. What comes after it finds
the module there. -/
theorem take {m : ModuleSpec} (hm : m.id = id)
    (h : AreFollowed (c.extended [m]) given followed)
    (hs : s.action.module? = some id) (hmissing : c.hasModule id = false) :
    AreFollowed c (s :: given) (s :: followed) := by
  subst hm
  -- what is missing with the new entry is missing without it, and is not the new module
  have hlater : ∀ t ∈ followed, ∃ id', t.action.module? = some id'
      ∧ c.hasModule id' = false ∧ m.id ≠ id' := by
    intro t ht
    obtain ⟨id', hid', hnone⟩ := h.missing t ht
    exact ⟨id', hid', by simpa using hnone⟩
  refine ⟨h.sublist.cons_cons s, ?_, ?_, ?_⟩
  · refine List.forall_mem_cons.mpr ⟨⟨m.id, hs, hmissing⟩, fun t ht => ?_⟩
    obtain ⟨id', hid', hnone, -⟩ := hlater t ht
    exact ⟨id', hid', hnone⟩
  · refine List.pairwise_cons.mpr ⟨fun t ht heq => ?_, h.distinct⟩
    obtain ⟨id', hid', -, hne⟩ := hlater t ht
    rw [hs, hid'] at heq
    exact hne (Option.some.inj heq)
  · intro t ht id' hid' hnone
    by_cases hsame : m.id = id'
    · exact ⟨s, List.mem_cons_self, by rw [hs, hsame]⟩
    · rcases List.mem_cons.mp ht with rfl | ht
      · exact absurd (Option.some.inj (hs.symm.trans hid')) hsame
      · obtain ⟨u, hu, huid⟩ := h.complete t ht id' hid' (by simp [hnone, hsame])
        exact ⟨u, List.mem_cons_of_mem s hu, huid⟩

/-- Suggestions that are followed ask for different modules, all of them new. -/
theorem nodup (h : AreFollowed c given followed) : (targets followed).Nodup := by
  refine List.Pairwise.filterMap _ (fun s t hne id hid id' hid' heq => hne ?_) h.distinct
  rw [hid, hid', heq]

theorem notMem (h : AreFollowed c given followed) (hid : id ∈ targets followed) :
    id ∉ ModuleSpec.ids c.modules := by
  obtain ⟨s, hs, hsid⟩ := List.mem_filterMap.mp hid
  obtain ⟨id', hid', hnone⟩ := h.missing s hs
  rw [hsid] at hid'
  rw [Option.some.inj hid']
  exact Configuration.hasModule_eq_false_iff.mp hnone

end AreFollowed

/-- **Following suggestions one after the other** adds an entry for each one
that is followed, and changes nothing else. -/
theorem foldl_follow (registry : Registry) (given : List Suggestion) (c : Configuration)
    (before : List Suggestion) :
    ∃ followed, AreFollowed c given followed
      ∧ given.foldl (follow registry) ⟨c, before⟩
        = ⟨c.extended (entriesFor registry (targets followed)), before ++ followed⟩ := by
  induction given generalizing c before with
  | nil => exact ⟨[], .nil c, by simp [targets, entriesFor]⟩
  | cons s rest ih =>
    by_cases hs : ∀ id, s.action.module? = some id → c.hasModule id = true
    · obtain ⟨followed, hfollowed, hfold⟩ := ih c before
      refine ⟨followed, hfollowed.pass hs, ?_⟩
      rw [List.foldl_cons, follow_of_hasModule registry (r := ⟨c, before⟩) hs, hfold]
    · simp only [not_forall, Bool.not_eq_true] at hs
      obtain ⟨id, hid, hmissing⟩ := hs
      obtain ⟨followed, hfollowed, hfold⟩ :=
        ih (c.extended [.registered registry id]) (before ++ [s])
      have hstep : follow registry ⟨c, before⟩ s
          = ⟨c.extended [.registered registry id], before ++ [s]⟩ := by
        simp [follow, hid, hmissing, Configuration.extended]
      refine ⟨s :: followed, hfollowed.take rfl hid hmissing, ?_⟩
      rw [List.foldl_cons, hstep, hfold]
      simp [targets, entriesFor_eq, hid]

/-! ## The configuration that comes out -/

/-- What following suggestions makes of a configuration: its own entries and one
for each suggestion that was followed, by phase and as they stood within a phase.
Nothing else changes, and a second time nothing is left to follow. -/
structure IsRemedyFor (registry : Registry) (c : Configuration) (suggestions : List Suggestion)
    (r : Remedy) : Prop where
  followed : AreFollowed c (suggestions.filter (·.autoApplicable)) r.applied
  entries : r.configuration.modules.Perm
    (c.modules ++ entriesFor registry (targets r.applied))
  phases : r.configuration.modules.Pairwise fun a b =>
    registry.phaseOf a.id ≤ registry.phaseOf b.id
  stable : ∀ phase, r.configuration.modules.filter (fun m => registry.phaseOf m.id = phase)
    = (c.modules ++ entriesFor registry (targets r.applied)).filter
      fun m => registry.phaseOf m.id = phase
  target : r.configuration.targetEnvironment = c.targetEnvironment
  sourceMode : r.configuration.sourceTypeMode = c.sourceTypeMode
  overrides : r.configuration.overrides = c.overrides
  nodup : (ModuleSpec.ids c.modules).Nodup → (ModuleSpec.ids r.configuration.modules).Nodup
  order : (c.modules.Pairwise fun a b => registry.phaseOf a.id ≤ registry.phaseOf b.id) →
    c.modules.Sublist r.configuration.modules
  settled : ofSuggestions registry r.configuration suggestions = ⟨r.configuration, []⟩

/-- **What is followed and what comes of it**, for every registry, configuration
and list of suggestions. -/
theorem ofSuggestions_isRemedyFor (registry : Registry) (c : Configuration)
    (suggestions : List Suggestion) :
    IsRemedyFor registry c suggestions (ofSuggestions registry c suggestions) := by
  have hsettled : ofSuggestions registry (followed registry c suggestions) suggestions
      = ⟨followed registry c suggestions, []⟩ :=
    ofSuggestions_of_hasModule registry (sortByPhase_followed registry)
      fun s hs hauto id hid => hasModule_followed registry hs hauto hid
  obtain ⟨applied, hfollowed, hfold⟩ :=
    foldl_follow registry (suggestions.filter (·.autoApplicable)) c []
  have hremedy : ofSuggestions registry c suggestions
      = ⟨{ c with
          modules := registry.sortByPhase (c.modules ++ entriesFor registry (targets applied)) },
        applied⟩ := by
    simp [ofSuggestions, hfold, Configuration.extended]
  rw [followed, hremedy] at hsettled
  rw [hremedy]
  have hperm := registry.sortByPhase_perm (c.modules ++ entriesFor registry (targets applied))
  refine ⟨hfollowed, hperm, registry.sortByPhase_sorted _, registry.filter_sortByPhase _, rfl, rfl,
    rfl, fun hnodup => ?_, fun hsorted => ?_, hsettled⟩
  · have hids : (ModuleSpec.ids (c.modules ++ entriesFor registry (targets applied))).Nodup := by
      rw [ModuleSpec.ids_append, ids_entriesFor]
      exact List.Nodup.append hnodup hfollowed.nodup fun id hc hnew => hfollowed.notMem hnew hc
    exact (hperm.map ModuleSpec.id).nodup_iff.mpr hids
  · exact registry.sublist_sortByPhase (List.sublist_append_left _ _) hsorted

/-- The known modules and one more, which is registered with an option. -/
def withSiteMarkup : Registry :=
  .extended [⟨.custom "site-markup", .types, none, true, "", .ofList [("pragma", .text "h")]⟩]

/-- The registered module, the chain plugin under two spellings, a module that is
there already, and a package that is no module. -/
def siteAdvice : List Suggestion := [
  .toAdd .preset (.custom "site-markup") "" .high,
  ⟨.dependency, "", .installPackage "@babel/plugin-transform-optional-chaining", true, .high⟩,
  .toAdd .plugin (.known .pluginOptionalChaining) "" .medium,
  .toAdd .preset (.known .presetEnv) "" .medium,
  ⟨.dependency, "", .installPackage "left-pad", true, .high⟩]

/-- The entry of the registered module has the option that it is registered
with. -/
theorem ofSuggestions_isRemedyFor_siteAdvice :
    let c : Configuration := ⟨[.plain (.known .presetEnv)], .es2019, .auto, .empty⟩
    let r := ofSuggestions withSiteMarkup c siteAdvice
    targets r.applied = [.custom "site-markup", .known .pluginOptionalChaining]
      ∧ r.configuration.modules.Perm [.plain (.known .presetEnv),
        ⟨.custom "site-markup", .ofList [("pragma", .text "h")]⟩,
        .plain (.known .pluginOptionalChaining)]
      ∧ ofSuggestions withSiteMarkup r.configuration siteAdvice = ⟨r.configuration, []⟩ := by
  intro c r
  have hremedy := ofSuggestions_isRemedyFor withSiteMarkup c siteAdvice
  have htargets : targets r.applied = [.custom "site-markup", .known .pluginOptionalChaining] := by
    decide +kernel
  have hentries : entriesFor withSiteMarkup [.custom "site-markup", .known .pluginOptionalChaining]
      = [⟨.custom "site-markup", .ofList [("pragma", .text "h")]⟩,
        .plain (.known .pluginOptionalChaining)] := rfl
  have hperm := hremedy.entries
  rw [htargets, hentries] at hperm
  exact ⟨htargets, hperm, hremedy.settled⟩

end Remedy

end Downlevel
