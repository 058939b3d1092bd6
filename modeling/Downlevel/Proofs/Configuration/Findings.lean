/-
Downlevel.Proofs.Configuration.Findings — what the check of a configuration
finds, counted against the list of modules itself.

The check walks over the modules once, with the latest phase and the modules it
has seen; sorting moves them. Both look at phases only, so nothing is misplaced
exactly where sorting moves nothing (`misplacedAfter_types_eq_nil_iff`). An entry
is listed again exactly where its module was seen before, so the entries are the
modules seen for the first time and those listed again
(`countP_listedTwice_add_card`).
-/
import Downlevel.Proofs.Configuration.Validity

namespace Downlevel

namespace Validation

open ModuleSpec

variable {registry : Registry}

/-! ## Order -/

/-- The walk finds nothing misplaced where sorting moves nothing. -/
theorem misplacedAfter_types_eq_nil_iff {modules : List ModuleSpec} :
    misplacedAfter registry .types modules = [] ↔ registry.sortByPhase modules = modules := by
  rw [misplacedAfter_eq_nil_iff, registry.sortByPhase_eq_self_iff]
  exact and_iff_right fun _ _ => Phase.types_le _

/-- The walk over the phases finds misplaced entries only. -/
theorem eq_misplaced_of_mem {latest : Phase} {modules : List ModuleSpec}
    {issue : ConfigurationIssue} (h : issue ∈ misplacedAfter registry latest modules) :
    ∃ id phase after, issue = .misplaced id phase after := by
  induction modules generalizing latest with
  | nil => cases h
  | cons m rest ih =>
    rw [misplacedAfter] at h
    split at h
    · rcases List.mem_cons.mp h with rfl | hrest
      · exact ⟨_, _, _, rfl⟩
      · exact ih hrest
    · exact ih h

theorem misplaced_notMem_namelessOverrides {overrides : Overrides} {id : ModuleId}
    {phase after : Phase} : .misplaced id phase after ∉ namelessOverrides overrides := by
  simp [namelessOverrides]

/-- No error is about the order exactly where sorting moves nothing. -/
theorem misplaced_notMem_iff {c : Configuration} :
    (∀ id phase after, .misplaced id phase after ∉ (ofConfiguration registry c).errors)
      ↔ registry.sortByPhase c.modules = c.modules := by
  rw [← misplacedAfter_types_eq_nil_iff, List.eq_nil_iff_forall_not_mem]
  constructor
  · intro hnone issue hissue
    obtain ⟨id, phase, after, rfl⟩ := eq_misplaced_of_mem hissue
    exact hnone id phase after (List.mem_append_left _ hissue)
  · intro hnone id phase after hmem
    rcases List.mem_append.mp hmem with hplaced | hoverride
    · exact hnone _ hplaced
    · exact misplaced_notMem_namelessOverrides hoverride

/-! ## Repetition -/

/-- Whether a finding is that a module is listed again. -/
def saysListedTwice (issue : ConfigurationIssue) : Bool := issue matches .listedTwice _

/-- **Entries are new modules or modules listed again**, given the modules in
front of the list. -/
theorem countP_listedTwice_add_card (registry : Registry) (seen : List ModuleId)
    (modules : List ModuleSpec) :
    (oddEntries registry seen modules).countP saysListedTwice
      + ((ids modules).toFinset \ seen.toFinset).card = modules.length := by
  induction modules generalizing seen with
  | nil => simp [oddEntries, ids]
  | cons m rest ih =>
    have hrest := ih (m.id :: seen)
    have hunknown : (if registry.isRegistered m.id then []
        else [ConfigurationIssue.unregistered m.id.name]).countP saysListedTwice = 0 := by
      split <;> rfl
    simp only [oddEntries, List.countP_append, hunknown, ids, List.map_cons, List.toFinset_cons,
      List.length_cons] at hrest ⊢
    by_cases hseen : m.id ∈ seen
    · have hold : m.id ∈ seen.toFinset := List.mem_toFinset.mpr hseen
      rw [Finset.insert_eq_of_mem hold] at hrest
      rw [if_pos hseen, Finset.insert_sdiff_of_mem _ hold]
      simp only [List.countP_singleton, saysListedTwice, if_true]
      omega
    · have hnew : m.id ∉ seen.toFinset := fun hold => hseen (List.mem_toFinset.mp hold)
      -- the module is new here, and no longer new in the rest
      have hsplit : insert m.id (rest.map (·.id)).toFinset \ seen.toFinset
          = insert m.id ((rest.map (·.id)).toFinset \ insert m.id seen.toFinset) := by
        rw [← Finset.insert_sdiff_of_mem (rest.map (·.id)).toFinset (Finset.mem_insert_self m.id _),
          Finset.sdiff_insert_insert_of_mem_of_notMem (Finset.mem_insert_self m.id _) hnew]
      have hnone : m.id ∉ (rest.map (·.id)).toFinset \ insert m.id seen.toFinset := by
        simp
      rw [if_neg hseen, List.countP_nil, hsplit, Finset.card_insert_of_notMem hnone]
      omega

/-! ## Markup -/

theorem rivalMarkup_notMem_oddEntries (seen : List ModuleId) (modules : List ModuleSpec)
    (rivals : List ModuleId) : .rivalMarkup rivals ∉ oddEntries registry seen modules := by
  induction modules generalizing seen with
  | nil => exact List.not_mem_nil
  | cons m rest ih =>
    simp only [oddEntries, List.mem_append, not_or]
    refine ⟨⟨?_, ?_⟩, ih _⟩
    · split <;> simp
    · split <;> simp

theorem length_markupModules (modules : List ModuleSpec) :
    (markupModules registry modules).length = modules.countP fun m => registry.isMarkup m.id := by
  rw [markupModules, ← List.countP_eq_length_filter, List.countP_map]
  rfl

/-- The markup modules are complained of exactly where there are several. -/
theorem rivalMarkup_mem_iff {c : Configuration} :
    (∃ rivals, .rivalMarkup rivals ∈ (ofConfiguration registry c).warnings)
      ↔ 2 ≤ c.modules.countP fun m => registry.isMarkup m.id := by
  rw [← length_markupModules]
  constructor
  · rintro ⟨rivals, hmem⟩
    rcases List.mem_append.mp hmem with hodd | hrivals
    · exact absurd hodd (rivalMarkup_notMem_oddEntries _ _ _)
    · split at hrivals
      · assumption
      · cases hrivals
  · intro hseveral
    refine ⟨markupModules registry c.modules, List.mem_append_right _ ?_⟩
    show _ ∈ if 1 < (markupModules registry c.modules).length then _ else _
    rw [if_pos (Nat.lt_of_succ_le hseveral)]
    exact List.mem_singleton_self _

/-! ## Agreement -/

/-- **The check and the sort agree.** For every registry and configuration: no
error is about the order exactly where sorting by phase changes nothing, and the
configuration is valid exactly where moreover no override has a blank name. A
warning that a module is listed more than once stands for each entry beyond the
number of different modules, and one about several markup modules is there
exactly where two entries or more are for such modules. -/
theorem check_agrees_with_sort (registry : Registry) (c : Configuration) :
    let v := ofConfiguration registry c
    ((∀ id phase after, .misplaced id phase after ∉ v.errors)
        ↔ registry.sortByPhase c.modules = c.modules)
      ∧ (v.valid = true ↔ registry.sortByPhase c.modules = c.modules
        ∧ ∀ name ∈ c.overrides.keys, Text.isBlankText name = false)
      ∧ v.warnings.countP saysListedTwice + (ids c.modules).toFinset.card = c.modules.length
      ∧ ((∃ rivals, .rivalMarkup rivals ∈ v.warnings)
        ↔ 2 ≤ c.modules.countP fun m => registry.isMarkup m.id) := by
  intro v
  refine ⟨misplaced_notMem_iff, ?_, ?_, rivalMarkup_mem_iff⟩
  · have herrors : v.errors = misplacedAfter registry .types c.modules
        ++ namelessOverrides c.overrides := rfl
    rw [valid_iff, herrors, List.append_eq_nil_iff, misplacedAfter_types_eq_nil_iff,
      namelessOverrides_eq_nil_iff]
  · have hrivals : (if 1 < (markupModules registry c.modules).length then
        [ConfigurationIssue.rivalMarkup (markupModules registry c.modules)]
        else []).countP saysListedTwice = 0 := by
      split <;> rfl
    have hcount := countP_listedTwice_add_card registry [] c.modules
    rw [List.toFinset_nil, Finset.sdiff_empty] at hcount
    show (oddEntries registry [] c.modules ++ _).countP saysListedTwice + _ = _
    rw [List.countP_append, hrivals, Nat.add_zero, hcount]

end Validation

end Downlevel
