/-
Downlevel.Proofs.Failure.RankedAdvice — the list of suggestions that a failure
leads to.

Every suggestion that may be made is one of six (`repertoire`), and one more
where none of them is made. They differ in their kind or in their action: of the
two for presets one is for a module that lowers markup, and the one for types
does not. Keys tell suggestions of different kinds or actions apart
(`dedupeKey_eq_iff`), so no key comes twice (`nodup_keys`).

Each suggestion to add a module is made where a test found the module missing
(`missing_of_addition`). The test for markup asks for any module that lowers it,
so it tells of the one that is advised as well.
-/
import Downlevel.Proofs.Failure.Remedy
import Downlevel.Proofs.StableSort

namespace Downlevel

/-! ## Keys -/

namespace SuggestionKind

/-- Two characters tell the kinds apart. -/
theorem eq_of_take_title {k k' : SuggestionKind}
    (h : k.title.toList.take 2 = k'.title.toList.take 2) : k = k' := by
  have hall : ∀ k ∈ all, ∀ k' ∈ all, k.title.toList.take 2 = k'.title.toList.take 2 → k = k' := by
    decide
  exact hall k (by cases k <;> decide) k' (by cases k' <;> decide) h

theorem title_append_inj {k k' : SuggestionKind} {text text' : List Char}
    (h : k.title.toList ++ text = k'.title.toList ++ text') : k = k' ∧ text = text' := by
  have hlong : ∀ k : SuggestionKind, 2 ≤ k.title.toList.length := by
    intro k
    cases k <;> decide
  have hstart := congrArg (List.take 2) h
  rw [List.take_append_of_le_length (hlong k), List.take_append_of_le_length (hlong k')] at hstart
  obtain rfl := eq_of_take_title hstart
  exact ⟨rfl, List.append_cancel_left h⟩

end SuggestionKind

/-- The line of an action names the action, where the module to add comes from a
name. -/
theorem SuggestedAction.line_injective {a b : SuggestedAction} (ha : a.IsNamed) (hb : b.IsNamed)
    (h : a.line = b.line) : a = b := by
  have hchars := congrArg String.toList h
  cases a <;> cases b
  case addModule.addModule m n =>
    simp only [line, String.toList_append] at hchars
    have hname : m.name = n.name := String.toList_injective (List.append_cancel_left hchars)
    rw [ModuleId.name_injective ha hb hname]
  case installPackage.installPackage package other =>
    simp only [line, String.toList_append] at hchars
    rw [String.toList_injective (List.append_cancel_left hchars)]
  case simplifyConfiguration.simplifyConfiguration => rfl
  case editSource.editSource hint other =>
    simp only [line, String.toList_append] at hchars
    rw [String.toList_injective (List.append_cancel_left hchars)]
  -- lines of different actions differ in their first character
  all_goals simp [line] at hchars

namespace Suggestion

/-- **Keys tell apart suggestions of different kinds or actions**, and no
others. -/
theorem dedupeKey_eq_iff {s t : Suggestion} (hs : s.action.IsNamed) (ht : t.action.IsNamed) :
    s.dedupeKey = t.dedupeKey ↔ s.kind = t.kind ∧ s.action = t.action := by
  constructor
  · intro h
    have hchars := congrArg String.toList h
    simp only [dedupeKey, String.toList_append, List.append_assoc] at hchars
    obtain ⟨hkind, hrest⟩ := SuggestionKind.title_append_inj hchars
    have hline := String.toList_injective (List.append_cancel_left hrest)
    exact ⟨hkind, SuggestedAction.line_injective hs ht hline⟩
  · rintro ⟨hkind, haction⟩
    rw [dedupeKey, dedupeKey, hkind, haction]

/-- Suggestions of which no two agree in kind and action have different keys. -/
theorem nodup_map_dedupeKey {suggestions : List Suggestion}
    (hnamed : ∀ s ∈ suggestions, s.action.IsNamed)
    (h : (suggestions.map fun s => (s.kind, s.action)).Nodup) :
    (suggestions.map dedupeKey).Nodup := by
  refine List.pairwise_map.mpr ((List.pairwise_map.mp h).imp_of_mem fun hs ht hne hkey => hne ?_)
  exact Prod.ext_iff.mpr ((dedupeKey_eq_iff (hnamed _ hs) (hnamed _ ht)).mp hkey)

/-! ## Sorting -/

theorem priority_trans (a b c : Suggestion) (hab : decide (a.priority ≤ b.priority) = true)
    (hbc : decide (b.priority ≤ c.priority) = true) : decide (a.priority ≤ c.priority) = true :=
  decide_eq_true (Nat.le_trans (of_decide_eq_true hab) (of_decide_eq_true hbc))

theorem priority_total (a b : Suggestion) :
    (decide (a.priority ≤ b.priority) || decide (b.priority ≤ a.priority)) = true := by
  have htotal : a.priority ≤ b.priority ∨ b.priority ≤ a.priority := Nat.le_total _ _
  simpa using htotal

theorem sortByPriority_perm (suggestions : List Suggestion) :
    (sortByPriority suggestions).Perm suggestions :=
  List.mergeSort_perm suggestions _

theorem sortByPriority_sorted (suggestions : List Suggestion) :
    (sortByPriority suggestions).Pairwise fun a b => a.priority ≤ b.priority :=
  (List.pairwise_mergeSort priority_trans priority_total suggestions).imp of_decide_eq_true

/-- Equally urgent suggestions keep their order. -/
theorem filter_sortByPriority (suggestions : List Suggestion) (p : Priority) :
    (sortByPriority suggestions).filter (fun s => s.priority = p)
      = suggestions.filter fun s => s.priority = p := by
  refine StableSort.filter_mergeSort priority_trans priority_total ?_ suggestions
  intro a b ha hb
  rw [decide_eq_true_eq] at ha hb
  rw [ha, hb]
  exact decide_eq_true (Nat.le_refl _)

/-! ## What may be suggested -/

variable {registry : Registry} {failure : BackendFailure} {message source : String}
  {c : Configuration} {d : Detection} {s : Suggestion}

/-- The module that is advised for markup. -/
def markupAdvice (d : Detection) : ModuleId :=
  ((d.features.find? fun f => f.name == Feature.markupName).bind (·.requiresModule)).getD
    (.known .presetReact)

/-- The advice to install a package. -/
def toInstall (package : String) : Suggestion :=
  ⟨.dependency, s!"Install '{package}'", .installPackage package, true, .high⟩

/-- All that may be suggested where something particular helps, in the order in
which it comes to mind. -/
def repertoire (failure : BackendFailure) (d : Detection) : List Suggestion := [
  toAdd .preset (markupAdvice d) "Add a markup preset to lower JSX" .high,
  toAdd .preset (.known .presetTypescript) "Add the TypeScript preset to strip type syntax" .high,
  toAdd .plugin (.known .pluginOptionalChaining) "Add the optional chaining plugin" .medium,
  toAdd .plugin (.known .pluginNullishCoalescing) "Add the nullish coalescing plugin" .medium,
  ⟨.configuration, "Reduce the number of configured modules or split the input",
    .simplifyConfiguration, false, .medium⟩,
  toInstall ((missingPackage? failure).getD "")]

theorem sublist_of_if {advice : Suggestion} (condition : Bool) :
    (if condition then [advice] else []).Sublist [advice] := by
  cases condition with
  | false => exact List.nil_sublist _
  | true => exact List.Sublist.refl _

theorem forPackage_sublist (failure : BackendFailure) :
    (forPackage failure).Sublist [toInstall ((missingPackage? failure).getD "")] := by
  unfold forPackage
  cases missingPackage? failure with
  | none => exact List.nil_sublist _
  | some package => exact List.Sublist.refl _

/-- The suggestions that are made are some of the repertoire, in its order. -/
theorem specific_sublist :
    (additions registry failure.message source c d ++ otherAdvice failure).Sublist
      (repertoire failure d) := by
  have hadditions : (additions registry failure.message source c d).Sublist
      ((repertoire failure d).take 4) :=
    (((sublist_of_if _).append (sublist_of_if _)).append (sublist_of_if _)).append
      (sublist_of_if _)
  have hother : (otherAdvice failure).Sublist ((repertoire failure d).drop 4) :=
    (sublist_of_if (BackendFailure.mentions failure.message BackendFailure.exhaustedMemory)).append
      (forPackage_sublist failure)
  rw [← List.take_append_drop 4 (repertoire failure d)]
  exact hadditions.append hother

theorem unsorted_eq :
    unsorted registry failure source c d
      = if (additions registry failure.message source c d ++ otherAdvice failure).isEmpty
        then toEdit failure
        else additions registry failure.message source c d ++ otherAdvice failure := by
  simp only [unsorted, additions, otherAdvice, List.append_assoc]

/-- Where no module for markup is one for types, no two suggestions of the
repertoire have one key. -/
theorem nodup_keys_repertoire (hnamed : (markupAdvice d).IsNamed)
    (hmarkup : markupAdvice d ≠ .known .presetTypescript) :
    ((repertoire failure d).map dedupeKey).Nodup := by
  refine nodup_map_dedupeKey ?_ ?_
  · simp [repertoire, toAdd, toInstall, SuggestedAction.IsNamed, hnamed, ModuleId.isNamed_known]
  · simp [repertoire, toAdd, toInstall, hmarkup]

/-- **No key comes twice.** -/
theorem nodup_keys (hnamed : (markupAdvice d).IsNamed)
    (hmarkup : markupAdvice d ≠ .known .presetTypescript) :
    ((unsorted registry failure source c d).map dedupeKey).Nodup := by
  rw [unsorted_eq]
  split
  · unfold toEdit
    split
    · exact List.nodup_singleton _
    · exact List.nodup_nil
  · exact (specific_sublist.map dedupeKey).nodup (nodup_keys_repertoire hnamed hmarkup)

/-! ## What is missing -/

theorem missing_of_toAdd {signalled : Bool} {kind : SuggestionKind} {module : ModuleId}
    {description : String} {priority : Priority}
    (h : s ∈ (if signalled && !c.hasModule module then
      [toAdd kind module description priority] else [])) :
    s.autoApplicable = true ∧ ∃ id, s.action = .addModule id ∧ c.hasModule id = false := by
  split at h
  · next htest =>
    obtain rfl := List.mem_singleton.mp h
    rw [Bool.and_eq_true, Bool.not_eq_true'] at htest
    exact ⟨rfl, module, rfl, htest.2⟩
  · cases h

/-- Where nothing lowers markup, the module that is advised for it is missing. -/
theorem missing_of_forMarkup (hmarkup : registry.isMarkup (markupAdvice d) = true)
    (h : s ∈ forMarkup registry message c d) :
    s.autoApplicable = true ∧ ∃ id, s.action = .addModule id ∧ c.hasModule id = false := by
  unfold forMarkup at h
  dsimp only at h
  split at h
  · next htest =>
    obtain rfl := List.mem_singleton.mp h
    rw [Bool.and_eq_true, Bool.not_eq_true', List.any_eq_false] at htest
    refine ⟨rfl, markupAdvice d, rfl, Bool.eq_false_iff.mpr fun hthere => ?_⟩
    obtain ⟨m, hm, hid⟩ := Configuration.hasModule_iff.mp hthere
    exact htest.2 m hm (hid ▸ hmarkup)
  · cases h

/-- **Every module that is advised is missing**, and may be added without
asking. -/
theorem missing_of_addition (hmarkup : registry.isMarkup (markupAdvice d) = true)
    (h : s ∈ additions registry message source c d) :
    s.autoApplicable = true ∧ ∃ id, s.action = .addModule id ∧ c.hasModule id = false := by
  simp only [additions, List.mem_append] at h
  rcases h with ((hadvised | htypes) | hchain) | hnullish
  · exact missing_of_forMarkup hmarkup hadvised
  · exact missing_of_toAdd htypes
  · exact missing_of_toAdd hchain
  · exact missing_of_toAdd hnullish

theorem missing_of_addModule (hmarkup : registry.isMarkup (markupAdvice d) = true)
    (h : s ∈ ofFailure registry failure source c d) {id : ModuleId}
    (hid : s.action = .addModule id) : s.autoApplicable = true ∧ c.hasModule id = false := by
  rcases mem_ofFailure h with hadded | hother | hedit
  · obtain ⟨hauto, other, haction, hmissing⟩ := missing_of_addition hmarkup hadded
    obtain rfl := SuggestedAction.addModule.inj (hid.symm.trans haction)
    exact ⟨hauto, hmissing⟩
  · exact absurd hid (action_of_otherAdvice hother id)
  · obtain ⟨hint, haction⟩ := action_of_toEdit hedit
    cases hid.symm.trans haction

/-! ## The list -/

/-- A text that cannot be read leads to a suggestion. -/
theorem unsorted_ne_nil {reason : String} {location : Option SourceLocation} :
    unsorted registry (.unreadable reason location) source c d ≠ [] := by
  rw [unsorted_eq]
  split
  · exact List.cons_ne_nil _ _
  · next hsome => exact fun hnil => hsome (List.isEmpty_iff.mpr hnil)

/-- **The suggestions for a failure.** With the known modules registered, take
any failure of the backend, any source text, any configuration, and what was
found out about any text. The most urgent suggestions come first, and equally
urgent ones in the order in which they were made; no two have one key; those
that add a module may be followed without asking, and the configuration does not
have the module; and there is one for every text that cannot be read. -/
theorem ofFailure_ranked (failure : BackendFailure) (source : String) (c : Configuration)
    (text : String) (tree : Option SyntaxTree) (filename : Option String) :
    let d := Detection.ofSource text tree filename
    let made := unsorted .builtin failure source c d
    let given := ofFailure .builtin failure source c d
    given.Perm made
      ∧ (given.Pairwise fun a b => a.priority ≤ b.priority)
      ∧ (∀ p, (given.filter fun s => s.priority = p) = made.filter fun s => s.priority = p)
      ∧ (given.map dedupeKey).Nodup
      ∧ (∀ s ∈ given, ∀ id, s.action = .addModule id →
        s.autoApplicable = true ∧ c.hasModule id = false)
      ∧ (∀ reason location, failure = .unreadable reason location → given ≠ []) := by
  intro d made given
  have hd : d.IsDerived := by
    cases tree <;> exact Detection.isDerived_ofEvents _ _ _ _
  obtain ⟨lowering, hlowers, hadvice⟩ := markup_of_advised hd
  have hadvice : markupAdvice d = .known lowering := hadvice
  have hmarkup : Registry.builtin.isMarkup (markupAdvice d) = true := by
    rw [hadvice, Registry.isMarkup_builtin, hlowers]
  have hnamed : (markupAdvice d).IsNamed := hadvice ▸ ModuleId.isNamed_known lowering
  have hother : markupAdvice d ≠ .known .presetTypescript := by
    rw [hadvice]
    rintro ⟨⟩
    cases hlowers
  have hperm : given.Perm made := sortByPriority_perm made
  refine ⟨hperm, sortByPriority_sorted made, filter_sortByPriority made, ?_, ?_, ?_⟩
  · exact (hperm.map dedupeKey).nodup_iff.mpr (nodup_keys hnamed hother)
  · exact fun s hs id hid => missing_of_addModule hmarkup hs hid
  · rintro reason location rfl hnil
    rw [hnil] at hperm
    exact unsorted_ne_nil hperm.nil_eq.symm

end Suggestion

end Downlevel
