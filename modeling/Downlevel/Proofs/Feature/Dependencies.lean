/-
Downlevel.Proofs.Feature.Dependencies — the features of a text grouped by the
modules that they require.

A request for a module changes the entry of that module, wherever it stands, or
adds an entry at the end (`request_of_mem`, `request_of_notMem`). The entries so
far are always those of the features so far: one for each module in the order of
first request, with the names of the features that require it
(`ofFeatures_eq_map`). Counted over all entries, a request adds one name
(`flatMap_features_request`), so no name is lost and none is written twice.
-/
import Downlevel.Feature.Basic
import Mathlib.Data.List.Induction
import Mathlib.Data.List.Nodup
import Mathlib.Data.List.Perm.Basic

namespace Downlevel.Dependency

/-! ## First requests -/

section FirstRequests

variable {α : Type} [DecidableEq α]

theorem eraseDups_append_singleton (items : List α) (x : α) :
    (items ++ [x]).eraseDups = items.eraseDups ++ if x ∈ items then [] else [x] := by
  rw [List.eraseDups_append, List.removeAll]
  split
  · next h => simp [h]
  · next h => simp [h, List.eraseDups_cons]

theorem nodup_eraseDups (items : List α) : items.eraseDups.Nodup := by
  induction items using List.reverseRecOn with
  | nil => exact List.nodup_nil
  | append_singleton items x ih =>
    rw [eraseDups_append_singleton]
    split
    · rwa [List.append_nil]
    · next h =>
      have hnew : x ∉ items.eraseDups := mt List.mem_eraseDups.mp h
      refine ih.append (List.nodup_singleton x) ?_
      exact List.disjoint_singleton.mpr hnew

end FirstRequests

/-! ## One request -/

/-- An entry after a request: that of the requested module has one name more. -/
def afterRequest (module : ModuleId) (feature : String) (d : Dependency) : Dependency :=
  if d.module = module then { d with features := d.features ++ [feature] } else d

variable {module : ModuleId} {feature : String} {deps : List Dependency}

theorem afterRequest_self (d : Dependency) :
    afterRequest d.module feature d = { d with features := d.features ++ [feature] } := if_pos rfl

theorem afterRequest_of_ne {d : Dependency} (h : d.module ≠ module) :
    afterRequest module feature d = d := if_neg h

theorem request_of_notMem (h : module ∉ deps.map (·.module)) :
    request module feature deps = deps ++ [⟨module, module.dependencyKind, [feature]⟩] := by
  induction deps with
  | nil => rfl
  | cons d deps ih =>
    rw [List.map_cons, List.mem_cons, not_or] at h
    rw [request, if_neg (Ne.symm h.1), ih h.2, List.cons_append]

theorem map_afterRequest_of_notMem (h : module ∉ deps.map (·.module)) :
    deps.map (afterRequest module feature) = deps := by
  refine (List.map_congr_left fun d hd => ?_).trans (List.map_id deps)
  refine afterRequest_of_ne ?_
  rintro rfl
  exact h (List.mem_map_of_mem hd)

theorem request_of_mem (hnodup : (deps.map (·.module)).Nodup) (h : module ∈ deps.map (·.module)) :
    request module feature deps = deps.map (afterRequest module feature) := by
  induction deps with
  | nil => cases h
  | cons d deps ih =>
    rw [List.map_cons, List.nodup_cons] at hnodup
    rw [List.map_cons, List.mem_cons] at h
    rw [request, List.map_cons]
    split
    · next heq =>
      subst heq
      -- no other entry is for the module
      rw [afterRequest_self, map_afterRequest_of_notMem hnodup.1]
    · next hne => rw [afterRequest_of_ne hne, ih hnodup.2 (h.resolve_left (Ne.symm hne))]

/-- A request adds one name to the names of all entries. -/
theorem flatMap_features_request (module : ModuleId) (feature : String) (deps : List Dependency) :
    ((request module feature deps).flatMap (·.features)).Perm
      (deps.flatMap (·.features) ++ [feature]) := by
  induction deps with
  | nil => exact List.Perm.refl _
  | cons d deps ih =>
    rw [request]
    split
    · rw [List.flatMap_cons, List.flatMap_cons, List.append_assoc, List.append_assoc]
      exact List.perm_append_comm.append_left d.features
    · rw [List.flatMap_cons, List.flatMap_cons, List.append_assoc]
      exact ih.append_left d.features

/-! ## All requests -/

/-- The entry of a module with the names of the features that require it. -/
def entryFor (features : List Feature) (module : ModuleId) : Dependency :=
  ⟨module, module.dependencyKind,
    (features.filter fun f => f.requiresModule = some module).map (·.name)⟩

theorem ofFeatures_append_singleton (features : List Feature) (f : Feature) :
    ofFeatures (features ++ [f]) = match f.requiresModule with
      | some module => request module f.name (ofFeatures features)
      | none => ofFeatures features := by
  rw [ofFeatures, List.foldl_append]
  rfl

theorem entryFor_append_of_none {features : List Feature} {f : Feature}
    (h : f.requiresModule = none) : entryFor (features ++ [f]) = entryFor features := by
  funext other
  rw [entryFor, entryFor, List.filter_append, List.filter_cons_of_neg (by simp [h]),
    List.filter_nil, List.append_nil]

theorem entryFor_append_of_some {features : List Feature} {f : Feature}
    (h : f.requiresModule = some module) :
    entryFor (features ++ [f]) = afterRequest module f.name ∘ entryFor features := by
  funext other
  by_cases heq : other = module
  · subst heq
    refine Eq.trans ?_ (afterRequest_self (entryFor features other)).symm
    rw [entryFor, List.filter_append, List.filter_cons_of_pos (by simp [h]), List.filter_nil,
      List.map_append]
    rfl
  · refine Eq.trans ?_ (afterRequest_of_ne (d := entryFor features other) heq).symm
    rw [entryFor, List.filter_append, List.filter_cons_of_neg (by simpa [h] using Ne.symm heq),
      List.filter_nil, List.append_nil]
    rfl

theorem entryFor_of_notMem {features : List Feature}
    (h : module ∉ features.filterMap (·.requiresModule)) :
    entryFor features module = ⟨module, module.dependencyKind, []⟩ := by
  have hnone : (features.filter fun f => f.requiresModule = some module) = [] := by
    refine List.filter_eq_nil_iff.mpr fun f hf hrequires => h ?_
    exact List.mem_filterMap.mpr ⟨f, hf, of_decide_eq_true hrequires⟩
  rw [entryFor, hnone, List.map_nil]

theorem map_module_entryFor (features : List Feature) (modules : List ModuleId) :
    (modules.map (entryFor features)).map (·.module) = modules := by
  rw [List.map_map]
  exact List.map_id modules

/-- **One request keeps the entries those of the features.** -/
theorem request_entries {features : List Feature} {f : Feature}
    (h : f.requiresModule = some module) :
    request module f.name
        ((features.filterMap (·.requiresModule)).eraseDups.map (entryFor features))
      = (features.filterMap (·.requiresModule) ++ [module]).eraseDups.map
          (entryFor (features ++ [f])) := by
  have hmodules := map_module_entryFor features (features.filterMap (·.requiresModule)).eraseDups
  rw [eraseDups_append_singleton, List.map_append, entryFor_append_of_some h, ← List.map_map]
  by_cases hmem : module ∈ features.filterMap (·.requiresModule)
  · rw [if_pos hmem, List.map_nil, List.append_nil]
    refine request_of_mem ?_ ?_
    · rw [hmodules]
      exact nodup_eraseDups _
    · rw [hmodules]
      exact List.mem_eraseDups.mpr hmem
  · have hnew : module ∉ ((features.filterMap (·.requiresModule)).eraseDups.map
        (entryFor features)).map (·.module) := by
      rw [hmodules]
      exact mt List.mem_eraseDups.mp hmem
    rw [if_neg hmem, request_of_notMem hnew, map_afterRequest_of_notMem hnew, List.map_singleton,
      Function.comp_apply, entryFor_of_notMem hmem, afterRequest, if_pos rfl, List.nil_append]

/-- **The entries are those of the features.** -/
theorem ofFeatures_eq_map (features : List Feature) :
    ofFeatures features
      = (features.filterMap (·.requiresModule)).eraseDups.map (entryFor features) := by
  induction features using List.reverseRecOn with
  | nil => rfl
  | append_singleton features f ih =>
    rw [ofFeatures_append_singleton, List.filterMap_append, ih]
    cases hrequires : f.requiresModule with
    | none =>
      rw [List.filterMap_cons_none hrequires, List.filterMap_nil, List.append_nil,
        entryFor_append_of_none hrequires]
    | some module =>
      rw [List.filterMap_cons_some hrequires, List.filterMap_nil]
      exact request_entries hrequires

/-- Features without a module change nothing. -/
theorem ofFeatures_filter (features : List Feature) :
    ofFeatures (features.filter (·.requiresModule.isSome)) = ofFeatures features := by
  rw [ofFeatures, List.foldl_filter, ofFeatures]
  congr 1
  funext deps f
  cases f.requiresModule <;> rfl

/-- The names in all entries are those of the features with a module. -/
theorem flatMap_features_ofFeatures (features : List Feature) :
    ((ofFeatures features).flatMap (·.features)).Perm
      ((features.filter (·.requiresModule.isSome)).map (·.name)) := by
  induction features using List.reverseRecOn with
  | nil => exact List.Perm.refl _
  | append_singleton features f ih =>
    rw [ofFeatures_append_singleton, List.filter_append, List.map_append]
    cases hrequires : f.requiresModule with
    | none =>
      rw [List.filter_cons_of_neg (by simp [hrequires]), List.filter_nil, List.map_nil,
        List.append_nil]
      exact ih
    | some module =>
      rw [List.filter_cons_of_pos (by simp [hrequires]), List.filter_nil, List.map_singleton]
      exact (flatMap_features_request module f.name _).trans (ih.append_right [f.name])

/-- **Features are grouped by the modules that they require.** For any list of
features, whatever names and modules come more than once: there is one entry for
each required module, in the order of first request, and no module has two
entries; an entry names its module, tells a preset from a plugin by the module's
name, and lists exactly the names of the features that require the module, in
their order and as often as they come. In all entries together there are exactly
the names of the features that require a module, each as often as it comes, and
features without a module change nothing. -/
theorem ofFeatures_groups (features : List Feature) :
    let requests := features.filterMap (·.requiresModule)
    ofFeatures features = requests.eraseDups.map (fun module =>
        ⟨module, module.dependencyKind,
          (features.filter fun f => f.requiresModule = some module).map (·.name)⟩)
      ∧ (ofFeatures features).map (·.module) = requests.eraseDups
      ∧ ((ofFeatures features).map (·.module)).Nodup
      ∧ ((ofFeatures features).flatMap (·.features)).Perm
          ((features.filter (·.requiresModule.isSome)).map (·.name))
      ∧ ofFeatures (features.filter (·.requiresModule.isSome)) = ofFeatures features := by
  intro requests
  have hmodules : (ofFeatures features).map (·.module) = requests.eraseDups := by
    rw [ofFeatures_eq_map, map_module_entryFor]
  refine ⟨ofFeatures_eq_map features, hmodules, ?_, flatMap_features_ofFeatures features, ?_⟩
  · rw [hmodules]
    exact nodup_eraseDups requests
  · exact ofFeatures_filter features

end Downlevel.Dependency
