/-
Downlevel.Proofs.Configuration.CanonicalText — the canonical text tells
configurations apart, and nothing but configurations.

`canonicalText_injective`: equal texts mean equal configurations — the
same modules in the same order, each with its identifier and its options,
the same target, mode and overrides. Every record is written faithfully
because each of its parts is, so the proof goes up the records one by one.

An identifier is written as its name, so this is said of configurations
whose identifiers come from names. Whatever the identifiers, equal texts
mean the same names (`moduleNames_eq_of_canonicalText_eq`).

`Draft.canonicalText_eq`: a configuration is put together by inserting
options and overrides key by key. Two drafts that insert the same values
in different orders come to the same text.
-/
import Downlevel.Configuration.Basic
import Downlevel.Proofs.Json.Canonical
import Downlevel.Proofs.Json.Print

namespace Downlevel

/-! ## Names -/

theorem Edition.name_injective (a b : Edition) (h : a.name = b.name) : a = b := by
  cases a <;> cases b <;> first | rfl | exact absurd h (by decide)

theorem SourceMode.name_injective (a b : SourceMode) (h : a.name = b.name) : a = b := by
  cases a <;> cases b <;> first | rfl | exact absurd h (by decide)

theorem Edition.toJson_isFaithful : Json.IsFaithful Edition.toJson :=
  .ofName fun a b _ _ => Edition.name_injective a b

theorem SourceMode.toJson_isFaithful : Json.IsFaithful SourceMode.toJson :=
  .ofName fun a b _ _ => SourceMode.name_injective a b

theorem ModuleId.toJson_isFaithful : Json.IsFaithfulOn IsNamed ModuleId.toJson :=
  .ofName fun _ _ => name_injective

/-! ## Records -/

/-- Data are in canonical form already. -/
theorem Datum.json_isFaithful : Json.IsFaithful Datum.json := by
  intro a b _ _ h
  rw [Json.canonical_eq_self a.isCanonical, Json.canonical_eq_self b.isCanonical] at h
  cases a
  cases b
  cases h
  rfl

theorem Options.toJson_isFaithful : Json.IsFaithful Options.toJson := fun a b _ _ =>
  Datum.json_isFaithful.ofMap a b (fun _ _ => trivial) fun _ _ => trivial

theorem ModuleSpec.toJson_isFaithful :
    Json.IsFaithfulOn (fun m => m.id.IsNamed) ModuleSpec.toJson := by
  intro a b ha hb h
  have hid := ModuleId.toJson_isFaithful _ _ ha hb (Json.canonical_member_eq h "id" rfl rfl)
  have hoptions := Options.toJson_isFaithful _ _ trivial trivial
    (Json.canonical_member_eq h "options" rfl rfl)
  cases a
  cases b
  cases hid
  cases hoptions
  rfl

theorem EnvironmentOverride.toJson_isFaithful :
    Json.IsFaithfulOn (fun o => ModuleSpec.AreNamed o.modules) EnvironmentOverride.toJson := by
  intro a b ha hb h
  have hmodules := ModuleSpec.toJson_isFaithful.ofList _ _ ha hb
    (Json.canonical_member_eq h "modules" rfl rfl)
  have htarget := (Edition.toJson_isFaithful.ofOption fun _ => nofun) _ _ trivial trivial
    (Json.canonical_member_eq h "targetEnvironment" rfl rfl)
  have hmode := (SourceMode.toJson_isFaithful.ofOption fun _ => nofun) _ _ trivial trivial
    (Json.canonical_member_eq h "sourceTypeMode" rfl rfl)
  cases a
  cases b
  cases hmodules
  cases htarget
  cases hmode
  rfl

namespace Configuration

theorem toJson_isFaithful : Json.IsFaithfulOn IsNamed Configuration.toJson := by
  intro a b ha hb h
  have hmodules := ModuleSpec.toJson_isFaithful.ofList _ _ ha.1 hb.1
    (Json.canonical_member_eq h "modules" rfl rfl)
  have htarget := Edition.toJson_isFaithful _ _ trivial trivial
    (Json.canonical_member_eq h "targetEnvironment" rfl rfl)
  have hmode := SourceMode.toJson_isFaithful _ _ trivial trivial
    (Json.canonical_member_eq h "sourceTypeMode" rfl rfl)
  have hoverrides := EnvironmentOverride.toJson_isFaithful.ofMap _ _ ha.2 hb.2
    (Json.canonical_member_eq h "perEnvironmentOverrides" rfl rfl)
  cases a
  cases b
  cases hmodules
  cases htarget
  cases hmode
  cases hoverrides
  rfl

/-- **The canonical text is injective** on configurations whose identifiers come
from names. -/
theorem canonicalText_injective {a b : Configuration} (ha : a.IsNamed) (hb : b.IsNamed)
    (h : a.canonicalText = b.canonicalText) : a = b :=
  toJson_isFaithful a b ha hb (Json.canonicalText_eq_iff.1 h)

/-- The name of a module stands in its canonical form. -/
theorem id?_canonical_toJson (m : ModuleSpec) :
    (m.toJson.canonical.member? "id").bind Json.str? = some m.id.name := by
  have hid : Entries.get? "id" (Json.canonicalMembers [("id", m.id.toJson),
      ("options", m.options.toJson)]) = some m.id.toJson.canonical :=
    Json.get?_canonicalMembers "id" _
  rw [ModuleSpec.toJson, Json.canonical, Json.member?, hid]
  rfl

/-- Equal texts come from configurations with the same names of modules, whatever
the identifiers. -/
theorem moduleNames_eq_of_canonicalText_eq {a b : Configuration}
    (h : a.canonicalText = b.canonicalText) : a.moduleNames = b.moduleNames := by
  have hnames : ∀ modules : List ModuleSpec,
      ((modules.map ModuleSpec.toJson).map Json.canonical).filterMap
        (fun j => (j.member? "id").bind Json.str?) = modules.map (·.id.name) := by
    intro modules
    rw [List.map_map, List.filterMap_map, ← List.filterMap_eq_map]
    exact congrArg (fun f => modules.filterMap f) (funext id?_canonical_toJson)
  have hmodules := Json.canonical_member_eq (Json.canonicalText_eq_iff.1 h) "modules" rfl rfl
  rw [Json.ofList, Json.ofList, Json.canonical, Json.canonical, Json.canonicalItems_eq_map,
    Json.canonicalItems_eq_map] at hmodules
  rw [moduleNames, moduleNames, ← hnames, ← hnames, Json.arr.inj hmodules]

end Configuration

/-! ## Drafts -/

/-- A module entry while it is put together: its options in the order in
which they are set. -/
structure ModuleDraft where
  id : ModuleId
  options : List (String × Json)

namespace ModuleDraft

def build (d : ModuleDraft) : ModuleSpec := ⟨d.id, .ofMembers d.options⟩

/-- The same module with the same options, set in another order. -/
def Reordered (d e : ModuleDraft) : Prop :=
  d.id = e.id ∧ Entries.Reordered Json.Reordered d.options e.options

theorem build_eq {d e : ModuleDraft} (h : d.Reordered e) : d.build = e.build := by
  obtain ⟨hid, hoptions⟩ := h
  have hvalue : ∀ v w : Json, Json.Reordered v w → Datum.ofJson v = Datum.ofJson w := by
    intro v w hvw
    rw [Datum.ofJson, Datum.ofJson, Datum.mk.injEq]
    exact Json.canonical_eq_of_reordered hvw
  rw [build, build, hid, Options.ofMembers, Options.ofMembers,
    SortedMap.ofList_eq_of_reordered hvalue hoptions]

theorem map_build_eq : ∀ {ds es : List ModuleDraft}, List.Forall₂ Reordered ds es →
    ds.map build = es.map build
  | _, _, .nil => rfl
  | _, _, .cons hd hrest => by rw [List.map_cons, List.map_cons, build_eq hd, map_build_eq hrest]

end ModuleDraft

/-- An override while it is put together. -/
structure OverrideDraft where
  modules : List ModuleDraft
  targetEnvironment : Option Edition
  sourceTypeMode : Option SourceMode

namespace OverrideDraft

def build (d : OverrideDraft) : EnvironmentOverride :=
  ⟨d.modules.map ModuleDraft.build, d.targetEnvironment, d.sourceTypeMode⟩

def Reordered (d e : OverrideDraft) : Prop :=
  List.Forall₂ ModuleDraft.Reordered d.modules e.modules
    ∧ d.targetEnvironment = e.targetEnvironment ∧ d.sourceTypeMode = e.sourceTypeMode

theorem build_eq {d e : OverrideDraft} (h : d.Reordered e) : d.build = e.build := by
  obtain ⟨hmodules, htarget, hmode⟩ := h
  rw [build, build, ModuleDraft.map_build_eq hmodules, htarget, hmode]

end OverrideDraft

/-- A configuration while it is put together: options and overrides stand
in the order in which they are set. -/
structure Configuration.Draft where
  modules : List ModuleDraft
  targetEnvironment : Edition
  sourceTypeMode : SourceMode
  overrides : List (String × OverrideDraft)

namespace Configuration.Draft

def build (d : Draft) : Configuration :=
  ⟨d.modules.map ModuleDraft.build, d.targetEnvironment, d.sourceTypeMode,
    .ofList (d.overrides.map fun e => (e.1, e.2.build))⟩

/-- The same settings, made in another order: only the order of option
keys and of override keys may differ, at any depth. -/
def Reordered (d e : Draft) : Prop :=
  List.Forall₂ ModuleDraft.Reordered d.modules e.modules
    ∧ d.targetEnvironment = e.targetEnvironment ∧ d.sourceTypeMode = e.sourceTypeMode
    ∧ Entries.Reordered OverrideDraft.Reordered d.overrides e.overrides

theorem build_eq {d e : Draft} (h : d.Reordered e) : d.build = e.build := by
  obtain ⟨hmodules, htarget, hmode, hoverrides⟩ := h
  have hbuild : ∀ v w : OverrideDraft, v.Reordered w → v.build = w.build :=
    fun _ _ => OverrideDraft.build_eq
  rw [build, build, ModuleDraft.map_build_eq hmodules, htarget, hmode,
    SortedMap.ofList_eq_of_reordered hbuild hoverrides]

/-- **The order of insertion does not show in the canonical text.** -/
theorem canonicalText_eq {d e : Draft} (h : d.Reordered e) :
    d.build.canonicalText = e.build.canonicalText := by
  rw [build_eq h]

end Configuration.Draft

end Downlevel
