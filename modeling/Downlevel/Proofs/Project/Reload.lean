/-
Downlevel.Proofs.Project.Reload — layers of configuration that are written
down and loaded again.

What is loaded goes through a check before it is read. The reader takes
whatever the writer writes of a layer whose identifiers come from names
(`ConfigurationLayer.readsBack`): an open member is written as null, and null is
read as open. The check is stricter. It allows an
edition, a mode and a list of modules to be left out, but not to be null. So a
layer can be loaded again exactly when it leaves none of the three open
(`ofJson_toJson`).

Overrides are not checked inside, and may leave open what they like.
-/
import Downlevel.Project
import Downlevel.Proofs.Json.ReadBack

namespace Downlevel

open Json (ReadsBack)

/-! ## Reading back -/

theorem Edition.readsBack (bare : Json.Bare) (e : Edition) :
    ReadsBack (ofJsonWith? bare) toJson e :=
  .choice bare (by cases e <;> rfl)

theorem SourceMode.readsBack (bare : Json.Bare) (m : SourceMode) :
    ReadsBack (ofJsonWith? bare) toJson m :=
  .choice bare (by cases m <;> rfl)

theorem Options.ofMembers_entries (o : Options) :
    Options.ofMembers (o.entries.map fun e => (e.1, e.2.json)) = o := by
  have hentries : (fun e : String × Json => (e.1, Datum.ofJson e.2)) ∘
      (fun e : String × Datum => (e.1, e.2.json)) = id := by
    funext e
    exact Prod.ext rfl (Datum.ofJson_json e.2)
  rw [Options.ofMembers, List.map_map, hentries, List.map_id, SortedMap.ofList_entries]

theorem ModuleSpec.readsBack {m : ModuleSpec} (h : m.id.IsNamed) : ReadsBack ofJson? toJson m := by
  have hid : ModuleId.ofString m.id.name = m.id := ModuleId.isNamed_iff.mp h
  have hoptions := Options.ofMembers_entries m.options
  simp [ReadsBack, toJson, ofJson?, Entries.get?, ModuleId.toJson, Options.toJson, Json.ofMap,
    hid, hoptions]

theorem EnvironmentOverride.readsBack (bare : Json.Bare) {o : EnvironmentOverride}
    (h : ModuleSpec.AreNamed o.modules) : ReadsBack (ofJsonWith? bare) toJson o := by
  have hmodules : ReadsBack _ _ o.modules := .items fun m hm => ModuleSpec.readsBack (h m hm)
  have htarget : ReadsBack _ _ o.targetEnvironment :=
    .nullable (fun e _ => e.readsBack bare) fun _ h => by cases h
  have hmode : ReadsBack _ _ o.sourceTypeMode :=
    .nullable (fun m _ => m.readsBack bare) fun _ h => by cases h
  change Json.Record.finish _ (.byName _) = _
  rw [Json.Record.finish, ReadsBack.bind_of_read (hmodules.defaulted rfl),
    ReadsBack.bind_of_read (htarget.defaulted rfl), ReadsBack.bind_of_read (hmode.defaulted rfl)]
  rfl

/-- What holds of the modules of a layer holds of the list, where there is one. -/
theorem ConfigurationLayer.IsNamed.listed {l : ConfigurationLayer} (h : l.IsNamed) :
    ∀ modules ∈ l.modules, ModuleSpec.AreNamed modules := by
  intro modules hmodules m hm
  exact h.1 m (by rw [hmodules]; exact hm)

theorem ConfigurationLayer.readsBack {l : ConfigurationLayer} (h : l.IsNamed) :
    ReadsBack ofJson? toJson l := by
  have hmodules : ReadsBack _ _ l.modules :=
    .nullable (fun modules hmodules => .items fun m hm =>
      ModuleSpec.readsBack (h.listed modules hmodules m hm)) fun _ h => by cases h
  have htarget : ReadsBack _ _ l.targetEnvironment :=
    .nullable (fun e _ => e.readsBack Json.isNull) fun _ h => by cases h
  have hmode : ReadsBack _ _ l.sourceTypeMode :=
    .nullable (fun m _ => m.readsBack Json.isNull) fun _ h => by cases h
  have hoverrides : ReadsBack _ _ l.overrides :=
    .map fun e he => EnvironmentOverride.readsBack Json.isNull (h.2 e he)
  have henvironment : ReadsBack _ _ l.environment :=
    .nullable (fun text _ => .str text) fun _ h => by cases h
  change Json.Record.finish _ (.byName _) = _
  rw [Json.Record.finish, reader, ReadsBack.bind_of_read (hmodules.defaulted rfl),
    ReadsBack.bind_of_read (htarget.defaulted rfl), ReadsBack.bind_of_read (hmode.defaulted rfl),
    ReadsBack.bind_of_read (hoverrides.defaulted rfl),
    ReadsBack.bind_of_read (henvironment.defaulted rfl)]
  rfl

/-! ## The check of what was written -/

namespace Validation

/-- The modules of a list that nobody registered. -/
def unregistered (registry : Registry) (modules : List ModuleSpec) : List ConfigurationIssue :=
  (modules.filter fun m => !registry.isRegistered m.id).map fun m => .unregistered m.id.name

theorem entryId?_toJson {m : ModuleSpec} (h : Text.isBlankText m.id.name = false) :
    entryId? m.toJson = some m.id.name := by
  change (some m.id.name).filter (fun id => !Text.isBlankText id) = _
  rw [Option.filter_some, h]
  rfl

/-- A written list of modules is in order, if their names are not blank. -/
theorem ofEntries_toJson (registry : Registry) {modules : List ModuleSpec}
    (hnamed : ModuleSpec.AreNamed modules)
    (h : ∀ m ∈ modules, Text.isBlankText m.id.name = false) (index : Nat) :
    ofEntries registry index (modules.map ModuleSpec.toJson)
      = ⟨[], unregistered registry modules⟩ := by
  induction modules generalizing index with
  | nil => rfl
  | cons m rest ih =>
    obtain ⟨hm, hrest⟩ := List.forall_mem_cons.mp h
    obtain ⟨hid, hids⟩ := List.forall_mem_cons.mp hnamed
    rw [List.map_cons, ofEntries, ih hids hrest, entryId?_toJson hm]
    dsimp only
    rw [ModuleId.isNamed_iff.mp hid]
    cases hregistered : registry.isRegistered m.id with
    | true => simp [unregistered, hregistered]
    | false => simp [unregistered, hregistered]

theorem checkMember_of_some {object : Json} {key : String} (value : Json) (passes : Json → Bool)
    (issue : Json → ConfigurationIssue) (h : object.member? key = some value) :
    checkMember object key passes issue = if passes value then [] else [issue value] := by
  rw [checkMember, h]

end Validation

namespace ConfigurationLayer

open Validation

/-- What the check says of a layer for every member that it may not leave
open. -/
def openMembers (c : ConfigurationLayer) : List ConfigurationIssue :=
  (if c.modules.isNone then [.modulesNotAnArray] else [])
    ++ (if c.sourceTypeMode.isNone then [.unknownSourceMode] else [])
    ++ (if c.targetEnvironment.isNone then [.unknownTarget .null] else [])

theorem openMembers_eq_nil_iff {c : ConfigurationLayer} :
    c.openMembers = [] ↔ c.isFullyExplicit = true := by
  rcases c with ⟨modules, target, mode, overrides, environment⟩
  cases modules <;> cases target <;> cases mode <;> simp [openMembers, isFullyExplicit]

/-- **The check of a written layer** complains of the open members and of
nothing else. -/
theorem validation_toJson (registry : Registry) {c : ConfigurationLayer} (hnamed : c.IsNamed)
    (h : ∀ m ∈ c.modules.getD [], Text.isBlankText m.id.name = false) :
    Validation.ofJson registry c.toJson
      = ⟨c.openMembers, unregistered registry (c.modules.getD [])⟩ := by
  have hmodules : ofModules registry (c.toJson.member? "modules")
      = ⟨if c.modules.isNone then [.modulesNotAnArray] else [],
        unregistered registry (c.modules.getD [])⟩ := by
    change ofModules registry (some (Json.ofOption (Json.ofList ModuleSpec.toJson) c.modules)) = _
    cases hlist : c.modules with
    | none => rfl
    | some modules =>
      have hids : ModuleSpec.AreNamed (c.modules.getD []) := hnamed.1
      rw [hlist] at h hids
      exact ofEntries_toJson registry hids h 0
  have hmode : checkMember c.toJson "sourceTypeMode" isSourceMode (fun _ => .unknownSourceMode)
      = if c.sourceTypeMode.isNone then [.unknownSourceMode] else [] := by
    rw [checkMember_of_some (Json.ofOption SourceMode.toJson c.sourceTypeMode) _ _ rfl]
    rcases c.sourceTypeMode with _ | mode
    · rfl
    · cases mode <;> rfl
  have htarget : checkMember c.toJson "targetEnvironment" (fun j => (Edition.ofJson? j).isSome)
        .unknownTarget
      = if c.targetEnvironment.isNone then [.unknownTarget .null] else [] := by
    rw [checkMember_of_some (Json.ofOption Edition.toJson c.targetEnvironment) _ _ rfl]
    rcases c.targetEnvironment with _ | target
    · rfl
    · rw [Json.ofOption, Edition.ofJson?, Edition.readsBack]
      rfl
  have hoverrides : checkMember c.toJson "perEnvironmentOverrides" isObject
      (fun _ => .overridesNotAnObject) = [] := rfl
  have hobject : isObject c.toJson = true := rfl
  rw [Validation.ofJson, if_pos hobject, hmodules, hmode, htarget, hoverrides]
  dsimp only
  rw [List.append_nil]
  rfl

end ConfigurationLayer

/-! ## Loading -/

namespace Project

open Validation

/-- **What loading a written layer comes to.** Let the identifiers of its modules
come from names, and let no module that the layer lists have a blank name. If it
leaves open neither its modules nor its edition nor its mode, then it is loaded
again, whatever modules are registered: the same layer, with the standard
settings, and with a warning for every module that nobody registered. Otherwise
it is rejected, with an error for every one of the three that it leaves open. -/
theorem ofJson_toJson (registry : Registry) (c : ConfigurationLayer) (hnamed : c.IsNamed)
    (h : ∀ m ∈ c.modules.getD [], Text.isBlankText m.id.name = false) :
    ofJson registry c.toJson
      = if c.isFullyExplicit then
          .ok ⟨c, .standard, unregistered registry (c.modules.getD [])⟩
        else .error (.rejected c.openMembers) := by
  have hvalidation := c.validation_toJson registry hnamed h
  have hvalid : (Validation.ofJson registry c.toJson).valid = c.isFullyExplicit := by
    rw [hvalidation, Validation.valid, Bool.eq_iff_iff, List.isEmpty_iff]
    exact ConfigurationLayer.openMembers_eq_nil_iff
  have hread : typed ConfigurationLayer.ofJson? c.toJson = .ok c := by
    rw [typed, ConfigurationLayer.readsBack hnamed]
    rfl
  have hsettings : c.toJson.member? "settings" = none := rfl
  rw [ofJson]
  simp only [hvalid, hsettings, hread]
  rw [hvalidation]
  split <;> rfl

/-- An open layer is written down, and rejected where it is to be loaded. -/
theorem ofJson_toJson_empty :
    ConfigurationLayer.empty.IsNamed
      ∧ (∀ m ∈ ConfigurationLayer.empty.modules.getD [], Text.isBlankText m.id.name = false)
      ∧ ∀ warnings, ofJson .builtin ConfigurationLayer.empty.toJson
        ≠ .ok ⟨.empty, .standard, warnings⟩ := by
  have hnamed : ConfigurationLayer.empty.IsNamed := by decide
  refine ⟨hnamed, List.forall_mem_nil _, fun warnings hloaded => ?_⟩
  cases hloaded

/-- A layer with a module that nobody registered, with an option, and with an
override that leaves its edition open. -/
def strictLayer : ConfigurationLayer where
  modules := some [.plain (.known .presetReact),
    ⟨.ofString "site-markup", .ofList [("pragma", .text "h")]⟩]
  targetEnvironment := some .es2019
  sourceTypeMode := some .moduleGoal
  overrides := .ofList [("legacy", ⟨[.plain (.known .presetEnv)], none, some .scriptGoal⟩)]
  environment := none

theorem ofJson_toJson_strictLayer :
    strictLayer.IsNamed
      ∧ (∀ m ∈ strictLayer.modules.getD [], Text.isBlankText m.id.name = false)
      ∧ ofJson .builtin strictLayer.toJson
        = .ok ⟨strictLayer, .standard, [.unregistered "site-markup"]⟩ := by
  have hnamed : strictLayer.IsNamed := by decide +kernel
  have hnames : ∀ m ∈ strictLayer.modules.getD [], Text.isBlankText m.id.name = false := by
    decide +kernel
  have hwarned : unregistered .builtin (strictLayer.modules.getD [])
      = [.unregistered "site-markup"] := rfl
  have hloaded := ofJson_toJson .builtin strictLayer hnamed hnames
  rw [if_pos (show strictLayer.isFullyExplicit = true from rfl), hwarned] at hloaded
  exact ⟨hnamed, hnames, hloaded⟩

end Project

end Downlevel
