/-
Downlevel.Proofs.Project.WrittenModules — two readings of the modules that a
user wrote.

The check of a project file looks at the identifier of an entry and at nothing
else. The reader wants the whole entry: a pair consists of an identifier and of
options, and what an object has for options is an object. So the reader takes
the entries that the check lets pass and that are spelled out (`isSpelled`), and
both see the same identifier in them (`read_entry_iff`). The check makes no
promise about the spelling. An entry without it passes and is of the wrong type
when the file is read (`loneId_passes_and_is_mistyped`).

Every name that means a known module is registered, however the registry was
extended. A module that nobody registered therefore goes by the name under
which it was written, which is why the warnings of both checks agree.
-/
import Downlevel.Proofs.Configuration.Validity
import Downlevel.Proofs.Failure.Remedy
import Downlevel.Proofs.Project.Reload

namespace Downlevel

/-! ## Identifiers -/

namespace KnownModule

theorem ofName?_of_isBlankText {text : String} (h : Text.isBlankText text = true) :
    ofName? text = none := by
  have hblank : ∀ c ∈ text.toList, Text.isBlank c = true := List.all_eq_true.mp h
  have htrim : Text.trim text.toList = [] := by
    rw [Text.trim, Text.trimStart, List.dropWhile_eq_nil_iff.mpr hblank]
    rfl
  have hbare : withoutScope text.toList = [] := by
    rw [withoutScope, htrim]
  rw [ofName?, hbare]
  decide

theorem isBlankText_name (m : KnownModule) : Text.isBlankText m.name = false := by
  cases m <;> decide

end KnownModule

namespace ModuleId

/-- An identifier has a blank name exactly where the text was blank. -/
theorem isBlankText_name_ofString (text : String) :
    Text.isBlankText (ofString text).name = Text.isBlankText text := by
  unfold ofString
  split
  · next which hwhich =>
    have hnotblank : Text.isBlankText text = false := by
      rw [Bool.eq_false_iff]
      intro hblank
      rw [KnownModule.ofName?_of_isBlankText hblank] at hwhich
      cases hwhich
    rw [hnotblank]
    exact which.isBlankText_name
  · rfl

/-- Only known modules go by another name than the one they were written
under. -/
theorem name_ofString_of_known?_eq_none {text : String} (h : (ofString text).known? = none) :
    (ofString text).name = text := by
  unfold ofString at h ⊢
  split
  · next hsome =>
    split at h
    · cases h
    · next hnone => cases hsome.symm.trans hnone
  · rfl

end ModuleId

namespace Registry

theorem isRegistered_foldl_register {r : Registry} {id : ModuleId} (h : r.isRegistered id = true)
    (more : List ModuleDescriptor) : (more.foldl register r).isRegistered id = true := by
  induction more generalizing r with
  | nil => exact h
  | cons d rest ih =>
    refine ih ?_
    rw [isRegistered, get?_register]
    split
    · rfl
    · exact h

/-- A module that nobody registered is none of the known ones. -/
theorem known?_of_not_isRegistered {more : List ModuleDescriptor} {id : ModuleId}
    (h : (extended more).isRegistered id = false) : id.known? = none := by
  cases id with
  | known which =>
    have hbuiltin : builtin.isRegistered (.known which) = true := by
      rw [isRegistered, get?_builtin]
      rfl
    rw [extended, isRegistered_foldl_register hbuiltin] at h
    cases h
  | custom text => rfl

end Registry

namespace Validation

/-! ## Entries -/

/-- Whether an entry has the form of a module beside its identifier: a pair has
two parts of which the second holds options, and so does the member of an object
that is there for them. -/
def isSpelled : Json → Bool
  | .arr [_, options] => isObject options
  | .arr _ => false
  | .obj members => (Entries.get? "options" members).all isObject
  | _ => true

/-- The identifier in an entry, blank or not. -/
def writtenId? : Json → Option String
  | .str id => some id
  | .arr (first :: _) => first.str?
  | .obj members => (Entries.get? "id" members).bind Json.str?
  | _ => none

theorem entryId?_eq (entry : Json) :
    entryId? entry = (writtenId? entry).filter fun id => !Text.isBlankText id := by
  cases entry with
  | arr items => cases items <;> rfl
  | _ => rfl

theorem entryId?_eq_some_iff {entry : Json} {text : String} :
    entryId? entry = some text
      ↔ writtenId? entry = some text ∧ Text.isBlankText text = false := by
  rw [entryId?_eq, Option.filter_eq_some_iff, Bool.not_eq_true']

/-- What the reader makes of an entry, spelling by spelling. -/
theorem id_ofJson? (entry : Json) :
    (ModuleSpec.ofJson? entry).map (·.id)
      = if isSpelled entry then (writtenId? entry).map .ofString else none := by
  cases entry with
  | null | bool _ | int _ | float _ | str _ => rfl
  | arr items =>
    match items with
    | [] | [_] | _ :: _ :: _ :: _ => simp [ModuleSpec.ofJson?, isSpelled]
    | [first, second] =>
      cases first <;> cases second <;>
        simp [ModuleSpec.ofJson?, isSpelled, isObject, writtenId?, Json.str?]
  | obj members =>
    rw [ModuleSpec.ofJson?, isSpelled, writtenId?]
    cases hid : Entries.get? "id" members with
    | none => simp
    | some id =>
      cases hoptions : Entries.get? "options" members with
      | none => cases id <;> simp [ModuleSpec.plain, Json.str?]
      | some options => cases id <;> cases options <;> simp [isObject, Json.str?]

/-- **An entry is read as a module of a name that is not blank** exactly where
the check sees an identifier and the entry is spelled out; and then both have
the same identifier. -/
theorem read_entry_iff (entry : Json) (id : ModuleId) :
    (∃ m, ModuleSpec.ofJson? entry = some m ∧ Text.isBlankText m.id.name = false ∧ m.id = id)
      ↔ isSpelled entry = true
        ∧ ∃ text, entryId? entry = some text ∧ ModuleId.ofString text = id := by
  have hread := id_ofJson? entry
  constructor
  · rintro ⟨m, hm, hname, rfl⟩
    rw [hm, Option.map_some] at hread
    split at hread
    · next hspelled =>
      obtain ⟨text, htext, hid⟩ := Option.map_eq_some_iff.mp hread.symm
      rw [← hid, ModuleId.isBlankText_name_ofString] at hname
      exact ⟨hspelled, text, entryId?_eq_some_iff.mpr ⟨htext, hname⟩, hid⟩
    · cases hread
  · rintro ⟨hspelled, text, htext, rfl⟩
    obtain ⟨hwritten, hblank⟩ := entryId?_eq_some_iff.mp htext
    rw [if_pos hspelled, hwritten, Option.map_some] at hread
    obtain ⟨m, hm, hid⟩ := Option.map_eq_some_iff.mp hread
    refine ⟨m, hm, ?_, hid⟩
    rw [hid, ModuleId.isBlankText_name_ofString, hblank]

/-- An entry that the check lets pass is read or not, according to its
spelling. -/
theorem id_ofJson?_of_entryId? {entry : Json} {text : String} (h : entryId? entry = some text) :
    (ModuleSpec.ofJson? entry).map (·.id)
      = if isSpelled entry then some (.ofString text) else none := by
  rw [id_ofJson?, (entryId?_eq_some_iff.mp h).1, Option.map_some]

/-! ## Lists of entries -/

/-- What the check of a list of modules warns of. -/
def isUnregistered : ConfigurationIssue → Bool
  | .unregistered _ => true
  | _ => false

section Lists

variable {registry : Registry} {index : Nat} {entries : List Json}

/-- The check lets every entry pass. -/
abbrev AllPass (entries : List Json) : Prop :=
  ∀ entry ∈ entries, ∃ text, entryId? entry = some text

theorem ofEntries_errors_eq_nil_iff :
    (ofEntries registry index entries).errors = [] ↔ AllPass entries := by
  induction entries generalizing index with
  | nil => simp [ofEntries, AllPass]
  | cons entry rest ih =>
    have hall : AllPass (entry :: rest) ↔ (∃ text, entryId? entry = some text) ∧ AllPass rest :=
      List.forall_mem_cons
    rw [ofEntries, hall, ← @ih (index + 1)]
    cases hid : entryId? entry with
    | none => simp
    | some text => by_cases h : registry.isRegistered (.ofString text) <;> simp [h]

theorem isSome_items? (h : AllPass entries) :
    (Json.items? ModuleSpec.ofJson? (.arr entries)).isSome = entries.all isSpelled := by
  rw [Json.items?]
  induction entries with
  | nil => rfl
  | cons entry rest ih =>
    obtain ⟨⟨text, htext⟩, hrest⟩ := List.forall_mem_cons.mp h
    have hentry : (ModuleSpec.ofJson? entry).isSome = isSpelled entry := by
      rw [← Option.isSome_map, id_ofJson?_of_entryId? htext]
      cases isSpelled entry <;> rfl
    rw [List.mapM_cons, List.all_cons, ← hentry, ← ih hrest]
    cases ModuleSpec.ofJson? entry <;> cases rest.mapM ModuleSpec.ofJson? <;> rfl

/-- The check of a list warns of the modules that the reader finds in it and
that nobody registered. -/
theorem ofEntries_warnings {more : List ModuleDescriptor} {modules : List ModuleSpec}
    (hpass : AllPass entries) (hmodules : entries.mapM ModuleSpec.ofJson? = some modules) :
    (ofEntries (.extended more) index entries).warnings
      = unregistered (.extended more) modules := by
  induction entries generalizing index modules with
  | nil => cases hmodules; rfl
  | cons entry rest ih =>
    obtain ⟨⟨text, htext⟩, hrest⟩ := List.forall_mem_cons.mp hpass
    rw [List.mapM_cons] at hmodules
    obtain ⟨m, hm, hmodules⟩ := Option.bind_eq_some_iff.mp hmodules
    obtain ⟨others, hothers, hcons⟩ := Option.bind_eq_some_iff.mp hmodules
    cases hcons
    have hid : m.id = .ofString text := by
      have hread := id_ofJson?_of_entryId? htext
      rw [hm, Option.map_some] at hread
      split at hread
      · exact Option.some.inj hread
      · cases hread
    rw [ofEntries, htext]
    dsimp only
    rw [← hid]
    cases hregistered : (Registry.extended more).isRegistered m.id with
    | true => simpa [unregistered, hregistered] using ih hrest hothers
    | false =>
      -- A module that is not registered is not known, and goes by what was written.
      have hname : m.id.name = text := by
        rw [hid]
        refine ModuleId.name_ofString_of_known?_eq_none ?_
        rw [← hid]
        exact Registry.known?_of_not_isRegistered hregistered
      simpa [unregistered, hregistered, hname] using ih hrest hothers

/-- Of the odd entries of a configuration these are the ones for modules nobody
registered. -/
theorem oddEntries_filter_isUnregistered (seen : List ModuleId) (modules : List ModuleSpec) :
    (oddEntries registry seen modules).filter isUnregistered
      = unregistered registry modules := by
  induction modules generalizing seen with
  | nil => rfl
  | cons m rest ih =>
    rw [oddEntries, List.filter_append, List.filter_append, ih]
    by_cases hseen : m.id ∈ seen <;> cases hregistered : registry.isRegistered m.id <;>
      simp [hseen, hregistered, unregistered, isUnregistered, List.filter_cons]

theorem warnings_filter_isUnregistered (registry : Registry) (c : Configuration) :
    (ofConfiguration registry c).warnings.filter isUnregistered
      = unregistered registry c.modules := by
  rw [ofConfiguration]
  dsimp only
  rw [List.filter_append, oddEntries_filter_isUnregistered]
  split <;> simp [isUnregistered]

end Lists

/-! ## Values with a list of modules -/

/-- The modules that a value lists, as the reader takes them. -/
def modulesOf? (value : Json) : Option (List ModuleSpec) :=
  match value.member? "modules" with
  | some modules => Json.items? ModuleSpec.ofJson? modules
  | none => some []

/-- The entries under which they are listed. -/
def entriesOf (value : Json) : List Json :=
  match value.member? "modules" with
  | some (.arr entries) => entries
  | _ => []

/-- The check finds nothing wrong with the modules of a value. -/
def ModulesPass (registry : Registry) (value : Json) : Prop :=
  (ofModules registry (value.member? "modules")).errors = []

theorem modulesPass_iff {registry : Registry} {value : Json} :
    ModulesPass registry value
      ↔ value.member? "modules" = none
        ∨ ∃ entries, value.member? "modules" = some (.arr entries) ∧ AllPass entries := by
  rw [ModulesPass]
  cases hmember : value.member? "modules" with
  | none => simp [ofModules]
  | some modules =>
    cases modules with
    | arr entries => simp [ofModules, ofEntries_errors_eq_nil_iff]
    | _ => simp [ofModules]

section Values

variable {registry : Registry} {value : Json}

theorem isSome_modulesOf? (h : ModulesPass registry value) :
    (modulesOf? value).isSome = (entriesOf value).all isSpelled := by
  rcases modulesPass_iff.mp h with hnone | ⟨entries, hentries, hpass⟩
  · rw [modulesOf?, entriesOf, hnone]
    rfl
  · rw [modulesOf?, entriesOf, hentries]
    exact isSome_items? hpass

theorem ofModules_warnings {more : List ModuleDescriptor} {modules : List ModuleSpec}
    (h : ModulesPass (.extended more) value) (hmodules : modulesOf? value = some modules) :
    (ofModules (.extended more) (value.member? "modules")).warnings
      = unregistered (.extended more) modules := by
  rcases modulesPass_iff.mp h with hnone | ⟨entries, hentries, hpass⟩
  · rw [modulesOf?, hnone] at hmodules
    cases hmodules
    rw [hnone]
    rfl
  · rw [modulesOf?, hentries] at hmodules
    rw [hentries]
    exact ofEntries_warnings hpass hmodules

end Values

end Validation

namespace Json

/-- A value without the member under a key. -/
def without (key : String) : Json → Json
  | .obj members => .obj (members.filter fun e => e.1 != key)
  | j => j

theorem get?_filter_ne {α : Type} {key other : String} (h : other ≠ key)
    (members : List (String × α)) :
    Entries.get? other (members.filter fun e => e.1 != key) = Entries.get? other members := by
  induction members with
  | nil => rfl
  | cons head rest ih =>
    obtain ⟨k, v⟩ := head
    by_cases hk : k = key
    · subst hk; simp [Entries.get?, ih, h]
    · simp [Entries.get?, ih, hk]

theorem get?_filter_self {α : Type} (key : String) (members : List (String × α)) :
    Entries.get? key (members.filter fun e => e.1 != key) = none := by
  induction members with
  | nil => rfl
  | cons head rest ih =>
    obtain ⟨k, v⟩ := head
    by_cases hk : k = key
    · subst hk; simp [ih]
    · simp [Entries.get?, ih, hk, Ne.symm hk]

theorem member?_without {key other : String} (h : other ≠ key) (j : Json) :
    (j.without key).member? other = j.member? other := by
  cases j with
  | obj members => exact get?_filter_ne h members
  | _ => rfl

theorem member?_without_self (key : String) (j : Json) : (j.without key).member? key = none := by
  cases j with
  | obj members => exact get?_filter_self key members
  | _ => rfl

theorem isObject_without (key : String) (j : Json) :
    Validation.isObject (j.without key) = Validation.isObject j := by
  cases j <;> rfl

/-- The value of a member, or what its absence means. -/
def memberOr {α : Type} (key : String) (default : α) (read : Json → Option α) (j : Json) :
    Option α :=
  match j.member? key with
  | some value => read value
  | none => some default

theorem memberOr_without {α : Type} {key other : String} (h : other ≠ key) (default : α)
    (read : Json → Option α) (j : Json) :
    memberOr other default read (j.without key) = memberOr other default read j := by
  rw [memberOr, memberOr, member?_without h]

/-- A record with a member that may be left out is read member by member. -/
theorem finish_defaulted_bind {α β : Type} (key : String) (default : α) (read : Json → Option α)
    (next : α → RecordReader β) (members : List (String × Json)) :
    Record.finish (Record.defaulted key default read >>= next) (.byName members)
      = (memberOr key default read (.obj members)).bind fun value =>
          Record.finish (next value) (.byName members) := by
  have hread : Record.defaulted key default read (.byName members)
      = (memberOr key default read (.obj members)).map (·, .byName members) := by
    rw [Record.defaulted, memberOr, member?]
    cases Entries.get? key members <;> rfl
  rw [Record.finish]
  simp only [bind, StateT.bind, hread]
  cases memberOr key default read (.obj members) <;> rfl

end Json

open Json (memberOr)

/-! ## Layers with a list of modules -/

namespace ConfigurationLayer

open Validation

variable {registry : Registry} {value : Json}

/-- What a layer says beside its modules, if its modules are these. -/
def besideModules? (value : Json) (modules : Option (List ModuleSpec)) :
    Option ConfigurationLayer := do
  let target ← memberOr "targetEnvironment" none (Json.nullable? Edition.ofJson?) value
  let mode ← memberOr "sourceTypeMode" none (Json.nullable? SourceMode.ofJson?) value
  let overrides ←
    memberOr "perEnvironmentOverrides" .empty (Json.map? EnvironmentOverride.ofJson?) value
  let environment ← memberOr "environment" none (Json.nullable? Json.str?) value
  return ⟨modules, target, mode, overrides, environment⟩

/-- A layer written as an object is read member by member, its modules first. -/
theorem ofJson?_of_isObject (h : isObject value = true) :
    ofJson? value
      = (memberOr "modules" none (Json.nullable? (Json.items? ModuleSpec.ofJson?)) value).bind
          (besideModules? value) := by
  cases value with
  | obj members =>
    change Json.Record.finish (reader Json.isNull) (.byName members) = _
    rw [reader]
    simp only [Json.finish_defaulted_bind]
    rfl
  | _ => cases h

theorem besideModules?_without (value : Json) (modules : Option (List ModuleSpec)) :
    besideModules? (value.without "modules") modules = besideModules? value modules := by
  have htarget : "targetEnvironment" ≠ "modules" := by decide
  have hmode : "sourceTypeMode" ≠ "modules" := by decide
  have hoverrides : "perEnvironmentOverrides" ≠ "modules" := by decide
  have henvironment : "environment" ≠ "modules" := by decide
  simp only [besideModules?, Json.memberOr_without htarget, Json.memberOr_without hmode,
    Json.memberOr_without hoverrides, Json.memberOr_without henvironment]

/-- Whether a layer can be read beside its modules does not depend on them. -/
theorem isSome_besideModules? (value : Json) (modules others : Option (List ModuleSpec)) :
    (besideModules? value modules).isSome = (besideModules? value others).isSome := by
  simp only [besideModules?, Option.bind_eq_bind, Option.isSome_bind, Option.pure_def,
    Option.isSome_some]

/-- A layer whose modules pass the check is read exactly where its modules are
read, and where it is read without them. -/
theorem isSome_ofJson? (hobject : isObject value = true) (hmodules : ModulesPass registry value) :
    (ofJson? value).isSome
      = ((modulesOf? value).isSome && (ofJson? (value.without "modules")).isSome) := by
  have hothers : ofJson? (value.without "modules") = besideModules? value none := by
    have hnone : memberOr "modules" none (Json.nullable? (Json.items? ModuleSpec.ofJson?))
        (value.without "modules") = some none := by
      rw [memberOr, Json.member?_without_self]
    rw [ofJson?_of_isObject (by rwa [Json.isObject_without]), hnone, Option.bind_some,
      besideModules?_without]
  have hread : (memberOr "modules" none (Json.nullable? (Json.items? ModuleSpec.ofJson?))
      value).isSome = (modulesOf? value).isSome := by
    rw [memberOr, modulesOf?]
    rcases modulesPass_iff.mp hmodules with hnone | ⟨entries, hentries, -⟩
    · rw [hnone]
      rfl
    · rw [hentries]
      exact Option.isSome_map
  rw [ofJson?_of_isObject hobject, hothers, ← hread]
  cases memberOr "modules" none (Json.nullable? (Json.items? ModuleSpec.ofJson?)) value with
  | none => rfl
  | some modules => exact isSome_besideModules? value modules none

end ConfigurationLayer

/-! ## Files with a list of modules -/

namespace Project

open Validation

variable {registry : Registry} {value : Json}

/-- The settings that a value holds, or the standard ones. -/
def settingsOf? (value : Json) : Option Settings :=
  memberOr "settings" .standard Settings.ofJson? value

theorem settingsOf?_without (value : Json) :
    settingsOf? (value.without "modules") = settingsOf? value :=
  Json.memberOr_without (by decide) ..

theorem ofJson_of_valid (h : (Validation.ofJson registry value).valid = true) :
    ofJson registry value = (do
      let settings ← typed settingsOf? value
      let configuration ← typed ConfigurationLayer.ofJson? value
      return ⟨configuration, settings, (Validation.ofJson registry value).warnings⟩) := by
  have hsettings : typed settingsOf? value
      = match value.member? "settings" with
        | some settings => typed Settings.ofJson? settings
        | none => pure .standard := by
    rw [typed, settingsOf?, memberOr]
    split <;> rfl
  rw [ofJson, hsettings]
  simp only [h, if_true]
  cases value.member? "settings" <;> rfl

/-- **A value is of the wrong type** where it passes the check, and its settings
or its layer cannot be read. -/
theorem ofJson_eq_mistyped_iff :
    ofJson registry value = .error .mistyped
      ↔ (Validation.ofJson registry value).valid = true
        ∧ ¬ ((settingsOf? value).isSome = true
          ∧ (ConfigurationLayer.ofJson? value).isSome = true) := by
  cases hvalid : (Validation.ofJson registry value).valid with
  | false => simp [ofJson, hvalid, throw, throwThe, MonadExceptOf.throw]
  | true =>
    rw [ofJson_of_valid hvalid, typed, typed]
    cases settingsOf? value with
    | none => simp [bind, Except.bind]
    | some settings =>
      cases ConfigurationLayer.ofJson? value <;> simp [bind, Except.bind, pure, Except.pure]

theorem valid_without (hobject : isObject value = true) (hmodules : ModulesPass registry value) :
    (Validation.ofJson registry (value.without "modules")).valid
      = (Validation.ofJson registry value).valid := by
  have hcheck : ∀ {key : String} (passes issue), key ≠ "modules" →
      checkMember (value.without "modules") key passes issue
        = checkMember value key passes issue := by
    intro key passes issue hkey
    rw [checkMember, checkMember, Json.member?_without hkey]
  have hnone : (ofModules registry ((value.without "modules").member? "modules")).errors
      = (ofModules registry (value.member? "modules")).errors := by
    rw [Json.member?_without_self, hmodules]
    rfl
  rw [Validation.ofJson, Validation.ofJson, Json.isObject_without, if_pos hobject, if_pos hobject,
    hcheck _ _ (by decide), hcheck _ _ (by decide), hcheck _ _ (by decide)]
  simp only [Validation.valid, hnone]

/-- **The check and the reader agree on modules** as far as the identifiers of
the entries go, whatever is registered beside the known modules.

An entry is read as a module of a name that is not blank exactly where the check
sees an identifier in it and the entry is spelled out; and then both have the
same identifier. So, where the check finds nothing wrong with the modules of an
object, they make the object be of the wrong type exactly where one of them is
not spelled out: without such an entry the object is of the wrong type only if it
is so without its modules. And if the modules are read, then the check warns of
the same modules, and in the same order, as the check of a configuration that
has them. -/
theorem readings_agree (more : List ModuleDescriptor) :
    (∀ entry id,
      (∃ m, ModuleSpec.ofJson? entry = some m ∧ Text.isBlankText m.id.name = false ∧ m.id = id)
        ↔ isSpelled entry = true
          ∧ ∃ text, entryId? entry = some text ∧ ModuleId.ofString text = id)
      ∧ ∀ value, isObject value = true → ModulesPass (.extended more) value →
        (ofJson (.extended more) value = .error .mistyped
          ↔ ((Validation.ofJson (.extended more) value).valid = true
              ∧ ∃ entry ∈ entriesOf value, isSpelled entry = false)
            ∨ ofJson (.extended more) (value.without "modules") = .error .mistyped)
        ∧ ((∀ entry ∈ entriesOf value, isSpelled entry = true) ↔ (modulesOf? value).isSome = true)
        ∧ ∀ c : Configuration, modulesOf? value = some c.modules →
          (Validation.ofJson (.extended more) value).warnings
            = (ofConfiguration (.extended more) c).warnings.filter isUnregistered := by
  refine ⟨read_entry_iff, fun value hobject hmodules => ⟨?_, ?_, fun c hc => ?_⟩⟩
  · have hspelled := isSome_modulesOf? hmodules
    have hbad : (∃ entry ∈ entriesOf value, isSpelled entry = false)
        ↔ ¬ (modulesOf? value).isSome = true := by
      rw [hspelled]
      simp
    rw [ofJson_eq_mistyped_iff, ofJson_eq_mistyped_iff, valid_without hobject hmodules,
      settingsOf?_without, ConfigurationLayer.isSome_ofJson? hobject hmodules, hbad,
      Bool.and_eq_true]
    tauto
  · rw [isSome_modulesOf? hmodules, List.all_eq_true]
  · have hwarnings := ofModules_warnings hmodules hc
    rw [warnings_filter_isUnregistered, ← hwarnings, Validation.ofJson, if_pos hobject]

/-- An object with one module in each spelling, one of them not registered. -/
def mixedModules : Json := .obj [("modules", .arr [
  .str "@lower/preset-react",
  .arr [.str "site-markup", .obj [("pragma", .str "h")]],
  .obj [("id", .str "plugin-transform-classes")]])]

/-- A configuration with the same modules. -/
def mixedConfiguration : Configuration where
  modules := [.plain (.known .presetReact),
    ⟨.custom "site-markup", .ofList [("pragma", .text "h")]⟩, .plain (.known .pluginClasses)]
  targetEnvironment := .es2022
  sourceTypeMode := .auto
  overrides := .empty

theorem readings_agree_mixedModules :
    (∃ m, ModuleSpec.ofJson? (.str "@lower/preset-react") = some m
        ∧ Text.isBlankText m.id.name = false ∧ m.id = .known .presetReact)
      ∧ isObject mixedModules = true
      ∧ ModulesPass (.extended []) mixedModules
      ∧ modulesOf? mixedModules = some mixedConfiguration.modules
      ∧ (∀ entry ∈ entriesOf mixedModules, isSpelled entry = true)
      ∧ ofJson (.extended []) mixedModules ≠ .error .mistyped
      ∧ (Validation.ofJson (.extended []) mixedModules).warnings
        = [.unregistered "site-markup"] := by
  obtain ⟨hentries, hvalues⟩ := readings_agree []
  have hfirst := (hentries (.str "@lower/preset-react") (.known .presetReact)).mpr
    ⟨rfl, "@lower/preset-react", by decide +kernel, by decide +kernel⟩
  have hpass : ModulesPass (.extended []) mixedModules := by
    rw [ModulesPass]
    decide +kernel
  have hmodules : modulesOf? mixedModules = some mixedConfiguration.modules := rfl
  obtain ⟨hmistyped, hspelled, hwarnings⟩ := hvalues mixedModules rfl hpass
  have hall := hspelled.mpr (by rw [hmodules, Option.isSome_some])
  refine ⟨hfirst, rfl, hpass, hmodules, hall, ?_, (hwarnings mixedConfiguration hmodules).trans ?_⟩
  · rw [ne_eq, hmistyped]
    rintro (⟨-, entry, hentry, hbad⟩ | hothers)
    · rw [hall entry hentry] at hbad
      cases hbad
    · cases hothers
  · rfl

/-- A module whose identifier stands alone in a list. -/
def loneId : Json := .arr [.str "preset-env"]

/-- An identifier alone in a list passes the check and is not read. -/
theorem loneId_passes_and_is_mistyped :
    (entryId? loneId = some "preset-env" ∧ ModuleSpec.ofJson? loneId = none)
      ∧ (Validation.ofJson .builtin (.obj [("modules", .arr [loneId])])).valid = true
      ∧ ofJson .builtin (.obj [("modules", .arr [loneId])]) = .error .mistyped := by
  have hpasses : entryId? loneId = some "preset-env" := by decide
  have hvalid : (Validation.ofJson .builtin (.obj [("modules", .arr [loneId])])).valid = true := by
    decide
  exact ⟨⟨hpasses, rfl⟩, hvalid, ofJson_eq_mistyped_iff.mpr ⟨hvalid, by decide⟩⟩

end Project

end Downlevel
