/-
Downlevel.Proofs.Configuration.Derived — configurations that come from
events alone.

Two parts of a detection ask for a module that lowers markup: the feature
that markup implies, and the strongest framework. Both name the same module
(`IsDerived`), because a framework hands its module to the feature before
anything is resolved. No other feature asks for such a module, and every
module that is asked for is a known one. So a configuration in which nobody
else has a say has one markup module where there is markup and none
otherwise, and the check finds nothing to say about it
(`validity_of_derived`).
-/
import Downlevel.Proofs.Configuration.Validity
import Downlevel.Proofs.Feature.Reduction

namespace Downlevel

/-! ## Known modules -/

namespace Registry

theorem get?_builtin (m : KnownModule) : builtin.get? (.known m) = some m.descriptor := by
  cases m <;> rfl

@[simp] theorem isRegistered_builtin (m : KnownModule) :
    builtin.isRegistered (.known m) = true := by
  rw [isRegistered, get?_builtin]
  rfl

@[simp] theorem isMarkup_builtin (m : KnownModule) : builtin.isMarkup (.known m) = m.markup := by
  rw [isMarkup, get?_builtin]
  rfl

end Registry

/-! ## What features ask for -/

namespace Feature

/-- Only markup asks for a module that lowers markup, and it asks for this
one, whatever the edition. -/
structure AsksFor (lowering : ModuleId) (f : Feature) : Prop where
  markup : f.name = markupName → f.requiresModule = some lowering ∧ f.supportsNative = false
  other : f.name ≠ markupName → ∀ id, f.requiresModule = some id →
    ∃ m : KnownModule, id = .known m ∧ m.markup = false

theorem AsksFor.native {name : String} {module : Option KnownModule} (hname : name ≠ markupName)
    (hmodule : ∀ m, module = some m → m.markup = false) (lowering : ModuleId) :
    AsksFor lowering (native name module) := by
  refine ⟨fun h => absurd h hname, fun _ id hid => ?_⟩
  obtain ⟨m, hm, rfl⟩ := Option.map_eq_some_iff.mp hid
  exact ⟨m, rfl, hmodule m hm⟩

theorem AsksFor.foreign {name : String} {module : KnownModule} (hname : name ≠ markupName)
    (hmodule : module.markup = false) (lowering : ModuleId) :
    AsksFor lowering (foreign name module) := by
  refine ⟨fun h => absurd h hname, fun _ id hid => ?_⟩
  cases hid
  exact ⟨module, rfl, hmodule⟩

/-- Markup without a framework is lowered by the module for React. -/
theorem asksFor_ofKind? {kind : EventKind} {f : Feature} (h : ofKind? kind = some f) :
    AsksFor (.known .presetReact) f := by
  cases kind
  case markupElement | markupFragment =>
    cases h
    exact ⟨fun _ => ⟨rfl, rfl⟩, fun hne => absurd rfl hne⟩
  case importSource | classExtends | call => cases h
  case decorator | ascription | interfaceDeclaration | typeAlias | enumDeclaration
      | typeAssertion =>
    cases h
    exact .foreign (by decide) rfl _
  all_goals
    cases h
    exact .native (by decide) (by simp [KnownModule.markup]) _

theorem asksFor_ofCall? {callee : String} {f : Feature} (h : ofCall? callee = some f)
    (lowering : ModuleId) : AsksFor lowering f := by
  obtain ⟨name, hname, rfl⟩ := Option.map_eq_some_iff.mp h
  have hlisted : (callee, name) ∈ apis := by
    obtain ⟨before, after, happs, -⟩ := List.lookup_eq_some_iff.mp hname
    rw [happs]
    simp
  have hnames : ∀ api ∈ apis, api.2 ≠ markupName := by decide
  exact ⟨fun heq => absurd heq (hnames _ hlisted), fun _ id hid => nomatch hid⟩

theorem asksFor_ofEvent? {e : Event} {f : Feature} (h : ofEvent? e = some f) :
    AsksFor (.known .presetReact) f := by
  unfold ofEvent? at h
  split at h
  · next g hg =>
    cases h
    exact asksFor_ofKind? hg
  · split at h
    · obtain ⟨callee, -, hcall⟩ := Option.bind_eq_some_iff.mp h
      exact asksFor_ofCall? hcall _
    · cases h

end Feature

/-! ## What the strongest framework asks for -/

/-- The signals of events are those of known frameworks. -/
theorem FrameworkSignal.requiredModules_of_mem {events : List Event} {s : FrameworkSignal}
    (h : s ∈ ofEvents events) :
    ∃ p ∈ FrameworkProfile.all, s.requiredModules = p.requiredModules := by
  obtain ⟨⟨p, confidence⟩, hranked, rfl⟩ := List.mem_map.mp h
  have hscored := List.mem_mergeSort.mp hranked
  obtain ⟨q, hq, heq⟩ := List.mem_map.mp (List.mem_filter.mp hscored).1
  obtain rfl : q = p := congrArg Prod.fst heq
  exact ⟨q, hq, rfl⟩

namespace Detection

open Feature

/-- The module that lowers the markup of a text written for the strongest of
some frameworks. -/
def markupModuleOf (frameworks : List FrameworkSignal) : ModuleId :=
  (frameworks.head?.bind fun top => top.requiredModules.head?).getD (.known .presetReact)

theorem asksFor_assignMarkup {frameworks : List FrameworkSignal} {features : List Feature}
    (h : ∀ f ∈ features, AsksFor (.known .presetReact) f) :
    ∀ f ∈ assignMarkup frameworks features, AsksFor (markupModuleOf frameworks) f := by
  intro f hf
  unfold assignMarkup at hf
  unfold markupModuleOf
  cases hmodule : frameworks.head?.bind fun top => top.requiredModules.head? with
  | none =>
    rw [hmodule] at hf
    exact h f hf
  | some module =>
    rw [hmodule] at hf
    obtain ⟨g, hg, rfl⟩ := List.mem_map.mp hf
    by_cases hname : g.name = markupName
    · rw [if_pos hname]
      exact ⟨fun _ => ⟨rfl, ((h g hg).markup hname).2⟩, fun hne => absurd hname hne⟩
    · rw [if_neg hname]
      exact ⟨fun hmarkup => absurd hmarkup hname, (h g hg).other⟩

/-- What holds of a detection that was made from events: its features and its
strongest framework agree about who lowers markup. -/
structure IsDerived (d : Detection) : Prop where
  features : ∀ f ∈ d.features, AsksFor (markupModuleOf d.frameworks) f
  frameworks : ∀ top, d.frameworks.head? = some top →
    top.requiredModules = [markupModuleOf d.frameworks]
  lowering : ∃ m : KnownModule, markupModuleOf d.frameworks = .known m ∧ m.markup = true

theorem isDerived_ofEvents (events : List Event) (path : DetectionPath) (source : String)
    (filename : Option String) : (ofEvents events path source filename).IsDerived := by
  have hfeatures : ∀ f ∈ Feature.ofEvents events, AsksFor (.known .presetReact) f := by
    intro f hf
    obtain ⟨e, -, he⟩ := mem_ofEvents hf
    exact asksFor_ofEvent? he
  have htop : ∀ top, (FrameworkSignal.ofEvents events).head? = some top →
      ∃ p ∈ FrameworkProfile.all, top.requiredModules = [.known p.markupModule] :=
    fun top h => FrameworkSignal.requiredModules_of_mem (List.mem_of_mem_head? h)
  refine ⟨asksFor_assignMarkup hfeatures, ?_, ?_⟩
  · intro top (h : (FrameworkSignal.ofEvents events).head? = some top)
    obtain ⟨p, -, hp⟩ := htop top h
    have hmodule : markupModuleOf (FrameworkSignal.ofEvents events) = .known p.markupModule := by
      simp [markupModuleOf, h, hp]
    exact hp.trans (congrArg (fun id => [id]) hmodule.symm)
  · cases h : (FrameworkSignal.ofEvents events).head? with
    | none => exact ⟨.presetReact, by simp [ofEvents, markupModuleOf, h], rfl⟩
    | some top =>
      obtain ⟨p, hp, hmodules⟩ := htop top h
      have hmarkup : ∀ p ∈ FrameworkProfile.all, p.markupModule.markup = true := by decide
      exact ⟨p.markupModule, by simp [ofEvents, markupModuleOf, h, hmodules], hmarkup p hp⟩

/-! ## The modules of a derived detection -/

variable {registry : Registry} {d : Detection} {target : Edition} {id : ModuleId}

theorem hasFeature_iff {name : String} :
    d.hasFeature name = true ↔ ∃ f ∈ d.features, f.name = name := by
  simp [hasFeature]

/-- The modules that the dialect and the features call for, one after the
other. -/
theorem ids_languageModules :
    ModuleSpec.ids (d.languageModules registry target)
      = (if d.isTyped then [.known .presetTypescript] else [])
        ++ d.features.filterMap fun f => f.requiresModule.filter fun id =>
            registry.needsLowering id f.supportsNative target := by
  have hneeded : ∀ f : Feature, ((f.requiresModule.bind fun module =>
        if registry.needsLowering module f.supportsNative target then
          some (ModuleSpec.registered registry module)
        else none).map (·.id))
      = f.requiresModule.filter fun id => registry.needsLowering id f.supportsNative target := by
    intro f
    cases f.requiresModule with
    | none => rfl
    | some module =>
      by_cases h : registry.needsLowering module f.supportsNative target = true <;>
        simp [h, ModuleSpec.registered, Option.filter]
  unfold languageModules ModuleSpec.ids
  split <;> simp [List.map_filterMap, hneeded, ModuleSpec.plain]

theorem mem_languageModules :
    id ∈ ModuleSpec.ids (d.languageModules registry target)
      ↔ (d.isTyped = true ∧ id = .known .presetTypescript)
        ∨ ∃ f ∈ d.features, f.requiresModule = some id
          ∧ registry.needsLowering id f.supportsNative target = true := by
  rw [ids_languageModules, List.mem_append, List.mem_filterMap]
  refine or_congr ?_ ?_
  · by_cases h : d.isTyped = true <;> simp [h]
  · simp only [Option.filter_eq_some_iff]

theorem mem_frameworkModules :
    id ∈ ModuleSpec.ids d.frameworkModules
      ↔ d.hasFeature markupName = true
        ∧ ∃ top, d.frameworks.head? = some top ∧ id ∈ top.requiredModules := by
  unfold frameworkModules
  cases d.frameworks with
  | nil => simp [ModuleSpec.ids]
  | cons top rest => by_cases h : d.hasFeature markupName = true <;> simp [ModuleSpec.ids, h]

namespace IsDerived

variable (h : d.IsDerived)
include h

/-- Whoever asks for a module asks for a known one, and for one that lowers
markup only where there is markup. -/
theorem known_of_mem {target : Edition}
    (hid : id ∈ ModuleSpec.ids (d.languageModules registry target)
      ∨ id ∈ ModuleSpec.ids d.frameworkModules) :
    ∃ m : KnownModule, id = .known m
      ∧ (m.markup = true → d.hasFeature markupName = true ∧ id = markupModuleOf d.frameworks) := by
  obtain ⟨lowering, hlowering, -⟩ := h.lowering
  rcases hid with hlanguage | hframework
  · rcases mem_languageModules.mp hlanguage with ⟨-, rfl⟩ | ⟨f, hf, hmodule, -⟩
    · exact ⟨.presetTypescript, rfl, nofun⟩
    · by_cases hname : f.name = markupName
      · have heq : id = markupModuleOf d.frameworks :=
          Option.some.inj (hmodule.symm.trans ((h.features f hf).markup hname).1)
        exact ⟨lowering, heq.trans hlowering, fun _ => ⟨hasFeature_iff.mpr ⟨f, hf, hname⟩, heq⟩⟩
      · obtain ⟨m, hm, hplain⟩ := (h.features f hf).other hname id hmodule
        exact ⟨m, hm, fun hmarkup => absurd (hplain.symm.trans hmarkup) (by decide)⟩
  · obtain ⟨hmarkup, top, htop, hmodule⟩ := mem_frameworkModules.mp hframework
    rw [h.frameworks top htop, List.mem_singleton] at hmodule
    exact ⟨lowering, hmodule.trans hlowering, fun _ => ⟨hmarkup, hmodule⟩⟩

/-- Where there is markup, its module is called for, whatever the edition. -/
theorem markup_mem (hmarkup : d.hasFeature markupName = true) (target : Edition) :
    markupModuleOf d.frameworks ∈ ModuleSpec.ids (d.languageModules registry target) := by
  obtain ⟨f, hf, hname⟩ := hasFeature_iff.mp hmarkup
  obtain ⟨hmodule, hforeign⟩ := (h.features f hf).markup hname
  refine mem_languageModules.mpr (.inr ⟨f, hf, hmodule, ?_⟩)
  simp [Registry.needsLowering, hforeign]

end IsDerived

end Detection

/-! ## The configuration of a derived detection -/

namespace Validation

open ModuleSpec Detection

/-- What a list without repetition has of a kind of which there is one. -/
theorem filter_eq_singleton {ids : List ModuleId} (hnodup : ids.Nodup) {p : ModuleId → Bool}
    {a : ModuleId} (ha : a ∈ ids) (hp : ∀ id ∈ ids, p id = true ↔ id = a) :
    ids.filter p = [a] := by
  have hbeq : ids.filter p = ids.filter (· == a) :=
    List.filter_congr fun id hid => by rw [Bool.eq_iff_iff, hp id hid, beq_iff_eq]
  rw [hbeq, List.filter_beq, List.count_eq_one_of_mem hnodup ha, List.replicate_one]

section Derived

open Downlevel.Configuration (IsResolution)

variable {d : Detection} {target : Option Edition} {mode : Option SourceMode} {c : Configuration}

/-- The layer that gives an edition and a mode at most. -/
def scalarLayer (target : Option Edition) (mode : Option SourceMode) : ConfigurationLayer :=
  { ConfigurationLayer.empty with targetEnvironment := target, sourceTypeMode := mode }

/-- Where no layer lists modules, they come from the dialect, the features
and the framework. -/
theorem mem_ids_of_scalarLayer
    (hc : IsResolution .builtin d (scalarLayer target mode) .empty c) (id : ModuleId) :
    id ∈ ids c.modules
      ↔ id ∈ ids (d.languageModules .builtin c.targetEnvironment)
        ∨ id ∈ ids d.frameworkModules := by
  rw [hc.modules id]
  simp [scalarLayer, ConfigurationLayer.entriesFor, ConfigurationLayer.empty,
    ConfigurationLayer.namedOverride?]

variable (hd : d.IsDerived)
include hd

theorem markupModules_of_isDerived
    (hc : IsResolution .builtin d (scalarLayer target mode) .empty c) :
    markupModules .builtin c.modules
      = if d.hasFeature Feature.markupName then [markupModuleOf d.frameworks] else [] := by
  have hmem := mem_ids_of_scalarLayer hc
  split
  · next hfeature =>
    have hcalled := (hmem _).mpr (.inl (hd.markup_mem hfeature c.targetEnvironment))
    refine filter_eq_singleton hc.nodup hcalled fun id hid => ?_
    obtain ⟨m, rfl, hm⟩ := hd.known_of_mem ((hmem id).mp hid)
    obtain ⟨lowering, hlowering, hkind⟩ := hd.lowering
    rw [Registry.isMarkup_builtin]
    refine ⟨fun h => (hm h).2, fun h => ?_⟩
    cases h.trans hlowering
    exact hkind
  · next hfeature =>
    refine List.filter_eq_nil_iff.mpr fun id hid => ?_
    obtain ⟨m, rfl, hm⟩ := hd.known_of_mem ((hmem id).mp hid)
    rw [Registry.isMarkup_builtin]
    exact fun h => hfeature (hm h).1

theorem oddEntries_of_isDerived
    (hc : IsResolution .builtin d (scalarLayer target mode) .empty c) :
    oddEntries .builtin [] c.modules = [] := by
  rw [oddEntries_of_isResolution hc, List.map_eq_nil_iff, List.filter_eq_nil_iff]
  intro m hm
  obtain ⟨known, hid, -⟩ := hd.known_of_mem ((mem_ids_of_scalarLayer hc m.id).mp (mem_ids hm))
  simp [hid]

end Derived

/-- **What events alone call for is in order.** With the known modules
registered, the configuration that is resolved for a detection made from any
events passes the check without an error or a warning. It has exactly one
markup module, that of the strongest framework, where there is markup, and
none otherwise. -/
theorem validity_of_derived (events : List Event) (path : DetectionPath) (source : String)
    (filename : Option String) (target : Option Edition) (mode : Option SourceMode) :
    let d := Detection.ofEvents events path source filename
    let c := Configuration.resolve .builtin d (scalarLayer target mode) .empty
    ofConfiguration .builtin c = ⟨[], []⟩
      ∧ markupModules .builtin c.modules
        = if d.hasFeature Feature.markupName then [markupModuleOf d.frameworks] else [] := by
  intro d c
  have hd : d.IsDerived := isDerived_ofEvents events path source filename
  have hc := Configuration.resolve_isResolution .builtin d (scalarLayer target mode) .empty
  have hmarkup : markupModules .builtin c.modules
      = if d.hasFeature Feature.markupName then [markupModuleOf d.frameworks] else [] :=
    markupModules_of_isDerived hd hc
  have hplaced : misplacedAfter .builtin .types c.modules = [] := misplacedAfter_of_isResolution hc
  have hodd : oddEntries .builtin [] c.modules = [] := oddEntries_of_isDerived hd hc
  have hoverrides : namelessOverrides c.overrides = [] := rfl
  have hone : ¬ 1 < (markupModules .builtin c.modules).length := by
    rw [hmarkup]
    split <;> simp
  refine ⟨?_, hmarkup⟩
  simp only [ofConfiguration, hplaced, hodd, hoverrides, if_neg hone, List.append_nil]

end Validation

end Downlevel
