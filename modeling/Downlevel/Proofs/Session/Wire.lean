/-
Downlevel.Proofs.Session.Wire — what a session is given and what it tells, over
the wire.

Configurations, requests, detections and failures are handed over as JSON values
or as their texts. As values they come back as they were sent, provided that the
identifiers of modules in them come from names, that their doubles are finite and
that their counts fit the words that hold them. An identifier that comes from a
name is meant by its own name (`ModuleId.isNamed_iff`); options come back because
they are data, and data are in canonical form.

As texts they come back where the text is legible. Not every text is: a double
may be read as its neighbour, and options may be nested deeper than the reader
follows (`imprecise_option_changes`).
-/
import Downlevel.Failure.Account
import Downlevel.Proofs.Json.Wire
import Downlevel.Proofs.Project.Reload
import Downlevel.Request

namespace Downlevel

open Json (ComesBack)
open Json.ComesBack (bind_defaulted bind_optional bind_required)
open Json.ReadsBack (bind_of_read)

/-! ## Configurations -/

theorem ModuleId.comesBack {id : ModuleId} (h : id.IsNamed) : ComesBack ofJson? toJson id :=
  ofJson?_toJson h

theorem Edition.comesBack (bare : Json.Bare) (e : Edition) :
    ComesBack (ofJsonWith? bare) toJson e :=
  .choice bare (by cases e <;> rfl)

theorem SourceMode.comesBack (bare : Json.Bare) (m : SourceMode) :
    ComesBack (ofJsonWith? bare) toJson m :=
  .choice bare (by cases m <;> rfl)

theorem Options.isCanonical_toJson (o : Options) : o.toJson.IsCanonical := by
  refine ⟨Entries.ascending_map o.ascending Datum.json, Json.membersCanonical_iff.mpr ?_⟩
  intro e he
  obtain ⟨member, -, rfl⟩ := List.mem_map.mp he
  exact member.2.isCanonical

/-- A written module is in canonical form already. -/
theorem ModuleSpec.isCanonical_toJson (m : ModuleSpec) : m.toJson.IsCanonical := by
  have hascending : Entries.Ascending [("id", m.id.toJson), ("options", m.options.toJson)] :=
    List.pairwise_pair.mpr (show "id" < "options" by decide)
  exact ⟨hascending, trivial, m.options.isCanonical_toJson, trivial⟩

theorem ModuleSpec.comesBack {m : ModuleSpec} (h : m.id.IsNamed) : ComesBack ofJson? toJson m := by
  rw [ComesBack, Json.canonical_eq_self m.isCanonical_toJson]
  exact readsBack h

theorem ModuleSpec.comesBack_list {modules : List ModuleSpec} (h : AreNamed modules) :
    ComesBack (Json.items? ofJson?) (Json.ofList toJson) modules :=
  .items fun m hm => comesBack (h m hm)

theorem EnvironmentOverride.comesBack (bare : Json.Bare) {o : EnvironmentOverride}
    (h : ModuleSpec.AreNamed o.modules) : ComesBack (ofJsonWith? bare) toJson o := by
  have hmodules := ModuleSpec.comesBack_list h
  have htarget : ComesBack _ _ o.targetEnvironment :=
    .nullable (fun e _ => e.comesBack bare) fun _ h => by cases h
  have hmode : ComesBack _ _ o.sourceTypeMode :=
    .nullable (fun m _ => m.comesBack bare) fun _ h => by cases h
  rw [ComesBack, toJson, Json.canonical, ofJsonWith?, Json.Record.read, Json.Record.finish,
    bind_defaulted hmodules rfl, bind_defaulted htarget rfl,
    bind_defaulted hmode rfl]
  rfl

theorem Overrides.comesBack (bare : Json.Bare) {o : Overrides} (h : o.AreNamed) :
    ComesBack (Json.map? (EnvironmentOverride.ofJsonWith? bare))
      (Json.ofMap EnvironmentOverride.toJson) o :=
  .map fun e he => EnvironmentOverride.comesBack bare (h e he)

theorem Configuration.comesBack {c : Configuration} (h : c.IsNamed) :
    ComesBack ofJson? toJson c := by
  have hmodules := ModuleSpec.comesBack_list h.1
  have htarget : ComesBack Edition.ofJson? _ _ := c.targetEnvironment.comesBack Json.isNull
  have hmode : ComesBack SourceMode.ofJson? _ _ := c.sourceTypeMode.comesBack Json.isNull
  have hoverrides : ComesBack (Json.map? EnvironmentOverride.ofJson?) _ _ :=
    Overrides.comesBack Json.isNull h.2
  rw [ComesBack, toJson, Json.canonical, ofJson?, Json.Record.read, Json.Record.finish,
    bind_required hmodules rfl, bind_required htarget rfl,
    bind_required hmode rfl, bind_defaulted hoverrides rfl]
  rfl

/-- Text, where there is one. -/
theorem comesBack_text (text : Option String) :
    ComesBack (Json.nullable? Json.str?) (Json.ofOption Json.str) text :=
  .nullable (fun t _ => .str t) fun _ h => by cases h

/-- The members of a layer come back, whatever record they stand in. -/
theorem ConfigurationLayer.read_members (bare : Json.Bare) {l : ConfigurationLayer}
    (hnamed : l.IsNamed) {members : List (String × Json)}
    (h : ∀ e ∈ l.members, Entries.get? e.1 members.reverse = some e.2) :
    reader bare (.byName (Json.canonicalMembers members))
      = some (l, .byName (Json.canonicalMembers members)) := by
  have hmodules : ComesBack _ _ l.modules :=
    .nullable (fun modules hmodules => ModuleSpec.comesBack_list (hnamed.listed modules hmodules))
      fun _ h => by cases h
  have htarget : ComesBack _ _ l.targetEnvironment :=
    .nullable (fun e _ => e.comesBack bare) fun _ h => by cases h
  have hmode : ComesBack _ _ l.sourceTypeMode :=
    .nullable (fun m _ => m.comesBack bare) fun _ h => by cases h
  rw [ConfigurationLayer.members] at h
  simp only [List.forall_mem_cons] at h
  rw [reader, bind_defaulted hmodules h.1, bind_defaulted htarget h.2.1,
    bind_defaulted hmode h.2.2.1, bind_defaulted (Overrides.comesBack bare hnamed.2) h.2.2.2.1,
    bind_defaulted (comesBack_text l.environment) h.2.2.2.2.1]
  rfl

theorem ConfigurationLayer.comesBack {l : ConfigurationLayer} (h : l.IsNamed) :
    ComesBack ofJson? toJson l := by
  have hkeys : ∀ e ∈ l.members, Entries.get? e.1 l.members.reverse = some e.2 := by
    simp only [members, List.forall_mem_cons]
    exact ⟨rfl, rfl, rfl, rfl, rfl, List.forall_mem_nil _⟩
  change Json.Record.finish _ (.byName (Json.canonicalMembers l.members)) = _
  rw [Json.Record.finish, read_members Json.isNull h hkeys]
  rfl

/-! ## Requests -/

namespace RequestOptions

/-- The members of a request beside those of its layer. -/
def callMembers (r : RequestOptions) : List (String × Json) := [
  ("filename", Json.ofOption Json.str r.filename),
  ("fileKey", Json.ofOption Json.str r.fileKey),
  ("skipDetection", .bool r.skipDetection),
  ("bypassCache", .bool r.bypassCache)]

/-- A request and its layer are members of one object, and neither takes a
member of the other. -/
theorem get?_members (r : RequestOptions) :
    ∀ e ∈ r.configuration.members ++ r.callMembers,
      Entries.get? e.1 (r.configuration.members ++ r.callMembers).reverse = some e.2 := by
  simp only [ConfigurationLayer.members, callMembers, List.cons_append, List.nil_append,
    List.forall_mem_cons]
  exact ⟨rfl, rfl, rfl, rfl, rfl, rfl, rfl, rfl, rfl, List.forall_mem_nil _⟩

theorem comesBack {r : RequestOptions} (h : r.configuration.IsNamed) :
    ComesBack ofJson? toJson r := by
  have hwritten : r.toJson = .obj (r.configuration.members ++ r.callMembers) := rfl
  have hmembers := r.get?_members
  rw [List.forall_mem_append] at hmembers
  obtain ⟨hlayer, hcall⟩ := hmembers
  obtain ⟨hfilename, hcall⟩ := List.forall_mem_cons.mp hcall
  obtain ⟨hfileKey, hcall⟩ := List.forall_mem_cons.mp hcall
  obtain ⟨hskipDetection, hcall⟩ := List.forall_mem_cons.mp hcall
  obtain ⟨hbypassCache, -⟩ := List.forall_mem_cons.mp hcall
  rw [ComesBack, hwritten, Json.canonical, ofJson?, Json.Record.readNamed, Json.Record.finish,
    bind_of_read (ConfigurationLayer.read_members Json.isNullOrEmpty h hlayer),
    bind_defaulted (comesBack_text r.filename) hfilename,
    bind_defaulted (comesBack_text r.fileKey) hfileKey,
    bind_defaulted (.bool r.skipDetection) hskipDetection,
    bind_defaulted (.bool r.bypassCache) hbypassCache]
  rfl

end RequestOptions

/-! ## Detections -/

theorem Feature.comesBack {f : Feature} (h : ∀ id ∈ f.requiresModule, id.IsNamed) :
    ComesBack ofJson? toJson f := by
  have hkind : ComesBack FeatureKind.ofJson? FeatureKind.toJson f.kind :=
    .choice Json.isNull (by cases f.kind <;> rfl)
  have hmodule : ComesBack _ _ f.requiresModule :=
    .nullable (fun id hid => ModuleId.comesBack (h id hid)) fun _ h => by cases h
  rw [ComesBack, toJson, Json.canonical, ofJson?, Json.Record.read, Json.Record.finish,
    bind_required (.str f.name) rfl, bind_required hkind rfl,
    bind_required (.bool f.supportsNative) rfl, bind_optional hmodule rfl]
  rfl

theorem FrameworkSignal.comesBack {s : FrameworkSignal} (h : s.confidence.isFinite)
    (hnamed : ∀ id ∈ s.requiredModules, id.IsNamed) : ComesBack ofJson? toJson s := by
  have hmodules : ComesBack _ _ s.requiredModules :=
    .items fun id hid => ModuleId.comesBack (hnamed id hid)
  rw [ComesBack, toJson, Json.canonical, ofJson?, Json.Record.read, Json.Record.finish,
    bind_required (.str s.frameworkName) rfl, bind_required (.float h) rfl,
    bind_required hmodules rfl]
  rfl

theorem LanguageGuess.comesBack {g : LanguageGuess} (h : g.confidence.isFinite) :
    ComesBack ofJson? toJson g := by
  have hlanguage : ComesBack Language.ofJson? Language.toJson g.language :=
    .choice Json.isNull (by cases g.language <;> rfl)
  rw [ComesBack, toJson, Json.canonical, ofJson?, Json.Record.read, Json.Record.finish,
    bind_required hlanguage rfl, bind_required (.float h) rfl,
    bind_required (.bool g.requiresTranspilation) rfl]
  rfl

/-- Every confidence is a finite double. -/
structure Detection.IsFinite (d : Detection) : Prop where
  frameworks : ∀ s ∈ d.frameworks, s.confidence.isFinite
  language : ∀ g ∈ d.language, g.confidence.isFinite

/-- Every identifier comes from a name. -/
structure Detection.IsNamed (d : Detection) : Prop where
  features : ∀ f ∈ d.features, ∀ id ∈ f.requiresModule, id.IsNamed
  frameworks : ∀ s ∈ d.frameworks, ∀ id ∈ s.requiredModules, id.IsNamed

theorem Detection.comesBack {d : Detection} (h : d.IsFinite) (hnamed : d.IsNamed) :
    ComesBack ofJson? toJson d := by
  have hfeatures : ComesBack _ _ d.features :=
    .items fun f hf => Feature.comesBack (hnamed.features f hf)
  have hframeworks : ComesBack _ _ d.frameworks :=
    .items fun s hs => FrameworkSignal.comesBack (h.frameworks s hs) (hnamed.frameworks s hs)
  have hlanguage : ComesBack _ _ d.language :=
    .nullable (fun g hg => LanguageGuess.comesBack (h.language g hg)) fun _ h => by cases h
  have hpath : ComesBack DetectionPath.ofJson? DetectionPath.toJson d.path :=
    .choice Json.isNull (by cases d.path <;> rfl)
  rw [ComesBack, toJson, Json.canonical, ofJson?, Json.Record.read, Json.Record.finish,
    bind_required hfeatures rfl, bind_required hframeworks rfl,
    bind_optional hlanguage rfl, bind_required hpath rfl]
  rfl

/-! ## Failures -/

theorem SourceLocation.comesBack {l : SourceLocation} (hline : l.line < Nat.pow 2 32)
    (hcolumn : l.column < Nat.pow 2 32) : ComesBack ofJson? toJson l := by
  rw [ComesBack, toJson, Json.canonical, ofJson?, Json.Record.read, Json.Record.finish,
    Json.word32?, bind_required (.below hline) rfl, bind_required (.below hcolumn) rfl]
  rfl

/-- The members of an action are read once its name is known. -/
theorem SuggestedAction.ofJson?_canonical {members : List (String × Json)} {type : String}
    {reader : Json.RecordReader SuggestedAction}
    (htype : Entries.get? "type" members.reverse = some (.str type))
    (hreader : reader? type = some reader) :
    ofJson? (Json.obj members).canonical
      = Json.Record.finish reader (.byName (Json.canonicalMembers members)) := by
  have hkey := Json.ComesBack.get?_canonicalMembers_of_get? htype
  rw [Json.canonical, ofJson?, hkey]
  simp [Json.canonical, Json.str?, hreader]

theorem SuggestedAction.comesBack {a : SuggestedAction} (h : a.IsNamed) :
    ComesBack ofJson? toJson a := by
  rw [ComesBack]
  cases a with
  | addModule module =>
    rw [toJson, ofJson?_canonical rfl rfl, Json.Record.finish,
      bind_required (ModuleId.comesBack h) rfl]
    rfl
  | installPackage package =>
    rw [toJson, ofJson?_canonical rfl rfl, Json.Record.finish, bind_required (.str package) rfl]
    rfl
  | simplifyConfiguration =>
    rw [toJson, ofJson?_canonical rfl rfl]
    rfl
  | editSource hint =>
    rw [toJson, ofJson?_canonical rfl rfl, Json.Record.finish, bind_required (.str hint) rfl]
    rfl

theorem Suggestion.comesBack {s : Suggestion} (h : s.action.IsNamed) :
    ComesBack ofJson? toJson s := by
  have hkind : ComesBack SuggestionKind.ofJson? SuggestionKind.toJson s.kind :=
    .choice Json.isNull (by cases s.kind <;> rfl)
  have hpriority : ComesBack Priority.ofJson? Priority.toJson s.priority :=
    .choice Json.isNull (by cases s.priority <;> rfl)
  rw [ComesBack, toJson, Json.canonical, ofJson?, Json.Record.read, Json.Record.finish,
    bind_required hkind rfl, bind_required (.str s.description) rfl,
    bind_required (SuggestedAction.comesBack h) rfl, bind_required (.bool s.autoApplicable) rfl,
    bind_required hpriority rfl]
  rfl

theorem comesBack_texts (texts : List String) :
    ComesBack (Json.items? Json.str?) (Json.ofList Json.str) texts :=
  .items fun t _ => .str t

theorem Recovery.comesBack (r : Recovery) : ComesBack ofJson? toJson r := by
  rw [ComesBack, toJson, Json.canonical, ofJson?, Json.Record.read, Json.Record.finish,
    bind_required (.str r.loweredText) rfl,
    bind_required (comesBack_texts r.warnings) rfl]
  rfl

theorem Circumstances.comesBack (c : Circumstances) : ComesBack ofJson? toJson c := by
  have hpath : ComesBack DetectionPath.ofJson? DetectionPath.toJson c.detectionPath :=
    .choice Json.isNull (by cases c.detectionPath <;> rfl)
  rw [ComesBack, toJson, Json.canonical, ofJson?, Json.Record.read, Json.Record.finish,
    bind_required hpath rfl, bind_required (comesBack_texts c.features) rfl,
    bind_required (comesBack_texts c.frameworks) rfl, bind_required (.str c.configuration) rfl,
    bind_required (.str c.backendMessage) rfl]
  rfl

theorem Performance.comesBack {p : Performance} (htime : p.milliseconds.isFinite)
    (hmemory : p.memoryBytes < Nat.pow 2 64) : ComesBack ofJson? toJson p := by
  rw [ComesBack, toJson, Json.canonical, ofJson?, Json.Record.read, Json.Record.finish,
    bind_required (.float htime) rfl, bind_required (.bool p.cacheHit) rfl,
    Json.word64?, bind_required (.below hmemory) rfl]
  rfl

/-- Every time is a finite double, and every count fits the word that holds
it. -/
structure Failure.IsFinite (f : Failure) : Prop where
  line : ∀ l ∈ f.location, l.line < Nat.pow 2 32
  column : ∀ l ∈ f.location, l.column < Nat.pow 2 32
  time : ∀ p ∈ f.performance, p.milliseconds.isFinite
  memory : ∀ p ∈ f.performance, p.memoryBytes < Nat.pow 2 64

theorem Failure.comesBack {f : Failure} (h : f.IsFinite)
    (hnamed : ∀ s ∈ f.suggestions, s.action.IsNamed) : ComesBack ofJson? toJson f := by
  have hkind : ComesBack FailureKind.ofJson? FailureKind.toJson f.kind :=
    .choice Json.isNull (by cases f.kind <;> rfl)
  have hlocation : ComesBack _ _ f.location :=
    .nullable (fun l hl => SourceLocation.comesBack (h.line l hl) (h.column l hl))
      fun _ h => by cases h
  have hsuggestions : ComesBack _ _ f.suggestions :=
    .items fun s hs => Suggestion.comesBack (hnamed s hs)
  have hrecovery : ComesBack _ _ f.recovery :=
    .nullable (fun r _ => r.comesBack) fun _ h => by cases h
  have hstages : ComesBack (Json.items? FailureStage.ofJson?) (Json.ofList FailureStage.toJson)
      f.stages := .items fun s _ => .choice Json.isNull (by cases s <;> rfl)
  have hcircumstances : ComesBack _ _ f.circumstances :=
    .nullable (fun c _ => c.comesBack) fun _ h => by cases h
  have hperformance : ComesBack _ _ f.performance :=
    .nullable (fun p hp => Performance.comesBack (h.time p hp) (h.memory p hp))
      fun _ h => by cases h
  rw [ComesBack, toJson, Json.canonical, ofJson?, Json.Record.read, Json.Record.finish,
    bind_required hkind rfl, bind_required (.str f.message) rfl,
    bind_optional hlocation rfl, bind_required hsuggestions rfl, bind_optional hrecovery rfl,
    bind_required hstages rfl, bind_optional hcircumstances rfl, bind_optional hperformance rfl]
  rfl

/-! ## Over the wire -/

/-- What is sent arrives: as a value, and as a text that is legible. -/
def CrossesWire {α : Type} (read : Json → Option α) (write : α → Json) (a : α) : Prop :=
  read (write a).canonical = some a
    ∧ ((write a).IsLegible → (Json.parse? (write a).print).bind read = some a)

theorem Json.ComesBack.crossesWire {α : Type} {read : Json → Option α} {write : α → Json} {a : α}
    (h : ComesBack read write a) : CrossesWire read write a :=
  ⟨h, h.ofText⟩

/-- **What is sent arrives.** Let all identifiers of modules come from names.
Modules, overrides, layers, configurations and requests come back as they were
sent; so do detections and failures whose doubles are finite, where a failure's
counts fit their words. They come back from JSON values, in which the members of
every object may have been sorted, and from texts, in which they stand as they
were written. A text has to be legible for that: no more than 127 containers are
nested, every integer fits a word, and the text of every double is read as that
double. -/
theorem sent_values_arrive :
    (∀ m : ModuleSpec, m.id.IsNamed → CrossesWire ModuleSpec.ofJson? ModuleSpec.toJson m)
      ∧ (∀ o : EnvironmentOverride, ModuleSpec.AreNamed o.modules →
        CrossesWire EnvironmentOverride.ofJson? EnvironmentOverride.toJson o)
      ∧ (∀ l : ConfigurationLayer, l.IsNamed →
        CrossesWire ConfigurationLayer.ofJson? ConfigurationLayer.toJson l)
      ∧ (∀ c : Configuration, c.IsNamed →
        CrossesWire Configuration.ofJson? Configuration.toJson c)
      ∧ (∀ r : RequestOptions, r.configuration.IsNamed →
        CrossesWire RequestOptions.ofJson? RequestOptions.toJson r)
      ∧ (∀ d : Detection, d.IsFinite → d.IsNamed →
        CrossesWire Detection.ofJson? Detection.toJson d)
      ∧ ∀ f : Failure, f.IsFinite → (∀ s ∈ f.suggestions, s.action.IsNamed) →
        CrossesWire Failure.ofJson? Failure.toJson f :=
  ⟨fun _ h => (ModuleSpec.comesBack h).crossesWire,
    fun _ h => (EnvironmentOverride.comesBack Json.isNull h).crossesWire,
    fun _ h => (ConfigurationLayer.comesBack h).crossesWire,
    fun _ h => (Configuration.comesBack h).crossesWire,
    fun _ h => (RequestOptions.comesBack h).crossesWire,
    fun _ h hnamed => (Detection.comesBack h hnamed).crossesWire,
    fun _ h hnamed => (Failure.comesBack h hnamed).crossesWire⟩

/-- A request with a module under its scoped name, and with an override. -/
def sentRequest : RequestOptions where
  configuration := {
    modules := some [⟨.ofString "@lower/preset-react", .ofList [("pragma", .text "h")]⟩]
    targetEnvironment := some .es2019
    sourceTypeMode := none
    overrides := .ofList [("legacy", ⟨[.plain (.ofString "site-markup")], none, some .scriptGoal⟩)]
    environment := some "legacy" }
  filename := some "page.jsx"
  fileKey := none
  skipDetection := false
  bypassCache := true

/-- What is found out about a text with markup. -/
def sentDetection : Detection where
  features := [⟨Feature.markupName, .form, false, some (.known .presetReact)⟩]
  frameworks := [⟨"react", 0.5, [.known .presetReact]⟩]
  language := some ⟨.jsx, 0.75, true⟩
  path := .tree

/-- A failure with a place, with advice and with a time. -/
def sentFailure : Failure where
  kind := .syntactic
  message := "unexpected markup"
  location := some ⟨3, 7⟩
  suggestions := [⟨.preset, "Add a preset", .addModule (.ofString "site-markup"), true, .high⟩]
  recovery := none
  stages := [.raised, .classified, .suggestionsGenerated]
  circumstances := none
  performance := some ⟨12.5, false, 4096⟩

theorem sent_values_arrive_request :
    sentRequest.configuration.IsNamed
      ∧ sentRequest.toJson.IsLegible
      ∧ (Json.parse? sentRequest.toJson.print).bind RequestOptions.ofJson? = some sentRequest
      ∧ (sentDetection.IsFinite ∧ sentDetection.IsNamed)
      ∧ Detection.ofJson? sentDetection.toJson.canonical = some sentDetection
      ∧ (sentFailure.IsFinite ∧ ∀ s ∈ sentFailure.suggestions, s.action.IsNamed)
      ∧ Failure.ofJson? sentFailure.toJson.canonical = some sentFailure := by
  obtain ⟨-, -, -, -, hrequests, hdetections, hfailures⟩ := sent_values_arrive
  have hrequest : sentRequest.configuration.IsNamed := by decide +kernel
  have hlegible : sentRequest.toJson.IsLegible := ⟨by decide +kernel, by repeat' constructor⟩
  have hdetection : sentDetection.IsFinite ∧ sentDetection.IsNamed :=
    ⟨⟨by decide +kernel, by decide +kernel⟩, ⟨by decide +kernel, by decide +kernel⟩⟩
  have hfinite : sentFailure.IsFinite :=
    ⟨by decide, by decide, by decide +kernel, by decide⟩
  have hadvice : ∀ s ∈ sentFailure.suggestions, s.action.IsNamed := by decide +kernel
  exact ⟨hrequest, hlegible, (hrequests _ hrequest).2 hlegible, hdetection,
    (hdetections _ hdetection.1 hdetection.2).1, ⟨hfinite, hadvice⟩,
    (hfailures _ hfinite hadvice).1⟩

/-- A module with a double among its options that is read as its neighbour. -/
def impreciseModule : ModuleSpec :=
  ⟨.known .presetEnv, .ofList [("share", .ofJson (.float 0.9080569748123707))]⟩

/-- The double among the options of a module. -/
def shareOf? (m : ModuleSpec) : Option Float :=
  (m.options.get? "share").bind fun d => d.json.float?

/-- The text of a module may be read as another module. -/
theorem imprecise_option_changes :
    (Json.parse? impreciseModule.toJson.print).bind ModuleSpec.ofJson? ≠ some impreciseModule := by
  have hsent : shareOf? impreciseModule = some 0.9080569748123707 := by decide +kernel
  have hread : ((Json.parse? impreciseModule.toJson.print).bind ModuleSpec.ofJson?).bind shareOf?
      = some 0.9080569748123708 := by decide +kernel
  have hne : (0.9080569748123707 : Float) ≠ 0.9080569748123708 := by decide +kernel
  intro harrived
  rw [harrived, Option.bind_some, hsent] at hread
  exact hne (Option.some.inj hread)

end Downlevel
