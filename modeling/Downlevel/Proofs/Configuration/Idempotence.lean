/-
Downlevel.Proofs.Configuration.Idempotence — resolving a configuration
again.

A resolved configuration may be given back as the explicit layer over the
same base layer. Its entries then come between those that were there before
it and those of the override that applies, so each module keeps its first
place (`Precedes.restate`) and each option its last setting
(`lastSetting?_restate`). `resolve_restated` puts this together.
-/
import Downlevel.Proofs.Configuration.Resolution

namespace Downlevel

/-! ## Settings of several lists of entries -/

namespace ModuleSpec

/-- Later entries are asked first. -/
theorem lastSetting?_concat (entries more : List ModuleSpec) (id : ModuleId) (key : String) :
    lastSetting? (entries ++ more) id key
      = (lastSetting? more id key).or (lastSetting? entries id key) := by
  simp only [lastSetting?, List.reverse_append, List.findSome?_append]

/-- The only entry for a module settles its options. -/
theorem lastSetting?_of_nodup {modules : List ModuleSpec} (hnodup : (ids modules).Nodup)
    {m : ModuleSpec} (hm : m ∈ modules) (key : String) :
    lastSetting? modules m.id key = m.options.get? key := by
  obtain ⟨before, after, rfl⟩ := List.append_of_mem hm
  have hafter : m.id ∉ ids after := by
    intro h
    simp only [ids, List.map_append, List.map_cons, List.nodup_append, List.nodup_cons] at hnodup
    exact hnodup.2.1.1 h
  have hbefore : m.id ∉ ids before := by
    intro h
    simp only [ids, List.map_append, List.map_cons, List.nodup_append, List.nodup_cons] at hnodup
    exact hnodup.2.2 _ h _ List.mem_cons_self rfl
  have hone : lastSetting? [m] m.id key = m.options.get? key := by simp [lastSetting?]
  rw [List.append_cons, lastSetting?_concat, lastSetting?_concat, lastSetting?_of_notMem hafter,
    lastSetting?_of_notMem hbefore, hone, Option.none_or, Option.or_none]

/-- Entries that already hold the last settings may stand for those they
were made from. -/
theorem lastSetting?_restate {front middle back modules : List ModuleSpec}
    (hnodup : (ids modules).Nodup)
    (hsetting : ∀ m ∈ modules, ∀ key,
      m.options.get? key = lastSetting? (front ++ middle ++ back) m.id key)
    {m : ModuleSpec} (hm : m ∈ modules) (key : String) :
    m.options.get? key = lastSetting? (front ++ modules ++ back) m.id key := by
  have hold := hsetting m hm key
  simp only [lastSetting?_concat, lastSetting?_of_nodup hnodup hm] at hold ⊢
  cases hback : lastSetting? back m.id key with
  | some value => simpa [hback] using hold
  | none =>
    cases hmiddle : lastSetting? middle m.id key with
    | some value => simp_all
    | none =>
      cases hfront : lastSetting? front m.id key <;> simp_all

end ModuleSpec

namespace Configuration

open ConfigurationLayer ModuleSpec

/-! ## Places in several lists of entries -/

/-- In a list without repetition the places are in order. -/
theorem pairwise_idxOf {xs : List ModuleId} (h : xs.Nodup) :
    xs.Pairwise fun a b => xs.idxOf a < xs.idxOf b := by
  refine List.pairwise_iff_getElem.mpr fun i j hi hj hij => ?_
  rw [h.idxOf_getElem i hi, h.idxOf_getElem j hj]
  exact hij

variable {registry : Registry}

/-- What stood in order still does when the entries behind the first ones
are given in that order. -/
theorem Precedes.restate {front middle back : List ModuleSpec} {modules : List ModuleSpec}
    (horder : (ids modules).Pairwise (Precedes registry (front ++ middle ++ back))) :
    (ids modules).Pairwise (Precedes registry (front ++ modules ++ back)) := by
  have hplaces := horder.and (pairwise_idxOf (nodup horder))
  refine hplaces.imp_of_mem ?_
  rintro a b ha hb ⟨hphase | ⟨hsame, hlt⟩, hplace⟩
  · exact .inl hphase
  · refine .inr ⟨hsame, ?_⟩
    simp only [ids_append, List.append_assoc] at hlt ⊢
    by_cases hfront : a ∈ ids front
    · rw [List.idxOf_append_of_mem hfront] at hlt ⊢
      by_cases hb' : b ∈ ids front
      · rwa [List.idxOf_append_of_mem hb'] at hlt ⊢
      · rw [List.idxOf_append_of_notMem hb']
        have := List.idxOf_lt_length_of_mem hfront
        omega
    · by_cases hb' : b ∈ ids front
      · -- then `b` would have come first
        rw [List.idxOf_append_of_notMem hfront, List.idxOf_append_of_mem hb'] at hlt
        have := List.idxOf_lt_length_of_mem hb'
        omega
      · rw [List.idxOf_append_of_notMem hfront, List.idxOf_append_of_notMem hb',
          List.idxOf_append_of_mem ha, List.idxOf_append_of_mem hb]
        omega

/-! ## The configuration as a layer -/

/-- The layer that says what a configuration says. -/
def restated (c : Configuration) (environment : Option String) : ConfigurationLayer :=
  ⟨some c.modules, some c.targetEnvironment, some c.sourceTypeMode, c.overrides, environment⟩

theorem namedOverride?_restated {explicit base : ConfigurationLayer} {c : Configuration}
    (hoverrides : ∀ name, c.overrides.get? name
      = (explicit.overrides.get? name).or (base.overrides.get? name)) :
    namedOverride? (c.restated explicit.environment) base = namedOverride? explicit base := by
  unfold namedOverride?
  refine congrArg _ (funext fun name => ?_)
  have hname : (c.restated explicit.environment).overrides.get? name
      = (explicit.overrides.get? name).or (base.overrides.get? name) := hoverrides name
  rw [hname]
  cases explicit.overrides.get? name <;> cases base.overrides.get? name <;> rfl

/-! ## Resolving it again -/

variable {d : Detection} {explicit base : ConfigurationLayer}

/-- What the layers settle is also what it settles itself over the same base
layer. -/
theorem IsResolution.restated {c : Configuration} (h : IsResolution registry d explicit base c) :
    IsResolution registry d (c.restated explicit.environment) base c := by
  have hentries : entriesFor registry d (c.restated explicit.environment) base c.targetEnvironment
      = base.modules.getD [] ++ d.languageModules registry c.targetEnvironment ++ d.frameworkModules
        ++ c.modules ++ ((namedOverride? explicit base).map (·.modules)).getD [] := by
    rw [entriesFor, namedOverride?_restated h.overrides]
    rfl
  have hmodules := h.modules
  have horder := h.order
  have hsetting := h.setting
  rw [entriesFor] at horder
  simp only [entriesFor] at hmodules hsetting
  refine ⟨rfl, rfl, ?_, ?_, ?_, ?_⟩
  · intro name
    have hname := h.overrides name
    have hagain : (c.restated explicit.environment).overrides.get? name
        = c.overrides.get? name := rfl
    rw [hagain, hname]
    cases explicit.overrides.get? name <;> cases base.overrides.get? name <;> rfl
  · intro id
    have hid := hmodules id
    rw [hentries]
    simp only [ids_append, List.mem_append] at hid ⊢
    tauto
  · rw [hentries]
    exact Precedes.restate horder
  · rw [hentries]
    exact fun m hm key => lastSetting?_restate h.nodup hsetting hm key

/-- **Resolving again changes nothing.** The resolved configuration, given
back as the explicit layer over the same base layer and for the same
environment, is resolved to itself: the same modules in the same order with
the same options, and the same target, mode and overrides. -/
theorem resolve_restated (registry : Registry) (d : Detection)
    (explicit base : ConfigurationLayer) :
    resolve registry d ((resolve registry d explicit base).restated explicit.environment) base
      = resolve registry d explicit base :=
  (resolve_isResolution registry d _ base).unique
    (resolve_isResolution registry d explicit base).restated

end Configuration

end Downlevel
