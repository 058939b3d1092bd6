/-
Downlevel.Proofs.Configuration.Merge — what is left of several lists of
module entries when they are merged and sorted.

`Merged` says it of the entries one after the other: every module that has
an entry, in the order of the first ones, each option with what the last
entry says that sets it. One more entry keeps this (`Merged.add`), so
merging all of them does (`merged_mergeAll`).

Sorting by phase is stable: within a phase the entries stand as they did
before (`filter_sortByPhase`), so whatever order they had is what decides
between entries of one phase (`pairwise_sortByPhase`).
-/
import Downlevel.Configuration.ModuleList
import Downlevel.Proofs.StableSort

namespace Downlevel

/-! ## Merging -/

namespace ModuleSpec

/-- The modules that entries are for, one for each entry. -/
def ids (entries : List ModuleSpec) : List ModuleId := entries.map (·.id)

theorem mem_ids {m : ModuleSpec} {entries : List ModuleSpec} (h : m ∈ entries) :
    m.id ∈ ids entries :=
  List.mem_map_of_mem h

@[simp] theorem ids_append (entries more : List ModuleSpec) :
    ids (entries ++ more) = ids entries ++ ids more :=
  List.map_append

@[simp] theorem ids_singleton (m : ModuleSpec) : ids [m] = [m.id] := rfl

/-- What the last entry says that sets an option of a module. -/
def lastSetting? (entries : List ModuleSpec) (id : ModuleId) (key : String) : Option Datum :=
  entries.reverse.findSome? fun e => if e.id = id then e.options.get? key else none

/-- An entry with the options of another one for the same module. -/
def overlaid (m e : ModuleSpec) : ModuleSpec :=
  if e.id = m.id then { e with options := e.options.overlay m.options } else e

@[simp] theorem overlaid_id (m e : ModuleSpec) : (overlaid m e).id = e.id := by
  unfold overlaid
  split <;> rfl

theorem add_of_notMem {m : ModuleSpec} {modules : List ModuleSpec} (h : m.id ∉ ids modules) :
    add m modules = modules ++ [m] := by
  induction modules with
  | nil => rfl
  | cons e rest ih =>
    simp only [ids, List.map_cons, List.mem_cons, not_or] at h
    rw [add, if_neg (Ne.symm h.1), ih h.2, List.cons_append]

theorem add_of_mem {m : ModuleSpec} {modules : List ModuleSpec} (hnodup : (ids modules).Nodup)
    (h : m.id ∈ ids modules) : add m modules = modules.map (overlaid m) := by
  induction modules with
  | nil => simp [ids] at h
  | cons e rest ih =>
    simp only [ids, List.map_cons, List.nodup_cons, List.mem_cons] at hnodup h
    by_cases he : e.id = m.id
    · -- the rest has no entry for this module
      have hrest : rest.map (overlaid m) = rest := by
        refine (List.map_congr_left fun other hother => ?_).trans (List.map_id rest)
        have hne : other.id ≠ m.id := by
          intro heq
          rw [he, ← heq] at hnodup
          exact hnodup.1 (mem_ids hother)
        simp [overlaid, hne]
      rw [add, if_pos he, List.map_cons, hrest, overlaid, if_pos he]
    · rw [add, if_neg he, List.map_cons, ih hnodup.2 (h.resolve_left (Ne.symm he)), overlaid,
        if_neg he]

theorem lastSetting?_append (entries : List ModuleSpec) (m : ModuleSpec) (id : ModuleId)
    (key : String) :
    lastSetting? (entries ++ [m]) id key
      = (if m.id = id then m.options.get? key else none).or (lastSetting? entries id key) := by
  simp only [lastSetting?, List.reverse_append, List.reverse_singleton, List.singleton_append,
    List.findSome?_cons]
  split <;> simp_all

theorem lastSetting?_of_notMem {entries : List ModuleSpec} {id : ModuleId}
    (h : id ∉ ids entries) (key : String) : lastSetting? entries id key = none := by
  refine List.findSome?_eq_none_iff.mpr fun e he => ?_
  have hne : e.id ≠ id := by
    rintro rfl
    exact h (mem_ids (List.mem_reverse.mp he))
  simp [hne]

/-- The second list is what the entries of the first one come to. -/
structure Merged (entries merged : List ModuleSpec) : Prop where
  mem_iff : ∀ id, id ∈ ids merged ↔ id ∈ ids entries
  order : merged.Pairwise fun a b => (ids entries).idxOf a.id < (ids entries).idxOf b.id
  setting : ∀ m ∈ merged, ∀ key, m.options.get? key = lastSetting? entries m.id key

namespace Merged

variable {entries merged : List ModuleSpec}

theorem nil : Merged [] [] := by
  refine ⟨fun id => Iff.rfl, List.Pairwise.nil, ?_⟩
  intro m hm
  cases hm

theorem nodup (h : Merged entries merged) : (ids merged).Nodup := by
  refine List.pairwise_map.mpr (h.order.imp ?_)
  intro a b hlt heq
  rw [heq] at hlt
  exact Nat.lt_irrefl _ hlt

theorem mem_ids (h : Merged entries merged) {m : ModuleSpec} (hm : m ∈ merged) :
    m.id ∈ ids entries :=
  (h.mem_iff m.id).mp (ModuleSpec.mem_ids hm)

/-- One more entry does not move the first ones. -/
theorem order_append (h : Merged entries merged) (m : ModuleSpec) :
    merged.Pairwise fun a b =>
      (ids (entries ++ [m])).idxOf a.id < (ids (entries ++ [m])).idxOf b.id := by
  refine h.order.imp_of_mem ?_
  intro a b ha hb hlt
  rw [ids_append]
  rwa [List.idxOf_append_of_mem (h.mem_ids ha), List.idxOf_append_of_mem (h.mem_ids hb)]

/-- Another entry for a module overlays the options of the one there is. -/
theorem overlay (h : Merged entries merged) {m : ModuleSpec} (hm : m.id ∈ ids merged) :
    Merged (entries ++ [m]) (merged.map (overlaid m)) := by
  refine ⟨?_, ?_, ?_⟩
  · intro id
    have hsame : ids (merged.map (overlaid m)) = ids merged := by simp [ids]
    rw [hsame, ids_append, ids_singleton, h.mem_iff, List.mem_append, List.mem_singleton]
    refine ⟨.inl, ?_⟩
    rintro (hid | rfl)
    · exact hid
    · exact (h.mem_iff _).mp hm
  · refine List.pairwise_map.mpr ?_
    simpa using h.order_append m
  · intro o ho key
    obtain ⟨e, he, rfl⟩ := List.mem_map.mp ho
    rw [overlaid_id, lastSetting?_append, ← h.setting e he key]
    by_cases heq : e.id = m.id
    · simp [overlaid, heq, SortedMap.get?_overlay]
    · simp [overlaid, heq, Ne.symm heq]

/-- The first entry for a module comes last. -/
theorem append (h : Merged entries merged) {m : ModuleSpec} (hm : m.id ∉ ids merged) :
    Merged (entries ++ [m]) (merged ++ [m]) := by
  have hnew : m.id ∉ ids entries := fun hmem => hm ((h.mem_iff _).mpr hmem)
  refine ⟨?_, ?_, ?_⟩
  · intro id
    rw [ids_append, ids_append, List.mem_append, List.mem_append, h.mem_iff]
  · refine List.pairwise_append.mpr ⟨h.order_append m, List.pairwise_singleton _ _, ?_⟩
    intro a ha b hb
    obtain rfl := List.mem_singleton.mp hb
    rw [ids_append, List.idxOf_append_of_mem (h.mem_ids ha), List.idxOf_append_of_notMem hnew]
    have hlt := List.idxOf_lt_length_of_mem (h.mem_ids ha)
    omega
  · intro o ho key
    rw [lastSetting?_append]
    rcases List.mem_append.mp ho with hold | hlast
    · have hne : m.id ≠ o.id := fun heq => hnew (heq ▸ h.mem_ids hold)
      rw [if_neg hne, Option.none_or, h.setting o hold key]
    · obtain rfl := List.mem_singleton.mp hlast
      rw [if_pos rfl, lastSetting?_of_notMem hnew, Option.or_none]

/-- **One more entry** overlays the options of the entry that there is, or
is added at the end. -/
theorem add (h : Merged entries merged) (m : ModuleSpec) :
    Merged (entries ++ [m]) (ModuleSpec.add m merged) := by
  by_cases hm : m.id ∈ ids merged
  · rw [add_of_mem h.nodup hm]
    exact h.overlay hm
  · rw [add_of_notMem hm]
    exact h.append hm

theorem addAll (h : Merged entries merged) (more : List ModuleSpec) :
    Merged (entries ++ more) (ModuleSpec.addAll merged more) := by
  induction more generalizing entries merged with
  | nil => simpa [ModuleSpec.addAll] using h
  | cons m more ih =>
    have hrest := ih (h.add m)
    rw [List.append_assoc, List.singleton_append] at hrest
    exact hrest

end Merged

/-- **Merging keeps the first places and the last settings.** -/
theorem merged_mergeAll (layers : List (List ModuleSpec)) :
    Merged layers.flatten (mergeAll layers) := by
  have hfold : ∀ {entries merged : List ModuleSpec}, Merged entries merged →
      Merged (entries ++ layers.flatten) (layers.foldl addAll merged) := by
    induction layers with
    | nil =>
      intro entries merged h
      simpa using h
    | cons layer rest ih =>
      intro entries merged h
      simpa using ih (h.addAll layer)
  exact hfold .nil

end ModuleSpec

/-! ## Sorting -/

theorem Phase.lt_or_eq_of_le {p q : Phase} (h : p ≤ q) : p < q ∨ p = q := by
  rcases Nat.lt_or_eq_of_le h with hlt | heq
  · exact .inl hlt
  · cases p <;> cases q <;> first | exact .inr rfl | cases heq

namespace Registry

variable (r : Registry)

theorem sortByPhase_perm (modules : List ModuleSpec) : (r.sortByPhase modules).Perm modules :=
  List.mergeSort_perm modules _

/-- Phases can be compared. -/
theorem phase_trans (a b c : ModuleSpec) (hab : decide (r.phaseOf a.id ≤ r.phaseOf b.id) = true)
    (hbc : decide (r.phaseOf b.id ≤ r.phaseOf c.id) = true) :
    decide (r.phaseOf a.id ≤ r.phaseOf c.id) = true :=
  decide_eq_true (Nat.le_trans (of_decide_eq_true hab) (of_decide_eq_true hbc))

theorem phase_total (a b : ModuleSpec) :
    (decide (r.phaseOf a.id ≤ r.phaseOf b.id) || decide (r.phaseOf b.id ≤ r.phaseOf a.id))
      = true := by
  have htotal : r.phaseOf a.id ≤ r.phaseOf b.id ∨ r.phaseOf b.id ≤ r.phaseOf a.id :=
    Nat.le_total _ _
  simpa using htotal

theorem sortByPhase_sorted (modules : List ModuleSpec) :
    (r.sortByPhase modules).Pairwise fun a b => r.phaseOf a.id ≤ r.phaseOf b.id :=
  (List.pairwise_mergeSort r.phase_trans r.phase_total modules).imp of_decide_eq_true

/-- **Sorting moves nothing exactly where the phases ascend.** -/
theorem sortByPhase_eq_self_iff {modules : List ModuleSpec} :
    r.sortByPhase modules = modules
      ↔ modules.Pairwise fun a b => r.phaseOf a.id ≤ r.phaseOf b.id := by
  constructor
  · intro hsame
    rw [← hsame]
    exact r.sortByPhase_sorted modules
  · intro hsorted
    exact List.mergeSort_of_pairwise (hsorted.imp fun hle => decide_eq_true hle)

/-- Modules that stand in order stay as they are. -/
theorem sortByPhase_sortByPhase (modules : List ModuleSpec) :
    r.sortByPhase (r.sortByPhase modules) = r.sortByPhase modules :=
  r.sortByPhase_eq_self_iff.mpr (r.sortByPhase_sorted modules)

/-- **Sorting does not change the order within a phase.** -/
theorem filter_sortByPhase (modules : List ModuleSpec) (phase : Phase) :
    (r.sortByPhase modules).filter (fun m => r.phaseOf m.id = phase)
      = modules.filter fun m => r.phaseOf m.id = phase := by
  refine StableSort.filter_mergeSort r.phase_trans r.phase_total ?_ modules
  intro a b ha hb
  rw [decide_eq_true_eq] at ha hb
  rw [ha, hb]
  exact decide_eq_true (Nat.le_refl _)

/-- **What stands in order still does within a phase.** -/
theorem pairwise_sortByPhase {R : ModuleSpec → ModuleSpec → Prop} {modules : List ModuleSpec}
    (h : modules.Pairwise R) :
    (r.sortByPhase modules).Pairwise fun a b =>
      r.phaseOf a.id < r.phaseOf b.id ∨ r.phaseOf a.id = r.phaseOf b.id ∧ R a b := by
  have hsorted := List.pairwise_mergeSort r.phase_trans r.phase_total modules
  refine List.pairwise_iff_forall_sublist.mpr fun {a b} hab => ?_
  have hle := List.pairwise_iff_forall_sublist.mp hsorted hab
  rcases Phase.lt_or_eq_of_le (of_decide_eq_true hle) with hlt | heq
  · exact .inl hlt
  · -- both are among those of one phase, which stand as they did
    refine .inr ⟨heq, ?_⟩
    have hphase := hab.filter fun m => decide (r.phaseOf m.id = r.phaseOf b.id)
    rw [filter_sortByPhase] at hphase
    simp only [List.filter_cons, heq, decide_true, if_true, List.filter_nil] at hphase
    exact List.pairwise_iff_forall_sublist.mp h (hphase.trans List.filter_sublist)

end Registry

end Downlevel
