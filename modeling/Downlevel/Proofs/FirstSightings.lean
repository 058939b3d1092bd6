/-
Downlevel.Proofs.FirstSightings — lists in which only the first item of each
name stays.

Items are taken one after the other, and one whose name is listed already is
passed over. What a later part of a list adds is then what it would give alone,
less the names that came before it (`foldl_addNew`); so names are distinct
(`nodup_map_firsts`), and the list of a concatenation is that of its first part
and the new names of its second (`firsts_append`).

Where a name settles the whole item, it does not matter which of several items
was the first: the same items in another order give the same list in another
order (`firsts_perm`).
-/
import Mathlib.Data.List.Induction
import Mathlib.Data.List.Nodup
import Mathlib.Data.List.Perm.Basic

namespace Downlevel.FirstSightings

variable {α : Type} (name : α → String)

/-- Adds an item unless its name is already listed. -/
def addNew (items : List α) (x : α) : List α :=
  if items.any fun y => name y == name x then items else items ++ [x]

/-- The items of a list without those whose name came before. -/
def firsts (items : List α) : List α := items.foldl (addNew name) []

variable {name}

theorem addNew_of_mem {items : List α} {x : α} (h : name x ∈ items.map name) :
    addNew name items x = items := by
  obtain ⟨y, hy, heq⟩ := List.mem_map.mp h
  have hany : (items.any fun y => name y == name x) = true :=
    List.any_eq_true.mpr ⟨y, hy, by rw [heq, beq_self_eq_true]⟩
  rw [addNew, if_pos hany]

theorem addNew_of_notMem {items : List α} {x : α} (h : name x ∉ items.map name) :
    addNew name items x = items ++ [x] := by
  refine if_neg fun hany => h ?_
  obtain ⟨y, hy, heq⟩ := List.any_eq_true.mp hany
  exact List.mem_map.mpr ⟨y, hy, beq_iff_eq.mp heq⟩

theorem firsts_append_singleton (items : List α) (x : α) :
    firsts name (items ++ [x]) = addNew name (firsts name items) x := by
  rw [firsts, List.foldl_append]
  rfl

/-- A list with the new items of another one has the names of both. -/
theorem mem_map_append_filter {items more : List α} {n : String} :
    n ∈ (items ++ more.filter fun x => name x ∉ items.map name).map name
      ↔ n ∈ items.map name ∨ n ∈ more.map name := by
  rw [List.map_append, List.mem_append]
  by_cases hitems : n ∈ items.map name
  · exact iff_of_true (.inl hitems) (.inl hitems)
  · refine or_congr_right ⟨fun h => ?_, fun h => ?_⟩
    · obtain ⟨y, hy, heq⟩ := List.mem_map.mp h
      exact List.mem_map.mpr ⟨y, List.mem_of_mem_filter hy, heq⟩
    · obtain ⟨y, hy, rfl⟩ := List.mem_map.mp h
      exact List.mem_map_of_mem (List.mem_filter.mpr ⟨hy, by rwa [decide_eq_true_eq]⟩)

/-- An item may as well be added to the other list before its new items are
taken. -/
theorem addNew_append_filter (items more : List α) (x : α) :
    addNew name (items ++ more.filter fun y => name y ∉ items.map name) x
      = items ++ (addNew name more x).filter fun y => name y ∉ items.map name := by
  by_cases hmore : name x ∈ more.map name
  · rw [addNew_of_mem hmore, addNew_of_mem (mem_map_append_filter.mpr (.inr hmore))]
  · rw [addNew_of_notMem hmore, List.filter_append]
    by_cases hitems : name x ∈ items.map name
    · rw [addNew_of_mem (mem_map_append_filter.mpr (.inl hitems)),
        List.filter_cons_of_neg (by simpa using hitems), List.filter_nil, List.append_nil]
    · have hnew := mt mem_map_append_filter.mp (not_or_intro hitems hmore)
      rw [addNew_of_notMem hnew, List.filter_cons_of_pos (by simpa using hitems), List.filter_nil,
        List.append_assoc]

/-- **What is added to a list is what the rest gives alone, less the names that
are listed.** -/
theorem foldl_addNew (items more : List α) :
    more.foldl (addNew name) items
      = items ++ (firsts name more).filter fun x => name x ∉ items.map name := by
  induction more using List.reverseRecOn with
  | nil => exact (List.append_nil items).symm
  | append_singleton more x ih =>
    rw [List.foldl_append, List.foldl_cons, List.foldl_nil, ih, firsts_append_singleton,
      addNew_append_filter]

/-- The items of a concatenation: those of its first part, and the new names of
its second. -/
theorem firsts_append (items more : List α) :
    firsts name (items ++ more)
      = firsts name items
        ++ (firsts name more).filter fun x => name x ∉ (firsts name items).map name := by
  rw [firsts, List.foldl_append]
  exact foldl_addNew (firsts name items) more

theorem firsts_sublist (items : List α) : (firsts name items).Sublist items := by
  induction items using List.reverseRecOn with
  | nil => exact List.Sublist.refl _
  | append_singleton items x ih =>
    rw [firsts_append_singleton, addNew]
    split
    · exact ih.trans (List.sublist_append_left items [x])
    · exact ih.append_right [x]

/-- No name is lost. -/
theorem mem_map_firsts {items : List α} {n : String} :
    n ∈ (firsts name items).map name ↔ n ∈ items.map name := by
  induction items using List.reverseRecOn with
  | nil => rfl
  | append_singleton items x ih =>
    rw [firsts_append_singleton, List.map_append, List.mem_append, ← ih]
    by_cases hx : name x ∈ (firsts name items).map name
    · rw [addNew_of_mem hx, List.map_singleton, List.mem_singleton]
      exact ⟨.inl, fun h => h.elim id fun heq => heq ▸ hx⟩
    · rw [addNew_of_notMem hx, List.map_append, List.mem_append]

/-- **No name comes twice.** -/
theorem nodup_map_firsts (items : List α) : ((firsts name items).map name).Nodup := by
  induction items using List.reverseRecOn with
  | nil => exact List.nodup_nil
  | append_singleton items x ih =>
    rw [firsts_append_singleton]
    by_cases hx : name x ∈ (firsts name items).map name
    · rwa [addNew_of_mem hx]
    · rw [addNew_of_notMem hx, List.map_append]
      refine ih.append (List.nodup_singleton _) ?_
      simpa using hx

/-! ## Items that are settled by their names -/

section Settled

variable {items others : List α} (hname : ∀ x ∈ items, ∀ y ∈ items, name x = name y → x = y)
include hname

/-- Then no item is lost. -/
theorem mem_firsts_iff {x : α} : x ∈ firsts name items ↔ x ∈ items := by
  refine ⟨fun h => (firsts_sublist items).subset h, fun hx => ?_⟩
  obtain ⟨y, hy, heq⟩ := List.mem_map.mp (mem_map_firsts.mpr (List.mem_map_of_mem (f := name) hx))
  rwa [← hname y ((firsts_sublist items).subset hy) x hx heq]

/-- **The order of the items only orders the list.** -/
theorem firsts_perm (h : items.Perm others) : (firsts name items).Perm (firsts name others) := by
  have hothers : ∀ x ∈ others, ∀ y ∈ others, name x = name y → x = y :=
    fun x hx y hy => hname x (h.mem_iff.mpr hx) y (h.mem_iff.mpr hy)
  refine (List.perm_ext_iff_of_nodup (nodup_map_firsts items).of_map
    (nodup_map_firsts others).of_map).mpr fun x => ?_
  rw [mem_firsts_iff hname, mem_firsts_iff hothers, h.mem_iff]

end Settled

end Downlevel.FirstSightings
