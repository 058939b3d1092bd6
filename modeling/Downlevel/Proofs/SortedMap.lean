/-
Downlevel.Proofs.SortedMap — what a map does not depend on, and what one
operation changes in the whole of it.

A map forgets the order in which different keys were inserted
(`ofList_eq_of_reordered`). Seen as a collection of entries it grows and
shrinks by one entry at a time: erasing a stored key takes one entry out
(`entries_perm_erase`) and inserting a new one puts one in
(`entries_insert_perm`), so that a sum over all entries follows each
operation by an equation.
-/
import Mathlib
import Downlevel.SortedMap

namespace Downlevel

/-! ## Entry lists -/

namespace Entries

variable {α β : Type}

theorem get?_append (key : String) (xs ys : List (String × α)) :
    get? key (xs ++ ys) = (get? key xs).or (get? key ys) := by
  induction xs with
  | nil => rfl
  | cons head rest ih =>
    obtain ⟨k, v⟩ := head
    rw [List.cons_append, get?, get?, ih]
    split <;> rfl

theorem get?_map (f : α → β) (key : String) (entries : List (String × α)) :
    get? key (entries.map fun e => (e.1, f e.2)) = (get? key entries).map f := by
  induction entries with
  | nil => rfl
  | cons head rest ih =>
    obtain ⟨k, v⟩ := head
    rw [List.map_cons, get?, get?, ih]
    split <;> rfl

theorem ascending_map {entries : List (String × α)} (h : Ascending entries) (f : α → β) :
    Ascending (entries.map fun e => (e.1, f e.2)) := by
  rw [Ascending, List.pairwise_map]
  exact h

/-! ### Order of insertion -/

/-- The same insertions up to the order of different keys: neighbours with
different keys may change places, and a value may stand for a related
one. -/
inductive Reordered (R : α → α → Prop) : List (String × α) → List (String × α) → Prop
  | nil : Reordered R [] []
  | cons {key : String} {v w : α} {xs ys : List (String × α)} :
      R v w → Reordered R xs ys → Reordered R ((key, v) :: xs) ((key, w) :: ys)
  | swap {k l : String} (v w : α) (xs : List (String × α)) :
      k ≠ l → Reordered R ((k, v) :: (l, w) :: xs) ((l, w) :: (k, v) :: xs)
  | trans {xs ys zs : List (String × α)} :
      Reordered R xs ys → Reordered R ys zs → Reordered R xs zs

/-- Of a repeated key the last value counts. -/
theorem get?_reverse_cons (key k : String) (v : α) (xs : List (String × α)) :
    get? key ((k, v) :: xs).reverse
      = (get? key xs.reverse).or (if key = k then some v else none) := by
  rw [List.reverse_cons, get?_append]
  rfl

/-- Of different keys it does not matter which was inserted first. -/
theorem get?_reverse_swap {k l : String} (h : k ≠ l) (key : String) (v w : α)
    (xs : List (String × α)) :
    get? key ((k, v) :: (l, w) :: xs).reverse = get? key ((l, w) :: (k, v) :: xs).reverse := by
  simp only [get?_reverse_cons, Option.or_assoc]
  congr 1
  by_cases hk : key = k
  · subst hk
    simp [h]
  · simp [hk]

/-- What related values share is looked up alike in reordered lists. -/
theorem Reordered.get?_reverse_eq {R : α → α → Prop} {f : α → β}
    (hf : ∀ v w, R v w → f v = f w) (key : String) {xs ys : List (String × α)}
    (h : Reordered R xs ys) :
    (get? key xs.reverse).map f = (get? key ys.reverse).map f := by
  induction h with
  | nil => rfl
  | cons hv _ ih =>
    rw [get?_reverse_cons, get?_reverse_cons, Option.map_or, Option.map_or, ih]
    split
    · rw [Option.map_some, Option.map_some, hf _ _ hv]
    · rfl
  | swap v w xs hne => rw [get?_reverse_swap hne]
  | trans _ _ ih₁ ih₂ => exact ih₁.trans ih₂

/-! ### One entry in, one entry out -/

/-- In an ascending list the entry of a key is one entry, and the others
are those with another key. -/
theorem perm_cons_filter {entries : List (String × α)} (h : Ascending entries) {key : String}
    {value : α} (hmem : (key, value) ∈ entries) :
    entries.Perm ((key, value) :: entries.filter fun e => e.1 != key) := by
  induction entries with
  | nil => cases hmem
  | cons head rest ih =>
    have hk := List.pairwise_cons.1 h
    rcases List.mem_cons.1 hmem with rfl | hrest
    · have hne : ∀ e ∈ rest, (e.1 != key) = true := by
        intro e he
        have hlt : key < e.1 := hk.1 e he
        refine bne_iff_ne.2 fun heq => Std.lt_irrefl (a := key) ?_
        rwa [heq] at hlt
      rw [List.filter_cons_of_neg (by simp), List.filter_eq_self.2 hne]
    · have hlt : head.1 < key := hk.1 _ hrest
      have hne : (head.1 != key) = true := by
        refine bne_iff_ne.2 fun heq => Std.lt_irrefl (a := key) ?_
        rwa [heq] at hlt
      rw [List.filter_cons, if_pos hne]
      exact ((ih hk.2 hrest).cons head).trans (List.Perm.swap _ _ _)

theorem insert_perm_cons {entries : List (String × α)} {key : String} (value : α)
    (h : get? key entries = none) :
    (insert key value entries).Perm ((key, value) :: entries) := by
  induction entries with
  | nil => exact List.Perm.refl _
  | cons head rest ih =>
    obtain ⟨k, v⟩ := head
    rw [get?] at h
    split at h
    · cases h
    · next hne =>
      rw [insert]
      split
      · exact List.Perm.refl _
      · exact ((ih h).cons _).trans (List.Perm.swap _ _ _)

end Entries

/-! ## Maps -/

namespace SortedMap

variable {α β : Type}

theorem get?_ofList (entries : List (String × α)) (key : String) :
    (ofList entries).get? key = Entries.get? key entries.reverse := by
  rw [ofList, get?_insertAll, get?_empty, Option.or_none]
  induction entries.reverse with
  | nil => rfl
  | cons head rest ih =>
    obtain ⟨k, v⟩ := head
    by_cases hk : key = k <;> simp_all [Entries.get?]

/-- **The order of insertion is forgotten**: reordered insertions build
the same map. -/
theorem ofList_eq_of_reordered {R : α → α → Prop} {f : α → β}
    (hf : ∀ v w, R v w → f v = f w) {xs ys : List (String × α)}
    (h : Entries.Reordered R xs ys) :
    ofList (xs.map fun e => (e.1, f e.2)) = ofList (ys.map fun e => (e.1, f e.2)) := by
  apply ext_get?
  intro key
  rw [get?_ofList, get?_ofList, ← List.map_reverse, ← List.map_reverse, Entries.get?_map,
    Entries.get?_map, h.get?_reverse_eq hf key]

/-! ### Keys -/

theorem mem_keys {m : SortedMap α} {key : String} :
    key ∈ m.keys ↔ ∃ value, m.get? key = some value := by
  constructor
  · intro h
    obtain ⟨⟨_, value⟩, he, rfl⟩ := List.mem_map.1 h
    exact ⟨value, get?_eq_some_iff.2 he⟩
  · rintro ⟨value, hvalue⟩
    exact List.mem_map.2 ⟨(key, value), get?_eq_some_iff.1 hvalue, rfl⟩

theorem mem_keys_overlay {lower upper : SortedMap α} {key : String} :
    key ∈ (lower.overlay upper).keys ↔ key ∈ lower.keys ∨ key ∈ upper.keys := by
  simp only [mem_keys, get?_overlay]
  cases upper.get? key <;> cases lower.get? key <;> simp

/-! ### Other values -/

/-- The map with every value replaced. -/
def map (f : α → β) (m : SortedMap α) : SortedMap β :=
  ⟨m.entries.map fun e => (e.1, f e.2), Entries.ascending_map m.ascending f⟩

theorem get?_map (f : α → β) (m : SortedMap α) (key : String) :
    (m.map f).get? key = (m.get? key).map f := Entries.get?_map f key m.entries

theorem map_insert (f : α → β) (m : SortedMap α) (key : String) (value : α) :
    (m.insert key value).map f = (m.map f).insert key (f value) := by
  apply ext_get?
  intro other
  rw [get?_map, get?_insert, get?_insert, get?_map]
  split <;> rfl

theorem map_erase (f : α → β) (m : SortedMap α) (key : String) :
    (m.erase key).map f = (m.map f).erase key := by
  apply ext_get?
  intro other
  rw [get?_map, get?_erase, get?_erase, get?_map]
  split <;> rfl

/-- A test that the replacement does not affect keeps the same keys. -/
theorem keys_filter_map {f : α → β} {keep : String → α → Bool} {keep' : String → β → Bool}
    (h : ∀ key value, keep' key (f value) = keep key value) (m : SortedMap α) :
    ((m.map f).filter keep').keys = (m.filter keep).keys := by
  simp only [keys, filter, map, List.filter_map, List.map_map]
  refine congrArg₂ List.map rfl (congrArg (fun p => m.entries.filter p) ?_)
  funext e
  exact h e.1 e.2

/-! ### Sums over entries -/

/-- The sum of a quantity over all values. -/
def sum (m : SortedMap α) (quantity : α → Nat) : Nat :=
  (m.entries.map fun e => quantity e.2).sum

@[simp] theorem sum_empty (quantity : α → Nat) : (empty : SortedMap α).sum quantity = 0 := rfl

theorem entries_perm_erase {m : SortedMap α} {key : String} {value : α}
    (h : m.get? key = some value) : m.entries.Perm ((key, value) :: (m.erase key).entries) :=
  Entries.perm_cons_filter m.ascending (get?_eq_some_iff.1 h)

theorem entries_insert_perm {m : SortedMap α} {key : String} (value : α)
    (h : m.get? key = none) : (m.insert key value).entries.Perm ((key, value) :: m.entries) :=
  Entries.insert_perm_cons value h

theorem sum_erase {m : SortedMap α} {key : String} {value : α} (h : m.get? key = some value)
    (quantity : α → Nat) : quantity value + (m.erase key).sum quantity = m.sum quantity := by
  have hperm := (entries_perm_erase h).map fun e => quantity e.2
  rw [sum, sum, hperm.sum_eq, List.map_cons, List.sum_cons]

theorem sum_insert {m : SortedMap α} {key : String} (value : α) (h : m.get? key = none)
    (quantity : α → Nat) :
    (m.insert key value).sum quantity = quantity value + m.sum quantity := by
  have hperm := (entries_insert_perm value h).map fun e => quantity e.2
  rw [sum, sum, hperm.sum_eq, List.map_cons, List.sum_cons]

/-- Replacing a value changes a sum by the difference of the two. -/
theorem sum_replace {m : SortedMap α} {key : String} {old : α} (value : α)
    (h : m.get? key = some old) (quantity : α → Nat) :
    quantity old + (m.insert key value).sum quantity = quantity value + m.sum quantity := by
  have hinsert : m.insert key value = (m.erase key).insert key value := by
    apply ext_get?
    intro other
    rw [get?_insert, get?_insert, get?_erase]
    split <;> rfl
  have hgone : (m.erase key).get? key = none := by rw [get?_erase, if_pos rfl]
  rw [hinsert, sum_insert value hgone, ← sum_erase h]
  omega

end SortedMap

end Downlevel
