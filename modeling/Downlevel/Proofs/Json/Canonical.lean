/-
Downlevel.Proofs.Json.Canonical — what the canonical form keeps of a value
and what it forgets.

It keeps the value of every key: under a key the canonical form of an
object has the canonical form of the last value that the object lists
there (`get?_canonicalMembers`). So a record can be read back member by
member, and `IsFaithfulOn` — a writer that gives different canonical forms
to different things of a sort — passes from the parts of a record to lists,
maps and optional values of them.

It forgets the order in which different keys were inserted, at any depth:
`canonical_eq_of_reordered`.
-/
import Downlevel.Json.Record
import Downlevel.Proofs.SortedMap

namespace Downlevel.Json

/-! ## Members -/

/-- Under every key the canonical form keeps the last value. -/
theorem get?_canonicalMembers (key : String) (members : List (String × Json)) :
    Entries.get? key (canonicalMembers members)
      = (Entries.get? key members.reverse).map canonical := by
  induction members with
  | nil => rfl
  | cons head rest ih =>
    obtain ⟨k, value⟩ := head
    rw [Entries.get?_reverse_cons, Option.map_or, ← ih, canonicalMembers]
    split
    · next found hfound =>
      by_cases hk : key = k
      · subst hk
        rw [hfound, Option.some_or]
      · rw [if_neg hk, Option.map_none, Option.or_none]
    · next hnone =>
      rw [Entries.get?_insert]
      by_cases hk : key = k
      · subst hk
        rw [if_pos rfl, if_pos rfl, hnone, Option.none_or, Option.map_some]
      · rw [if_neg hk, if_neg hk, Option.map_none, Option.or_none]

/-- Objects have the same canonical form exactly when they keep the same
under every key. -/
theorem canonicalMembers_eq_iff {xs ys : List (String × Json)} :
    canonicalMembers xs = canonicalMembers ys ↔
      ∀ key, (Entries.get? key xs.reverse).map canonical
        = (Entries.get? key ys.reverse).map canonical := by
  constructor
  · intro h key
    rw [← get?_canonicalMembers, h, get?_canonicalMembers]
  · intro h
    apply Entries.eq_of_get?_eq (canonicalMembers_isCanonical xs).1
      (canonicalMembers_isCanonical ys).1
    intro key
    rw [get?_canonicalMembers, h key, ← get?_canonicalMembers]

/-- Members that already ascend stay where they are. -/
theorem canonicalMembers_of_ascending {members : List (String × Json)}
    (h : Entries.Ascending members) :
    canonicalMembers members = members.map fun e => (e.1, e.2.canonical) := by
  induction members with
  | nil => rfl
  | cons head rest ih =>
    obtain ⟨key, value⟩ := head
    have hk := List.pairwise_cons.1 h
    have hbelow : ∀ e ∈ rest.map fun e => (e.1, e.2.canonical), key < e.1 := by
      intro e he
      obtain ⟨member, hmember, rfl⟩ := List.mem_map.1 he
      exact hk.1 member hmember
    rw [canonicalMembers, ih hk.2]
    simp only [Entries.get?_eq_none_of_lt hbelow, List.map_cons]
    exact insert_eq_cons hbelow

theorem canonicalItems_eq_map (items : List Json) :
    canonicalItems items = items.map canonical := by
  induction items with
  | nil => rfl
  | cons item rest ih => rw [canonicalItems, ih, List.map_cons]

/-! ## Faithful writers -/

/-- Different things of a sort are written differently, also after the
members of every object have been sorted. -/
def IsFaithfulOn {α : Type} (p : α → Prop) (write : α → Json) : Prop :=
  ∀ a b, p a → p b → (write a).canonical = (write b).canonical → a = b

/-- All things are written differently. -/
abbrev IsFaithful {α : Type} (write : α → Json) : Prop := IsFaithfulOn (fun _ => True) write

section Writers

variable {α : Type} {p : α → Prop} {write : α → Json}

theorem IsFaithfulOn.ofList (h : IsFaithfulOn p write) :
    IsFaithfulOn (fun xs => ∀ x ∈ xs, p x) (Json.ofList write) := by
  intro xs ys hxs hys heq
  rw [Json.ofList, Json.ofList, canonical, canonical, canonicalItems_eq_map,
    canonicalItems_eq_map, List.map_map, List.map_map] at heq
  replace heq := Json.arr.inj heq
  induction xs generalizing ys with
  | nil => exact (List.map_eq_nil_iff.mp heq.symm).symm
  | cons x xs ih =>
    cases ys with
    | nil => cases heq
    | cons y ys =>
      obtain ⟨hx, hxs⟩ := List.forall_mem_cons.mp hxs
      obtain ⟨hy, hys⟩ := List.forall_mem_cons.mp hys
      obtain ⟨hhead, htail⟩ := List.cons.inj heq
      rw [h x y hx hy hhead, ih ys hxs hys htail]

/-- An optional value is written faithfully where null stands for no
value. -/
theorem IsFaithful.ofOption (h : IsFaithful write) (hnull : ∀ a, (write a).canonical ≠ .null) :
    IsFaithful (Json.ofOption write) := by
  intro x y _ _ heq
  cases x with
  | none =>
    cases y with
    | none => rfl
    | some b => exact absurd heq.symm (hnull b)
  | some a =>
    cases y with
    | none => exact absurd heq (hnull a)
    | some b => rw [h a b trivial trivial heq]

theorem IsFaithfulOn.ofMap (h : IsFaithfulOn p write) :
    IsFaithfulOn (fun m => ∀ e ∈ m.entries, p e.2) (Json.ofMap write) := by
  intro m n hm hn heq
  rw [Json.ofMap, Json.ofMap, canonical, canonical,
    canonicalMembers_of_ascending (Entries.ascending_map m.ascending write),
    canonicalMembers_of_ascending (Entries.ascending_map n.ascending write),
    List.map_map, List.map_map] at heq
  have hkeep := Entries.get?_map fun value => (write value).canonical
  refine SortedMap.ext_get? fun key => ?_
  have hlookup : (m.get? key).map (fun value => (write value).canonical)
      = (n.get? key).map fun value => (write value).canonical :=
    (hkeep key _).symm.trans ((congrArg (Entries.get? key) (Json.obj.inj heq)).trans (hkeep key _))
  cases hv : m.get? key with
  | none =>
    rw [hv, Option.map_none, eq_comm, Option.map_eq_none_iff] at hlookup
    exact hlookup.symm
  | some v =>
    rw [hv, Option.map_some, eq_comm, Option.map_eq_some_iff] at hlookup
    obtain ⟨w, hw, hvw⟩ := hlookup
    have hpv := hm _ (SortedMap.get?_eq_some_iff.mp hv)
    have hpw := hn _ (SortedMap.get?_eq_some_iff.mp hw)
    rw [hw, h w v hpw hpv hvw]

/-- A name is written as a text, so a writer of distinct names is
faithful. -/
theorem IsFaithfulOn.ofName {name : α → String}
    (h : ∀ a b, p a → p b → name a = name b → a = b) :
    IsFaithfulOn p fun a => Json.str (name a) := by
  intro a b ha hb heq
  rw [canonical, canonical] at heq
  exact h a b ha hb (Json.str.inj heq)

end Writers

/-- Two records with the same members agree on each of them. -/
theorem canonical_member_eq {xs ys : List (String × Json)}
    (h : (Json.obj xs).canonical = (Json.obj ys).canonical) (key : String) {a b : Json}
    (ha : Entries.get? key xs.reverse = some a) (hb : Entries.get? key ys.reverse = some b) :
    a.canonical = b.canonical := by
  rw [canonical, canonical] at h
  have hkey := canonicalMembers_eq_iff.1 (Json.obj.inj h) key
  rw [ha, hb] at hkey
  exact Option.some.inj hkey

/-! ## Order of insertion -/

/-- The same value up to the order in which different keys of its objects
were inserted, at any depth. -/
inductive Reordered : Json → Json → Prop
  | same (j : Json) : Reordered j j
  | item {x y : Json} {xs ys : List Json} :
      Reordered x y → Reordered (.arr xs) (.arr ys) → Reordered (.arr (x :: xs)) (.arr (y :: ys))
  | obj {xs ys : List (String × Json)} :
      Entries.Reordered Reordered xs ys → Reordered (.obj xs) (.obj ys)

mutual

/-- **The canonical form forgets the order of insertion.** -/
theorem canonical_eq_of_reordered : ∀ {a b : Json}, Reordered a b → a.canonical = b.canonical
  | _, _, .same _ => rfl
  | _, _, .item hitem hrest => by
      have hitems := Json.arr.inj (canonical_eq_of_reordered hrest)
      rw [canonical, canonical, canonicalItems, canonicalItems,
        canonical_eq_of_reordered hitem, hitems]
  | _, _, .obj h => by rw [canonical, canonical, canonicalMembers_eq_of_reordered h]

theorem canonicalMembers_eq_of_reordered : ∀ {xs ys : List (String × Json)},
    Entries.Reordered Reordered xs ys → canonicalMembers xs = canonicalMembers ys
  | _, _, .nil => rfl
  | _, _, .cons hvalue hrest => by
      rw [canonicalMembers, canonicalMembers, canonicalMembers_eq_of_reordered hrest,
        canonical_eq_of_reordered hvalue]
  | _, _, .swap v w xs hne => by
      apply canonicalMembers_eq_iff.2
      intro key
      rw [Entries.get?_reverse_swap hne]
  | _, _, .trans h₁ h₂ => by
      rw [canonicalMembers_eq_of_reordered h₁, canonicalMembers_eq_of_reordered h₂]

end

end Downlevel.Json
