/-
Downlevel.Proofs.Text.Boundaries — cuts of a text at byte offsets.

A cut by bytes succeeds where both its ends fall between two characters and
stand in order (`byteSlice?_isSome_iff`), and then gives the characters between
them (`byteSlice?_eq_some_iff`). Every place of a text, counted in characters,
has such an offset (`byteOffset`); so a cut by characters is also one by bytes
(`byteSlice?_byteOffset`).
-/
import Downlevel.Pattern.Basic
import Downlevel.Text.Bytes

namespace Downlevel.Text

variable {cs u v w : List Char} {c : Char} {i j n : Nat}

/-! ## Sizes -/

@[simp] theorem byteSize_nil : byteSize [] = 0 := rfl

@[simp] theorem byteSize_cons (c : Char) (cs : List Char) :
    byteSize (c :: cs) = c.utf8Size + byteSize cs := rfl

@[simp] theorem byteSize_append (u v : List Char) :
    byteSize (u ++ v) = byteSize u + byteSize v := by
  induction u with
  | nil => exact (Nat.zero_add _).symm
  | cons c u ih => rw [List.cons_append, byteSize_cons, byteSize_cons, ih, Nat.add_assoc]

theorem length_le_byteSize (cs : List Char) : cs.length ≤ byteSize cs := by
  induction cs with
  | nil => exact Nat.le_refl 0
  | cons c cs ih =>
    have := c.utf8Size_pos
    rw [List.length_cons, byteSize_cons]
    omega

theorem byteSize_pos (h : cs ≠ []) : 0 < byteSize cs :=
  Nat.lt_of_lt_of_le (List.length_pos_iff.mpr h) (length_le_byteSize cs)

theorem byteSize_lt (u v : List Char) (c : Char) : byteSize u < byteSize (u ++ c :: v) := by
  have := c.utf8Size_pos
  rw [byteSize_append, byteSize_cons]
  omega

/-! ## Cuts -/

theorem dropBytes?_append (u v : List Char) : dropBytes? (byteSize u) (u ++ v) = some v := by
  induction u with
  | nil => cases v <;> rfl
  | cons c u ih =>
    obtain ⟨n, hn⟩ := Nat.exists_eq_succ_of_ne_zero (Nat.ne_of_gt c.utf8Size_pos)
    have hsize : byteSize (c :: u) = n + byteSize u + 1 := by rw [byteSize_cons, hn]; omega
    have hrest : n + byteSize u + 1 - n.succ = byteSize u := by omega
    rw [hsize, List.cons_append, dropBytes?, if_pos (by omega), hn, hrest]
    exact ih

theorem takeBytes?_append (u v : List Char) : takeBytes? (byteSize u) (u ++ v) = some u := by
  induction u with
  | nil => cases v <;> rfl
  | cons c u ih =>
    obtain ⟨n, hn⟩ := Nat.exists_eq_succ_of_ne_zero (Nat.ne_of_gt c.utf8Size_pos)
    have hsize : byteSize (c :: u) = n + byteSize u + 1 := by rw [byteSize_cons, hn]; omega
    have hrest : n + byteSize u + 1 - n.succ = byteSize u := by omega
    rw [hsize, List.cons_append, takeBytes?, if_pos (by omega), hn, hrest, ih]
    rfl

theorem dropBytes?_eq_some_iff :
    dropBytes? n cs = some v ↔ ∃ u, cs = u ++ v ∧ byteSize u = n := by
  constructor
  · intro h
    fun_induction dropBytes? n cs with
    | case1 cs => exact ⟨[], by rw [Option.some.inj h]; rfl, rfl⟩
    | case2 => cases h
    | case3 n c rest hle ih =>
      obtain ⟨u, rfl, hu⟩ := ih h
      exact ⟨c :: u, rfl, by rw [byteSize_cons, hu, Nat.add_sub_cancel' hle]⟩
    | case4 => cases h
  · rintro ⟨u, rfl, rfl⟩
    exact dropBytes?_append u v

theorem takeBytes?_eq_some_iff :
    takeBytes? n cs = some u ↔ ∃ v, cs = u ++ v ∧ byteSize u = n := by
  constructor
  · intro h
    fun_induction takeBytes? n cs generalizing u with
    | case1 cs => exact ⟨cs, by rw [← Option.some.inj h]; rfl, by rw [← Option.some.inj h]; rfl⟩
    | case2 => cases h
    | case3 n c rest hle ih =>
      obtain ⟨u, hu, rfl⟩ := Option.map_eq_some_iff.mp h
      obtain ⟨v, rfl, hsize⟩ := ih hu
      exact ⟨v, rfl, by rw [byteSize_cons, hsize, Nat.add_sub_cancel' hle]⟩
    | case4 => cases h
  · rintro ⟨v, rfl, rfl⟩
    exact takeBytes?_append u v

/-- **What a cut gives** stands between its ends. -/
theorem byteSlice?_eq_some_iff :
    byteSlice? cs i j = some w
      ↔ ∃ u v, cs = u ++ (w ++ v) ∧ byteSize u = i ∧ byteSize u + byteSize w = j := by
  rw [byteSlice?]
  constructor
  · intro h
    split at h
    · next hle =>
      obtain ⟨rest, hdrop, htake⟩ := Option.bind_eq_some_iff.mp h
      obtain ⟨u, rfl, hu⟩ := dropBytes?_eq_some_iff.mp hdrop
      obtain ⟨v, rfl, hw⟩ := takeBytes?_eq_some_iff.mp htake
      exact ⟨u, v, rfl, hu, by omega⟩
    · cases h
  · rintro ⟨u, v, rfl, rfl, rfl⟩
    rw [if_pos (Nat.le_add_right _ _), dropBytes?_append, Option.bind_some,
      Nat.add_sub_cancel_left, takeBytes?_append]

theorem byteSlice?_append (u w v : List Char) :
    byteSlice? (u ++ (w ++ v)) (byteSize u) (byteSize u + byteSize w) = some w :=
  byteSlice?_eq_some_iff.mpr ⟨u, v, rfl, rfl, rfl⟩

theorem byteSlice?_start (u v : List Char) : byteSlice? (u ++ v) 0 (byteSize u) = some u :=
  byteSlice?_eq_some_iff.mpr ⟨[], v, rfl, rfl, Nat.zero_add _⟩

theorem byteSlice?_end (u v : List Char) :
    byteSlice? (u ++ v) (byteSize u) (byteSize (u ++ v)) = some v :=
  byteSlice?_eq_some_iff.mpr ⟨u, [], by rw [List.append_nil], rfl, (byteSize_append u v).symm⟩

/-- The byte offset lies between two characters, or at an end of the text. -/
def IsBoundary (cs : List Char) (i : Nat) : Prop := ∃ u v, cs = u ++ v ∧ byteSize u = i

theorem IsBoundary.le (h : IsBoundary cs i) : i ≤ byteSize cs := by
  obtain ⟨u, v, rfl, rfl⟩ := h
  rw [byteSize_append]
  exact Nat.le_add_right _ _

/-- Two starts of a text in the order of their sizes. -/
theorem exists_append_of_byteSize_le {u' v' : List Char} (h : u ++ v = u' ++ v')
    (hle : byteSize u ≤ byteSize u') : ∃ w, u' = u ++ w ∧ v = w ++ v' := by
  rcases List.append_eq_append_iff.mp h with ⟨w, rfl, rfl⟩ | ⟨w, rfl, rfl⟩
  · exact ⟨w, rfl, rfl⟩
  · obtain rfl : w = [] := by
      refine Decidable.byContradiction fun hne => ?_
      have := byteSize_pos hne
      rw [byteSize_append] at hle
      omega
    exact ⟨[], by simp, by simp⟩

/-- **Which cuts succeed**: those whose ends are in order, within the text and
between two characters. -/
theorem byteSlice?_isSome_iff :
    (byteSlice? cs i j).isSome = true
      ↔ i ≤ j ∧ j ≤ byteSize cs ∧ IsBoundary cs i ∧ IsBoundary cs j := by
  constructor
  · intro h
    obtain ⟨w, hw⟩ := Option.isSome_iff_exists.mp h
    obtain ⟨u, v, rfl, rfl, rfl⟩ := byteSlice?_eq_some_iff.mp hw
    have hstop : IsBoundary (u ++ (w ++ v)) (byteSize u + byteSize w) :=
      ⟨u ++ w, v, (List.append_assoc _ _ _).symm, byteSize_append u w⟩
    exact ⟨Nat.le_add_right _ _, hstop.le, ⟨u, w ++ v, rfl, rfl⟩, hstop⟩
  · rintro ⟨hle, -, ⟨u, v, rfl, rfl⟩, ⟨u', v', heq, rfl⟩⟩
    obtain ⟨w, rfl, rfl⟩ := exists_append_of_byteSize_le heq hle
    rw [byteSize_append, byteSlice?_append]
    rfl

/-! ## Places counted in characters -/

/-- The byte at which a place stands. -/
def byteOffset (cs : List Char) (n : Nat) : Nat := byteSize (cs.take n)

@[simp] theorem byteOffset_zero (cs : List Char) : byteOffset cs 0 = 0 := rfl

theorem byteOffset_append (u v : List Char) : byteOffset (u ++ v) u.length = byteSize u := by
  rw [byteOffset, List.take_left' rfl]

theorem byteOffset_length (cs : List Char) : byteOffset cs cs.length = byteSize cs := by
  rw [byteOffset, List.take_length]

theorem isBoundary_byteOffset (cs : List Char) (n : Nat) : IsBoundary cs (byteOffset cs n) :=
  ⟨cs.take n, cs.drop n, (List.take_append_drop n cs).symm, rfl⟩

theorem byteOffset_add (cs : List Char) (i n : Nat) :
    byteOffset cs (i + n) = byteOffset cs i + byteSize ((cs.drop i).take n) := by
  rw [byteOffset, List.take_add, byteSize_append, byteOffset]

theorem byteOffset_mono (h : i ≤ j) : byteOffset cs i ≤ byteOffset cs j := by
  obtain ⟨n, rfl⟩ := Nat.exists_eq_add_of_le h
  rw [byteOffset_add]
  exact Nat.le_add_right _ _

theorem byteOffset_lt (h : i < j) (hj : j ≤ cs.length) : byteOffset cs i < byteOffset cs j := by
  obtain ⟨n, rfl⟩ := Nat.exists_eq_add_of_le (Nat.le_of_lt h)
  rw [byteOffset_add]
  refine Nat.lt_add_of_pos_right (byteSize_pos ?_)
  refine List.ne_nil_of_length_pos ?_
  rw [List.length_take, List.length_drop]
  omega

/-- What gets further within a text does so in bytes. -/
theorem byteOffset_further (h : i < j) (hj : j ≤ cs.length) :
    byteOffset cs i < byteOffset cs j ∧ byteOffset cs j ≤ byteSize cs :=
  ⟨byteOffset_lt h hj, (isBoundary_byteOffset cs j).le⟩

/-- Offsets in bytes are in the order of the places. -/
theorem byteOffset_lt_iff (hj : j ≤ cs.length) :
    byteOffset cs i < byteOffset cs j ↔ i < j :=
  ⟨fun h => Nat.lt_of_not_le fun hle => Nat.not_le_of_lt h (byteOffset_mono hle),
    fun h => byteOffset_lt h hj⟩

/-- **A cut between two places** is the same in bytes. -/
theorem byteSlice?_byteOffset (h : i ≤ j) (hj : j ≤ cs.length) :
    byteSlice? cs (byteOffset cs i) (byteOffset cs j) = some (Pattern.slice cs i j) := by
  obtain ⟨n, rfl⟩ := Nat.exists_eq_add_of_le h
  have hcs : cs = cs.take i ++ (Pattern.slice cs i (i + n) ++ cs.drop (i + n)) := by
    rw [Pattern.slice, Nat.add_sub_cancel_left, ← List.drop_drop, List.take_append_drop,
      List.take_append_drop]
  refine byteSlice?_eq_some_iff.mpr ⟨_, _, hcs, rfl, ?_⟩
  rw [byteOffset_add, Pattern.slice, Nat.add_sub_cancel_left]
  rfl

theorem byteSlice?_to_end (hi : i ≤ cs.length) :
    byteSlice? cs (byteOffset cs i) (byteSize cs) = some (cs.drop i) := by
  have hcut : byteSlice? cs (byteOffset cs i) (byteOffset cs cs.length) = _ :=
    byteSlice?_byteOffset hi (Nat.le_refl _)
  rwa [byteOffset_length, Pattern.slice, ← List.length_drop, List.take_length] at hcut

end Downlevel.Text
