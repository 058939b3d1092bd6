/-
Downlevel.Proofs.Chunk.Partition — which lines of a text are in which chunk.

Line `i` of a text is in chunk `i / size`. A chunk is the text of its lines
(`textAt?_eq`), and a text says what its lines are. So the chunks of two texts
at one place are the same exactly where the lines at their places are
(`textAt?_eq_iff`).
-/
import Downlevel.Chunk.Basic
import Downlevel.Proofs.Text.Lines

namespace Downlevel.Chunk

open Text (lines ofLines)

/-! ## Groups -/

section Groups

variable {α : Type} {size : Nat}

/-- The items of a group: `size` of them, or what is left. -/
def slot (size k : Nat) (items : List α) : List α := (items.drop (k * size)).take size

theorem slot_eq_nil_iff (hsize : 0 < size) {k : Nat} {items : List α} :
    slot size k items = [] ↔ items.length ≤ k * size := by
  rw [slot, List.take_eq_nil_iff, List.drop_eq_nil_iff]
  exact or_iff_right (Nat.ne_of_gt hsize)

theorem getElem?_slot {j : Nat} (hj : j < size) (k : Nat) (items : List α) :
    (slot size k items)[j]? = items[k * size + j]? := by
  rw [slot, List.getElem?_take_of_lt hj, List.getElem?_drop]

/-- **Two lists agree on a group exactly where they agree at its places.** -/
theorem slot_eq_iff (hsize : 0 < size) {k : Nat} {items others : List α} :
    slot size k items = slot size k others ↔ ∀ i, i / size = k → items[i]? = others[i]? := by
  constructor
  · intro h i hi
    have hplace : i = k * size + i % size := by
      rw [← hi, Nat.mul_comm]
      exact (Nat.div_add_mod i size).symm
    rw [hplace, ← getElem?_slot (Nat.mod_lt i hsize), h, getElem?_slot (Nat.mod_lt i hsize)]
  · intro h
    apply List.ext_getElem?
    intro j
    by_cases hj : j < size
    · rw [getElem?_slot hj, getElem?_slot hj]
      refine h _ ?_
      rw [Nat.mul_comm, Nat.mul_add_div hsize, Nat.div_eq_of_lt hj, Nat.add_zero]
    · have hend : ∀ items : List α, (slot size k items)[j]? = none := by
        intro items
        rw [List.getElem?_eq_none_iff, slot]
        exact Nat.le_trans (List.length_take_le _ _) (Nat.le_of_not_lt hj)
      rw [hend, hend]

theorem flatten_groups (size : Nat) (items : List α) : (groups size items).flatten = items := by
  fun_induction groups size items with
  | case1 => rfl
  | case2 x rest ih =>
    rw [List.flatten_cons, ih, List.cons_append, List.take_append_drop]

theorem ne_nil_of_mem_groups {items group : List α} (h : group ∈ groups size items) :
    group ≠ [] := by
  fun_induction groups size items with
  | case1 => cases h
  | case2 x rest ih =>
    rcases List.mem_cons.mp h with rfl | hrest
    · exact List.cons_ne_nil _ _
    · exact ih hrest

/-- The groups are the slots that hold something. -/
theorem getElem?_groups (hsize : 0 < size) (items : List α) (k : Nat) :
    (groups size items)[k]?
      = if k * size < items.length then some (slot size k items) else none := by
  obtain ⟨n, rfl⟩ : ∃ n, size = n + 1 := ⟨size - 1, by omega⟩
  fun_induction groups (n + 1) items generalizing k with
  | case1 => simp
  | case2 x rest ih =>
    cases k with
    | zero => simp [slot]
    | succ k =>
      have hplaces : (k + 1) * (n + 1) = k * (n + 1) + n + 1 := by
        rw [Nat.succ_mul]
        omega
      have hbound : (k + 1) * (n + 1) < (x :: rest).length
          ↔ k * (n + 1) < (rest.drop n).length := by
        rw [hplaces, List.length_cons, List.length_drop]
        omega
      have hslot : slot (n + 1) (k + 1) (x :: rest) = slot (n + 1) k (rest.drop n) := by
        rw [slot, slot, List.drop_drop, hplaces, List.drop_succ_cons,
          Nat.add_comm n (k * (n + 1))]
      rw [List.getElem?_cons_succ, ih k, hslot]
      simp only [hbound, Nat.add_sub_cancel]

end Groups

/-! ## Chunks -/

variable {size : Nat}

/-- The text of the chunk at a place. -/
def textAt? (size : Nat) (text : String) (k : Nat) : Option String :=
  ((partition size text)[k]?).map (·.text)

theorem map_text_partition (size : Nat) (text : String) :
    (partition size text).map (·.text) = (groups size (lines text)).map ofLines := by
  apply List.ext_getElem?
  intro k
  rw [partition, List.getElem?_map, List.getElem?_mapIdx, Option.map_map, List.getElem?_map]
  rfl

theorem length_partition_gt_iff (hsize : 0 < size) {text : String} {k : Nat} :
    k < (partition size text).length ↔ k * size < (lines text).length := by
  have hlength : (partition size text).length = (groups size (lines text)).length := by
    rw [partition, List.length_mapIdx]
    rfl
  rw [hlength, ← Nat.not_le, ← List.getElem?_eq_none_iff, getElem?_groups hsize]
  split
  · next h => exact iff_of_true (Option.some_ne_none _) h
  · next h => exact iff_of_false (fun hne => hne rfl) h

/-- **A chunk is the text of its lines.** -/
theorem textAt?_eq (hsize : 0 < size) (text : String) (k : Nat) :
    textAt? size text k
      = if k * size < (lines text).length then some (ofLines (slot size k (lines text)))
        else none := by
  have hplace : textAt? size text k = ((partition size text).map (·.text))[k]? := by
    rw [List.getElem?_map]
    rfl
  rw [hplace, map_text_partition, List.getElem?_map, getElem?_groups hsize]
  split <;> rfl

/-- The text of a chunk has the lines of the chunk. -/
theorem lines_ofLines_slot (hsize : 0 < size) {text : String} {k : Nat}
    (hk : k * size < (lines text).length) :
    lines (ofLines (slot size k (lines text))) = slot size k (lines text) := by
  refine Text.lines_ofLines ?_ ?_
  · rw [Ne, slot_eq_nil_iff hsize]
    exact Nat.not_le.mpr hk
  · intro line hline
    exact Text.notMem_of_mem_lines (List.mem_of_mem_drop (List.mem_of_mem_take hline))

/-- **The chunks of two texts at a place are the same exactly where their lines
are.** -/
theorem textAt?_eq_iff (hsize : 0 < size) {t u : String} {k : Nat} :
    textAt? size t k = textAt? size u k
      ↔ ∀ i, i / size = k → (lines t)[i]? = (lines u)[i]? := by
  rw [← slot_eq_iff hsize, textAt?_eq hsize, textAt?_eq hsize]
  have hempty : ∀ {text : String}, ¬ k * size < (lines text).length →
      slot size k (lines text) = [] :=
    fun h => (slot_eq_nil_iff hsize).mpr (Nat.le_of_not_lt h)
  have hsome : ∀ {text : String}, k * size < (lines text).length →
      slot size k (lines text) ≠ [] :=
    fun h hnil => Nat.not_le.mpr h ((slot_eq_nil_iff hsize).mp hnil)
  by_cases ht : k * size < (lines t).length
  · by_cases hu : k * size < (lines u).length
    · rw [if_pos ht, if_pos hu, Option.some_inj]
      constructor
      · intro h
        rw [← lines_ofLines_slot hsize ht, h, lines_ofLines_slot hsize hu]
      · intro h
        rw [h]
    · rw [if_pos ht, if_neg hu, hempty hu]
      exact iff_of_false (Option.some_ne_none _) (hsome ht)
  · by_cases hu : k * size < (lines u).length
    · rw [if_neg ht, if_pos hu, hempty ht]
      exact iff_of_false (Option.some_ne_none _).symm (hsome hu).symm
    · rw [if_neg ht, if_neg hu, hempty ht, hempty hu]
      exact iff_of_true rfl rfl

/-- **Joined at line breaks the chunks are the text.** -/
theorem join_partition (size : Nat) (text : String) :
    Text.join "\n" ((partition size text).map (·.text)) = text := by
  have hchars : (groups size (lines text)).map (String.toList ∘ ofLines)
      = (groups size (lines text)).map (List.intercalate ['\n']) := by
    refine List.map_congr_left fun group _ => ?_
    rw [Function.comp_apply, ofLines, String.toList_ofList]
  have hbreak : "\n".toList = ['\n'] := rfl
  rw [Text.join, map_text_partition, List.map_map, hchars, hbreak,
    Text.intercalate_flatten _ fun group h => ne_nil_of_mem_groups h, flatten_groups]
  exact Text.ofLines_lines text

/-- **Every chunk but the last has `size` lines.** -/
theorem length_lines_of_lt (hsize : 0 < size) {text : String} {k : Nat} {chunk : Chunk}
    (hchunk : (partition size text)[k]? = some chunk)
    (hlast : k + 1 < (partition size text).length) : (lines chunk.text).length = size := by
  have hnext := (length_partition_gt_iff hsize).mp hlast
  rw [Nat.succ_mul] at hnext
  have hk : k * size < (lines text).length := by omega
  have htext : textAt? size text k = some chunk.text := by
    rw [textAt?, hchunk]
    rfl
  rw [textAt?_eq hsize, if_pos hk] at htext
  rw [← Option.some.inj htext, lines_ofLines_slot hsize hk, slot, List.length_take,
    List.length_drop]
  omega

end Downlevel.Chunk
