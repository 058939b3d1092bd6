/-
Downlevel.Proofs.Text.Lines — a text and its lines.

Cutting a text at its line breaks and putting lines together are inverse to each
other (`ofLines_lines`, `lines_ofLines`), as long as there is a line and no line
holds a break. So a text says what its lines are. Lines that are put together in
groups, and then the groups, give the same text (`intercalate_flatten`).
-/
import Downlevel.Text.CharClass

namespace Downlevel.Text

/-! ## Pieces -/

/-- Cutting at a character is what lists have for it. -/
theorem splitAt_eq_splitOn (c : Char) (text : List Char) : splitAt c text = text.splitOn c := by
  induction text with
  | nil => rfl
  | cons x rest ih =>
    rw [splitAt, List.splitOn_cons_eq_if_modifyHead, ih]
    by_cases hx : x = c
    · rw [if_pos hx, if_pos (beq_iff_eq.mpr hx)]
    · rw [if_neg hx, if_neg (by simpa using hx)]
      cases hrest : rest.splitOn c with
      | nil => exact absurd hrest (List.splitOn_ne_nil c rest)
      | cons first others => rfl

/-- No piece holds the character. -/
theorem notMem_of_mem_splitOn {c : Char} {text piece : List Char} (h : piece ∈ text.splitOn c) :
    c ∉ piece := by
  induction text generalizing piece with
  | nil =>
    obtain rfl := List.mem_singleton.mp h
    exact List.not_mem_nil
  | cons x rest ih =>
    rw [List.splitOn_cons_eq_if_modifyHead] at h
    split at h
    · rcases List.mem_cons.mp h with rfl | hrest
      · exact List.not_mem_nil
      · exact ih hrest
    · next hx =>
      obtain ⟨first, others, hpieces⟩ := List.exists_cons_of_ne_nil (List.splitOn_ne_nil c rest)
      rw [hpieces] at h ih
      rcases List.mem_cons.mp h with rfl | hothers
      · have hfirst := ih (List.mem_cons_self : first ∈ first :: others)
        rw [List.mem_cons, not_or]
        exact ⟨fun heq => hx (beq_iff_eq.mpr heq.symm), hfirst⟩
      · exact ih (List.mem_cons_of_mem first hothers)

/-! ## Groups -/

theorem intercalate_append {α : Type} (separator : List α) {front back : List (List α)}
    (hfront : front ≠ []) (hback : back ≠ []) :
    List.intercalate separator (front ++ back)
      = List.intercalate separator front ++ separator ++ List.intercalate separator back := by
  induction front with
  | nil => exact absurd rfl hfront
  | cons item front ih =>
    cases front with
    | nil =>
      obtain ⟨next, more, rfl⟩ := List.exists_cons_of_ne_nil hback
      rw [List.singleton_append, List.intercalate_cons_cons, List.intercalate_singleton]
    | cons other front =>
      rw [List.cons_append, List.cons_append, List.intercalate_cons_cons, ← List.cons_append,
        ih (List.cons_ne_nil _ _), List.intercalate_cons_cons]
      simp only [List.append_assoc]

/-- **Groups that are put together one after the other** give what their items
give. -/
theorem intercalate_flatten {α : Type} (separator : List α) {groups : List (List (List α))}
    (h : ∀ group ∈ groups, group ≠ []) :
    List.intercalate separator (groups.map (List.intercalate separator))
      = List.intercalate separator groups.flatten := by
  induction groups with
  | nil => rfl
  | cons group groups ih =>
    obtain ⟨hgroup, hgroups⟩ := List.forall_mem_cons.mp h
    cases groups with
    | nil => simp only [List.map_singleton, List.intercalate_singleton, List.flatten_singleton]
    | cons next more =>
      have hrest : (next :: more).flatten ≠ [] := by
        have hnext : next ≠ [] := hgroups next List.mem_cons_self
        simp [hnext]
      rw [List.flatten_cons, intercalate_append separator hgroup hrest, ← ih hgroups,
        List.map_cons, List.map_cons, List.intercalate_cons_cons]

/-! ## Lines -/

/-- The lines of a text; always at least one. -/
def lines (text : String) : List (List Char) := splitAt '\n' text.toList

/-- The text that some lines are. -/
def ofLines (lines : List (List Char)) : String := String.ofList (List.intercalate ['\n'] lines)

theorem lines_ne_nil (text : String) : lines text ≠ [] := by
  rw [lines, splitAt_eq_splitOn]
  exact List.splitOn_ne_nil _ _

theorem notMem_of_mem_lines {text : String} {line : List Char} (h : line ∈ lines text) :
    '\n' ∉ line := by
  rw [lines, splitAt_eq_splitOn] at h
  exact notMem_of_mem_splitOn h

@[simp] theorem ofLines_lines (text : String) : ofLines (lines text) = text := by
  rw [ofLines, lines, splitAt_eq_splitOn, List.intercalate_splitOn, String.ofList_toList]

theorem lines_ofLines {lines : List (List Char)} (hsome : lines ≠ [])
    (h : ∀ line ∈ lines, '\n' ∉ line) : Text.lines (ofLines lines) = lines := by
  rw [Text.lines, ofLines, String.toList_ofList, splitAt_eq_splitOn,
    List.splitOn_intercalate _ h hsome]

end Downlevel.Text
