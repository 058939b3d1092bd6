/-
Downlevel.Proofs.Code.ArrowEdits — the new text as an edit of the old one.

Each arrow stands for a few edits of the text (`Arrow.edits`): its head gives
way to the head of a function, and where no block follows, a block is opened
behind it and closed behind the body. The edits of all arrows, inner ones
included, stand from left to right, and the new text is the old one with just
these made (`lowered_eq_patch`). So nothing is lost or doubled between them.

The induction is on the pieces, with whatever edits come after them as a
parameter: `editsIn` and what follows are in order (`inOrder_editsIn`), and
making them writes the new form of the pieces (`patchFrom_editsIn`).
-/
import Downlevel.Proofs.Code.ArrowPlaces
import Downlevel.Proofs.Pattern.NameEnds

namespace Downlevel.Code.Arrows

open Pattern

/-! ## Edits -/

/-- The head of the function that takes the place of an arrow. -/
def newHead (parameters : List Char) : List Char :=
  "function(".toList ++ (parameters ++ ") ".toList)

/-- A text put in at a place. -/
def insertion (place : Nat) (text : List Char) : Replacement := ⟨⟨place, place⟩, text⟩

/-- What opens a block around an expression, and what closes it. -/
def blockStart : List Char := "\x7b return ".toList

def blockEnd : List Char := "; \x7d".toList

/-- The edits that an arrow stands for. -/
def Arrow.edits (a : Arrow) : List Replacement :=
  let start := a.before.length
  let stop := start + a.head.length
  ⟨⟨start, stop⟩, newHead a.parameters⟩ ::
    match a.body with
    | none => []
    | some body => [insertion stop blockStart, insertion (stop + body.length) blockEnd]

mutual

/-- The edits of a piece that stands at an offset, from left to right. -/
def ArrowPiece.edits (offset : Nat) : ArrowPiece → List Replacement
  | .kept _ => []
  | .blockHead head parameters => [⟨⟨offset, offset + head.length⟩, newHead parameters⟩]
  | .expression head parameters body =>
    ⟨⟨offset, offset + head.length⟩, newHead parameters⟩
      :: insertion (offset + head.length) blockStart
      :: (editsIn (offset + head.length) body
        ++ [insertion (offset + head.length + (givenAll body).length) blockEnd])

def editsIn (offset : Nat) : List ArrowPiece → List Replacement
  | [] => []
  | piece :: rest => piece.edits offset ++ editsIn (offset + piece.given.length) rest

end

/-- The edits of a text, from left to right. -/
def edits (source : List Char) : List Replacement := editsIn 0 (pieces source)

section Edits

variable (offset : Nat) (head parameters text : List Char) (body rest : List ArrowPiece)

theorem editsIn_kept :
    editsIn offset (.kept text :: rest) = editsIn (offset + text.length) rest := rfl

theorem editsIn_blockHead :
    editsIn offset (.blockHead head parameters :: rest)
      = ⟨⟨offset, offset + head.length⟩, newHead parameters⟩
        :: editsIn (offset + head.length) rest := rfl

theorem editsIn_expression :
    editsIn offset (.expression head parameters body :: rest)
      = ⟨⟨offset, offset + head.length⟩, newHead parameters⟩
        :: insertion (offset + head.length) blockStart
        :: (editsIn (offset + head.length) body
          ++ insertion (offset + head.length + (givenAll body).length) blockEnd
          :: editsIn (offset + head.length + (givenAll body).length) rest) := by
  simp [editsIn, ArrowPiece.edits, ArrowPiece.given, Nat.add_assoc]

end Edits

/-! ## The edits are those of the arrows -/

/-- Pieces are edited as the arrows in them are. -/
theorem editsIn_perm {ps : List ArrowPiece} {behind : List Char} (hshape : AreShaped ps behind) :
    ∀ before after : List Char,
      (editsIn before.length ps).Perm ((arrowsIn before after ps).flatMap Arrow.edits) := by
  induction hshape with
  | kept text behind => exact fun _ _ => .refl _
  | @blockHead text head parameters behind rest _ _ ih =>
    intro before after
    have hrest := ih (before ++ text ++ head) after
    rw [editsIn_kept, editsIn_blockHead, arrowsIn_kept, arrowsIn_blockHead, List.flatMap_cons]
    simp only [Arrow.edits, List.length_append] at hrest ⊢
    exact hrest.cons _
  | @expression text head parameters behind body rest _ _ _ _ ihBody ihRest =>
    intro before after
    have hbody := ihBody (before ++ text ++ head) (givenAll rest ++ after)
    have hrest := ihRest (before ++ text ++ (head ++ givenAll body)) after
    rw [editsIn_kept, editsIn_expression, arrowsIn_kept, arrowsIn_expression, List.flatMap_cons,
      List.flatMap_append]
    simp only [Arrow.edits, List.length_append, ← Nat.add_assoc] at hbody hrest ⊢
    exact (List.perm_middle.trans ((hbody.append hrest).cons _)).cons _ |>.cons _

/-! ## They stand in order -/

theorem inOrder_editsIn {ps : List ArrowPiece} {behind : List Char} (hshape : AreShaped ps behind) :
    ∀ {offset : Nat} {later : List Replacement},
      InOrder (offset + (givenAll ps).length) later →
        InOrder offset (editsIn offset ps ++ later) := by
  induction hshape with
  | kept text behind =>
    intro offset later hlater
    exact hlater.weaken (Nat.le_add_right _ _)
  | @blockHead text head parameters behind rest _ _ ih =>
    intro offset later hlater
    rw [editsIn_kept, editsIn_blockHead]
    refine ⟨Nat.le_add_right _ _, Nat.le_add_right _ _, ih ?_⟩
    simpa [givenAll, ArrowPiece.given, Nat.add_assoc] using hlater
  | @expression text head parameters behind body rest _ _ _ _ ihBody ihRest =>
    intro offset later hlater
    rw [editsIn_kept, editsIn_expression]
    rw [List.cons_append, List.cons_append, List.append_assoc, List.cons_append]
    refine ⟨Nat.le_add_right _ _, Nat.le_add_right _ _, Nat.le_refl _, Nat.le_refl _, ?_⟩
    refine ihBody ⟨Nat.le_refl _, Nat.le_refl _, ihRest ?_⟩
    simpa [insertion, givenAll, ArrowPiece.given, Nat.add_assoc] using hlater

theorem inOrder_edits (source : List Char) : InOrder 0 (edits source) := by
  have horder : InOrder 0 (editsIn 0 (pieces source) ++ []) :=
    inOrder_editsIn (areShaped_pieces source) trivial
  rwa [List.append_nil] at horder

/-! ## What they make of the text -/

section Patched

variable {text : List Char}

/-- A replacement at an offset puts its text there. -/
theorem patchFrom_cons (text : List Char) (offset stop : Nat) (new : List Char)
    (later : List Replacement) :
    patchFrom text offset (⟨⟨offset, stop⟩, new⟩ :: later) = new ++ patchFrom text stop later := by
  simp [patchFrom, slice]

theorem patchFrom_insertion (text : List Char) (offset : Nat) (new : List Char)
    (later : List Replacement) :
    patchFrom text offset (insertion offset new :: later) = new ++ patchFrom text offset later :=
  patchFrom_cons text offset offset new later

theorem written_blockHead_eq (head parameters : List Char) :
    (ArrowPiece.blockHead head parameters).written = newHead parameters :=
  written_blockHead head parameters

theorem written_expression_eq (head parameters : List Char) (body : List ArrowPiece) :
    (ArrowPiece.expression head parameters body).written
      = newHead parameters ++ (blockStart ++ (writtenAll body ++ blockEnd)) := by
  have hreturn : ") \x7b return ".toList = ") ".toList ++ blockStart := by decide
  rw [written_expression, hreturn]
  unfold newHead blockEnd
  simp only [List.append_assoc]

/-- **Making the edits of some pieces writes their new form.** -/
theorem patchFrom_editsIn {ps : List ArrowPiece} {behind : List Char}
    (hshape : AreShaped ps behind) :
    ∀ {offset : Nat} {rest : List Char} {later : List Replacement},
      text.drop offset = givenAll ps ++ rest → InOrder (offset + (givenAll ps).length) later →
      patchFrom text offset (editsIn offset ps ++ later)
        = writtenAll ps ++ patchFrom text (offset + (givenAll ps).length) later := by
  induction hshape with
  | kept kept behind =>
    intro offset rest later hdrop hlater
    rw [givenAll_kept, givenAll, List.append_nil] at hdrop hlater ⊢
    rw [editsIn_kept, writtenAll_cons, written_kept, writtenAll, List.append_nil]
    exact patchFrom_skip hdrop hlater
  | @blockHead kept head parameters behind more _ hmore ih =>
    intro offset rest later hdrop hlater
    rw [givenAll_kept, givenAll, ArrowPiece.given] at hdrop hlater ⊢
    simp only [List.append_assoc] at hdrop
    simp only [List.length_append, ← Nat.add_assoc] at hlater ⊢
    have hhead := drop_add_of_drop hdrop
    have hmoreOrder := inOrder_editsIn hmore hlater
    rw [editsIn_kept, editsIn_blockHead, List.cons_append, patchFrom_skip hdrop, patchFrom_cons,
      ih (drop_add_of_drop hhead) hlater]
    · simp only [writtenAll_cons, written_kept, written_blockHead_eq, List.append_assoc]
    · exact ⟨Nat.le_refl _, Nat.le_add_right _ _, hmoreOrder⟩
  | @expression kept head parameters behind body more _ _ hbody hmore ihBody ihMore =>
    intro offset rest later hdrop hlater
    rw [givenAll_kept, givenAll, ArrowPiece.given] at hdrop hlater ⊢
    simp only [List.append_assoc] at hdrop
    simp only [List.length_append, ← Nat.add_assoc] at hlater ⊢
    have hhead := drop_add_of_drop hdrop
    have hinner := drop_add_of_drop hhead
    have hmoreOrder := inOrder_editsIn hmore hlater
    have hclosing : InOrder (offset + kept.length + head.length + (givenAll body).length)
        (insertion (offset + kept.length + head.length + (givenAll body).length) blockEnd
          :: (editsIn (offset + kept.length + head.length + (givenAll body).length) more
            ++ later)) :=
      ⟨Nat.le_refl _, Nat.le_refl _, hmoreOrder⟩
    have hbodyOrder := inOrder_editsIn hbody hclosing
    rw [editsIn_kept, editsIn_expression, List.cons_append, List.cons_append, List.append_assoc,
      List.cons_append, patchFrom_skip hdrop, patchFrom_cons, patchFrom_insertion,
      ihBody hinner hclosing, patchFrom_insertion, ihMore (drop_add_of_drop hinner) hlater]
    · simp only [writtenAll_cons, written_kept, written_expression_eq, List.append_assoc]
    · exact ⟨Nat.le_refl _, Nat.le_add_right _ _, Nat.le_refl _, Nat.le_refl _, hbodyOrder⟩

theorem patch_edits (source : List Char) :
    (ofText source).patch (edits source) = lowered source := by
  have hdrop : source.drop 0 = givenAll (pieces source) ++ [] := by
    rw [givenAll_pieces, List.append_nil, List.drop_zero]
  have hpatched : patchFrom source 0 (editsIn 0 (pieces source) ++ []) = _ :=
    patchFrom_editsIn (areShaped_pieces source) hdrop trivial
  rw [List.append_nil, patchFrom, Nat.zero_add, givenAll_pieces, List.drop_length,
    List.append_nil] at hpatched
  exact hpatched

end Patched

/-! ## What an arrow is -/

/-- A repetition at the end of a pattern leaves none of its characters. -/
theorem head?_behind_star {p : Pattern} {accepts : Char → Bool} {text : List Char} {place : Nat}
    {m : Match} (hplace : place ≤ text.length)
    (h : (p ++ star (char accepts)).findFrom? text place = some m) :
    ∀ x ∈ (text.drop m.stop).head?, accepts x = false := by
  obtain ⟨c, hc, hstop, -⟩ := matchAt?_of_findFrom? hplace h
  obtain ⟨passed, hpassed, hoffset, -⟩ := matchAt?_some hc
  rw [Cursor.ofOffset_rest] at hpassed
  rw [Cursor.ofOffset_offset, hstop] at hoffset
  obtain ⟨c₁, -, hrun⟩ := run_some p _ _ c hc
  have hend : ∀ x, (c₁.rest.dropWhile accepts).head? = some x → accepts x = false := by
    intro x hx
    have hnot := List.head?_dropWhile_not accepts c₁.rest
    rw [hx] at hnot
    simpa using hnot
  have hall : (star (char accepts)).run c₁ some
      = some (c₁.behind (c₁.rest.takeWhile accepts) (c₁.rest.dropWhile accepts)) :=
    run_star_char List.takeWhile_append_dropWhile.symm (List.all_eq_true.mp List.all_takeWhile)
      hend rfl
  obtain rfl := Option.some.inj (hall.symm.trans hrun)
  intro x hx
  rw [hoffset, drop_add_of_drop hpassed] at hx
  exact hend x hx

theorem Closes.append {u v : List Char} (hu : Closes u) (hv : Closes v) : Closes (u ++ v) := by
  cases u with
  | nil => exact hv
  | cons c u => exact hu

/-- An expression body does not end in a blank. -/
theorem isBlank_getLast?_expressionBody (after : List Char) :
    ∀ x ∈ (expressionBody after).getLast?, Text.isBlank x = false := by
  intro x hx
  rw [expressionBody, Text.trimEnd, List.getLast?_reverse] at hx
  have hnot := List.head?_dropWhile_not Text.isBlank (after.take (expressionEnd after)).reverse
  rw [Option.mem_def.mp hx] at hnot
  simpa using hnot

/-- An arrow of a text: a head with all blanks behind it, and no body where a
block follows. Otherwise its body is the expression that starts there, read to
the end of the text or of the expression around it. -/
structure Arrow.IsArrowOf (source : List Char) (a : Arrow) : Prop where
  whole : a.before ++ (a.head ++ a.after) = source
  head : ∃ listed, IsArrowHead a.head listed ∧ a.parameters = Text.trim listed
  blanks : ∀ c ∈ a.after.head?, Text.isBlank c = true → a.body = some []
  block : a.body = none ↔ a.after.head? = some '\x7b'
  body : ∀ body ∈ a.body, ∃ within behind, a.after = within ++ behind
    ∧ body = expressionBody within ∧ Closes behind
  ends : ∀ body ∈ a.body, (∀ c ∈ body.getLast?, Text.isBlank c = false)
    ∧ ∃ rest, a.after = body ++ rest ∧ Closes rest

theorem isArrowOf_of_mem_arrows {source : List Char} {a : Arrow} (h : a ∈ arrows source) :
    a.IsArrowOf source := by
  -- what ends an expression follows every text that is searched
  obtain ⟨before, text, after, place, m, hcloses, -, hplace, hm, -, ha⟩ :=
    exists_found_of_mem (fun _ _ after => Closes after) (fun _ _ => True)
      (fun {_ text _ m _} hafter _ _ => by
        obtain ⟨rest, hrest, hends⟩ := closes_expressionBody (text.drop m.stop)
        rw [drop_add_of_drop hrest]
        exact hends.append hafter)
      (fun _ => trivial) (fun _ _ _ => trivial) (fun _ _ => ⟨trivial, trivial⟩) source 0 0 [] []
      (Nat.le_refl 0) h nofun trivial
  have hblank := head?_behind_star hplace hm
  have hbody : ∀ body ∈ a.body, body = expressionBody (text.drop m.stop) := by
    intro body hbody
    rw [ha.body_eq] at hbody
    split at hbody
    · cases hbody
    · exact (Option.some.inj hbody).symm
  refine ⟨whole_of_mem_arrows h, ?_, fun c hc hcblank => ?_, ?_, fun body hmem => ?_,
    fun body hmem => ?_⟩
  · rw [ha.head_eq, ha.parameters_eq]
    exact isArrowHead_of_findFrom? hplace hm
  · cases hrest : text.drop m.stop with
    | nil =>
      rw [ha.body_eq, hrest, if_neg nofun]
      rfl
    | cons d rest =>
      rw [ha.after_eq, hrest] at hc
      obtain rfl : d = c := Option.some.inj hc
      exact Bool.noConfusion (hcblank.symm.trans (hblank d (by rw [hrest]; rfl)))
  · have hhead : a.after.head? = some '\x7b' ↔ (text.drop m.stop).head? = some '\x7b' := by
      rw [ha.after_eq]
      cases text.drop m.stop with
      | nil =>
        refine iff_of_false (fun hopen => ?_) nofun
        exact absurd (hcloses _ hopen) (by decide)
      | cons d rest => exact Iff.rfl
    rw [hhead, ha.body_eq]
    split
    · next hopen => exact iff_of_true rfl hopen
    · next hopen => exact iff_of_false nofun hopen
  · exact ⟨text.drop m.stop, after, ha.after_eq, hbody body hmem, hcloses⟩
  · obtain ⟨rest, hrest, hends⟩ := closes_expressionBody (text.drop m.stop)
    rw [hbody body hmem]
    refine ⟨isBlank_getLast?_expressionBody _, rest ++ after, ?_, hends.append hcloses⟩
    rw [ha.after_eq, ← List.append_assoc, ← hrest]

/-! ## The rule as an edit -/

/-- **The rule edits a text at its arrows and nowhere else**: the edits stand
from left to right, they are those of the arrows, each once, and the new text is
the old one with just these made. -/
theorem lowered_eq_patch (source : List Char) :
    (∀ a ∈ arrows source, a.IsArrowOf source)
      ∧ (edits source).Perm ((arrows source).flatMap Arrow.edits)
      ∧ InOrder 0 (edits source)
      ∧ lowered source = (ofText source).patch (edits source) :=
  ⟨fun _ h => isArrowOf_of_mem_arrows h, editsIn_perm (areShaped_pieces source) [] [],
    inOrder_edits source, (patch_edits source).symm⟩

end Downlevel.Code.Arrows
