/-
Downlevel.Proofs.Code.ArrowPlaces — the arrows of a text and where they stand.

`arrows` lists the arrows that are replaced, inner ones included, each with all
that stands before its head and all that stands behind it in the whole text. The
whole is put together from these parts (`whole_of_mem_arrows`), and the new head of
each arrow is found in the new text (`newHead_infix_out`).

An arrow was found in the text or in the body of another arrow. What every text
that is searched has, and every place that a search goes on from, is known of the
text and the place that lead to an arrow (`exists_found_of_mem`).
-/
import Downlevel.Proofs.Code.FunctionExpressions

namespace Downlevel.Code.Arrows

open Pattern

/-! ## The arrows of a text -/

/-- An arrow that is replaced, with the text up to its head and the text behind
its head. It has no body here if a block follows. -/
structure Arrow where
  before : List Char
  head : List Char
  parameters : List Char
  body : Option (List Char)
  after : List Char
  deriving DecidableEq, Repr

mutual

/-- The arrows of a piece with this text before it and that text behind it. -/
def ArrowPiece.arrows (before after : List Char) : ArrowPiece → List Arrow
  | .kept _ => []
  | .blockHead head parameters => [⟨before, head, parameters, none, after⟩]
  | .expression head parameters body =>
    ⟨before, head, parameters, some (givenAll body), givenAll body ++ after⟩
      :: arrowsIn (before ++ head) after body

def arrowsIn (before after : List Char) : List ArrowPiece → List Arrow
  | [] => []
  | piece :: rest =>
    piece.arrows before (givenAll rest ++ after) ++ arrowsIn (before ++ piece.given) after rest

end

def arrows (source : List Char) : List Arrow := arrowsIn [] [] (pieces source)

section Listed

variable (before after : List Char) (rest : List ArrowPiece)

theorem arrowsIn_kept (text : List Char) :
    arrowsIn before after (.kept text :: rest) = arrowsIn (before ++ text) after rest := rfl

theorem arrowsIn_blockHead (head parameters : List Char) :
    arrowsIn before after (.blockHead head parameters :: rest)
      = ⟨before, head, parameters, none, givenAll rest ++ after⟩
        :: arrowsIn (before ++ head) after rest := rfl

theorem arrowsIn_expression (head parameters : List Char) (body : List ArrowPiece) :
    arrowsIn before after (.expression head parameters body :: rest)
      = ⟨before, head, parameters, some (givenAll body), givenAll body ++ (givenAll rest ++ after)⟩
        :: (arrowsIn (before ++ head) (givenAll rest ++ after) body
          ++ arrowsIn (before ++ (head ++ givenAll body)) after rest) := rfl

end Listed

/-! ## Where they stand -/

/-- A head that was found in a text, with other text before and behind that
text. -/
structure Arrow.IsFound (a : Arrow) (before text after : List Char) (m : Match) : Prop where
  before_eq : a.before = before ++ text.take m.start
  head_eq : a.head = m.text text
  parameters_eq : a.parameters = Arrows.parameters text m
  body_eq : a.body = if (text.drop m.stop).head? = some '\x7b' then none
    else some (expressionBody (text.drop m.stop))
  after_eq : a.after = text.drop m.stop ++ after

section Found

variable {a : Arrow} (Searched : List Char → List Char → List Char → Prop)
  (Resumed : List Char → Nat → Prop)

theorem append_take_slice (before text : List Char) {i j : Nat} (h : i ≤ j) :
    before ++ text.take i ++ slice text i j = before ++ text.take j := by
  rw [List.append_assoc, take_append_slice h]

/-- **Every arrow was found** in a text that is searched, from a place where a
search goes on. -/
theorem exists_found_of_mem
    (hsearched : ∀ {before text after : List Char} {m : Match} {place : Nat},
      Searched before text after → place ≤ text.length → head.findFrom? text place = some m →
      Searched (before ++ text.take m.stop) (expressionBody (text.drop m.stop))
        (text.drop (m.stop + (expressionBody (text.drop m.stop)).length) ++ after))
    (hzero : ∀ text, Resumed text 0)
    (hliteral : ∀ text, ∀ l ∈ (ofText text).literals, Resumed text l.stop)
    (hmatch : ∀ {text : List Char} {place : Nat} {m : Match}, place ≤ text.length →
      head.findFrom? text place = some m → Resumed text m.stop
        ∧ Resumed text (m.stop + (expressionBody (text.drop m.stop)).length))
    (text : List Char) (last offset : Nat) : ∀ before after : List Char, last ≤ offset →
      a ∈ arrowsIn (before ++ text.take last) after (piecesFrom text last offset) →
      Searched before text after → Resumed text offset →
      ∃ before' text' after' place m, Searched before' text' after' ∧ Resumed text' place
        ∧ place ≤ text'.length ∧ head.findFrom? text' place = some m ∧ (ofText text').InCode m.start
        ∧ a.IsFound before' text' after' m := by
  fun_induction piecesFrom text last offset with
  | case1 text last offset inside hnone =>
    intro _ _ _ ha
    cases ha
  | case2 text last offset inside m hm literal hinside ih =>
    intro before after hlast ha htext _
    have hmatch := findFrom?_some inside hm
    have hin := literalAt?_some hinside
    exact ih before after (by omega) ha htext
      (hliteral text literal (List.mem_of_find?_eq_some hinside))
  | case3 text last offset inside m hm hcode skipped rest =>
    rename_i hblock ih
    intro before after hlast ha htext hoffset
    obtain ⟨hstart, hstop, -⟩ := findFrom?_some inside hm
    have hbefore := append_take_slice before text (i := last) (j := m.start) (by omega)
    have hbehind : before ++ text.take m.start ++ m.text text = before ++ text.take m.stop :=
      append_take_slice before text (by omega)
    rw [arrowsIn_kept, arrowsIn_blockHead, hbefore, hbehind] at ha
    rcases List.mem_cons.mp ha with rfl | ha
    · refine ⟨before, text, after, offset, m, htext, hoffset, inside, hm, hcode, rfl, rfl, rfl,
        ?_, ?_⟩
      · exact (if_pos hblock).symm
      · rw [givenAll_piecesFrom (Nat.le_refl _)]
    · exact ih before after (Nat.le_refl _) ha htext (hmatch inside hm).1
  | case4 text last offset inside m hm hcode skipped rest =>
    rename_i hblock body ihBody ihRest
    intro before after hlast ha htext hoffset
    obtain ⟨hstart, hstop, -⟩ := findFrom?_some inside hm
    have hbefore := append_take_slice before text (i := last) (j := m.start) (by omega)
    have hbehind : before ++ text.take m.start ++ m.text text = before ++ text.take m.stop :=
      append_take_slice before text (by omega)
    have hbody : givenAll (piecesFrom body 0 0) = body := givenAll_piecesFrom (Nat.le_refl 0)
    obtain ⟨trail, htrail, -⟩ := closes_expressionBody (text.drop m.stop)
    have hrest : givenAll (piecesFrom text (m.stop + body.length) (m.stop + body.length))
        = text.drop (m.stop + body.length) := givenAll_piecesFrom (Nat.le_refl _)
    have hend : before ++ text.take m.stop ++ body
        = before ++ text.take (m.stop + body.length) := by
      rw [List.append_assoc, take_add_of_drop htrail]
    rw [arrowsIn_kept, arrowsIn_expression, ← List.append_assoc _ (m.text text), hbefore, hbehind,
      hbody, hend, hrest] at ha
    rcases List.mem_cons.mp ha with rfl | ha
    · refine ⟨before, text, after, offset, m, htext, hoffset, inside, hm, hcode, rfl, rfl, rfl,
        ?_, ?_⟩
      · exact (if_neg hblock).symm
      · rw [← List.append_assoc, drop_add_of_drop htrail, ← htrail]
    · rcases List.mem_append.mp ha with ha | ha
      · refine ihBody (before ++ text.take m.stop) _ (Nat.le_refl 0) ?_
          (hsearched htext inside hm) (hzero body)
        rwa [List.take_zero, List.append_nil]
      · exact ihRest before after (Nat.le_refl _) ha htext (hmatch inside hm).2
  | case5 text last offset outside =>
    intro _ _ _ ha
    cases ha

end Found

theorem Arrow.IsFound.whole {a : Arrow} {before text after : List Char} {m : Match}
    (h : a.IsFound before text after m) (hm : m.start ≤ m.stop) :
    a.before ++ (a.head ++ a.after) = before ++ (text ++ after) := by
  rw [h.before_eq, h.head_eq, h.after_eq, Match.text, ← List.append_assoc (slice text _ _),
    slice_append_drop text hm, List.append_assoc, ← List.append_assoc (text.take _),
    List.take_append_drop]

/-- **The parts of an arrow make up the text.** -/
theorem whole_of_mem_arrows {source : List Char} {a : Arrow} (h : a ∈ arrows source) :
    a.before ++ (a.head ++ a.after) = source := by
  have hbody : ∀ {before text after : List Char} {m : Match} {place : Nat},
      before ++ (text ++ after) = source → place ≤ text.length →
      head.findFrom? text place = some m →
      before ++ text.take m.stop ++ (expressionBody (text.drop m.stop)
        ++ (text.drop (m.stop + (expressionBody (text.drop m.stop)).length) ++ after))
      = source := by
    intro before text after m place hwhole _ _
    obtain ⟨trail, htrail, -⟩ := closes_expressionBody (text.drop m.stop)
    rw [drop_add_of_drop htrail, ← List.append_assoc (expressionBody _), ← htrail,
      List.append_assoc, ← List.append_assoc (text.take _), List.take_append_drop, hwhole]
  obtain ⟨before, text, after, place, m, hwhole, -, hplace, hm, -, ha⟩ :=
    exists_found_of_mem (fun before text after => before ++ (text ++ after) = source)
      (fun _ _ => True) hbody (fun _ => trivial) (fun _ _ _ => trivial)
      (fun _ _ => ⟨trivial, trivial⟩) source 0 0 [] [] (Nat.le_refl 0) h
      (List.append_nil source) trivial
  have hmatch := findFrom?_some hplace hm
  rw [ha.whole (by omega), hwhole]

/-- The new head of every arrow is found in the new form of the pieces. -/
theorem newHead_infix_writtenAll {ps : List ArrowPiece} {behind : List Char} {a : Arrow}
    (hshape : AreShaped ps behind) : ∀ {before after : List Char}, a ∈ arrowsIn before after ps →
      "function(".toList ++ a.parameters ++ ") ".toList <:+: writtenAll ps := by
  induction hshape with
  | kept text behind =>
    intro _ _ ha
    cases ha
  | @blockHead text head parameters behind rest _ _ ih =>
    intro before after ha
    rw [arrowsIn_kept, arrowsIn_blockHead] at ha
    rw [writtenAll, writtenAll]
    rcases List.mem_cons.mp ha with rfl | ha
    · exact ⟨text, writtenAll rest, List.append_assoc _ _ _⟩
    · exact (ih ha).trans ((List.suffix_append _ _).trans (List.suffix_append _ _)).isInfix
  | @expression text head parameters behind body rest _ _ _ _ ihBody ihRest =>
    intro before after ha
    rw [arrowsIn_kept, arrowsIn_expression] at ha
    rw [writtenAll, writtenAll]
    have hpiece : (ArrowPiece.expression head parameters body).written
        <:+: (ArrowPiece.kept text).written
          ++ ((ArrowPiece.expression head parameters body).written ++ writtenAll rest) :=
      ⟨_, _, List.append_assoc _ _ _⟩
    rcases List.mem_cons.mp ha with rfl | ha
    · have hhead : "function(".toList ++ parameters ++ ") ".toList
          <+: (ArrowPiece.expression head parameters body).written := by
        have hreturn : ") \x7b return ".toList = ") ".toList ++ "\x7b return ".toList := by decide
        rw [written_expression, hreturn]
        refine ⟨"\x7b return ".toList ++ (writtenAll body ++ "; \x7d".toList), ?_⟩
        simp only [List.append_assoc]
      exact hhead.isInfix.trans hpiece
    · rcases List.mem_append.mp ha with ha | ha
      · have hbody : writtenAll body <:+: (ArrowPiece.expression head parameters body).written :=
          ⟨"function(".toList ++ parameters ++ ") \x7b return ".toList, "; \x7d".toList, rfl⟩
        exact (ihBody ha).trans (hbody.trans hpiece)
      · exact (ihRest ha).trans ((List.suffix_append _ _).trans (List.suffix_append _ _)).isInfix

/-- **Every arrow that is listed is replaced**: its parameters stand in the new
text behind the word `function`. -/
theorem newHead_infix_out {source out : List Char} {a : Arrow} (h : degrade? source = some out)
    (ha : a ∈ arrows source) : "function(".toList ++ a.parameters ++ ") ".toList <:+: out := by
  rw [eq_lowered_of_degrade? h]
  exact newHead_infix_writtenAll (areShaped_pieces source) ha

end Downlevel.Code.Arrows
