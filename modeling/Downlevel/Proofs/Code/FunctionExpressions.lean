/-
Downlevel.Proofs.Code.FunctionExpressions — a text with function expressions.

The new form of a head keeps its parameters, and what it puts around them are
mild characters. They settle what was pending as the old ones did, unless a line
comment ended among those (`headDropsLineEnd`): its line break is left out with
the other blanks. Apart from that, parameters, bodies and what is kept are read
in the same modes as before (`cleanOn_head`, `cleanOn_writtenAll`), so no
construct arises (`not_occursIn_of_not`).

The exception is not idle: without its line break a comment goes on, and a
string that it swallows is read as code (`head_drops_line_end`).
-/
import Downlevel.Proofs.Code.ArrowPieces

namespace Downlevel.Code.Arrows

open Pattern (IsName isNamePart)

/-! ## Line breaks that are left out -/

/-- A line comment ends in what the new form of a head leaves out. -/
def headDropsLineEnd (m : Mode) (head parameters : List Char) : Bool :=
  m.endsComment (opening head)
    || (m.scan (opening head ++ parameters)).endsComment (closing head parameters)

mutual

/-- A line comment ends in what the new form of a piece leaves out. -/
def ArrowPiece.dropsLineEnd : ArrowPiece → Mode → Bool
  | .kept _, _ => false
  | .blockHead head parameters, m => headDropsLineEnd m head parameters
  | .expression head parameters body, m =>
    headDropsLineEnd m head parameters || anyDropsLineEnd body (m.scan head)

def anyDropsLineEnd : List ArrowPiece → Mode → Bool
  | [], _ => false
  | piece :: rest, m => piece.dropsLineEnd m || anyDropsLineEnd rest (m.scan piece.given)

end

/-- A line comment ends in what the rule leaves out of a text. -/
def dropsLineEnd (text : List Char) : Bool := anyDropsLineEnd (pieces text) .code

/-! ## Heads -/

variable {rule : Degradation} {m m' : Mode} {p p' : Option Char} {c : Char}
  {head parameters after after' : List Char}

theorem isAround_iff : isAround c = true
    ↔ Text.isBlank c = true ∨ c = '(' ∨ c = ')' ∨ c = '=' ∨ c = '>' := by
  simp [isAround]

theorem isTame_of_isAround (hc : isAround c = true) : Mode.isTame c = true := by
  rcases isAround_iff.mp hc with hblank | rfl | rfl | rfl | rfl
  · exact Mode.isTame_of_isBlank hblank
  all_goals decide

theorem isWord_eq_false_of_isAround (hc : isAround c = true) : Text.isWord c = false := by
  rcases isAround_iff.mp hc with hblank | rfl | rfl | rfl | rfl
  · exact Text.isWord_eq_false_of_isBlank hblank
  all_goals decide

theorem isAround_of_mem_opening (hc : c ∈ opening head) : isAround c = true := by
  have hall : ((c == '(') || Text.isBlank c) = true :=
    List.all_eq_true.mp (List.all_takeWhile (l := head)) c hc
  rw [isAround_iff]
  simp only [Bool.or_eq_true, beq_iff_eq] at hall
  exact hall.symm.imp_right .inl

theorem any_isWord_of_isAround {w : List Char} (hw : ∀ c ∈ w, isAround c = true) (hne : w ≠ []) :
    (w.getLast?.or p).any Text.isWord = false := by
  rw [List.getLast?_eq_some_getLast hne, Option.some_or, Option.any_some]
  exact isWord_eq_false_of_isAround (hw _ (List.getLast_mem hne))

/-- No word ends with a head. -/
theorem IsHead.any_isWord (h : IsHead head parameters) :
    (head.getLast?.or p).any Text.isWord = false := by
  rw [h.eq, List.getLast?_append, List.getLast?_append, Option.or_assoc, Option.or_assoc]
  exact any_isWord_of_isAround h.around h.ne_nil

/-- A head starts with a parenthesis or a name. -/
theorem IsHead.head? (h : IsHead head parameters) (hc : (head ++ after).head? = some c) :
    Text.isDigit c = false ∧ c ≠ '=' := by
  rw [h.eq] at hc
  rcases h.form with ⟨⟨blanks, hopening⟩, -⟩ | ⟨hopening, d, more, hname, hd, -⟩
  · rw [hopening] at hc
    obtain rfl : '(' = c := Option.some.inj hc
    decide
  · conv at hc => rw [hopening, hname]
    obtain rfl : d = c := Option.some.inj hc
    refine ⟨Pattern.isDigit_eq_false_of_isNameStart hd, ?_⟩
    rintro rfl
    exact absurd hd (by decide)

/-- A parenthesis and mild characters that start no construct and end no word:
what the new form of a head has behind the parameters. -/
structure IsBehind (behind : List Char) : Prop where
  mild : ∀ c ∈ behind, Mode.isMild c = true ∧ Degradation.isStarter c = false
  opens : ∃ more, behind = ')' :: more
  ends : behind.getLast? = some ' '

theorem isBehind_block : IsBehind ") ".toList := ⟨by decide, ⟨_, rfl⟩, rfl⟩

theorem isBehind_expression : IsBehind ") \x7b return ".toList := ⟨by decide, ⟨_, rfl⟩, rfl⟩

section Heads

variable {behind : List Char}

theorem scan_head (h : IsHead head parameters)
    (hkeeps : headDropsLineEnd m head parameters = false) :
    m.scan head = (m.scan (opening head ++ parameters)).settle := by
  conv => lhs; rw [h.eq, ← List.append_assoc, Mode.scan_append]
  exact Mode.scan_of_tame (fun c hc => isTame_of_isAround (h.around c hc))
    (Bool.or_eq_false_iff.mp hkeeps).2 h.ne_nil

/-- The parameters of a list are read as before. -/
theorem scan_opening (hopening : opening head ≠ [])
    (hkeeps : headDropsLineEnd m head parameters = false) : m.scan (opening head) = m.settle :=
  Mode.scan_of_tame (fun _ hc => isTame_of_isAround (isAround_of_mem_opening hc))
    (Bool.or_eq_false_iff.mp hkeeps).1 hopening

theorem scan_function (m : Mode) : m.scan "function(".toList = m.settle :=
  Mode.scan_of_mild (by decide) (by decide)

/-- The reader comes out of the new form of a head in the mode of the old
one. -/
theorem scan_newHead (h : IsHead head parameters) (hbehind : IsBehind behind)
    (hm : m.settle = m'.settle) (hkeeps : headDropsLineEnd m head parameters = false) :
    m'.scan ("function(".toList ++ (parameters ++ behind)) = m.scan head := by
  obtain ⟨more, hmore⟩ := hbehind.opens
  rw [scan_head h hkeeps, Mode.scan_append, Mode.scan_append, Mode.scan_append, scan_function, ← hm,
    Mode.scan_of_mild (fun c hc => (hbehind.mild c hc).1)
      (by rw [hmore]; exact List.cons_ne_nil _ _)]
  rcases h.form with ⟨⟨blanks, hopening⟩, -⟩ | ⟨hopening, hname⟩
  · rw [scan_opening (by rw [hopening]; exact List.cons_ne_nil _ _) hkeeps]
  · have hmild : ∀ c ∈ parameters, Mode.isMild c = true :=
      fun c hc => Mode.isMild_of_isNamePart (hname.isNamePart c hc)
    obtain ⟨c, rest, rfl, -⟩ := hname
    rw [hopening, Mode.scan_nil, Mode.scan_of_mild hmild (List.cons_ne_nil _ _),
      Mode.scan_of_mild hmild (List.cons_ne_nil _ _), Mode.settle_settle]

/-- Parameters stay clean in front of a parenthesis. -/
theorem cleanOn_parameters (h : IsHead head parameters)
    (hkeeps : headDropsLineEnd m head parameters = false) (hclean : CleanOn rule m p head after)
    (hp : p'.any Text.isWord = false) : CleanOn rule m.settle p' parameters (')' :: after') := by
  rcases h.form with ⟨⟨blanks, hopening⟩, hnext⟩ | ⟨-, hname⟩
  · have hne : opening head ≠ [] := by
      rw [hopening]
      exact List.cons_ne_nil _ _
    rw [h.eq, cleanOn_append, cleanOn_append, scan_opening hne hkeeps] at hclean
    refine hclean.2.1.move ⟨rfl, .inl rfl, fun rest _ hstands => hstands.of_before ?_⟩ ?_
    · rw [hp, any_isWord_of_isAround (fun c hc => isAround_of_mem_opening hc) hne]
    · intro q w hw _ hstands
      refine hstands.of_break hw (by decide) fun d hd => ?_
      have hd : (closing head parameters).head? = some d := by
        obtain ⟨e, more, hcons⟩ := List.exists_cons_of_ne_nil h.ne_nil
        rwa [hcons] at hd ⊢
      rcases hnext d hd with rfl | hblank
      · decide
      · refine ⟨Text.isDigit_eq_false_of_isBlank hblank, ?_⟩
        rintro rfl
        exact absurd hblank (by decide)
  · intro v w hvw hw _
    refine Degradation.not_standsAt_of_isNamePart (fun d hd => ?_) hw
    exact hname.isNamePart d (by rw [hvw]; exact List.mem_append_right v hd)

/-- **The new form of a head** is clean when the old one was. -/
theorem cleanOn_newHead (h : IsHead head parameters) (hbehind : IsBehind behind)
    (hm : m.settle = m'.settle) (hkeeps : headDropsLineEnd m head parameters = false)
    (hclean : CleanOn rule m p head after) :
    CleanOn rule m' p' ("function(".toList ++ (parameters ++ behind)) after' := by
  obtain ⟨more, hmore⟩ := hbehind.opens
  rw [cleanOn_append, cleanOn_append, scan_function, ← hm]
  refine ⟨cleanOn_function, ?_, cleanOn_of_forall fun c hc => (hbehind.mild c hc).2⟩
  rw [hmore]
  exact cleanOn_parameters h hkeeps hclean rfl

/-- Behind both forms of a head, the reader goes on in step. -/
theorem inStep_newHead (h : IsHead head parameters) (hbehind : IsBehind behind)
    (hm : m.settle = m'.settle) (hkeeps : headDropsLineEnd m head parameters = false)
    (p p' : Option Char) (rest : List Char) :
    InStep rule (m.scan head) (m'.scan ("function(".toList ++ (parameters ++ behind)))
      (head.getLast?.or p) (("function(".toList ++ (parameters ++ behind)).getLast?.or p')
      rest := by
  rw [scan_newHead h hbehind hm hkeeps]
  refine ⟨rfl, .inl rfl, fun rest _ hstands => hstands.of_before ?_⟩
  rw [h.any_isWord, List.getLast?_append, List.getLast?_append, hbehind.ends]
  rfl

end Heads

/-! ## Pieces -/

theorem Closes.head? (h : Closes after) (hc : after.head? = some c) :
    Mode.isTame c = true ∧ Degradation.isStarter c = false ∧ Text.isDigit c = false := by
  have hmarks : ∀ c ∈ endMarks,
      Mode.isTame c = true ∧ Degradation.isStarter c = false ∧ Text.isDigit c = false := by decide
  rcases h.cases hc with hblank | hmark
  · exact ⟨Mode.isTame_of_isBlank hblank, Degradation.isStarter_eq_false_of_isBlank hblank,
      Text.isDigit_eq_false_of_isBlank hblank⟩
  · exact hmarks c hmark

theorem Closes.inStep (h : Closes after) (hsettle : m.settle = m'.settle) :
    InStep rule m m' p p' after :=
  .of_tame hsettle fun _ hc => ⟨(h.head? hc).1, (h.head? hc).2.1⟩

/-- What is kept before an arrow ends no construct that did not stand there. -/
theorem IsHead.ends {q : Option Char} {w : List Char} (h : IsHead head parameters) (hw : w ≠ [])
    (hstands : rule.StandsAt q (w ++ ("function(".toList ++ after'))) :
    rule.StandsAt q (w ++ (head ++ after)) := by
  rw [show "function(".toList = 'f' :: "unction(".toList from rfl, List.cons_append] at hstands
  have hbreak : Degradation.isBreak 'f' = true := by decide
  exact hstands.of_break hw hbreak fun _ hd => h.head? hd

theorem writtenAll_cons (piece : ArrowPiece) (rest : List ArrowPiece) :
    writtenAll (piece :: rest) = piece.written ++ writtenAll rest := rfl

theorem written_blockHead (head parameters : List Char) :
    (ArrowPiece.blockHead head parameters).written
      = "function(".toList ++ (parameters ++ ") ".toList) :=
  List.append_assoc ..

theorem written_expression (head parameters : List Char) (body : List ArrowPiece) :
    (ArrowPiece.expression head parameters body).written
      = ("function(".toList ++ (parameters ++ ") \x7b return ".toList)) ++ writtenAll body
        ++ "; \x7d".toList := by
  rw [← List.append_assoc "function(".toList]
  rfl

theorem written_kept (text : List Char) : (ArrowPiece.kept text).written = text := rfl

/-- **The new form of pieces is clean** when the old one was and no line comment
ends in what it leaves out. -/
theorem cleanOn_writtenAll {ps : List ArrowPiece} (hshape : AreShaped ps after)
    (hstep : InStep rule m m' p p' (givenAll ps ++ after)) (hkeeps : anyDropsLineEnd ps m = false)
    (hclean : CleanOn rule m p (givenAll ps) after)
    (hend : ∀ q w, w ≠ [] → rule.StandsAt q (w ++ after') → rule.StandsAt q (w ++ after)) :
    CleanOn rule m' p' (writtenAll ps) after'
      ∧ (m.scan (givenAll ps)).settle = (m'.scan (writtenAll ps)).settle := by
  induction hshape generalizing m m' p p' after' with
  | kept text after =>
    rw [givenAll_kept, givenAll, List.append_nil] at hstep hclean ⊢
    rw [writtenAll_cons, written_kept, writtenAll, List.append_nil]
    exact ⟨hclean.move hstep fun q w hw _ => hend q w hw, hstep.advance.settle⟩
  | @blockHead text head parameters after rest hhead hrest ih =>
    simp only [anyDropsLineEnd, ArrowPiece.dropsLineEnd, ArrowPiece.given, Bool.false_or,
      Bool.or_eq_false_iff] at hkeeps
    rw [givenAll_kept, givenAll, ArrowPiece.given] at hstep hclean ⊢
    rw [List.append_assoc] at hstep
    rw [cleanOn_append, cleanOn_append] at hclean
    obtain ⟨hcleanText, hcleanHead, hcleanRest⟩ := hclean
    have hsettle := hstep.advance.settle
    obtain ⟨hwritten, hmode⟩ := ih
      (inStep_newHead hhead isBehind_block hsettle hkeeps.1 _ _ _) hkeeps.2 hcleanRest hend
    rw [writtenAll_cons, writtenAll_cons, written_kept, written_blockHead, cleanOn_append,
      cleanOn_append]
    refine ⟨⟨hcleanText.move hstep fun q w hw _ hstands => ?_,
      cleanOn_newHead hhead isBehind_block hsettle hkeeps.1 hcleanHead, hwritten⟩, ?_⟩
    · simp only [List.append_assoc] at hstands ⊢
      exact hhead.ends hw hstands
    · simpa only [Mode.scan_append] using hmode
  | @expression text head parameters after body rest hhead hcloses hbody hrest ihBody ihRest =>
    simp only [anyDropsLineEnd, ArrowPiece.dropsLineEnd, ArrowPiece.given, Bool.false_or,
      Bool.or_eq_false_iff, Mode.scan_append] at hkeeps
    obtain ⟨⟨hkeepsHead, hkeepsBody⟩, hkeepsRest⟩ := hkeeps
    rw [givenAll_kept, givenAll, ArrowPiece.given, List.append_assoc head] at hstep hclean ⊢
    rw [List.append_assoc text] at hstep
    rw [cleanOn_append, cleanOn_append, cleanOn_append] at hclean
    obtain ⟨hcleanText, hcleanHead, hcleanBody, hcleanRest⟩ := hclean
    have hsettle := hstep.advance.settle
    have hendBody : ∀ q w, w ≠ [] →
        rule.StandsAt q (w ++ ("; \x7d".toList ++ (writtenAll rest ++ after'))) →
        rule.StandsAt q (w ++ (givenAll rest ++ after)) := by
      intro q w hw hstands
      rw [show "; \x7d".toList = ';' :: " \x7d".toList from rfl, List.cons_append] at hstands
      have hbreak : Degradation.isBreak ';' = true := by decide
      refine hstands.of_break hw hbreak fun d hd => ⟨(hcloses.head? hd).2.2, ?_⟩
      rintro rfl
      exact absurd (hcloses.head? hd).2.1 (by decide)
    obtain ⟨hwrittenBody, hmodeBody⟩ := ihBody
      (inStep_newHead hhead isBehind_expression hsettle hkeepsHead _ _ _) hkeepsBody hcleanBody
      hendBody
    have hmodeEnd : (((m.scan text).scan head).scan (givenAll body)).settle
        = ((((m'.scan text).scan
          ("function(".toList ++ (parameters ++ ") \x7b return ".toList))).scan
          (writtenAll body)).scan "; \x7d".toList).settle := by
      rw [hmodeBody, Mode.scan_of_mild (w := "; \x7d".toList) (by decide) (by decide),
        Mode.settle_settle]
    obtain ⟨hwrittenRest, hmodeRest⟩ := ihRest (hcloses.inStep hmodeEnd) hkeepsRest hcleanRest hend
    rw [writtenAll_cons, writtenAll_cons, written_kept, written_expression]
    refine ⟨cleanOn_append.mpr ⟨hcleanText.move hstep fun q w hw _ hstands => ?_,
      cleanOn_append.mpr ⟨cleanOn_append.mpr ⟨cleanOn_append.mpr
        ⟨cleanOn_newHead hhead isBehind_expression hsettle hkeepsHead hcleanHead, ?_⟩, ?_⟩, ?_⟩⟩,
      ?_⟩
    · simp only [List.append_assoc] at hstands ⊢
      exact hhead.ends hw hstands
    · simpa only [List.append_assoc] using hwrittenBody
    · exact cleanOn_of_forall (by decide)
    · simpa only [Mode.scan_append] using hwrittenRest
    · simpa only [Mode.scan_append] using hmodeRest

/-- The rule brings in no construct, unless it drops the end of a comment. -/
theorem not_occursIn_of_not {source out : List Char} (h : degrade? source = some out)
    (hkeeps : dropsLineEnd source = false) (hclean : ¬ rule.OccursIn source) :
    ¬ rule.OccursIn out := by
  have hout : out = writtenAll (pieces source) := eq_lowered_of_degrade? h
  rw [not_occursIn_iff, ← givenAll_pieces source] at hclean
  rw [not_occursIn_iff, hout]
  exact (cleanOn_writtenAll (areShaped_pieces source) (.refl ..) hkeeps hclean fun _ _ _ h => h).1

/-- The line break behind the parenthesis ends a comment. Without it, the
comment goes on to the line break in the template, and the rest of the template
is read as code. -/
theorem head_drops_line_end :
    ∃ source out, degrade? source = some out ∧ dropsLineEnd source = true
      ∧ ¬ Degradation.optionalMemberAccess.OccursIn source
      ∧ Degradation.optionalMemberAccess.OccursIn out := by
  have hpieces : pieces "(a // x)\n=> \x60\n?.b\x60".toList
      = [.kept [], .expression "(a // x)\n=> ".toList "a // x".toList
        [.kept "\x60\n?.b\x60".toList], .kept []] := by
    have hbody : expressionBody ("(a // x)\n=> \x60\n?.b\x60".toList.drop 12)
        = "\x60\n?.b\x60".toList := by decide +kernel
    rw [pieces, piecesFrom_of_expression (m := ⟨0, 12, [⟨1, 1, 7⟩]⟩) (by decide)
      (by decide +kernel) (by decide +kernel) (by decide +kernel), hbody, pieces,
      piecesFrom_of_none (by decide +kernel), piecesFrom_of_none (by decide +kernel)]
    rfl
  refine ⟨"(a // x)\n=> \x60\n?.b\x60".toList,
    "function(a // x) \x7b return \x60\n?.b\x60; \x7d".toList, ?_, ?_, ?_⟩
  · rw [degrade?, lowered, hpieces]
    decide +kernel
  · rw [dropsLineEnd, hpieces]
    decide +kernel
  · decide +kernel

end Downlevel.Code.Arrows
