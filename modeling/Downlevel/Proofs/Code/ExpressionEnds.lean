/-
Downlevel.Proofs.Code.ExpressionEnds — the end of an expression among its literals.

The scan for the end of an expression knows strings, and passes over one as the
cut into segments does (`run_quoted`). It does not know comments: it reads on in
them, and goes by them if no character in them opens a string, closes a bracket or
ends the expression (`run_quiet`). With such comments, an expression ends between
two segments (`isBetween_expressionLength`), and so does its body without the blanks
at the end, unless a line comment or a literal that is not closed comes last in it
(`IsReadableBody.isBetween`).
-/
import Downlevel.Proofs.Code.ArrowPieces
import Downlevel.Proofs.Code.Reading

namespace Downlevel.Code

open Segment
open Pattern (slice)

variable {cs w lit : List Char} {before after : List Segment} {n : Nat}

/-! ## Literals and their ends -/

/-- The characters up to a place between two segments, and those behind it. -/
theorem cut_of_split (h : split cs = before ++ after) :
    cs.take (width before) = before.flatMap Segment.text
      ∧ cs.drop (width before) = after.flatMap Segment.text := by
  have hcs : cs = before.flatMap Segment.text ++ after.flatMap Segment.text := by
    rw [← List.flatMap_append, ← h, text_split]
  rw [hcs]
  exact ⟨List.take_left' rfl, List.drop_left' rfl⟩

theorem mem_literals_of_split (h : split cs = before ++ .literal lit :: after) :
    ⟨width before, width before + lit.length⟩ ∈ (ofText cs).literals
      ∧ slice cs (width before) (width before + lit.length) = lit :=
  ⟨mem_literals.mpr ⟨before, lit, after, h, rfl⟩, slice_of_drop (cut_of_split h).2⟩

/-- A literal is closed if a character behind it is read as code, and then it ends
in a character that opens literals. -/
theorem Segment.isClosed_of_split (h : split (lit ++ ['x']) = [.literal lit, .code 'x']) :
    IsClosed lit ∧ ∃ d, lit.getLast? = some d ∧ opensLiteral d = true := by
  have hparts : split (lit ++ ['x']) = [] ++ .literal lit :: [.code 'x'] := h
  rcases literal_cases hparts with hnil | ⟨-, hline⟩ | hclosed
  · cases hnil
  · cases hline
  · exact hclosed

theorem Segment.isClosed_iff :
    IsClosed lit ↔ split (lit ++ ['x']) = [.literal lit, .code 'x'] := by
  have hx : split ['x'] = [.code 'x'] := by decide +kernel
  exact ⟨fun h => by rw [h, hx], fun h => (isClosed_of_split h).1⟩

instance (lit : List Char) : Decidable (IsClosed lit) := decidable_of_iff _ isClosed_iff.symm

/-- A closed literal does not end in a blank. -/
theorem Segment.IsClosed.getLast? (h : IsClosed lit) :
    ∃ d, lit.getLast? = some d ∧ Text.isBlank d = false := by
  obtain ⟨-, d, hd, hopens⟩ := isClosed_of_split (isClosed_iff.mp h)
  exact ⟨d, hd, isBlank_of_opensLiteral hopens⟩

/-! ## Blanks at the end -/

theorem trimEnd_append_blanks {blanks : List Char} (h : ∀ c ∈ blanks, Text.isBlank c = true) :
    Text.trimEnd (w ++ blanks) = Text.trimEnd w := by
  have hreverse : ∀ c ∈ blanks.reverse, Text.isBlank c = true :=
    fun c hc => h c (List.mem_reverse.mp hc)
  rw [Text.trimEnd, List.reverse_append, List.dropWhile_append_of_pos hreverse, ← Text.trimEnd]

/-- What is not blank is not trimmed off. -/
theorem lt_length_trimEnd {c : Char} (hc : (w.drop n).head? = some c)
    (hblank : Text.isBlank c = false) : n < (Text.trimEnd w).length := by
  obtain ⟨blanks, hw, hblanks⟩ := Arrows.exists_of_trimEnd w
  refine Nat.lt_of_not_le fun hle => ?_
  rw [hw, List.drop_append, List.drop_eq_nil_of_le hle, List.nil_append] at hc
  have hmem := List.mem_of_mem_drop (List.mem_of_mem_head? hc)
  rw [hblanks c hmem] at hblank
  cases hblank

/-- Of blanks behind a literal, all are trimmed off, and none of the text before the
literal is. -/
theorem length_trimEnd_literal (before : List Segment) {gaps : List Segment}
    (hlit : .literal lit ∈ split cs)
    (hgaps : ∀ gap ∈ gaps, gap.isBlank = true) :
    width before < (Text.trimEnd ((before ++ .literal lit :: gaps).flatMap Segment.text)).length
      ∧ (Text.trimEnd ((before ++ .literal lit :: gaps).flatMap Segment.text)).length
        ≤ width before + lit.length := by
  obtain ⟨c, more, rfl, hopens⟩ := exists_of_literal_mem hlit
  constructor
  · refine lt_length_trimEnd (c := c) ?_ (isBlank_of_opensLiteral hopens)
    rw [List.flatMap_append, width, List.drop_left' rfl]
    rfl
  · rw [List.flatMap_append, List.flatMap_cons, text_literal, ← List.append_assoc,
      trimEnd_append_blanks (isBlank_of_mem_flatMap hgaps), width, ← List.length_append]
    exact Arrows.length_trimEnd_le _

theorem exists_of_dropWhile_isBlank {s : Segment} {more : List Segment}
    (h : before.reverse.dropWhile Segment.isBlank = s :: more) :
    s.isBlank = false
      ∧ ∃ gaps, before = more.reverse ++ s :: gaps ∧ ∀ gap ∈ gaps, gap.isBlank = true := by
  have hhead := List.head?_dropWhile_not Segment.isBlank before.reverse
  rw [h] at hhead
  refine ⟨hhead, (before.reverse.takeWhile Segment.isBlank).reverse, ?_, fun gap hgap => ?_⟩
  · rw [← List.singleton_append, ← List.append_assoc, ← List.reverse_cons, ← h,
      ← List.reverse_append, List.takeWhile_append_dropWhile, List.reverse_reverse]
  · exact List.mem_takeWhile_imp (List.mem_reverse.mp hgap)

/-- **A text that ends between two segments** still does so without the blanks at
its end, and then nothing that follows changes how it is read, if each literal in
it is closed or followed by more. -/
theorem IsBetween.trimEnd (h : IsBetween cs n)
    (hends : ∀ before lit after, split cs = before ++ .literal lit :: after →
      width before < (Text.trimEnd (cs.take n)).length →
      width before + lit.length < (Text.trimEnd (cs.take n)).length ∨ IsClosed lit) :
    IsBetween cs (Text.trimEnd (cs.take n)).length ∧ IsTidy (Text.trimEnd (cs.take n)) := by
  obtain ⟨before, after, hsplit, rfl⟩ := h
  rw [(cut_of_split hsplit).1] at hends ⊢
  cases hlast : before.reverse.dropWhile Segment.isBlank with
  | nil =>
    have hblank : ∀ s ∈ before, s.isBlank = true :=
      fun s hs => List.dropWhile_eq_nil_iff.mp hlast s (List.mem_reverse.mpr hs)
    rw [trimEnd_of_forall (isBlank_of_mem_flatMap hblank)]
    exact ⟨⟨[], split cs, rfl, rfl⟩, fun v _ _ => readApart_nil_left v⟩
  | cons s more =>
    obtain ⟨hnot, gaps, hparts, hgaps⟩ := exists_of_dropWhile_isBlank hlast
    have hcut : split cs = more.reverse ++ s :: (gaps ++ after) := by
      rw [hsplit, hparts, List.append_assoc, List.cons_append]
    have hclosed : ∀ lit, s = .literal lit → IsClosed lit := by
      rintro lit rfl
      have hmem : .literal lit ∈ split cs := hcut ▸ List.mem_append_right _ List.mem_cons_self
      obtain ⟨hstart, hstop⟩ := length_trimEnd_literal more.reverse hmem hgaps
      rw [← hparts] at hstart hstop
      exact (hends _ lit _ hcut hstart).resolve_left (Nat.not_lt_of_le hstop)
    obtain ⟨d, hd, hblank⟩ : ∃ d, s.text.getLast? = some d ∧ Text.isBlank d = false := by
      cases s with
      | literal lit => exact (hclosed lit rfl).getLast?
      | code c => exact ⟨c, rfl, hnot⟩
    have hcut' : split cs = (s :: more).reverse ++ (gaps ++ after) := by
      rw [hcut, List.reverse_cons, List.append_assoc, List.singleton_append]
    rw [trimEnd_flatMap hlast hd hblank]
    refine ⟨⟨_, _, hcut', rfl⟩, isTidy_of_getLast? fun lit hlit => hclosed lit ?_⟩
    rw [split_flatMap hcut', List.reverse_cons, List.getLast?_concat] at hlit
    exact Option.some.inj hlit

namespace Arrows

/-! ## The scan of an expression -/

/-- The state behind a text, unless the expression ends in it. -/
def ScanState.run (s : ScanState) : List Char → Option ScanState
  | [] => some s
  | c :: cs => (s.step c).bind fun s => s.run cs

theorem ScanState.run_append (s : ScanState) (u v : List Char) :
    s.run (u ++ v) = (s.run u).bind fun s => s.run v := by
  induction u generalizing s with
  | nil => rfl
  | cons c u ih =>
    rw [List.cons_append, run, run, Option.bind_assoc]
    exact congrArg _ (funext fun s => ih s)

theorem expressionLength_of_run {s s' : ScanState} (h : s.run w = some s') (rest : List Char) :
    expressionLength s (w ++ rest) = w.length + expressionLength s' rest := by
  induction w generalizing s with
  | nil =>
    obtain rfl : s = s' := Option.some.inj h
    exact (Nat.zero_add _).symm
  | cons c w ih =>
    obtain ⟨s₁, hstep, hrun⟩ := Option.bind_eq_some_iff.mp h
    rw [List.cons_append, expressionLength, hstep]
    simp only [ih hrun, List.length_cons]
    exact Nat.add_right_comm _ _ 1

/-- The state outside of strings with so many open brackets. -/
def unquoted (depth : Nat) : ScanState := ⟨depth, none, false⟩

/-- The brackets of an expression that are open behind a text. -/
def openBrackets (text : List Char) : Nat := (((unquoted 0).run text).map ScanState.depth).getD 0

/-- Characters that neither open a string nor end an expression with so many open
brackets, nor close one of these. -/
def isQuiet (depth : Nat) (c : Char) : Bool :=
  !isQuote c && !isClosing c && (!isSeparator c || depth != 0)

/-- The scan goes by quiet characters. -/
theorem run_quiet {depth : Nat} (hw : ∀ c ∈ w, isQuiet depth c = true) :
    ∃ depth', (unquoted depth).run w = some (unquoted depth') := by
  induction w generalizing depth with
  | nil => exact ⟨depth, rfl⟩
  | cons c w ih =>
    obtain ⟨hc, hw⟩ := List.forall_mem_cons.mp hw
    simp only [isQuiet, Bool.and_eq_true, Bool.or_eq_true, Bool.not_eq_true', bne_iff_ne] at hc
    obtain ⟨⟨hquote, hclosing⟩, hseparator⟩ := hc
    have hend : (isSeparator c && depth == 0) = false := by
      rw [Bool.and_eq_false_iff, beq_eq_false_iff_ne]
      exact hseparator
    by_cases hopening : isOpening c = true
    · have hstep : (unquoted depth).step c = some (unquoted (depth + 1)) := by
        simp [unquoted, ScanState.step, hquote, hopening]
      have hdeeper : ∀ x ∈ w, isQuiet (depth + 1) x = true := by
        intro x hx
        have hquiet := hw x hx
        simp only [isQuiet, Bool.and_eq_true] at hquiet
        simp [isQuiet, hquiet.1]
      obtain ⟨depth', hrun⟩ := ih hdeeper
      exact ⟨depth', by rw [ScanState.run, hstep, Option.bind_some, hrun]⟩
    · have hstep : (unquoted depth).step c = some (unquoted depth) := by
        simp [unquoted, ScanState.step, hquote, hopening, hclosing, hend]
      obtain ⟨depth', hrun⟩ := ih hw
      exact ⟨depth', by rw [ScanState.run, hstep, Option.bind_some, hrun]⟩

/-- **The scan passes over a string** like the cut into segments, and is in code
behind it unless the string reaches to the end of the text. -/
theorem run_quoted {quote : Char} (hquote : quote ≠ '\\') (depth : Nat) (cs : List Char) :
    ∃ s, (⟨depth, some quote, false⟩ : ScanState).run (quotedRest quote cs).1 = some s
      ∧ (s = unquoted depth ∨ (quotedRest quote cs).2 = []) := by
  have hescape : (⟨depth, some quote, false⟩ : ScanState).step '\\'
      = some ⟨depth, some quote, true⟩ := rfl
  fun_induction quotedRest quote cs with
  | case1 => exact ⟨_, rfl, .inr rfl⟩
  | case2 rest =>
    have hclose : (⟨depth, some quote, false⟩ : ScanState).step quote = some (unquoted depth) := by
      simp [unquoted, ScanState.step, hquote]
    exact ⟨_, by rw [ScanState.run, hclose, Option.bind_some, ScanState.run], .inl rfl⟩
  | case3 hne =>
    exact ⟨_, by rw [ScanState.run, hescape, Option.bind_some, ScanState.run], .inr rfl⟩
  | case4 escaped rest hne ih =>
    have hpass : (⟨depth, some quote, true⟩ : ScanState).step escaped
        = some ⟨depth, some quote, false⟩ := rfl
    obtain ⟨s, hrun, hs⟩ := ih
    refine ⟨s, ?_, hs⟩
    rw [ScanState.run, hescape, Option.bind_some, ScanState.run, hpass, Option.bind_some, hrun]
  | case5 c rest hne hplain ih =>
    have hstay : (⟨depth, some quote, false⟩ : ScanState).step c
        = some ⟨depth, some quote, false⟩ := by
      simp [ScanState.step, hne, hplain]
    obtain ⟨s, hrun, hs⟩ := ih
    exact ⟨s, by rw [ScanState.run, hstay, Option.bind_some, hrun], hs⟩

/-- A character of code ends the expression or is passed by. -/
theorem step_of_code {c : Char} (hc : isQuote c = false) (depth : Nat) :
    (unquoted depth).step c = none
      ∨ ∃ depth', (unquoted depth).step c = some (unquoted depth') := by
  by_cases hopening : isOpening c = true
  · exact .inr ⟨depth + 1, by simp [unquoted, ScanState.step, hc, hopening]⟩
  by_cases hclosing : isClosing c = true
  · by_cases hdepth : depth = 0
    · exact .inl (by simp [unquoted, ScanState.step, hc, hopening, hclosing, hdepth])
    · exact .inr ⟨depth - 1, by simp [unquoted, ScanState.step, hc, hopening, hclosing, hdepth]⟩
  by_cases hend : (isSeparator c && depth == 0) = true
  · exact .inl (by simp [unquoted, ScanState.step, hc, hopening, hclosing, hend])
  · exact .inr ⟨depth, by simp [unquoted, ScanState.step, hc, hopening, hclosing, hend]⟩

/-- **The scan passes over a segment** like the cut does, unless the segment is a
character that ends the expression or a comment that is not quiet. -/
theorem run_next {c : Char} {rest : List Char} {depth : Nat}
    (hcomment : ∀ lit, (next c rest).1 = .literal lit → c = '/' →
      ∀ x ∈ lit, isQuiet depth x = true) :
    expressionLength (unquoted depth) (c :: rest) = 0
      ∨ ∃ s, (unquoted depth).run (next c rest).1.text = some s
        ∧ ((∃ depth', s = unquoted depth') ∨ (next c rest).2 = []) := by
  have hquiet : ∀ lit, (next c rest).1 = .literal lit → c = '/' →
      ∃ s, (unquoted depth).run (next c rest).1.text = some s
        ∧ ((∃ depth', s = unquoted depth') ∨ (next c rest).2 = []) := by
    intro lit hlit hslash
    obtain ⟨depth', hrun⟩ := run_quiet (hcomment lit hlit hslash)
    exact ⟨_, by rw [hlit, text_literal, hrun], .inl ⟨depth', rfl⟩⟩
  rcases Segment.next_cases c rest with hquote | ⟨rfl, more, rfl⟩ | ⟨rfl, more, rfl⟩
    | ⟨hquote, hslash⟩
  · have hopen : (unquoted depth).step c = some ⟨depth, some c, false⟩ := by
      simp [unquoted, ScanState.step, hquote]
    have hne : c ≠ '\\' := by
      rintro rfl
      exact absurd hquote (by decide)
    obtain ⟨s, hrun, hs⟩ := run_quoted hne depth rest
    rw [next_quote hquote, text_literal]
    exact .inr ⟨s, by rw [ScanState.run, hopen, Option.bind_some, hrun],
      hs.imp_left fun h => ⟨depth, h⟩⟩
  · exact .inr (hquiet _ (congrArg Prod.fst (next_line more)) rfl)
  · exact .inr (hquiet _ (congrArg Prod.fst (next_block more)) rfl)
  · rw [next_code hquote hslash, text_code]
    rcases step_of_code hquote depth with hstop | ⟨depth', hstep⟩
    · exact .inl (by rw [expressionLength, hstop])
    · exact .inr ⟨_, by rw [ScanState.run, hstep, Option.bind_some, ScanState.run],
        .inl ⟨depth', rfl⟩⟩

/-- **An expression ends between two segments** if the comments that the scan
reaches are quiet. -/
theorem isBetween_expressionLength (depth : Nat) (cs : List Char)
    (hcomments : ∀ before lit after depth', split cs = before ++ .literal lit :: after →
      (unquoted depth).run (before.flatMap Segment.text) = some (unquoted depth') →
      lit.head? = some '/' → ∀ c ∈ lit, isQuiet depth' c = true) :
    IsBetween cs (expressionLength (unquoted depth) cs) := by
  fun_induction split cs generalizing depth with
  | case1 => exact ⟨[], [], split_nil, rfl⟩
  | case2 c rest ih =>
    have hcomment : ∀ lit, (next c rest).1 = .literal lit → c = '/' →
        ∀ x ∈ lit, isQuiet depth x = true := by
      rintro lit hlit rfl
      obtain ⟨-, more, rfl⟩ := exists_of_next_literal hlit
      exact hcomments [] _ _ depth (by rw [hlit, List.nil_append]) rfl rfl
    rcases run_next hcomment with hzero | ⟨s, hrun, hs⟩
    · rw [hzero]
      exact ⟨[], split (c :: rest), rfl, rfl⟩
    · have hlength := expressionLength_of_run hrun (next c rest).2
      rw [text_next] at hlength
      -- behind the segment, the scan goes on in code, or the text is over
      obtain ⟨before, after, hsplit, hwidth⟩ :
          IsBetween (next c rest).2 (expressionLength s (next c rest).2) := by
        rcases hs with ⟨depth', rfl⟩ | hnil
        · refine ih depth' fun before lit after depth₁ hsplit hbefore => ?_
          refine hcomments ((next c rest).1 :: before) lit after depth₁
            (by rw [hsplit, List.cons_append]) ?_
          rw [List.flatMap_cons, ScanState.run_append, hrun, Option.bind_some, hbefore]
        · rw [hnil]
          exact ⟨[], [], split_nil, rfl⟩
      exact ⟨(next c rest).1 :: before, after, by rw [split_cons, hsplit, List.cons_append],
        by rw [hlength, width_cons, hwidth]⟩

/-- A comment that the scan reaches starts before the end of the expression. -/
theorem lt_expressionEnd {depth : Nat} (hsplit : split cs = before ++ .literal lit :: after)
    (hrun : (unquoted 0).run (before.flatMap Segment.text) = some (unquoted depth))
    (hslash : lit.head? = some '/') : width before < expressionEnd cs := by
  obtain ⟨more, rfl⟩ := List.head?_eq_some_iff.mp hslash
  have hwhole :
      cs = before.flatMap Segment.text ++ ('/' :: (more ++ after.flatMap Segment.text)) := by
    rw [← text_split cs, hsplit, List.flatMap_append]
    rfl
  have hstep : (unquoted depth).step '/' = some (unquoted depth) := rfl
  have hlength := expressionLength_of_run hrun ('/' :: (more ++ after.flatMap Segment.text))
  rw [← hwhole, ← width, expressionLength, hstep] at hlength
  rw [expressionEnd, ← unquoted, hlength]
  exact Nat.lt_add_of_pos_right (Nat.succ_pos _)

/-! ## Expression bodies -/

/-- The literals that start in the body at the start of a text do not mislead the
scan. The comments among them hold no quotes and no closing brackets, and
separators only between brackets. Each literal ends before the body does, or is
closed. -/
structure IsReadableBody (body text : List Char) : Prop where
  comments : ∀ l ∈ (ofText text).literals, l.start < body.length →
    (slice text l.start l.stop).head? = some '/' →
    ∀ c ∈ slice text l.start l.stop, isQuiet (openBrackets (text.take l.start)) c = true
  ends : ∀ l ∈ (ofText text).literals, l.start < body.length →
    l.stop < body.length ∨ IsClosed (slice text l.start l.stop)

namespace IsReadableBody

variable {body behind : List Char}

/-- The literals of a text that is read apart from what follows it. -/
theorem of_split (h : IsReadableBody body (cs ++ behind)) (hcs : ReadApart cs behind)
    (hsplit : split cs = before ++ .literal lit :: after) (hstart : width before < body.length) :
    (lit.head? = some '/' →
        ∀ c ∈ lit, isQuiet (openBrackets (before.flatMap Segment.text)) c = true)
      ∧ (width before + lit.length < body.length ∨ IsClosed lit) := by
  have hwhole : split (cs ++ behind) = before ++ .literal lit :: (after ++ split behind) := by
    rw [hcs, hsplit, List.append_assoc, List.cons_append]
  obtain ⟨hmem, hslice⟩ := mem_literals_of_split hwhole
  have hcomments := h.comments _ hmem hstart
  have hends := h.ends _ hmem hstart
  rw [hslice, (cut_of_split hwhole).1] at hcomments
  rw [hslice] at hends
  exact ⟨hcomments, hends⟩

/-- **A body ends between two segments**, and nothing that follows changes how it
is read. -/
theorem isBetween (h : IsReadableBody (expressionBody cs) (cs ++ behind))
    (hcs : ReadApart cs behind) :
    IsBetween cs (expressionBody cs).length ∧ IsTidy (expressionBody cs) := by
  have hend : IsBetween cs (expressionEnd cs) := by
    refine isBetween_expressionLength 0 cs fun before lit after depth hsplit hrun hslash => ?_
    have hroom : expressionEnd cs - width before ≠ 0 :=
      Nat.sub_ne_zero_of_lt (lt_expressionEnd hsplit hrun hslash)
    have hstart : width before < (expressionBody cs).length := by
      refine lt_length_trimEnd (c := '/') ?_ (by decide)
      rw [List.drop_take, List.head?_take, if_neg hroom, (cut_of_split hsplit).2, List.flatMap_cons,
        text_literal, List.head?_append, hslash, Option.some_or]
    have hquiet := (h.of_split hcs hsplit hstart).1 hslash
    rwa [openBrackets, hrun] at hquiet
  exact hend.trimEnd fun before lit after hsplit hstart => (h.of_split hcs hsplit hstart).2

end IsReadableBody

end Arrows

end Downlevel.Code
