/-
Downlevel.Proofs.Code.ArrowLiterals — the literals of a text with arrows.

What is kept before an arrow, its parameters and its expression body are tidy when
nothing that may follow changes how they are read (`AreTidy`). The pieces of a text
are tidy if its arrows are readable (`areTidy_piecesFrom`): their parameters do not end
in an open literal, and the literals of a body do not mislead the scan for its end.

Tidy pieces are read each on its own, in the old text and in the new one. So heads
and bodies end in code (`endsInCode_of_areTidy`), and the new text has the literals
of the old one (`literals_stay`). The conditions are not idle: a comma in a comment
ends a body, and an arrow in a string ends a head (`arrows_end_in_literals`).
-/
import Downlevel.Proofs.Code.ArrowPlaces
import Downlevel.Proofs.Code.ExpressionEnds

namespace Downlevel.Code

open Segment
open Pattern (slice Match findFrom?_some)

/-! ## Literals of a text -/

def Segment.literal? : Segment → Option (List Char)
  | .code _ => none
  | .literal lit => some lit

/-- The literals of a text from left to right. -/
def literalTexts (text : List Char) : List (List Char) := (split text).filterMap literal?

section Readings

variable {text u u' v w w' p front behind : List Char} {i j : Nat} {x : Char}

theorem literalTexts_append (h : ReadApart u v) :
    literalTexts (u ++ v) = literalTexts u ++ literalTexts v := by
  rw [literalTexts, h, List.filterMap_append, literalTexts, literalTexts]

theorem literalTexts_of_isPlain (h : IsPlain u) : literalTexts u = [] := by
  induction u with
  | nil =>
    rw [literalTexts, split_nil]
    rfl
  | cons c u ih =>
    obtain ⟨hc, hu⟩ := List.forall_mem_cons.mp h
    rw [literalTexts, split_cons, next_of_plain hc]
    exact ih hu

/-- Nothing that follows changes how the text is read. -/
def IsSealed (u : List Char) : Prop := ∀ v, ReadApart u v

/-- Tidy characters between plain ones. -/
theorem isSealed_around (hfront : IsPlain front) (hp : IsTidy p) (hbehind : IsPlain behind)
    (hx : behind.head? = some x) (hstar : x ≠ '*') :
    IsSealed (front ++ (p ++ behind))
      ∧ literalTexts (front ++ (p ++ behind)) = literalTexts p := by
  have hapart : ∀ v, ReadApart p (behind ++ v) := by
    obtain ⟨more, rfl⟩ := List.head?_eq_some_iff.mp hx
    have hslash : x ≠ '/' := by
      rintro rfl
      exact absurd (hbehind '/' List.mem_cons_self) (by decide)
    exact fun v => hp.readApart_cons hslash hstar _
  have hnone : ReadApart p behind := List.append_nil behind ▸ hapart []
  constructor
  · exact fun v => (ReadApart.plain hfront _).extend ((hapart v).extend (.plain hbehind v))
  · rw [literalTexts_append (.plain hfront _), literalTexts_append hnone,
      literalTexts_of_isPlain hfront, literalTexts_of_isPlain hbehind, List.nil_append,
      List.append_nil]

theorem readApart_take_drop (h : IsBetween text i) : ReadApart (text.take i) (text.drop i) := by
  have hi : i ≤ text.length := by
    obtain ⟨before, after, hsplit, rfl⟩ := h
    rw [← width_split text, hsplit, width_append]
    exact Nat.le_add_right _ _
  rwa [readApart_iff_isBetween, List.take_append_drop, List.length_take_of_le hi]

/-- What stands between two places in code is read apart from what follows. -/
theorem readApart_slice (hi : ReadApart (text.take i) (text.drop i))
    (hj : ReadApart (text.take j) (text.drop j)) (hij : i ≤ j) :
    ReadApart (slice text i j) (text.drop j) := by
  rw [← slice_append_drop text hij] at hi
  rw [← take_append_slice hij] at hj
  cases hslice : slice text i j with
  | nil => exact readApart_nil_left _
  | cons x more =>
    rw [hslice] at hi hj
    exact (hj.of_append (hi.congr rfl)).2

/-- A text is tidy if it is read apart from one that starts in no line break. -/
theorem isTidy_of_readApart (h : ReadApart u v) (hx : v.head? = some x) (hline : x ≠ '\n') :
    IsTidy u := by
  refine isTidy_of_getLast? fun lit hlit => ?_
  obtain ⟨front, hu⟩ := List.getLast?_eq_some_iff.mp hlit
  have hsplit : split (u ++ v) = front ++ .literal lit :: split v := by
    rw [h, hu, List.append_assoc, List.singleton_append]
  rcases literal_cases hsplit with hnil | ⟨-, hbreak⟩ | ⟨hclosed, -⟩
  · have hv := text_split v
    rw [hnil] at hv
    rw [← hv] at hx
    cases hx
  · rw [text_split, hx] at hbreak
    exact absurd (Option.some.inj hbreak) hline
  · exact hclosed

/-! ## Texts that stand for others -/

/-- A text with the same literals, read apart from all that the old one is read
apart from. -/
structure StandsFor (new old : List Char) : Prop where
  literals : literalTexts new = literalTexts old
  apart : ∀ v, ReadApart old v → ReadApart new v

namespace StandsFor

theorem refl (u : List Char) : StandsFor u u := ⟨rfl, fun _ h => h⟩

theorem of_isSealed (h : IsSealed u') (hliterals : literalTexts u' = literalTexts u) :
    StandsFor u' u := ⟨hliterals, fun v _ => h v⟩

theorem append (hu : StandsFor u' u) (hw : StandsFor w' w) (h : ReadApart u w)
    (h' : ∀ v, ReadApart u' (w' ++ v)) : StandsFor (u' ++ w') (u ++ w) := by
  constructor
  · have hnone : ReadApart u' w' := List.append_nil w' ▸ h' []
    rw [literalTexts_append h, literalTexts_append hnone, hu.literals, hw.literals]
  · exact fun v hv => (h' v).extend (hw.apart v (hv.of_append h).2)

end StandsFor

end Readings

namespace Arrows

/-! ## Heads -/

section Heads

variable {head parameters behind : List Char}

theorem isPlain_of_isAround {w : List Char} (h : ∀ c ∈ w, isAround c = true) : IsPlain w := by
  intro c hc
  rcases isAround_iff.mp (h c hc) with hblank | rfl | rfl | rfl | rfl
  · exact opensLiteral_of_isBlank hblank
  all_goals decide

/-- Both forms of a head are sealed, with the literals of the parameters. -/
theorem IsHead.isSealed (h : IsHead head parameters) (ht : IsTidy parameters) :
    IsSealed head ∧ literalTexts head = literalTexts parameters := by
  obtain ⟨x, more, hx⟩ := List.exists_cons_of_ne_nil h.ne_nil
  have hstar : x ≠ '*' := by
    rintro rfl
    exact absurd (h.around '*' (hx ▸ List.mem_cons_self)) (by decide)
  rw [h.eq]
  exact isSealed_around (isPlain_of_isAround fun _ => isAround_of_mem_opening) ht
    (isPlain_of_isAround h.around) (by rw [hx, List.head?_cons]) hstar

theorem standsFor_head (h : IsHead head parameters) (ht : IsTidy parameters)
    (hbehind : IsPlain behind) (hparen : behind.head? = some ')') :
    IsSealed ("function(".toList ++ (parameters ++ behind))
      ∧ StandsFor ("function(".toList ++ (parameters ++ behind)) head := by
  have hfront : IsPlain "function(".toList := by decide
  obtain ⟨hsealed, hliterals⟩ := isSealed_around hfront ht hbehind hparen (by decide)
  exact ⟨hsealed, .of_isSealed hsealed (hliterals.trans (h.isSealed ht).2.symm)⟩

/-- A head starts with a parenthesis or a name, so it ends no line and makes no
comment of a slash. -/
theorem IsHead.exists_cons (h : IsHead head parameters) :
    ∃ x more, head = x :: more ∧ x ≠ '\n' ∧ x ≠ '/' ∧ x ≠ '*' := by
  have heq := h.eq
  rcases h.form with ⟨⟨blanks, hopening⟩, -⟩ | ⟨hopening, x, more, hname, hx, -⟩
  · rw [hopening, List.cons_append] at heq
    exact ⟨'(', _, heq, by decide, by decide, by decide⟩
  · rw [hopening, List.nil_append] at heq
    conv at heq => rhs; rw [hname]
    refine ⟨x, _, heq, ?_⟩
    refine ⟨?_, ?_, ?_⟩
    all_goals
      rintro rfl
      exact absurd hx (by decide)

/-- What stands before a head is read apart from it. -/
theorem IsHead.readApart {u : List Char} (h : IsHead head parameters) (hu : IsTidy u)
    (v : List Char) : ReadApart u (head ++ v) := by
  obtain ⟨x, more, rfl, -, hslash, hstar⟩ := h.exists_cons
  exact hu.readApart_cons hslash hstar _

theorem Closes.of_append {u v : List Char} (h : Closes (u ++ v)) : Closes u := by
  intro x hx
  exact h x (by rw [List.head?_append, hx, Option.some_or])

theorem Closes.readApart {u v : List Char} (h : Closes v) (hu : IsTidy u) : ReadApart u v := by
  have hopens : ∀ x, v.head? = some x → opensLiteral x = false ∧ x ≠ '*' := by
    intro x hx
    have hmarks : ∀ c ∈ endMarks, opensLiteral c = false ∧ c ≠ '*' := by decide
    rcases h.cases hx with hblank | hmark
    · refine ⟨opensLiteral_of_isBlank hblank, ?_⟩
      rintro rfl
      exact absurd hblank (by decide)
    · exact hmarks x hmark
  refine hu v (fun hslash => ?_) fun hstar => (hopens '*' hstar).2 rfl
  exact absurd (hopens '/' hslash).1 (by decide)

end Heads

/-! ## Tidy pieces -/

/-- Nothing that may follow changes how the parts of these pieces are read. -/
inductive AreTidy : List ArrowPiece → Prop
  | kept (text : List Char) : AreTidy [.kept text]
  | blockHead {text head parameters : List Char} {rest : List ArrowPiece} :
      IsTidy text → IsTidy parameters → AreTidy rest →
      AreTidy (.kept text :: .blockHead head parameters :: rest)
  | expression {text head parameters : List Char} {body rest : List ArrowPiece} :
      IsTidy text → IsTidy parameters → IsTidy (givenAll body) → AreTidy body → AreTidy rest →
      AreTidy (.kept text :: .expression head parameters body :: rest)

section Tidy

variable {ps : List ArrowPiece} {after : List Char}

/-- **The new form of tidy pieces stands for the old one.** -/
theorem standsFor_writtenAll (hshape : AreShaped ps after) (htidy : AreTidy ps) :
    StandsFor (writtenAll ps) (givenAll ps) := by
  induction hshape with
  | kept text after => exact .refl _
  | @blockHead text head parameters after rest hhead _ ih =>
    cases htidy with
    | blockHead htext hparameters hrest =>
    have hblock : IsPlain ") ".toList := by decide
    obtain ⟨hsealed, hstands⟩ := standsFor_head hhead hparameters hblock rfl
    rw [writtenAll_cons, writtenAll_cons, written_kept, written_blockHead, givenAll_kept, givenAll,
      ArrowPiece.given]
    have hfunction : ∀ v, ReadApart text ("function(".toList ++ v) :=
      fun v => htext.readApart_cons (by decide) (by decide) _
    refine .append (.refl text) (hstands.append (ih hrest) ((hhead.isSealed hparameters).1 _)
      fun v => hsealed _) (hhead.readApart htext _) fun v => ?_
    rw [List.append_assoc, List.append_assoc]
    exact hfunction _
  | @expression text head parameters after body rest hhead hcloses _ _ ihBody ihRest =>
    cases htidy with
    | expression htext hparameters hbodyTidy hbody hrest =>
    have hreturn : IsPlain ") \x7b return ".toList := by decide
    obtain ⟨hsealed, hstands⟩ := standsFor_head hhead hparameters hreturn rfl
    have hplain : IsPlain "; \x7d".toList := by decide
    -- what follows the body in the new text may follow it in the old one
    have hnew := ihBody hbody
    have hend : ∀ v, ReadApart (writtenAll body) ("; \x7d".toList ++ v) :=
      fun v => hnew.apart _ (hbodyTidy.readApart_cons (by decide) (by decide) _)
    have hbodySealed : IsSealed (writtenAll body ++ "; \x7d".toList) :=
      fun v => (hend v).extend (.plain hplain v)
    have hbodyStands : StandsFor (writtenAll body ++ "; \x7d".toList) (givenAll body) := by
      refine .of_isSealed hbodySealed ?_
      rw [literalTexts_append (by simpa using hend []), literalTexts_of_isPlain hplain,
        List.append_nil, hnew.literals]
    have hrestStands := hbodyStands.append (ihRest hrest) (hcloses.of_append.readApart hbodyTidy)
      fun v => hbodySealed _
    have hwhole := hstands.append hrestStands ((hhead.isSealed hparameters).1 _) fun v => hsealed _
    rw [writtenAll_cons, writtenAll_cons, written_kept, written_expression, givenAll_kept, givenAll,
      ArrowPiece.given]
    simp only [List.append_assoc] at hwhole ⊢
    exact .append (.refl text) hwhole (hhead.readApart htext _) fun v =>
      htext.readApart_cons (by decide) (by decide) _

/-- **The arrows among tidy pieces** are read apart from their bodies, and the
bodies from what follows. -/
theorem readApart_of_mem_arrowsIn (hshape : AreShaped ps after) (htidy : AreTidy ps) {a : Arrow} :
    ∀ {before}, ReadApart before (givenAll ps ++ after) → a ∈ arrowsIn before after ps →
      ReadApart (a.before ++ a.head) a.after
        ∧ ∀ body ∈ a.body, ∃ rest, a.after = body ++ rest
          ∧ ReadApart (a.before ++ a.head ++ body) rest := by
  induction hshape with
  | kept text after =>
    intro before _ ha
    cases ha
  | @blockHead text head parameters after rest hhead _ ih =>
    intro before hbefore ha
    cases htidy with
    | blockHead htext hparameters hrest =>
    rw [givenAll_kept, givenAll, ArrowPiece.given, List.append_assoc, List.append_assoc] at hbefore
    have hkept := hbefore.extend (hhead.readApart htext _)
    have harrow := hkept.extend ((hhead.isSealed hparameters).1 _)
    rw [arrowsIn_kept, arrowsIn_blockHead] at ha
    rcases List.mem_cons.mp ha with rfl | ha
    · exact ⟨harrow, fun body hbody => by cases hbody⟩
    · exact ih hrest harrow ha
  | @expression text head parameters after body rest hhead hcloses _ _ ihBody ihRest =>
    intro before hbefore ha
    cases htidy with
    | expression htext hparameters hbodyTidy hbody hrest =>
    rw [givenAll_kept, givenAll, ArrowPiece.given, List.append_assoc, List.append_assoc,
      List.append_assoc] at hbefore
    have hkept := hbefore.extend (hhead.readApart htext _)
    have harrow := hkept.extend ((hhead.isSealed hparameters).1 _)
    have hend := harrow.extend (hcloses.readApart hbodyTidy)
    rw [arrowsIn_kept, arrowsIn_expression] at ha
    rcases List.mem_cons.mp ha with rfl | ha
    · refine ⟨harrow, fun body' hbody' => ?_⟩
      obtain rfl : givenAll body = body' := Option.some.inj hbody'
      exact ⟨_, rfl, hend⟩
    · rcases List.mem_append.mp ha with ha | ha
      · exact ihBody hbody harrow ha
      · rw [← List.append_assoc (before ++ text)] at ha
        exact ihRest hrest hend ha

end Tidy

/-! ## Readable arrows -/

/-- The parameters do not end in a line comment or in a literal that is not closed,
and the literals of an expression body do not mislead the scan for its end. -/
structure Arrow.IsReadable (a : Arrow) : Prop where
  parameters : ∀ lit, (split a.parameters).getLast? = some (.literal lit) → IsClosed lit
  body : ∀ body ∈ a.body, IsReadableBody body a.after

section Found

variable {text : List Char} {place last : Nat} {m : Match}

/-- A head that starts in code: what is skipped before it is tidy, and it ends in
code. -/
theorem readApart_of_findFrom? (hplace : place ≤ text.length)
    (hm : head.findFrom? text place = some m) (hcode : (ofText text).InCode m.start)
    (hlast : ReadApart (text.take last) (text.drop last)) (hle : last ≤ m.start)
    (hparameters : IsTidy (parameters text m)) :
    IsTidy (slice text last m.start) ∧ ReadApart (text.take m.stop) (text.drop m.stop) := by
  obtain ⟨hstart, hlength, hstop⟩ := findFrom?_some hplace hm
  have hhead := isHead_of_findFrom? hplace hm
  have hbetween := readApart_take_drop ((inCode_iff_isBetween (by omega)).mp hcode)
  have hdrop : text.drop m.start = m.text text ++ text.drop m.stop := by
    rw [Match.text, slice_append_drop text (by omega)]
  constructor
  · obtain ⟨x, more, hx, hline, -⟩ := hhead.exists_cons
    exact isTidy_of_readApart (readApart_slice hlast hbetween hle)
      (by rw [hdrop, hx, List.cons_append, List.head?_cons]) hline
  · rw [hdrop] at hbetween
    have htake : text.take m.start ++ m.text text = text.take m.stop := take_append_slice (by omega)
    rw [← htake]
    exact hbetween.extend ((hhead.isSealed hparameters).1 _)

end Found

/-- **The pieces of a text are tidy** if its arrows are readable. -/
theorem areTidy_piecesFrom (text : List Char) (last offset : Nat) : ∀ {before after : List Char},
    last ≤ offset → ReadApart (text.take last) (text.drop last) → ReadApart text after →
    (∀ a ∈ arrowsIn before after (piecesFrom text last offset), a.IsReadable) →
    AreTidy (piecesFrom text last offset) := by
  fun_induction piecesFrom text last offset with
  | case1 text last offset inside hnone => exact fun _ _ _ _ => .kept _
  | case2 text last offset inside m hm literal hinside ih =>
    intro before after hlast
    have hmatch := findFrom?_some inside hm
    have hin := literalAt?_some hinside
    exact ih (by omega)
  | case3 text last offset inside m hm hcode skipped rest =>
    rename_i hblock ih
    intro before after hlast hcut hafter hreadable
    obtain ⟨hstart, -, -⟩ := findFrom?_some inside hm
    rw [arrowsIn_kept, arrowsIn_blockHead] at hreadable
    obtain ⟨harrow, hlater⟩ := List.forall_mem_cons.mp hreadable
    have hparameters := isTidy_of_getLast? harrow.parameters
    obtain ⟨hskipped, hrest⟩ := readApart_of_findFrom? inside hm hcode hcut (by omega) hparameters
    exact .blockHead hskipped hparameters (ih (Nat.le_refl _) hrest hafter hlater)
  | case4 text last offset inside m hm hcode skipped rest =>
    rename_i hblock body ihBody ihRest
    intro before after hlast hcut hafter hreadable
    obtain ⟨hstart, -, -⟩ := findFrom?_some inside hm
    have hbodyPieces : givenAll (piecesFrom body 0 0) = body := givenAll_piecesFrom (Nat.le_refl 0)
    obtain ⟨trail, htrail, -⟩ := closes_expressionBody rest
    have hrestPieces : givenAll (piecesFrom text (m.stop + body.length) (m.stop + body.length))
        = trail := by
      rw [givenAll_piecesFrom (Nat.le_refl _), drop_add_of_drop htrail]
    rw [arrowsIn_kept, arrowsIn_expression, hbodyPieces, hrestPieces] at hreadable
    obtain ⟨harrow, hlater⟩ := List.forall_mem_cons.mp hreadable
    obtain ⟨hinner, hlater⟩ := List.forall_mem_append.mp hlater
    have hparameters := isTidy_of_getLast? harrow.parameters
    obtain ⟨hskipped, hstop⟩ := readApart_of_findFrom? inside hm hcode hcut (by omega) hparameters
    have hbehind : ReadApart rest after := by
      rw [← List.take_append_drop m.stop text] at hafter
      exact (hafter.of_append hstop).2
    -- the body ends in code, so the text goes on behind it as from the start
    have hreads : IsReadableBody body (rest ++ after) := by
      have hbody := harrow.body body rfl
      rwa [← List.append_assoc, ← htrail] at hbody
    obtain ⟨hbetween, hbody⟩ := hreads.isBetween hbehind
    have hend : ReadApart body trail := by
      rw [readApart_iff_isBetween, ← htrail]
      exact hbetween
    have hbodyBehind : ReadApart body (trail ++ after) := by
      rw [htrail] at hbehind
      exact (hbehind.of_append hend).1
    have hrest : ReadApart (text.take (m.stop + body.length))
        (text.drop (m.stop + body.length)) := by
      have hwhole : ReadApart (text.take m.stop) (body ++ trail) := htrail ▸ hstop
      rw [take_add_of_drop htrail, drop_add_of_drop htrail]
      exact hwhole.extend hend
    refine .expression hskipped hparameters (hbodyPieces.symm ▸ hbody) ?_
      (ihRest (Nat.le_refl _) hrest hafter hlater)
    exact ihBody (Nat.le_refl 0) (readApart_nil_left _) hbodyBehind hinner
  | case5 text last offset outside => exact fun _ _ _ _ => .kept _

/-! ## Both scanners -/

/-- The head of an arrow and its expression body end in code. -/
structure Arrow.EndsInCode (source : List Char) (a : Arrow) : Prop where
  head : (ofText source).InCode (a.before ++ a.head).length
  body : ∀ body ∈ a.body, (ofText source).InCode (a.before ++ a.head ++ body).length

theorem inCode_of_readApart {source u v : List Char} (hsource : u ++ v = source)
    (h : ReadApart u v) : (ofText source).InCode u.length := by
  have hle : u.length ≤ source.length := by
    rw [← hsource, List.length_append]
    exact Nat.le_add_right _ _
  rw [inCode_iff_isBetween hle, ← hsource]
  exact readApart_iff_isBetween.mp h

theorem endsInCode_of_areTidy {source : List Char} (htidy : AreTidy (pieces source)) {a : Arrow}
    (ha : a ∈ arrows source) : a.EndsInCode source := by
  have hwhole := whole_of_mem_arrows ha
  obtain ⟨hhead, hbody⟩ :=
    readApart_of_mem_arrowsIn (areShaped_pieces source) htidy (readApart_nil_left _) ha
  refine ⟨inCode_of_readApart (by rw [← hwhole, List.append_assoc]) hhead, fun body hmem => ?_⟩
  obtain ⟨rest, hrest, hapart⟩ := hbody body hmem
  exact inCode_of_readApart (by rw [← hwhole, hrest]; simp only [List.append_assoc]) hapart

/-- **Heads and bodies end in code, and literals stay**: where all arrows of a text
are readable, at every depth, neither a head nor an expression body ends in a
literal, and the new text has the literals of the old one, in the same order. -/
theorem literals_stay {source out : List Char} (h : degrade? source = some out)
    (hreadable : ∀ a ∈ arrows source, a.IsReadable) :
    (∀ a ∈ arrows source, a.EndsInCode source) ∧ literalTexts out = literalTexts source := by
  have htidy : AreTidy (pieces source) :=
    areTidy_piecesFrom source 0 0 (Nat.le_refl 0) (readApart_nil_left _) (readApart_nil_right _)
      hreadable
  refine ⟨fun a => endsInCode_of_areTidy htidy, ?_⟩
  have hstands := standsFor_writtenAll (areShaped_pieces source) htidy
  rw [eq_lowered_of_degrade? h, lowered, hstands.literals, givenAll_pieces]

/-- A string at the end of the parameters, and a comment with a comma between the
brackets of the body. -/
theorem literals_stay_of_call :
    ∃ out a, degrade? "(a, b = \",\") => g(a /* x, y */, \";\")".toList = some out
      ∧ arrows "(a, b = \",\") => g(a /* x, y */, \";\")".toList = [a] ∧ a.IsReadable
      ∧ a.EndsInCode "(a, b = \",\") => g(a /* x, y */, \";\")".toList
      ∧ literalTexts out = ["\",\"".toList, "/* x, y */".toList, "\";\"".toList] := by
  have hpieces : pieces "(a, b = \",\") => g(a /* x, y */, \";\")".toList
      = [.kept [], .expression "(a, b = \",\") => ".toList "a, b = \",\"".toList
        [.kept "g(a /* x, y */, \";\")".toList], .kept []] :=
    pieces_of_lone_arrow (m := ⟨0, 16, [⟨1, 1, 11⟩]⟩) (by decide +kernel) (by decide +kernel)
      (by decide +kernel) (by decide +kernel) (by decide +kernel) (by decide +kernel)
  have hdegrade : degrade? "(a, b = \",\") => g(a /* x, y */, \";\")".toList
      = some "function(a, b = \",\") \x7b return g(a /* x, y */, \";\"); \x7d".toList := by
    rw [degrade?, lowered, hpieces]
    decide +kernel
  have harrows : arrows "(a, b = \",\") => g(a /* x, y */, \";\")".toList
      = [⟨[], "(a, b = \",\") => ".toList, "a, b = \",\"".toList,
        some "g(a /* x, y */, \";\")".toList, "g(a /* x, y */, \";\")".toList⟩] := by
    rw [arrows, hpieces]
    decide +kernel
  have hreadable : Arrow.IsReadable ⟨[], "(a, b = \",\") => ".toList, "a, b = \",\"".toList,
      some "g(a /* x, y */, \";\")".toList, "g(a /* x, y */, \";\")".toList⟩ := by
    refine ⟨fun lit hlit => ?_, fun body hbody => ?_⟩
    · have hlast : (split "a, b = \",\"".toList).getLast? = some (.literal "\",\"".toList) := by
        decide +kernel
      obtain rfl := Segment.literal.inj (Option.some.inj (hlast.symm.trans hlit))
      decide +kernel
    · obtain rfl := Option.some.inj hbody
      exact ⟨by decide +kernel, by decide +kernel⟩
  have hall := literals_stay hdegrade (harrows ▸ List.forall_mem_singleton.mpr hreadable)
  refine ⟨_, _, hdegrade, harrows, hreadable, hall.1 _ (harrows ▸ List.mem_singleton_self _), ?_⟩
  rw [hall.2]
  decide +kernel

/-- The body ends at the comma in the comment, which is then another one. The head
ends at the arrow in the string, which is cut in two. -/
theorem arrows_end_in_literals :
    (∃ a ∈ arrows "x => a /* , */ + b".toList, ∃ body ∈ a.body,
      ¬ (ofText "x => a /* , */ + b".toList).InCode (a.before ++ a.head ++ body).length
      ∧ degrade? "x => a /* , */ + b".toList
        = some "function(x) \x7b return a /*; \x7d , */ + b".toList
      ∧ literalTexts "x => a /* , */ + b".toList = ["/* , */".toList]
      ∧ literalTexts "function(x) \x7b return a /*; \x7d , */ + b".toList
        = ["/*; \x7d , */".toList])
    ∧ ∃ a ∈ arrows "f(a, \") => \")".toList,
      ¬ (ofText "f(a, \") => \")".toList).InCode (a.before ++ a.head).length
      ∧ degrade? "f(a, \") => \")".toList
        = some "ffunction(a, \") \x7b return \"); \x7d".toList
      ∧ literalTexts "f(a, \") => \")".toList = ["\") => \"".toList]
      ∧ literalTexts "ffunction(a, \") \x7b return \"); \x7d".toList
        = ["\") \x7b return \"".toList] := by
  have hcomment : pieces "x => a /* , */ + b".toList = [.kept [],
      .expression "x => ".toList "x".toList [.kept "a /*".toList], .kept " , */ + b".toList] :=
    pieces_of_lone_arrow (m := ⟨0, 5, [⟨2, 0, 1⟩]⟩) (by decide +kernel) (by decide +kernel)
      (by decide +kernel) (by decide +kernel) (by decide +kernel) (by decide +kernel)
  have hstring : pieces "f(a, \") => \")".toList = [.kept "f".toList,
      .expression "(a, \") => ".toList "a, \"".toList [.kept "\")".toList], .kept []] :=
    pieces_of_lone_arrow (m := ⟨1, 11, [⟨1, 2, 6⟩]⟩) (by decide +kernel) (by decide +kernel)
      (by decide +kernel) (by decide +kernel) (by decide +kernel) (by decide +kernel)
  constructor
  · refine ⟨⟨[], "x => ".toList, "x".toList, some "a /*".toList, "a /* , */ + b".toList⟩, ?_,
      "a /*".toList, rfl, ?_, ?_, ?_, ?_⟩
    · rw [arrows, hcomment]
      decide +kernel
    · rw [InCode]
      decide +kernel
    · rw [degrade?, lowered, hcomment]
      decide +kernel
    all_goals decide +kernel
  · refine ⟨⟨"f".toList, "(a, \") => ".toList, "a, \"".toList, some "\")".toList, "\")".toList⟩, ?_,
      ?_, ?_, ?_, ?_⟩
    · rw [arrows, hstring]
      decide +kernel
    · rw [InCode]
      decide +kernel
    · rw [degrade?, lowered, hstring]
      decide +kernel
    all_goals decide +kernel

end Arrows

end Downlevel.Code
