/-
Downlevel.Proofs.Code.ArrowPieces — what the pieces of a text with arrows are.

The old forms of the pieces make up the text (`givenAll_pieces`). A head is what
stands before its parameters, the parameters and what stands behind them
(`IsHead`), and behind the expression of an arrow comes a character that ends it
(`Closes`). `AreShaped` says both of all pieces, inner ones included, and
`areShaped_pieces` says that a text is taken apart into pieces of this kind.
-/
import Downlevel.Code.Arrows
import Downlevel.Proofs.Code.Carrying
import Downlevel.Proofs.Code.Patched

namespace Downlevel.Code.Arrows

open Pattern

/-! ## Heads -/

/-- What stands before the parameters of a head. -/
def opening (head : List Char) : List Char := head.takeWhile fun c => c == '(' || Text.isBlank c

/-- What stands behind them. -/
def closing (head parameters : List Char) : List Char :=
  head.drop ((opening head).length + parameters.length)

/-- The characters that surround parameters. -/
def isAround (c : Char) : Bool := Text.isBlank c || "()=>".toList.contains c

/-- A head with its parameters, which are a list in parentheses or a name. -/
structure IsHead (head parameters : List Char) : Prop where
  eq : head = opening head ++ (parameters ++ closing head parameters)
  around : ∀ c ∈ closing head parameters, isAround c = true
  ne_nil : closing head parameters ≠ []
  form : ((∃ blanks, opening head = '(' :: blanks)
      ∧ ∀ c, (closing head parameters).head? = some c → c = ')' ∨ Text.isBlank c = true)
    ∨ opening head = [] ∧ IsName parameters

theorem closing_of_eq {head before parameters after : List Char}
    (h : head = before ++ (parameters ++ after)) (hopening : opening head = before) :
    closing head parameters = after := by
  rw [closing, hopening, h, ← List.drop_drop, List.drop_left' rfl, List.drop_left' rfl]

theorem exists_of_trimEnd (w : List Char) :
    ∃ after, w = Text.trimEnd w ++ after ∧ ∀ c ∈ after, Text.isBlank c = true := by
  refine ⟨(w.reverse.takeWhile Text.isBlank).reverse, ?_, fun c hc => ?_⟩
  · rw [Text.trimEnd, ← List.reverse_append, List.takeWhile_append_dropWhile, List.reverse_reverse]
  · exact List.all_eq_true.mp (List.all_takeWhile (p := Text.isBlank)) c (List.mem_reverse.mp hc)

/-- What trimming takes away. -/
theorem exists_of_trim (inner : List Char) :
    ∃ before after, inner = before ++ (Text.trim inner ++ after)
      ∧ (∀ c ∈ before, Text.isBlank c = true) ∧ (∀ c ∈ after, Text.isBlank c = true)
      ∧ ∀ c, (Text.trim inner ++ after).head? = some c → Text.isBlank c = false := by
  obtain ⟨after, hafter, hblank⟩ := exists_of_trimEnd (Text.trimStart inner)
  rw [← Text.trim] at hafter
  refine ⟨inner.takeWhile Text.isBlank, after, ?_, List.all_eq_true.mp List.all_takeWhile, hblank,
    ?_⟩
  · rw [← hafter, Text.trimStart, List.takeWhile_append_dropWhile]
  · intro c hc
    rw [← hafter, Text.trimStart] at hc
    have hhead := List.head?_dropWhile_not Text.isBlank inner
    rwa [hc] at hhead

theorem isHead_of_list {inner close : List Char} (hinner : ∀ c ∈ inner, c ≠ '(' ∧ c ≠ ')')
    (hclose : ∀ c ∈ close, isAround c = true) :
    IsHead ('(' :: (inner ++ ')' :: close)) (Text.trim inner) := by
  obtain ⟨before, after, hwhole, hbefore, hafter, hhead⟩ := exists_of_trim inner
  have heq : '(' :: (inner ++ ')' :: close)
      = ('(' :: before) ++ (Text.trim inner ++ (after ++ ')' :: close)) := by
    conv => lhs; rw [hwhole]
    simp
  have hopening : opening ('(' :: (inner ++ ')' :: close)) = '(' :: before := by
    have hpass : ∀ c ∈ '(' :: before, (c == '(' || Text.isBlank c) = true := by
      refine List.forall_mem_cons.mpr ⟨rfl, fun c hc => ?_⟩
      rw [hbefore c hc, Bool.or_true]
    rw [heq, opening, List.takeWhile_append_of_pos hpass, ← List.append_assoc]
    cases hrest : Text.trim inner ++ after with
    | nil => simp [Text.isBlank]
    | cons c rest =>
      have hparen : c ≠ '(' := (hinner c (by rw [hwhole, hrest]; simp)).1
      have hblank : Text.isBlank c = false := hhead c (by rw [hrest]; rfl)
      simp [hparen, hblank]
  have hclosing := closing_of_eq heq hopening
  refine ⟨by rw [hclosing, hopening, heq], ?_, ?_, .inl ⟨⟨before, hopening⟩, ?_⟩⟩
  · rw [hclosing]
    intro c hc
    rcases List.mem_append.mp hc with hc | hc
    · rw [isAround, hafter c hc, Bool.true_or]
    · rcases List.mem_cons.mp hc with rfl | hc
      · decide
      · exact hclose c hc
  · simp [hclosing]
  · rw [hclosing]
    intro c hc
    cases after with
    | nil => exact .inl (Option.some.inj hc).symm
    | cons d after =>
      obtain rfl : d = c := Option.some.inj hc
      exact .inr (hafter d List.mem_cons_self)

theorem isHead_of_name {parameter close : List Char} (hname : IsName parameter)
    (hclose : ∀ c ∈ close, isAround c = true) (hne : close ≠ []) :
    IsHead (parameter ++ close) (Text.trim parameter) := by
  have hblank : ∀ c ∈ parameter, Text.isBlank c = false :=
    fun c hc => isBlank_eq_false_of_isNamePart (hname.isNamePart c hc)
  have htrim : Text.trim parameter = parameter := by
    obtain ⟨before, after, hwhole, hbefore, hafter, -⟩ := exists_of_trim parameter
    have hnil : ∀ w : List Char, (∀ c ∈ w, c ∈ parameter) → (∀ c ∈ w, Text.isBlank c = true) →
        w = [] := by
      intro w hmem hw
      refine List.eq_nil_iff_forall_not_mem.mpr fun c hc => ?_
      exact Bool.false_ne_true ((hblank c (hmem c hc)).symm.trans (hw c hc))
    have hbefore := hnil before (fun c hc => by rw [hwhole]; simp [hc]) hbefore
    have hafter := hnil after (fun c hc => by rw [hwhole]; simp [hc]) hafter
    rw [hbefore, hafter, List.nil_append, List.append_nil] at hwhole
    exact hwhole.symm
  have hopening : opening (parameter ++ close) = [] := by
    have hpart := hname.isNamePart
    obtain ⟨c, more, rfl, -⟩ := hname
    have hc := hblank c List.mem_cons_self
    have hparen : c ≠ '(' := by
      rintro rfl
      exact absurd (hpart '(' List.mem_cons_self) (by decide)
    simp [opening, hc, hparen]
  have hclosing : closing (parameter ++ close) parameter = close := closing_of_eq rfl hopening
  rw [htrim]
  exact ⟨by rw [hclosing, hopening]; rfl, by rwa [hclosing], by rwa [hclosing],
    .inr ⟨hopening, hname⟩⟩

/-- A head as it is spelled, with what it lists: parameters in parentheses or a
bare one, and an arrow with blanks around it. -/
inductive IsArrowHead : List Char → List Char → Prop
  | list {inner gap behind : List Char} :
      (∀ c ∈ inner, c ≠ '(' ∧ c ≠ ')') → (∀ c ∈ gap, Text.isBlank c = true) →
      (∀ c ∈ behind, Text.isBlank c = true) →
      IsArrowHead ('(' :: (inner ++ ')' :: (gap ++ ("=>".toList ++ behind)))) inner
  | bare {parameter gap behind : List Char} :
      IsName parameter → (∀ c ∈ gap, Text.isBlank c = true) →
      (∀ c ∈ behind, Text.isBlank c = true) →
      IsArrowHead (parameter ++ (gap ++ ("=>".toList ++ behind))) parameter

theorem isAround_of_arrow {gap behind : List Char} (hgap : ∀ c ∈ gap, Text.isBlank c = true)
    (hbehind : ∀ c ∈ behind, Text.isBlank c = true) :
    ∀ c ∈ gap ++ ("=>".toList ++ behind), isAround c = true := by
  have hblank : ∀ {c : Char}, Text.isBlank c = true → isAround c = true := by
    intro c hc
    rw [isAround, hc, Bool.true_or]
  exact List.forall_mem_append.mpr ⟨fun c hc => hblank (hgap c hc),
    List.forall_mem_append.mpr ⟨by decide, fun c hc => hblank (hbehind c hc)⟩⟩

theorem IsArrowHead.isHead {head listed : List Char} (h : IsArrowHead head listed) :
    IsHead head (Text.trim listed) := by
  cases h with
  | list hinner hgap hbehind => exact isHead_of_list hinner (isAround_of_arrow hgap hbehind)
  | bare hname hgap hbehind =>
    exact isHead_of_name hname (isAround_of_arrow hgap hbehind) (by simp)

/-- **What is found is the head of an arrow**, and its parameters are what it
lists. -/
theorem isArrowHead_of_findFrom? {text : List Char} {place : Nat} {m : Match}
    (hplace : place ≤ text.length) (hm : head.findFrom? text place = some m) :
    ∃ listed, IsArrowHead (m.text text) listed ∧ parameters text m = Text.trim listed := by
  obtain ⟨a, w, b, hw, hstart, hrest, hnone, hstop, hgroups⟩ := findFrom?_spells hplace hm
  rw [hw.rest_eq] at hrest
  have hlength := hw.offset_eq
  rw [hstart, hstop] at hlength
  have htext : m.text text = w := by
    rw [Match.text, hlength]
    exact slice_of_drop hrest.symm
  obtain ⟨u, after, c₃, rfl, hu, hafter⟩ := hw.of_append
  obtain ⟨u, arrow, c₂, rfl, hu, harrow⟩ := hu.of_append
  obtain ⟨front, before, c₁, rfl, hfront, hbefore⟩ := hu.of_append
  obtain rfl := harrow.of_literal
  have hrecorded : m.groups = c₁.groups := by
    rw [← hgroups, hafter.groups_eq rfl, harrow.groups_eq rfl, hbefore.groups_eq rfl]
  rw [htext]
  rcases hfront.of_or with hlist | hname
  · obtain ⟨u, close, c₄, rfl, hu, hparen⟩ := hlist.of_append
    obtain ⟨opn, inner, c₅, rfl, hopen, hinner⟩ := hu.of_append
    obtain ⟨c₆, hbody, rfl⟩ := hinner.of_group
    obtain rfl : opn = ['('] := hopen.of_literal
    obtain rfl : close = [')'] := hparen.of_literal
    refine ⟨inner, ?_, ?_⟩
    · have hchars : ∀ c ∈ inner, c ≠ '(' ∧ c ≠ ')' :=
        fun c hc => by simpa using hbody.of_star_char c hc
      simpa using IsArrowHead.list hchars hbefore.of_star_char hafter.of_star_char
    · have hslice : slice text (m.start + 1) (m.start + 1 + inner.length) = inner :=
        @slice_of_drop _ _ (')' :: (before ++ ("=>".toList ++ (after ++ b.rest)))) _
          (drop_add_of_drop (w := ['(']) (by rw [← hrest]; simp))
      have hgroup : m.groups = [⟨1, m.start + 1, m.start + 1 + inner.length⟩] := by
        rw [hrecorded, hparen.groups_eq rfl, Cursor.record, hbody.offset_eq, hbody.groups_eq rfl,
          hopen.offset_eq, hopen.groups_eq rfl, hnone, hstart]
        rfl
      simp [parameters, Match.groupText?, Match.group?, hgroup, hslice]
  · obtain ⟨edges, parameter, c₄, rfl, hedges, hgroup⟩ := hname.of_append
    obtain ⟨c₅, hbody, rfl⟩ := hgroup.of_group
    cases hedges
    refine ⟨parameter, ?_, ?_⟩
    · simpa using IsArrowHead.bare hbody.of_name hbefore.of_star_char hafter.of_star_char
    · have hslice : slice text m.start (m.start + parameter.length) = parameter :=
        @slice_of_drop _ _ (before ++ ("=>".toList ++ (after ++ b.rest))) _
          (by rw [← hrest]; simp)
      have hgroup : m.groups = [⟨2, m.start, m.start + parameter.length⟩] := by
        rw [hrecorded, Cursor.record, hbody.offset_eq, hbody.groups_eq rfl, hnone, hstart]
      simp [parameters, Match.groupText?, Match.group?, hgroup, hslice]

theorem isHead_of_findFrom? {text : List Char} {place : Nat} {m : Match}
    (hplace : place ≤ text.length) (hm : head.findFrom? text place = some m) :
    IsHead (m.text text) (parameters text m) := by
  obtain ⟨listed, hhead, hparameters⟩ := isArrowHead_of_findFrom? hplace hm
  rw [hparameters]
  exact hhead.isHead

/-! ## Bodies -/

/-- A character that ends an expression comes next, or nothing. -/
def Closes (rest : List Char) : Prop :=
  ∀ c, rest.head? = some c → Text.isBlank c = true ∨ isSeparator c = true ∨ isClosing c = true

/-- The marks that end an expression. -/
def endMarks : List Char := ",;\n)]\x7d".toList

theorem Closes.cases {rest : List Char} {c : Char} (h : Closes rest) (hc : rest.head? = some c) :
    Text.isBlank c = true ∨ c ∈ endMarks := by
  refine (h c hc).imp_right fun hmark => ?_
  simp only [isSeparator, isClosing, Bool.or_eq_true, beq_iff_eq] at hmark
  rcases hmark with ((rfl | rfl) | rfl) | ((rfl | rfl) | rfl) <;> decide

theorem isClosing_of_step {s : ScanState} {c : Char} (h : s.step c = none) :
    isSeparator c = true ∨ isClosing c = true := by
  rw [ScanState.step] at h
  grind

theorem closes_drop_expressionLength (s : ScanState) (cs : List Char) :
    Closes (cs.drop (expressionLength s cs)) := by
  induction cs generalizing s with
  | nil => exact nofun
  | cons c cs ih =>
    rw [expressionLength]
    split
    · next hstep =>
      intro d hd
      obtain rfl : c = d := Option.some.inj hd
      exact .inr (isClosing_of_step hstep)
    · next s' _ => exact ih s'

/-- Behind an expression body comes a blank, a separator or a closing
bracket. -/
theorem closes_expressionBody (after : List Char) :
    ∃ rest, after = expressionBody after ++ rest ∧ Closes rest := by
  obtain ⟨trail, htrail, hblank⟩ := exists_of_trimEnd (after.take (expressionEnd after))
  refine ⟨trail ++ after.drop (expressionEnd after), ?_, ?_⟩
  · rw [expressionBody, ← List.append_assoc, ← htrail, List.take_append_drop]
  · cases trail with
    | nil => exact closes_drop_expressionLength _ after
    | cons c trail =>
      intro d hd
      obtain rfl : c = d := Option.some.inj hd
      exact .inl (hblank c List.mem_cons_self)

/-! ## Pieces -/

/-- Pieces of a text with this text behind it: kept characters in turns with
arrows, each with a proper head. What ends an expression follows its body. -/
inductive AreShaped : List ArrowPiece → List Char → Prop
  | kept (text after : List Char) : AreShaped [.kept text] after
  | blockHead {text head parameters after : List Char} {rest : List ArrowPiece} :
      IsHead head parameters → AreShaped rest after →
      AreShaped (.kept text :: .blockHead head parameters :: rest) after
  | expression {text head parameters after : List Char} {body rest : List ArrowPiece} :
      IsHead head parameters → Closes (givenAll rest ++ after) →
      AreShaped body (givenAll rest ++ after) → AreShaped rest after →
      AreShaped (.kept text :: .expression head parameters body :: rest) after

theorem piecesFrom_of_none {text : List Char} {last offset : Nat}
    (h : head.findFrom? text offset = none) :
    piecesFrom text last offset = [.kept (text.drop last)] := by
  rw [piecesFrom]
  split
  · split
    · rfl
    · next m hm => cases h.symm.trans hm
  · rfl

theorem piecesFrom_of_expression {text : List Char} {last offset : Nat} {m : Match}
    (hoffset : offset ≤ text.length) (hm : head.findFrom? text offset = some m)
    (hcode : (ofText text).InCode m.start) (hblock : (text.drop m.stop).head? ≠ some '\x7b') :
    piecesFrom text last offset = .kept (slice text last m.start)
      :: .expression (m.text text) (parameters text m) (pieces (expressionBody (text.drop m.stop)))
      :: piecesFrom text (m.stop + (expressionBody (text.drop m.stop)).length)
        (m.stop + (expressionBody (text.drop m.stop)).length) := by
  rw [piecesFrom, dif_pos hoffset]
  split
  · next hnone => cases hm.symm.trans hnone
  · next m' hm' =>
    obtain rfl : m = m' := Option.some.inj (hm.symm.trans hm')
    split
    · next literal hliteral => cases hcode.symm.trans hliteral
    · dsimp only
      rw [if_neg hblock, pieces]

/-- A text with one arrow, which has an expression body. -/
theorem pieces_of_lone_arrow {text body : List Char} {m : Match}
    (hm : head.findFrom? text 0 = some m) (hcode : (ofText text).InCode m.start)
    (hblock : (text.drop m.stop).head? ≠ some '\x7b')
    (hbody : expressionBody (text.drop m.stop) = body) (hinner : head.findFrom? body 0 = none)
    (hbehind : head.findFrom? text (m.stop + body.length) = none) :
    pieces text = [.kept (slice text 0 m.start),
      .expression (m.text text) (parameters text m) [.kept body],
      .kept (text.drop (m.stop + body.length))] := by
  rw [pieces, piecesFrom_of_expression (Nat.zero_le _) hm hcode hblock, hbody, pieces,
    piecesFrom_of_none hinner, piecesFrom_of_none hbehind, List.drop_zero]

theorem givenAll_kept (text : List Char) (rest : List ArrowPiece) :
    givenAll (.kept text :: rest) = text ++ givenAll rest := rfl

theorem givenAll_piecesFrom {text : List Char} {last offset : Nat} (hlast : last ≤ offset) :
    givenAll (piecesFrom text last offset) = text.drop last := by
  fun_induction piecesFrom text last offset with
  | case1 text last offset inside hnone => exact List.append_nil _
  | case2 text last offset inside m hm literal hliteral ih =>
    have hmatch := findFrom?_some inside hm
    have hinside := literalAt?_some hliteral
    exact ih (by omega)
  | case3 text last offset inside m hm hcode skipped after hblock ih =>
    obtain ⟨hstart, hstop, -⟩ := findFrom?_some inside hm
    rw [givenAll_kept, givenAll, ih (Nat.le_refl _), ArrowPiece.given, Match.text,
      slice_append_drop _ (Nat.le_of_add_right_le hstop),
      slice_append_drop _ (Nat.le_trans hlast hstart)]
  | case4 text last offset inside m hm hcode skipped after hblock body ihBody ihRest =>
    obtain ⟨hstart, hstop, -⟩ := findFrom?_some inside hm
    obtain ⟨rest, hrest, -⟩ := closes_expressionBody after
    rw [givenAll_kept, givenAll, ihRest (Nat.le_refl _), ArrowPiece.given, ihBody (Nat.le_refl _),
      List.drop_zero, List.append_assoc, drop_add_of_drop hrest, ← hrest, Match.text,
      slice_append_drop _ (Nat.le_of_add_right_le hstop),
      slice_append_drop _ (Nat.le_trans hlast hstart)]
  | case5 text last offset outside => exact List.append_nil _

theorem areShaped_piecesFrom (text : List Char) (last offset : Nat) :
    ∀ after, Closes after → AreShaped (piecesFrom text last offset) after := by
  fun_induction piecesFrom text last offset with
  | case1 text last offset inside hnone => exact fun after _ => .kept _ after
  | case2 text last offset inside m hm literal hliteral ih => exact ih
  | case3 text last offset inside m hm hcode skipped rest hblock ih =>
    exact fun after hafter => .blockHead (isHead_of_findFrom? inside hm) (ih after hafter)
  | case4 text last offset inside m hm hcode skipped rest hblock body ihBody ihRest =>
    intro after hafter
    obtain ⟨behind, hbehind, hcloses⟩ := closes_expressionBody rest
    have hends : Closes (givenAll (piecesFrom text (m.stop + body.length) (m.stop + body.length))
        ++ after) := by
      rw [givenAll_piecesFrom (Nat.le_refl _), drop_add_of_drop hbehind]
      cases behind with
      | nil => exact hafter
      | cons c behind => exact hcloses
    exact .expression (isHead_of_findFrom? inside hm) hends (ihBody _ hends) (ihRest after hafter)
  | case5 text last offset outside => exact fun after _ => .kept _ after

/-- **The pieces make up the text.** -/
theorem givenAll_pieces (text : List Char) : givenAll (pieces text) = text :=
  givenAll_piecesFrom (Nat.le_refl 0)

theorem eq_lowered_of_degrade? {source out : List Char} (h : degrade? source = some out) :
    out = lowered source := by
  simp only [degrade?] at h
  split at h
  · cases h
  · exact (Option.some.inj h).symm

theorem areShaped_pieces (text : List Char) : AreShaped (pieces text) [] :=
  areShaped_piecesFrom text 0 0 [] (by rintro c ⟨⟩)

end Downlevel.Code.Arrows
