/-
Downlevel.Proofs.Code.CheckedDefaults — optional links in a text with checks
for defaults.

A pass over defaults repeats operands. Each copy is read from code to code, as
the operand was, as long as its brackets pair (`isCode_of_operand`), so it holds
no more links than the operand did; what the check puts around the copies holds
none. Next to a replacement stands nothing that could make a link
(`lastBefore?_of_leftIsWhole`, `head_of_rightIsWhole`). So the passes bring in
no optional link (`not_occursIn_of_not`).
-/
import Downlevel.Proofs.Code.Coalescing
import Downlevel.Proofs.Code.Patched

namespace Downlevel.Code.Nullish

open Pattern (slice Spells Cursor IsBrackets)

/-! ## Operands -/

section Places

variable {c : Char} {text rest v : List Char} {i j q : Nat}

theorem isPending_of_class {accepts : Char → Bool}
    (hclass : accepts '/' = false ∧ accepts '*' = false ∧ accepts '\n' = false)
    (hc : accepts c = true) : Mode.isPending c = false := by
  refine Bool.eq_false_iff.mpr fun hpending => ?_
  have hcases : c = '/' ∨ c = '*' ∨ c = '\n' := by
    simpa [Mode.isPending, or_assoc] using hpending
  obtain ⟨hslash, hstar, hbreak⟩ := hclass
  rcases hcases with rfl | rfl | rfl
  · exact Bool.false_ne_true (hslash.symm.trans hc)
  · exact Bool.false_ne_true (hstar.symm.trans hc)
  · exact Bool.false_ne_true (hbreak.symm.trans hc)

theorem take_take_append (hi : i ≤ q) (hq : q ≤ text.length) :
    (text.take q ++ v).take i = text.take i := by
  rw [List.take_append_of_le_length (by rw [List.length_take_of_le hq]; exact hi), List.take_take,
    Nat.min_eq_left hi]

theorem slice_take_append (hj : j ≤ q) (hq : q ≤ text.length) :
    slice (text.take q ++ v) i j = slice text i j := by
  rw [slice, ← List.drop_take, take_take_append hj hq, List.drop_take, slice]

/-- Whether a place is in code does not depend on what comes later. -/
theorem inCode_take_append (hi : i < q) (hq : q ≤ text.length) (h : text.drop i = c :: rest)
    (hc : Mode.isPending c = false) :
    (ofText (text.take q ++ v)).InCode i ↔ (ofText text).InCode i := by
  have hdrop : (text.take q ++ v).drop i = c :: (rest.take (q - i - 1) ++ v) := by
    rw [List.drop_append_of_le_length (by rw [List.length_take_of_le hq]; exact Nat.le_of_lt hi),
      List.drop_take, h, ← Nat.succ_pred_eq_of_pos (Nat.sub_pos_of_lt hi), List.take_succ_cons]
    rfl
  rw [inCode_iff_modeAt hdrop hc, inCode_iff_modeAt h hc, modeAt,
    take_take_append (Nat.le_of_lt hi) hq, modeAt]

/-- Brackets that pair in a text do so in the part up to their end. -/
theorem bracketsPair_take_append {s : Span} (h : (ofText text).BracketsPair s) (hs : s.start ≤ i)
    (hq : q ≤ s.stop) (hlength : q ≤ text.length) :
    (ofText (text.take q ++ v)).BracketsPair ⟨i, q⟩ := by
  intro j k hj hk hbrackets hcode
  have hk : k < q := hk
  have hslice : slice (ofText (text.take q ++ v)).text j (k + 1) = slice text j (k + 1) :=
    slice_take_append hk hlength
  rw [hslice] at hbrackets
  obtain ⟨o, body, cl, hbody, ho, hcl⟩ := exists_ends_of_isBrackets hbrackets
  have hlong : body.length + 2 = min (k + 1 - j) (text.length - j) := by
    have hwhole := congrArg List.length hbody
    simp only [slice, List.length_take, List.length_drop, List.length_cons, List.length_append,
      List.length_nil] at hwhole
    omega
  have hfrom : text.drop j = (o :: body) ++ (cl :: text.drop (k + 1)) := by
    rw [← slice_append_drop text (by omega : j ≤ k + 1), hbody]
    simp
  have hto : text.drop k = cl :: text.drop (k + 1) := by
    have hbehind := drop_add_of_drop hfrom
    rwa [show j + (o :: body).length = k by rw [List.length_cons]; omega] at hbehind
  rw [inCode_take_append hk hlength hto (Mode.isPending_of_isMild hcl)]
  refine h j k (Nat.le_trans hs hj) (by omega) hbrackets ?_
  exact (inCode_take_append (by omega) hlength hfrom (Mode.isPending_of_isMild ho)).mp hcode

end Places

section Operands

variable {a b : Cursor} {w text rest : List Char} {p : Nat} {s : Span}

/-- An operand starts with a character that shows whether one is in code. -/
theorem exists_head_of_operand (h : Spells operand a w b) :
    ∃ c more, w = c :: more ∧ Mode.isPending c = false := by
  obtain ⟨c, more, hw, hc⟩ := exists_cons_of_operand h
  exact ⟨c, more, hw, isPending_of_class (by decide) hc⟩

/-- Behind an operand in code one is in code, as far as one has read. -/
theorem isCode_of_operand (h : Spells operand a w b) (hrest : text.drop p = w ++ rest)
    (hp : (ofText text).InCode p) (hpair : (ofText text).BracketsPair s) (hstart : s.start ≤ p)
    (hstop : p + w.length ≤ s.stop) : (modeAt text (p + w.length)).isCode = true := by
  obtain ⟨c, more, hcons, hc⟩ := exists_head_of_operand h
  have hlength := length_of_drop hrest (by rw [hcons]; exact List.cons_ne_nil c more)
  have hpos : 0 < w.length := by rw [hcons]; exact Nat.zero_lt_succ _
  -- with a question mark behind the operand, one sees whether a comment is open
  have hdrop : (text.take (p + w.length) ++ ['?']).drop p = w ++ ['?'] := by
    rw [take_add_of_drop hrest, List.append_assoc,
      List.drop_left' (List.length_take_of_le (by omega))]
  have hp' : (ofText (text.take (p + w.length) ++ ['?'])).InCode p := by
    have hstands : text.drop p = c :: (more ++ rest) := by rw [hrest, hcons, List.cons_append]
    exact (inCode_take_append (by omega) hlength hstands hc).mpr hp
  have hends := leadsToCode_of_operand (bracketsPair_take_append hpair hstart hstop hlength) h p _
    hdrop (Nat.le_refl p) (Nat.le_refl _) hp'
  rw [inCode_iff_modeAt (drop_add_of_drop hdrop) (by decide), modeAt,
    take_take_append (Nat.le_refl _) hlength] at hends
  exact hends

end Operands

/-! ## Surroundings -/

section Surroundings

variable {text : List Char} {place : Nat} {c : Char}

theorem trimEnd_of_getLast? {u : List Char} (hlast : u.getLast? = some c)
    (hc : Text.isBlank c = false) : Text.trimEnd u = u := by
  obtain ⟨front, rfl⟩ := List.getLast?_eq_some_iff.mp hlast
  simp [Text.trimEnd, hc]

/-- A whole left operand is not a member, and it does not follow a slash. -/
theorem lastBefore?_of_leftIsWhole (h : leftIsWhole (ofText text) place = true) :
    lastBefore? text place ≠ some '.' ∧ lastBefore? text place ≠ some '/' := by
  have hnot : ∀ c, Text.isBlank c = false → c ≠ '>' → c ≠ '=' → Text.isIdentifier c = false →
      "(,:[\x7b;?|&".toList.contains c = false → lastBefore? text place ≠ some c := by
    intro c hblank hgreater hequals hidentifier hlisted hlast
    have hbefore : (ofText text).charBefore? place = some c := by
      rw [charBefore?, before, ofText, trimEnd_of_getLast? hlast hblank]
      exact hlast
    simp only [leftIsWhole, hbefore, if_neg hgreater, if_neg hequals, hidentifier, hlisted,
      Bool.false_eq_true, if_false] at h
  exact ⟨hnot '.' (by decide) (by decide) (by decide) (by decide) (by decide),
    hnot '/' (by decide) (by decide) (by decide) (by decide) (by decide)⟩

/-- Behind a whole right operand comes a blank, or a character that ends
it. -/
theorem head_of_rightIsWhole (h : rightIsWhole (ofText text) place = true)
    (hc : (text.drop place).head? = some c) :
    Text.isBlank c = true ∨ c ∈ ";)]\x7d,:?".toList := by
  by_cases hblank : Text.isBlank c = true
  · exact .inl hblank
  · right
    obtain ⟨rest, hrest⟩ : ∃ rest, text.drop place = c :: rest := by
      cases hdrop : text.drop place with
      | nil => simp [hdrop] at hc
      | cons d rest =>
        rw [hdrop, List.head?_cons] at hc
        exact ⟨rest, by rw [Option.some.inj hc]⟩
    have hafter : (ofText text).charAfter? place = some c := by
      simp [charAfter?, ofText, Text.trimStart, hrest, hblank]
    have hline : (ofText text).lineEndsAfter place = false := by
      simp [lineEndsAfter, ofText, hrest, hblank]
    simpa [rightIsWhole, hafter, hline] using h

/-- So the reader goes on in step behind it, and no digit comes next. -/
theorem isTame_of_rightIsWhole (h : rightIsWhole (ofText text) place = true)
    (hc : (text.drop place).head? = some c) :
    Mode.isTame c = true ∧ Text.isDigit c = false := by
  rcases head_of_rightIsWhole h hc with hblank | hlisted
  · exact ⟨Mode.isTame_of_isBlank hblank, Text.isDigit_eq_false_of_isBlank hblank⟩
  · have hall : ∀ c ∈ ";)]\x7d,:?".toList, Mode.isTame c = true ∧ Text.isDigit c = false := by
      decide
    exact hall c hlisted

end Surroundings

/-! ## Checks -/

section Checks

variable {m : Mode} {p q : Option Char} {c : Char} {u w left right rest rest' : List Char}

/-- An optional link at the end of a part, with another text behind it. -/
theorem standsAt_of_ne_dot (h : Degradation.optionalMemberAccess.StandsAt p (w ++ c :: rest))
    (hw : w ≠ []) (hc : c ≠ '.')
    (hrest : ['?', '.'] = w → ∀ d, rest'.head? = some d → Text.isDigit d = false) :
    Degradation.optionalMemberAccess.StandsAt q (w ++ rest') := by
  obtain ⟨after, hafter, hdigit⟩ := h
  obtain ⟨more, rfl, rfl⟩ :=
    Degradation.exists_of_append_eq (k := ['?', '.']) hafter hw (by simpa using hc)
  refine ⟨more ++ rest', rfl, ?_⟩
  cases more with
  | nil => exact hrest rfl
  | cons d more => exact hdigit

theorem cleanOn_of_ne_question (h : ∀ c ∈ u, c ≠ '?') :
    CleanOn .optionalMemberAccess m p u rest := by
  rintro v w rfl hw - ⟨after, hafter, -⟩
  cases w with
  | nil => exact hw rfl
  | cons d w => exact h d (by simp) (List.cons.inj hafter).1

theorem cleanOn_question : CleanOn .optionalMemberAccess m p ['?'] (' ' :: rest) := by
  rintro v w hvw hw - ⟨after, hafter, -⟩
  have hlast : w = ['?'] := by
    cases v with
    | nil => exact hvw.symm
    | cons d v => exact absurd (List.append_eq_nil_iff.mp (List.cons.inj hvw).2.symm).2 hw
  rw [hlast] at hafter
  simp at hafter

theorem check_eq (left right : List Char) :
    check left right = ['('] ++ (left ++ (" !== null && ".toList ++ (left
      ++ (" !== undefined ".toList ++ (['?'] ++ ([' '] ++ (left ++ (" : ".toList
      ++ (right ++ [')']))))))))) := by
  simp [check]

/-- What a check puts around its operands is read as code. -/
theorem scan_inserted (hm : m.settle = .code) :
    ∀ w ∈ [['('], " !== null && ".toList, " !== undefined ".toList, ['?'], [' '], " : ".toList,
      [')']], m.scan w = .code := by
  intro w hw
  have hmild : ∀ w ∈ [['('], " !== null && ".toList, " !== undefined ".toList, ['?'], [' '],
      " : ".toList, [')']], (∀ c ∈ w, Mode.isMild c = true) ∧ w ≠ [] := by decide
  rw [Mode.scan_of_mild (hmild w hw).1 (hmild w hw).2, hm]

theorem scan_check (hm : m.settle = .code) (hleft : (Mode.code.scan left).isCode = true)
    (hright : (Mode.code.scan right).isCode = true) : m.scan (check left right) = .code := by
  have hleft := scan_inserted (Mode.settle_of_isCode hleft)
  have hright := scan_inserted (Mode.settle_of_isCode hright)
  have hcode := scan_inserted (m := .code) rfl
  simp only [List.forall_mem_cons] at hleft hright hcode
  simp only [check_eq, Mode.scan_append, scan_inserted hm ['('] (by simp), hleft, hright, hcode]

/-- A check is clean when its operands are. -/
theorem cleanOn_check (hm : m.settle = .code) (hleft : (Mode.code.scan left).isCode = true)
    (hcleanLeft : ∀ p after, CleanOn .optionalMemberAccess .code p left (' ' :: after))
    (hcleanRight : ∀ p after, CleanOn .optionalMemberAccess .code p right (')' :: after)) :
    CleanOn .optionalMemberAccess m p (check left right) rest := by
  have hleft := scan_inserted (Mode.settle_of_isCode hleft)
  have hcode := scan_inserted (m := .code) rfl
  simp only [List.forall_mem_cons] at hleft hcode
  simp only [check_eq, cleanOn_append, scan_inserted hm ['('] (by simp), hleft, hcode]
  exact ⟨cleanOn_of_ne_question (by decide), hcleanLeft _ _, cleanOn_of_ne_question (by decide),
    hcleanLeft _ _, cleanOn_of_ne_question (by decide), cleanOn_question,
    cleanOn_of_ne_question (by decide), hcleanLeft _ _, cleanOn_of_ne_question (by decide),
    hcleanRight _ _, cleanOn_of_ne_question (by decide)⟩

end Checks

/-! ## Passes -/

section Passes

variable {text left middle right rest : List Char} {start : Nat} {s : Span}
  {replacements : List Replacement}

/-- How the parts of a coalescing in code are read: each from code. -/
structure IsRead (text left middle right : List Char) (start : Nat) : Prop where
  starts : modeAt text start = .code
  leftEnds : (Mode.code.scan left).isCode = true
  middleEnds : (Mode.code.scan left).scan middle = .code
  rightEnds : (Mode.code.scan right).isCode = true

theorem isRead_of_isCoalescing (h : IsCoalescing left middle right)
    (hdrop : text.drop start = left ++ (middle ++ (right ++ rest)))
    (hcode : (ofText text).InCode start) (hslash : lastBefore? text start ≠ some '/')
    (hpair : (ofText text).BracketsPair s) (hstart : s.start ≤ start)
    (hstop : start + (left ++ (middle ++ right)).length ≤ s.stop) :
    IsRead text left middle right start := by
  obtain ⟨_, _, hleft⟩ := h.left
  obtain ⟨_, _, hright⟩ := h.right
  simp only [List.length_append] at hstop
  obtain ⟨c, more, hcons, hc⟩ := exists_head_of_operand hleft
  have hstarts : modeAt text start = .code := by
    have hisCode : (modeAt text start).isCode = true :=
      (inCode_iff_modeAt (by rw [hdrop, hcons, List.cons_append]) hc).mp hcode
    cases hmode : modeAt text start with
    | code => rfl
    | slash => exact absurd (Mode.getLast?_of_scan_slash hmode) hslash
    | _ =>
      rw [hmode] at hisCode
      cases hisCode
  have hleftMode : (Mode.code.scan left).isCode = true := by
    have hbehind := isCode_of_operand hleft hdrop hcode hpair hstart (by omega)
    rwa [modeAt_add hdrop, hstarts] at hbehind
  have hmiddleMode : (Mode.code.scan left).scan middle = .code := by
    obtain ⟨d, blanks, rfl, hd⟩ := h.opens
    have htame : Mode.isTame d = true := by
      rcases hd with rfl | hblank
      · decide
      · exact Mode.isTame_of_isBlank hblank
    have hline : Mode.code.scan left = .line → d ≠ '\n' := by
      intro hline
      rw [hline] at hleftMode
      cases hleftMode
    rw [Mode.scan_cons, Mode.next_of_tame htame hline, Mode.settle_of_isCode hleftMode,
      Mode.scan_of_plain fun e he => h.middle e (List.mem_cons_of_mem d he)]
  have hdrop' : text.drop (start + (left ++ middle).length) = right ++ rest :=
    drop_add_of_drop (by rw [hdrop, List.append_assoc])
  have hmode' : modeAt text (start + (left ++ middle).length) = .code := by
    rw [modeAt_add (show text.drop start = (left ++ middle) ++ (right ++ rest) by
      rw [hdrop, List.append_assoc]), Mode.scan_append,
      hstarts, hmiddleMode]
  have hrightMode : (Mode.code.scan right).isCode = true := by
    obtain ⟨d, more', hcons', hd⟩ := exists_head_of_operand hright
    have hcode' : (ofText text).InCode (start + (left ++ middle).length) :=
      (inCode_iff_modeAt (by rw [hdrop', hcons', List.cons_append]) hd).mpr (by rw [hmode']; rfl)
    have hbehind := isCode_of_operand hright hdrop' hcode' hpair (by omega)
      (by rw [List.length_append]; omega)
    rwa [modeAt_add hdrop', hmode'] at hbehind
  exact ⟨hstarts, hleftMode, hmiddleMode, hrightMode⟩

/-- Both operands stay clean with what a check puts behind them. -/
theorem cleanOn_operands (hclean : ¬ Degradation.optionalMemberAccess.OccursIn text)
    (h : IsCoalescing left middle right) (hread : IsRead text left middle right start)
    (hdrop : text.drop start = left ++ (middle ++ (right ++ rest)))
    (hrest : ∀ c, rest.head? = some c → Text.isDigit c = false) :
    (∀ p after, CleanOn .optionalMemberAccess .code p left (' ' :: after))
      ∧ ∀ p after, CleanOn .optionalMemberAccess .code p right (')' :: after) := by
  rw [not_occursIn_iff] at hclean
  have hparts : text = text.take start ++ (left ++ (middle ++ (right ++ rest))) := by
    rw [← hdrop, List.take_append_drop]
  rw [hparts, cleanOn_append, cleanOn_append, cleanOn_append, cleanOn_append] at hclean
  obtain ⟨-, hleft, -, hright, -⟩ := hclean
  have hstarts := hread.starts
  rw [modeAt] at hstarts
  rw [hstarts] at hleft hright
  rw [hread.middleEnds] at hright
  have hmove : ∀ {u after after' : List Char} {c : Char} {p p' : Option Char}, c ≠ '.' →
      (∀ d, after.head? = some d → Text.isDigit d = false) →
      CleanOn .optionalMemberAccess .code p u after →
      CleanOn .optionalMemberAccess .code p' u (c :: after') :=
    fun hc hafter hu => hu.move ⟨rfl, .inl rfl, fun _ _ h => h⟩
      fun _ _ hw _ hstands => standsAt_of_ne_dot hstands hw hc fun _ => hafter
  refine ⟨fun p after => hmove (by decide) ?_ hleft, fun p after => hmove (by decide) ?_ hright⟩
  · obtain ⟨d, blanks, rfl, hd⟩ := h.opens
    intro e he
    obtain rfl : d = e := Option.some.inj he
    rcases hd with rfl | hblank
    · decide
    · exact Text.isDigit_eq_false_of_isBlank hblank
  · rwa [List.append_nil]

theorem fits (hclean : ¬ Degradation.optionalMemberAccess.OccursIn text)
    (h : replacements? (ofText text) = some replacements)
    (hpair : ∀ r ∈ replacements, (ofText text).BracketsPair r.span) :
    ∀ r ∈ replacements, r.Fits .optionalMemberAccess text := by
  intro r hr
  obtain ⟨left, middle, right, rest, hparts, hdrop, hstop, htext, hcode, hleftWhole, hrightWhole⟩ :=
    exists_of_replacements? h hr
  obtain ⟨hdot, hslash⟩ := lastBefore?_of_leftIsWhole hleftWhole
  have hread := isRead_of_isCoalescing hparts hdrop hcode hslash (hpair r hr) (Nat.le_refl _)
    (Nat.le_of_eq hstop.symm)
  have hwhole : text.drop r.span.start = left ++ (middle ++ right) ++ rest := by
    rw [hdrop, List.append_assoc, List.append_assoc]
  have hrest : text.drop r.span.stop = rest := by
    rw [hstop]
    exact drop_add_of_drop hwhole
  have htame := fun c => isTame_of_rightIsWhole (c := c) hrightWhole
  obtain ⟨hcleanLeft, hcleanRight⟩ := cleanOn_operands hclean hparts hread hdrop
    fun c hc => (htame c (by rwa [hrest])).2
  have hsettle : ∀ {m : Mode}, m.settle = (modeAt text r.span.start).settle → m.settle = .code :=
    fun hm => hm.trans (by rw [hread.starts]; rfl)
  have hne : left ++ (middle ++ right) ≠ [] := by
    obtain ⟨c, more, hcons, -⟩ := hparts.opens
    simp [hcons]
  refine ⟨?_, fun q w after hw hsuffix hstands => ?_, fun m p after hm => ?_, fun m p hm => ?_⟩
  · rw [hstop]
    exact length_of_drop hwhole hne
  · rw [htext] at hstands
    refine standsAt_of_ne_dot (c := '(') hstands hw (by decide) fun hlink => ?_
    obtain ⟨front, hfront⟩ := hsuffix
    refine absurd ?_ hdot
    rw [lastBefore?, ← hfront, ← hlink]
    simp
  · rw [htext]
    exact cleanOn_check (hsettle hm) hread.leftEnds hcleanLeft hcleanRight
  · rw [htext, scan_check (hsettle hm) hread.leftEnds hread.rightEnds]
    refine ⟨?_, .inr fun c hc => (htame c hc).1, fun _ _ h => h⟩
    rw [hstop, modeAt_add hwhole, hread.starts, Mode.scan_append, Mode.scan_append,
      hread.middleEnds, Mode.settle_of_isCode hread.rightEnds]
    rfl

/-- Passes over defaults bring in no optional link, as far as brackets pair. -/
theorem not_occursIn_outcome {n : Nat} (hclean : ¬ Degradation.optionalMemberAccess.OccursIn text)
    (hpair : ∀ pass ∈ passesOf replacements? n text, ∀ r ∈ pass.replacements,
      pass.code.BracketsPair r.span) :
    ¬ Degradation.optionalMemberAccess.OccursIn (outcome text (passesOf replacements? n text)) := by
  induction n generalizing text with
  | zero => exact hclean
  | succ n ih =>
    cases hfound : replacements? (ofText text) with
    | none => simpa [passesOf, hfound, outcome] using hclean
    | some replacements =>
      by_cases hnil : replacements = []
      · subst hnil
        simpa [passesOf, hfound, outcome] using hclean
      · rw [passesOf_succ hfound hnil] at hpair ⊢
        obtain ⟨hfirst, hlater⟩ := List.forall_mem_cons.mp hpair
        exact ih (not_occursIn_patch hclean (inOrder_of_replacementsFrom? hfound)
          (fits hclean hfound hfirst)) hlater

end Passes

theorem not_occursIn_of_not {source out : List Char} (h : degrade? source = some out)
    (hpair : ∀ pass ∈ passes source, ∀ r ∈ pass.replacements, pass.code.BracketsPair r.span)
    (hclean : ¬ Degradation.optionalMemberAccess.OccursIn source) :
    ¬ Degradation.optionalMemberAccess.OccursIn out := by
  rw [← (outcome_passes h).2]
  exact not_occursIn_outcome hclean hpair

end Downlevel.Code.Nullish
