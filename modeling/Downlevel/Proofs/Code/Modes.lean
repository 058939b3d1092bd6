/-
Downlevel.Proofs.Code.Modes — reading a source text character by character.

The cut of a text into segments looks ahead to the end of a literal. A
`Mode` says the same with what has been read only: whether one is in code,
in a string, in a comment, or behind a character that may be the first of
two. `inCode_iff_isCode` ties the two together. Whether a place is in code
shows from the characters before it, unless the next one is a slash, a star
or a line break.

Most characters mean nothing to a reader in any mode: they only settle what
was pending (`next_of_mild`). So text made of such characters can be put in
and left out without a literal opening or closing elsewhere.
-/
import Downlevel.Proofs.Code.Carrying

namespace Downlevel.Code

open Segment (isQuote quotedRest blockRest lineRest IsPlain)

/-! ## Modes -/

/-- Where a reader stands: in code, behind a slash in code, in a string,
behind a backslash in a string, in a line comment, in a block comment, or
behind a star in a block comment. -/
inductive Mode where
  | code
  | slash
  | quoted (quote : Char)
  | escaped (quote : Char)
  | line
  | block
  | star
  deriving DecidableEq, Repr

namespace Mode

/-- The mode after a character of code. -/
def enter (c : Char) : Mode := if isQuote c then .quoted c else if c = '/' then .slash else .code

def next : Mode → Char → Mode
  | .code, c => enter c
  | .slash, c => if c = '/' then .line else if c = '*' then .block else enter c
  | .quoted quote, c =>
    if c = quote ∧ isQuote quote then .code else if c = '\\' then .escaped quote else .quoted quote
  | .escaped quote, _ => .quoted quote
  | .line, c => if c = '\n' then .code else .line
  | .block, c => if c = '*' then .star else .block
  | .star, c => if c = '/' then .code else if c = '*' then .star else .block

/-- The mode after some characters. -/
def scan (m : Mode) (cs : List Char) : Mode := cs.foldl next m

def isCode : Mode → Bool
  | .code => true
  | .slash => true
  | _ => false

@[simp] theorem scan_nil (m : Mode) : m.scan [] = m := rfl

@[simp] theorem scan_cons (m : Mode) (c : Char) (cs : List Char) :
    m.scan (c :: cs) = (m.next c).scan cs := rfl

@[simp] theorem scan_append (m : Mode) (u v : List Char) : m.scan (u ++ v) = (m.scan u).scan v :=
  List.foldl_append

theorem enter_of_plain {c : Char} (hc : Segment.opensLiteral c = false) : enter c = .code := by
  obtain ⟨hquote, hslash⟩ := Bool.or_eq_false_iff.mp hc
  rw [enter, if_neg (Bool.eq_false_iff.mp hquote), if_neg (beq_eq_false_iff_ne.mp hslash)]

theorem scan_of_plain {w : List Char} (hw : IsPlain w) : code.scan w = code := by
  induction w with
  | nil => rfl
  | cons c w ih =>
    obtain ⟨hc, hmore⟩ := List.forall_mem_cons.mp hw
    rw [scan_cons, next, enter_of_plain hc, ih hmore]

theorem eq_of_enter_eq_slash {c : Char} (h : enter c = slash) : c = '/' := by
  rw [enter] at h
  split at h
  · cases h
  · split at h
    · assumption
    · cases h

/-- Behind a slash in code, the text ends with it. -/
theorem getLast?_of_scan_slash {u : List Char} (h : code.scan u = slash) :
    u.getLast? = some '/' := by
  rcases List.eq_nil_or_concat u with rfl | ⟨front, c, rfl⟩
  · cases h
  · rw [List.concat_eq_append] at h ⊢
    rw [scan_append, scan_cons, scan_nil] at h
    rw [List.getLast?_concat]
    have hc : c = '/' := by
      cases hfront : code.scan front with
      | code => exact eq_of_enter_eq_slash (by rwa [hfront] at h)
      | slash =>
        rw [hfront, next] at h
        split at h
        · assumption
        · split at h
          · cases h
          · exact eq_of_enter_eq_slash h
      | _ =>
        rw [hfront, next] at h
        grind
    rw [hc]

/-! ## Literals -/

/-- A part of a text behind the first character of a literal: either it ends
inside of the literal, or the literal has ended and the reader went on from
code. -/
def Passes (m : Mode) (lit u : List Char) : Prop :=
  (u.length < lit.length ∧ (m.scan u).isCode = false)
    ∨ ∃ more, u = lit ++ more ∧ m.scan u = code.scan more

theorem passes_quoted {quote : Char} (hquote : isQuote quote = true) {cs u v : List Char}
    {c : Char} (h : cs = u ++ c :: v) : (quoted quote).Passes (quotedRest quote cs).1 u := by
  fun_induction quotedRest quote cs generalizing u with
  | case1 => simp at h
  | case2 rest =>
    cases u with
    | nil => exact .inl ⟨Nat.zero_lt_one, rfl⟩
    | cons e u =>
      obtain ⟨rfl, -⟩ := List.cons.inj h
      exact .inr ⟨u, rfl, by rw [scan_cons, next, if_pos ⟨rfl, hquote⟩]⟩
  | case3 =>
    cases u with
    | nil => exact .inl ⟨Nat.zero_lt_one, rfl⟩
    | cons e u => simp at h
  | case4 escaped rest hback ih =>
    cases u with
    | nil => exact .inl ⟨Nat.zero_lt_succ _, rfl⟩
    | cons e u =>
      obtain ⟨rfl, htail⟩ := List.cons.inj h
      have hnext : (quoted quote).next '\\' = .escaped quote := by
        rw [next, if_neg fun hc => hback hc.1, if_pos rfl]
      cases u with
      | nil => exact .inl ⟨by simp, by rw [scan_cons, hnext]; rfl⟩
      | cons e u =>
        obtain ⟨rfl, hrest⟩ := List.cons.inj htail
        rcases ih hrest with ⟨hlt, hnot⟩ | ⟨more, rfl, hmore⟩
        · exact .inl ⟨by simpa using hlt, by rw [scan_cons, hnext]; exact hnot⟩
        · exact .inr ⟨more, rfl, by rw [scan_cons, hnext]; exact hmore⟩
  | case5 d rest hne hback ih =>
    cases u with
    | nil => exact .inl ⟨Nat.zero_lt_succ _, rfl⟩
    | cons e u =>
      obtain ⟨rfl, htail⟩ := List.cons.inj h
      have hnext : (quoted quote).next d = .quoted quote := by
        rw [next, if_neg fun hc => hne hc.1, if_neg hback]
      rcases ih htail with ⟨hlt, hnot⟩ | ⟨more, rfl, hmore⟩
      · exact .inl ⟨by simpa using hlt, by rw [scan_cons, hnext]; exact hnot⟩
      · exact .inr ⟨more, rfl, by rw [scan_cons, hnext]; exact hmore⟩

theorem passes_line {u v : List Char} {c : Char} (hc : c ≠ '\n') :
    line.Passes (lineRest (u ++ c :: v)).1 u := by
  induction u with
  | nil =>
    refine .inl ⟨?_, rfl⟩
    rw [List.nil_append, lineRest, List.takeWhile_cons, if_pos (bne_iff_ne.mpr hc)]
    exact Nat.zero_lt_succ _
  | cons e u ih =>
    rw [lineRest, List.cons_append, List.takeWhile_cons]
    by_cases hbreak : e = '\n'
    · subst hbreak
      exact .inr ⟨'\n' :: u, rfl, rfl⟩
    · have hnext : line.next e = line := by rw [next, if_neg hbreak]
      rw [if_pos (bne_iff_ne.mpr hbreak)]
      rcases ih with ⟨hlt, hnot⟩ | ⟨more, hu, hmore⟩
      · exact .inl ⟨Nat.succ_lt_succ hlt, by rw [scan_cons, hnext]; exact hnot⟩
      · exact .inr ⟨more, congrArg (e :: ·) hu, by rw [scan_cons, hnext]; exact hmore⟩

theorem next_star {c : Char} (hc : c ≠ '/') : star.next c = block.next c := by
  simp only [next, if_neg hc]

theorem passes_block {cs u v : List Char} {c : Char} (h : cs = u ++ c :: v) :
    block.Passes (blockRest cs).1 u := by
  induction cs generalizing u with
  | nil => simp at h
  | cons d rest ih =>
    rw [blockRest]
    cases u with
    | nil =>
      refine .inl ⟨?_, rfl⟩
      split <;> simp
    | cons e u =>
      obtain ⟨rfl, htail⟩ := List.cons.inj h
      by_cases hend : d = '*' ∧ rest.head? = some '/'
      · rw [if_pos hend]
        obtain ⟨rfl, hslash⟩ := hend
        cases u with
        | nil => exact .inl ⟨by simp, rfl⟩
        | cons e u =>
          obtain rfl : e = '/' := by simpa [htail] using hslash
          exact .inr ⟨u, rfl, rfl⟩
      · rw [if_neg hend]
        -- a star that does not end the comment is like any other character
        have hnext : (block.next d).scan u = block.scan u ∨ u = [] ∧ block.next d = star := by
          by_cases hstar : d = '*'
          · cases u with
            | nil => exact .inr ⟨rfl, by rw [next, if_pos hstar]⟩
            | cons e u =>
              refine .inl ?_
              have hne : e ≠ '/' := by
                rintro rfl
                exact hend ⟨hstar, by rw [htail]; rfl⟩
              have hd : block.next d = star := by rw [next, if_pos hstar]
              rw [hd, scan_cons, scan_cons, next_star hne]
          · exact .inl (by rw [next, if_neg hstar])
        rcases ih htail with ⟨hlt, hnot⟩ | ⟨more, hu, hmore⟩
        · refine .inl ⟨by simpa using hlt, ?_⟩
          rcases hnext with heq | ⟨rfl, heq⟩
          · rw [scan_cons, heq, hnot]
          · rw [scan_cons, heq]
            rfl
        · rcases hnext with heq | ⟨hnil, -⟩
          · exact .inr ⟨more, by rw [hu]; rfl, by rw [scan_cons, heq, hmore]⟩
          · obtain ⟨-, rfl⟩ := List.append_eq_nil_iff.mp (hu.symm.trans hnil)
            rw [hnil] at hmore
            cases hmore

/-! ## Modes and segments -/

/-- Characters before which a place may be in code although what stands
before it does not say so: the second character of what opens or ends a
comment, and the end of a line comment. -/
def isPending (c : Char) : Bool := c == '/' || c == '*' || c == '\n'

theorem passes_next {d c : Char} {rest lit after u v : List Char}
    (hnext : Segment.next d rest = (.literal (d :: lit), after)) (h : rest = u ++ c :: v)
    (hc : isPending c = false) : (enter d).Passes lit u := by
  simp only [isPending, Bool.or_eq_false_iff, beq_eq_false_iff_ne] at hc
  obtain ⟨⟨hslash, hstar⟩, hbreak⟩ := hc
  rw [Segment.next] at hnext
  split at hnext
  · next hquote =>
    cases hnext
    rw [enter, if_pos hquote]
    exact passes_quoted hquote h
  · next hquote =>
    split at hnext
    · next hcomment =>
      cases hnext
      obtain ⟨rfl, hhead⟩ := hcomment
      rw [enter, if_neg hquote, if_pos rfl]
      cases u with
      | nil => exact absurd (by simpa [h] using hhead) hslash
      | cons e u =>
        obtain rfl : e = '/' := by simpa [h] using hhead
        subst h
        rcases passes_line hbreak with ⟨hlt, hnot⟩ | hbeyond
        · exact .inl ⟨hlt, hnot⟩
        · exact .inr hbeyond
    · split at hnext
      · next hcomment =>
        obtain ⟨rfl, hhead⟩ := hcomment
        cases hnext
        rw [enter, if_neg hquote, if_pos rfl]
        cases u with
        | nil => exact absurd (by simpa [h] using hhead) hstar
        | cons e u =>
          obtain rfl : e = '*' := by simpa [h] using hhead
          have htail : rest.drop 1 = u ++ c :: v := by rw [h]; rfl
          rcases passes_block htail with ⟨hlt, hnot⟩ | ⟨more, hu, hmore⟩
          · exact .inl ⟨Nat.succ_lt_succ hlt, hnot⟩
          · exact .inr ⟨more, by rw [List.cons_append, ← hu], hmore⟩
      · cases hnext

theorem isCode_scan_enter {d c : Char} {rest u v : List Char}
    (hnext : (Segment.next d rest).1 = .code d) (h : rest = u ++ c :: v) :
    ((enter d).scan u).isCode = (code.scan u).isCode := by
  by_cases hplain : Segment.opensLiteral d = true
  · have hd : ¬ isQuote d = true ∧ d = '/' ∧ rest.head? ≠ some '/' ∧ rest.head? ≠ some '*' := by
      rw [Segment.next] at hnext
      grind [Segment.opensLiteral]
    obtain ⟨hquote, hd, hslash, hstar⟩ := hd
    rw [enter, if_neg hquote, if_pos hd]
    cases u with
    | nil => rfl
    | cons e u =>
      have hslash : e ≠ '/' := by simpa [h] using hslash
      have hstar : e ≠ '*' := by simpa [h] using hstar
      simp only [scan_cons, next, if_neg hslash, if_neg hstar]
  · rw [enter_of_plain (Bool.eq_false_iff.mpr hplain)]

end Mode

theorem isBetween_zero (text : List Char) : IsBetween text 0 := ⟨[], Segment.split text, rfl, rfl⟩

/-- The places behind the first segment are those of what follows it. -/
theorem isBetween_cons {d : Char} {rest : List Char} {n : Nat} :
    IsBetween (d :: rest) (n + 1) ↔ (Segment.next d rest).1.text.length ≤ n + 1
      ∧ IsBetween (Segment.next d rest).2 (n + 1 - (Segment.next d rest).1.text.length) := by
  constructor
  · rintro ⟨before, after, hsplit, hwidth⟩
    rw [Segment.split_cons] at hsplit
    cases before with
    | nil => cases hwidth
    | cons s before =>
      obtain ⟨rfl, htail⟩ := List.cons.inj hsplit
      rw [Segment.width_cons] at hwidth
      exact ⟨by omega, before, after, htail, by omega⟩
  · rintro ⟨hle, before, after, hsplit, hwidth⟩
    refine ⟨(Segment.next d rest).1 :: before, after, ?_, ?_⟩
    · rw [Segment.split_cons, hsplit, List.cons_append]
    · rw [Segment.width_cons, hwidth]
      omega

theorem isBetween_iff_isCode {text u v : List Char} {c : Char} (hc : Mode.isPending c = false)
    (h : text = u ++ c :: v) : IsBetween text u.length ↔ (Mode.code.scan u).isCode = true := by
  -- from segment to segment: what follows the first one is shorter
  induction hlength : text.length using Nat.strongRecOn generalizing text u with
  | ind n ih =>
    subst hlength
    cases u with
    | nil => exact ⟨fun _ => rfl, fun _ => isBetween_zero text⟩
    | cons d u =>
      subst h
      rw [List.cons_append, List.length_cons, isBetween_cons, Mode.scan_cons, Mode.next]
      have hshorter := Segment.length_next_lt d (u ++ c :: v)
      have htext := Segment.text_next d (u ++ c :: v)
      cases hsegment : (Segment.next d (u ++ c :: v)).1 with
      | code e =>
        have hcode : e = d ∧ (Segment.next d (u ++ c :: v)).2 = u ++ c :: v := by
          rw [hsegment] at htext
          exact List.cons.inj htext
        obtain ⟨rfl, hrest⟩ := hcode
        rw [Mode.isCode_scan_enter hsegment rfl, hrest]
        rw [hrest] at hshorter
        simpa using ih _ hshorter rfl rfl
      | literal whole =>
        obtain ⟨-, lit, rfl⟩ := Segment.exists_of_next_literal hsegment
        have hpasses := Mode.passes_next (Prod.ext hsegment rfl) rfl hc
        rw [Segment.text_literal, List.length_cons, Nat.add_le_add_iff_right,
          Nat.add_sub_add_right]
        rcases hpasses with ⟨hlt, hnot⟩ | ⟨more, rfl, hmore⟩
        · rw [hnot]
          exact ⟨fun h => absurd h.1 (Nat.not_le_of_lt hlt), fun h => nomatch h⟩
        · have hrest : (Segment.next d (lit ++ more ++ c :: v)).2 = more ++ c :: v := by
            rw [hsegment, Segment.text_literal, List.cons_append] at htext
            have htail := (List.cons.inj htext).2
            exact List.append_cancel_left (htail.trans (List.append_assoc lit more _))
          rw [hmore, ← ih _ hshorter hrest rfl]
          simp

/-- **In code as far as one has read** means in code, unless a comment may
open or end with the next character. -/
theorem inCode_iff_isCode {u v : List Char} {c : Char} (hc : Mode.isPending c = false) :
    (ofText (u ++ c :: v)).InCode u.length ↔ (Mode.code.scan u).isCode = true := by
  rw [inCode_iff_isBetween (by simp), isBetween_iff_isCode hc rfl]

/-! ## Settled modes -/

namespace Mode

/-- The mode without a character that may be the first of two. -/
def settle : Mode → Mode
  | .code => .code
  | .slash => .code
  | .quoted quote => .quoted quote
  | .escaped quote => .quoted quote
  | .line => .line
  | .block => .block
  | .star => .block

/-- Characters that neither open nor end a string or a block comment and
protect nothing. -/
def isTame (c : Char) : Bool := !(isQuote c || c == '/' || c == '*' || c == '\\')

/-- Tame characters that do not end a line either. -/
def isMild (c : Char) : Bool := isTame c && c != '\n'

@[simp] theorem settle_settle (m : Mode) : m.settle.settle = m.settle := by
  cases m <;> rfl

@[simp] theorem isCode_settle (m : Mode) : m.settle.isCode = m.isCode := by
  cases m <;> rfl

theorem settle_of_isCode {m : Mode} (h : m.isCode = true) : m.settle = .code := by
  cases m <;> first | rfl | cases h

theorem isTame_of_isMild {c : Char} (hc : isMild c = true) : isTame c = true :=
  (Bool.and_eq_true_iff.mp hc).1

theorem isPending_of_isMild {c : Char} (hc : isMild c = true) : isPending c = false := by
  simp only [isMild, isTame, Bool.and_eq_true, bne_iff_ne, Bool.not_eq_true',
    Bool.or_eq_false_iff, beq_eq_false_iff_ne] at hc
  simp [isPending, hc]

theorem isMild_of_isNamePart {c : Char} (hc : Pattern.isNamePart c = true) : isMild c = true := by
  refine eq_true_of_ne_false fun hmild => ?_
  have hcases : c = '\x27' ∨ c = '"' ∨ c = '\x60' ∨ c = '/' ∨ c = '*' ∨ c = '\\' ∨ c = '\n' := by
    simpa only [isMild, isTame, isQuote, Bool.and_eq_false_iff, bne_eq_false_iff_eq,
      Bool.not_eq_false', Bool.or_eq_true, beq_iff_eq, or_assoc] using hmild
  rcases hcases with rfl | rfl | rfl | rfl | rfl | rfl | rfl <;> exact absurd hc (by decide)

theorem ne_of_isTame {c : Char} (hc : isTame c = true) :
    isQuote c = false ∧ c ≠ '/' ∧ c ≠ '*' ∧ c ≠ '\\' := by
  simpa [isTame, and_assoc] using hc

theorem enter_of_isTame {c : Char} (hc : isTame c = true) : enter c = code := by
  obtain ⟨hquote, hslash, -, -⟩ := ne_of_isTame hc
  rw [enter, if_neg (Bool.eq_false_iff.mp hquote), if_neg hslash]

theorem next_quoted {quote c : Char} (hc : isTame c = true) :
    (quoted quote).next c = quoted quote := by
  obtain ⟨hquote, -, -, hback⟩ := ne_of_isTame hc
  have hopen : ¬ (c = quote ∧ isQuote quote = true) := by
    rintro ⟨rfl, hq⟩
    exact Bool.eq_false_iff.mp hquote hq
  rw [next, if_neg hopen, if_neg hback]

theorem isTame_of_isBlank {c : Char} (hc : Text.isBlank c = true) : isTame c = true := by
  refine eq_true_of_ne_false fun htame => ?_
  have hcases : c = '\x27' ∨ c = '"' ∨ c = '\x60' ∨ c = '/' ∨ c = '*' ∨ c = '\\' := by
    simpa only [isTame, isQuote, Bool.not_eq_false', Bool.or_eq_true, beq_iff_eq, or_assoc]
      using htame
  rcases hcases with rfl | rfl | rfl | rfl | rfl | rfl <;> exact absurd hc (by decide)

/-- A tame character settles what was pending, unless it ends a line
comment. -/
theorem next_of_tame {m : Mode} {c : Char} (hc : isTame c = true) (hline : m = .line → c ≠ '\n') :
    m.next c = m.settle := by
  obtain ⟨-, hslash, hstar, -⟩ := ne_of_isTame hc
  cases m with
  | code => exact enter_of_isTame hc
  | slash => rw [next, if_neg hslash, if_neg hstar, enter_of_isTame hc, settle]
  | quoted quote => exact next_quoted hc
  | escaped quote => rfl
  | line => rw [next, if_neg (hline rfl), settle]
  | block => rw [next, if_neg hstar, settle]
  | star => rw [next, if_neg hslash, if_neg hstar, settle]

/-- A tame character means the same whatever was pending. -/
theorem next_eq_of_settle_eq {m m' : Mode} {c : Char} (hc : isTame c = true)
    (h : m.settle = m'.settle) : m.next c = m'.next c := by
  have hsettled : ∀ m : Mode, m.settle.next c = m.next c := by
    intro m
    by_cases hline : m = .line
    · rw [hline, settle]
    · have hsettle : m.settle ≠ .line := by
        cases m <;> first | exact hline | exact Mode.noConfusion
      rw [next_of_tame hc fun h => absurd h hline, next_of_tame hc fun h => absurd h hsettle,
        settle_settle]
  rw [← hsettled m, h, hsettled m']

theorem next_of_mild {m : Mode} {c : Char} (hc : isMild c = true) : m.next c = m.settle :=
  next_of_tame (isTame_of_isMild hc) fun _ => bne_iff_ne.mp (Bool.and_eq_true_iff.mp hc).2

/-- A line comment ends among these characters. -/
def endsComment : Mode → List Char → Bool
  | _, [] => false
  | m, c :: w => m == .line && c == '\n' || (m.next c).endsComment w

theorem scan_of_tame {m : Mode} {w : List Char} (hw : ∀ c ∈ w, isTame c = true)
    (hline : m.endsComment w = false) (hne : w ≠ []) : m.scan w = m.settle := by
  induction w generalizing m with
  | nil => exact absurd rfl hne
  | cons c w ih =>
    obtain ⟨hc, hmore⟩ := List.forall_mem_cons.mp hw
    obtain ⟨hbreak, hline⟩ := Bool.or_eq_false_iff.mp hline
    have hnext : m.next c = m.settle := by
      refine next_of_tame hc ?_
      rintro rfl rfl
      cases hbreak
    rw [scan_cons, hnext]
    cases w with
    | nil => rfl
    | cons d w => rw [ih hmore (by rwa [hnext] at hline) (List.cons_ne_nil d w), settle_settle]

theorem endsComment_of_forall {m : Mode} {w : List Char} (h : ∀ c ∈ w, c ≠ '\n') :
    m.endsComment w = false := by
  induction w generalizing m with
  | nil => rfl
  | cons c w ih =>
    obtain ⟨hc, hmore⟩ := List.forall_mem_cons.mp h
    rw [endsComment, ih hmore, beq_eq_false_iff_ne.mpr hc, Bool.and_false, Bool.or_false]

theorem scan_of_mild {m : Mode} {w : List Char} (hw : ∀ c ∈ w, isMild c = true) (hne : w ≠ []) :
    m.scan w = m.settle :=
  scan_of_tame (fun c hc => isTame_of_isMild (hw c hc))
    (endsComment_of_forall fun c hc => bne_iff_ne.mp (Bool.and_eq_true_iff.mp (hw c hc)).2) hne

end Mode

/-- Brackets begin and end with a mild character. -/
theorem exists_ends_of_isBrackets {w : List Char} (h : Pattern.IsBrackets w) :
    ∃ o body cl, w = o :: (body ++ [cl]) ∧ Mode.isMild o = true ∧ Mode.isMild cl = true := by
  rcases h with ⟨body, rfl, -⟩ | ⟨body, rfl, -⟩
  · exact ⟨'(', body, ')', rfl, by decide⟩
  · exact ⟨'[', body, ']', rfl, by decide⟩

end Downlevel.Code
