/-
Downlevel.Proofs.Code.Tokens — the tokens next to a place in code.

Blanks, byte order marks and comments separate tokens and are none. A token is
the run of the characters of an identifier, or else the longest mark that stands
there. Of a string only the quote is looked at, which is enough to tell it from
an operator and a template from a string.

The checks of a place look at characters and know of no comments. They agree
with the tokens as far as the character next to the place belongs to the token
next to it. Behind a place this fails for a byte order mark only: what a comment
starts with is an operator to the check. Before a place it fails for a line
comment, which may end in anything, while other comments end in a slash and
strings in their quote (`getLast?_of_mem`).
-/
import Downlevel.Code.Nullish
import Downlevel.Proofs.Code.InCode
import Mathlib.Data.List.Basic
import Mathlib.Data.List.TakeWhile

namespace Downlevel.Code

/-! ## Separators -/

namespace Segment

def isBlank : Segment → Bool
  | .code c => Text.isBlank c
  | .literal _ => false

/-- Whether a segment separates tokens. -/
def isGap : Segment → Bool
  | .code c => Text.isBlank c || c == '\ufeff'
  | .literal lit => lit.head? == some '/'

def isLineComment : Segment → Bool
  | .code _ => false
  | .literal lit => "//".toList.isPrefixOf lit

/-- The segments that fit into so many characters. -/
def within : Nat → List Segment → List Segment
  | _, [] => []
  | room, s :: rest =>
    if s.text.length ≤ room then s :: within (room - s.text.length) rest else []

end Segment

open Segment

/-! ## Tokens -/

/-- The marks of more than one character, longer ones first. -/
def marks : List (List Char) :=
  [">>>=", "...", "===", "!==", "**=", "<<=", ">>=", ">>>", "&&=", "||=", "??=",
    "=>", "==", "!=", "<=", ">=", "&&", "||", "??", "?.", "++", "--", "+=", "-=", "*=", "/=",
    "%=", "&=", "|=", "^=", "<<", ">>", "**"].map String.toList

/-- A question mark and a point before a digit are two marks. -/
def startsMark (mark text : List Char) : Bool :=
  mark.isPrefixOf text && !(mark == "?.".toList && (text.drop 2).head?.any Char.isDigit)

def firstToken? (text : List Char) : Option (List Char) :=
  text.head?.map fun c =>
    if Text.isIdentifier c then text.takeWhile Text.isIdentifier
    else (marks.find? (startsMark · text)).getD [c]

def lastToken? (text : List Char) : Option (List Char) :=
  text.getLast?.map fun c =>
    if Text.isIdentifier c then (text.reverse.takeWhile Text.isIdentifier).reverse
    else (marks.find? (·.isSuffixOf text)).getD [c]

/-- The token before a place that lies between two segments. -/
def tokenBefore? (text : List Char) (place : Nat) : Option (List Char) :=
  lastToken?
    (((within place (split text)).reverse.dropWhile isGap).reverse.flatMap Segment.text)

def tokenAfter? (text : List Char) (place : Nat) : Option (List Char) :=
  firstToken? (((split (text.drop place)).dropWhile isGap).flatMap Segment.text)

/-- Whether only blanks stand between a place and a line comment before it. -/
def followsLineComment (text : List Char) (place : Nat) : Bool :=
  ((within place (split text)).reverse.dropWhile Segment.isBlank).head?.any isLineComment

/-! ## First and last tokens -/

section Ends

variable {c d : Char} {t u : List Char}

theorem marks_ne_nil : ∀ mark ∈ marks, mark ≠ [] := by
  decide

/-- The last token of a text that does not end in an identifier: a mark that the
text ends in, or one character that ends no mark. -/
theorem lastToken?_cases (hc : u.getLast? = some c) (hidentifier : Text.isIdentifier c = false)
    (ht : lastToken? u = some t) :
    (t ∈ marks ∧ t <:+ u) ∨ (t = [c] ∧ ∀ mark ∈ marks, ¬ mark <:+ u) := by
  rw [lastToken?, hc, Option.map_some, hidentifier, if_neg Bool.false_ne_true] at ht
  obtain rfl := Option.some.inj ht
  cases hfind : marks.find? (·.isSuffixOf u) with
  | some mark =>
    have hends := List.find?_some hfind
    exact .inl ⟨List.mem_of_find?_eq_some hfind, List.isSuffixOf_iff_suffix.mp hends⟩
  | none =>
    refine .inr ⟨rfl, fun mark hmark hsuffix => ?_⟩
    exact List.find?_eq_none.mp hfind mark hmark (List.isSuffixOf_iff_suffix.mpr hsuffix)

theorem lastToken?_of_isIdentifier (hc : u.getLast? = some c) (h : Text.isIdentifier c = true) :
    lastToken? u = some (u.reverse.takeWhile Text.isIdentifier).reverse := by
  rw [lastToken?, hc, Option.map_some, if_pos h]

/-- The last token of a text ends in its last character. -/
theorem getLast?_of_lastToken? (ht : lastToken? u = some t) : t.getLast? = u.getLast? := by
  obtain ⟨c, hc, -⟩ := Option.map_eq_some_iff.mp ht
  cases hidentifier : Text.isIdentifier c with
  | true =>
    have hword := Option.some.inj ((lastToken?_of_isIdentifier hc hidentifier).symm.trans ht)
    obtain ⟨front, rfl⟩ := List.getLast?_eq_some_iff.mp hc
    rw [← hword]
    simp [hidentifier]
  | false =>
    rcases lastToken?_cases hc hidentifier ht with ⟨hmark, front, rfl⟩ | ⟨rfl, -⟩
    · rw [List.getLast?_append_of_ne_nil _ (marks_ne_nil t hmark)]
    · exact hc.symm

/-- The first token is a run of the characters of an identifier, or else starts
like the text. -/
theorem firstToken?_cases (ht : firstToken? (c :: u) = some t) :
    (Text.isIdentifier c = true ∧ t.all Text.isIdentifier = true)
      ∨ (Text.isIdentifier c = false ∧ t.head? = some c) := by
  rw [firstToken?, List.head?_cons, Option.map_some] at ht
  obtain rfl := Option.some.inj ht
  cases hidentifier : Text.isIdentifier c with
  | true =>
    rw [if_pos rfl]
    exact .inl ⟨rfl, List.all_takeWhile⟩
  | false =>
    rw [if_neg Bool.false_ne_true]
    refine .inr ⟨rfl, ?_⟩
    cases hfind : marks.find? (startsMark · (c :: u)) with
    | none => rfl
    | some mark =>
      have hstarts := List.find?_some hfind
      obtain ⟨more, hmore⟩ :=
        List.isPrefixOf_iff_prefix.mp (Bool.and_eq_true_iff.mp hstarts).1
      cases mark with
      | nil => exact absurd rfl (marks_ne_nil [] (List.mem_of_find?_eq_some hfind))
      | cons d mark => exact congrArg some (List.cons.inj hmore).1

theorem getLast?_of_suffix (h : t <:+ u) (hd : t.getLast? = some d) : u.getLast? = some d := by
  obtain ⟨front, rfl⟩ := h
  rw [List.getLast?_append, hd]
  rfl

/-- The last character but one of a text is that of a mark it ends in. -/
theorem getLast?_dropLast_of_suffix (h : t <:+ u) (hd : t.dropLast.getLast? = some d) :
    u.dropLast.getLast? = some d := by
  obtain ⟨front, rfl⟩ := h
  have hne : t ≠ [] := by
    rintro rfl
    cases hd
  rw [List.dropLast_append_of_ne_nil hne]
  exact getLast?_of_suffix (List.suffix_append _ _) hd

end Ends

/-! ## Ends of literals -/

namespace Segment

theorem getLast?_quotedRest {quote : Char} {cs : List Char} (h : (quotedRest quote cs).2 ≠ []) :
    (quotedRest quote cs).1.getLast? = some quote := by
  fun_induction quotedRest quote cs <;> simp_all [List.getLast?_cons]

theorem getLast?_blockRest {cs : List Char} (h : (blockRest cs).2 ≠ []) :
    (blockRest cs).1.getLast? = some '/' := by
  induction cs with
  | nil => exact absurd rfl h
  | cons c rest ih =>
    rw [blockRest] at h ⊢
    split
    · rfl
    · next hopen =>
      rw [if_neg hopen] at h
      simp [List.getLast?_cons, ih h]

/-- The last character of a literal that something follows. -/
theorem getLast?_of_next {c : Char} {rest lit : List Char} (h : (next c rest).1 = .literal lit)
    (hmore : (next c rest).2 ≠ []) :
    isLineComment (.literal lit) = true
      ∨ ∃ d, lit.getLast? = some d ∧ opensLiteral d = true := by
  rw [next] at h hmore
  split at h
  · next hquote =>
    rw [if_pos hquote] at hmore
    cases h
    right
    refine ⟨c, ?_, by rw [opensLiteral, hquote, Bool.true_or]⟩
    rw [List.getLast?_cons, getLast?_quotedRest hmore]
    rfl
  · next hquote =>
    rw [if_neg hquote] at hmore
    split at h
    · next hline =>
      obtain ⟨rfl, hhead⟩ := hline
      obtain ⟨more, rfl⟩ : ∃ more, rest = '/' :: more := by
        cases rest with
        | nil => cases hhead
        | cons d more => exact ⟨more, by rw [Option.some.inj hhead]⟩
      cases h
      left
      simp [isLineComment, lineRest]
    · next hline =>
      rw [if_neg hline] at hmore
      split at h
      · next hblock =>
        rw [if_pos hblock] at hmore
        cases h
        right
        refine ⟨'/', ?_, by decide⟩
        rw [List.getLast?_cons, List.getLast?_cons, getLast?_blockRest hmore]
        rfl
      · cases h

theorem text_ne_nil {cs : List Char} {s : Segment} (h : s ∈ split cs) : s.text ≠ [] := by
  cases s with
  | code c => exact List.cons_ne_nil c []
  | literal lit =>
    obtain ⟨c, more, rfl, -⟩ := exists_of_literal_mem h
    exact List.cons_ne_nil c more

/-- **Literals that something follows** are line comments, or end in a character
that opens a literal: in a quote or in a slash. -/
theorem getLast?_of_mem {cs lit : List Char} {before after : List Segment}
    (hsplit : split cs = before ++ after) (hafter : after ≠ []) (h : .literal lit ∈ before) :
    isLineComment (.literal lit) = true
      ∨ ∃ d, lit.getLast? = some d ∧ opensLiteral d = true := by
  induction before generalizing cs with
  | nil => cases h
  | cons s before ih =>
    cases cs with
    | nil => simp [split] at hsplit
    | cons c rest =>
      rw [split_cons, List.cons_append] at hsplit
      obtain ⟨hfirst, hrest⟩ := List.cons.inj hsplit
      rcases List.mem_cons.mp h with rfl | hlater
      · refine getLast?_of_next hfirst fun hnil => ?_
        rw [hnil, split] at hrest
        exact hafter (List.append_eq_nil_iff.mp hrest.symm).2
      · exact ih hrest hlater

/-- The segments up to a place between two of them. -/
theorem within_of_append {before after : List Segment} (hafter : ∀ s ∈ after, s.text ≠ []) :
    within (width before) (before ++ after) = before := by
  induction before with
  | nil =>
    cases after with
    | nil => rfl
    | cons s rest =>
      have hpos := List.length_pos_iff.mpr (hafter s List.mem_cons_self)
      rw [List.nil_append, within, if_neg (by rw [width_nil]; omega)]
  | cons s before ih =>
    rw [List.cons_append, within, width_cons, if_pos (by omega), Nat.add_sub_cancel_left, ih]

end Segment

/-! ## Blanks -/

/-- What is dropped first, and what is dropped with it, is the same where the
first that stays does so in both. -/
theorem dropWhile_of_imp {α : Type} {p q : α → Bool} (himp : ∀ a, p a = true → q a = true)
    {xs more : List α} {a : α} (h : xs.dropWhile p = a :: more) (ha : q a = false) :
    xs.dropWhile q = a :: more := by
  induction xs with
  | nil => cases h
  | cons x xs ih =>
    rw [List.dropWhile_cons] at h ⊢
    by_cases hp : p x = true
    · rw [if_pos hp] at h
      rw [if_pos (himp x hp), ih h]
    · rw [if_neg hp] at h
      obtain ⟨rfl, rfl⟩ := List.cons.inj h
      rw [if_neg (by rw [ha]; exact Bool.false_ne_true)]

theorem isGap_of_isBlank {s : Segment} (h : s.isBlank = true) : s.isGap = true := by
  cases s with
  | code c => exact (Bool.or_eq_true _ _).mpr (.inl h)
  | literal lit => cases h

theorem isGap_code {c : Char} (hblank : Text.isBlank c = false) (hmark : c ≠ '\ufeff') :
    isGap (.code c) = false := by
  rw [isGap, hblank, beq_eq_false_iff_ne.mpr hmark]
  rfl

/-- What opens a literal is not blank. -/
theorem isBlank_of_opensLiteral {c : Char} (h : opensLiteral c = true) :
    Text.isBlank c = false := by
  simp only [opensLiteral, isQuote, Bool.or_eq_true, beq_iff_eq] at h
  rcases h with ((rfl | rfl) | rfl) | rfl <;> decide

/-- Blank segments have blank characters. -/
theorem isBlank_of_mem_flatMap {segments : List Segment} (h : ∀ s ∈ segments, s.isBlank = true) :
    ∀ c ∈ segments.flatMap Segment.text, Text.isBlank c = true := by
  intro c hc
  obtain ⟨s, hs, hc⟩ := List.mem_flatMap.mp hc
  have hblank := h s hs
  cases s with
  | code d =>
    rw [List.mem_singleton.mp hc]
    exact hblank
  | literal lit => cases hblank

/-- Blanks at the end of a text are trimmed off. -/
theorem trimEnd_append_of_isBlank {u blanks : List Char} {c : Char} (hu : u.getLast? = some c)
    (hc : Text.isBlank c = false) (hblanks : ∀ b ∈ blanks, Text.isBlank b = true) :
    Text.trimEnd (u ++ blanks) = u := by
  obtain ⟨front, rfl⟩ := List.getLast?_eq_some_iff.mp hu
  have hreverse : ∀ b ∈ blanks.reverse, Text.isBlank b = true :=
    fun b hb => hblanks b (List.mem_reverse.mp hb)
  rw [Text.trimEnd, List.reverse_append, List.dropWhile_append_of_pos hreverse]
  simp [hc]

theorem trimEnd_of_forall {blanks : List Char} (h : ∀ b ∈ blanks, Text.isBlank b = true) :
    Text.trimEnd blanks = [] := by
  rw [Text.trimEnd, List.dropWhile_eq_nil_iff.mpr fun b hb => h b (List.mem_reverse.mp hb)]
  rfl

/-! ## Before a place -/

section Before

variable {text : List Char} {place : Nat}

theorem exists_within (hcode : (ofText text).InCode place) (hplace : place < text.length) :
    ∃ before after, split text = before ++ after ∧ after ≠ []
      ∧ within place (split text) = before ∧ text.take place = before.flatMap Segment.text := by
  obtain ⟨before, after, hsplit, rfl⟩ :=
    (inCode_iff_isBetween (Nat.le_of_lt hplace)).mp hcode
  refine ⟨before, after, hsplit, ?_, ?_, ?_⟩
  · rintro rfl
    have hwidth := width_split text
    rw [hsplit, List.append_nil] at hwidth
    omega
  · rw [hsplit]
    refine within_of_append fun s hs => ?_
    have hmem : s ∈ split text := hsplit ▸ List.mem_append_right _ hs
    exact text_ne_nil hmem
  · have htext := text_split text
    rw [hsplit, List.flatMap_append] at htext
    rw [← htext, width, List.take_left']
    rfl

theorem getLast?_flatMap {more : List Segment} {s : Segment} {c : Char}
    (h : s.text.getLast? = some c) :
    ((s :: more).reverse.flatMap Segment.text).getLast? = some c := by
  rw [List.reverse_cons, List.flatMap_append, List.flatMap_singleton, List.getLast?_append, h]
  rfl

/-- The text of segments ends like the last of them that is not blank, with
blanks behind it. -/
theorem trimEnd_flatMap {before more : List Segment} {s : Segment} {c : Char}
    (h : before.reverse.dropWhile Segment.isBlank = s :: more) (hlast : s.text.getLast? = some c)
    (hc : Text.isBlank c = false) :
    Text.trimEnd (before.flatMap Segment.text) = (s :: more).reverse.flatMap Segment.text := by
  have hparts : before = (s :: more).reverse
      ++ (before.reverse.takeWhile Segment.isBlank).reverse := by
    rw [← h, ← List.reverse_append, List.takeWhile_append_dropWhile, List.reverse_reverse]
  rw [hparts, List.flatMap_append]
  refine trimEnd_append_of_isBlank (getLast?_flatMap hlast) hc
    (isBlank_of_mem_flatMap fun gap hgap => ?_)
  exact List.mem_takeWhile_imp (List.mem_reverse.mp hgap)

/-- **The character before a place** belongs to the token before it, unless it is
a byte order mark, or the end of a string or a comment. -/
theorem tokenBefore?_cases (hcode : (ofText text).InCode place) (hplace : place < text.length) :
    tokenBefore? text place = lastToken? ((ofText text).before place)
      ∨ (∃ c, (ofText text).charBefore? place = some c ∧ (c = '\ufeff' ∨ opensLiteral c = true))
      ∨ followsLineComment text place = true := by
  obtain ⟨before, after, hsplit, hafter, hwithin, htake⟩ := exists_within hcode hplace
  have hbefore : (ofText text).before place = Text.trimEnd (before.flatMap Segment.text) := by
    rw [Code.before, ← htake]
    rfl
  cases hlast : before.reverse.dropWhile Segment.isBlank with
  | nil =>
    have hblank : ∀ s ∈ before, s.isBlank = true :=
      fun s hs => List.dropWhile_eq_nil_iff.mp hlast s (List.mem_reverse.mpr hs)
    have hgaps : before.reverse.dropWhile isGap = [] :=
      List.dropWhile_eq_nil_iff.mpr fun s hs => isGap_of_isBlank (hblank s (List.mem_reverse.mp hs))
    left
    rw [tokenBefore?, hwithin, hgaps, hbefore, trimEnd_of_forall (isBlank_of_mem_flatMap hblank)]
    rfl
  | cons s more =>
    have hnot : s.isBlank = false := by
      have hhead := List.head?_dropWhile_not Segment.isBlank before.reverse
      rw [hlast] at hhead
      exact hhead
    cases s with
    | code c =>
      have hc : (Segment.code c).text.getLast? = some c := rfl
      have htrimmed := trimEnd_flatMap hlast hc hnot
      by_cases hmark : c = '\ufeff'
      · refine .inr (.inl ⟨c, ?_, .inl hmark⟩)
        rw [charBefore?, hbefore, htrimmed, getLast?_flatMap hc]
      · have hgaps := dropWhile_of_imp (fun _ => isGap_of_isBlank) hlast (isGap_code hnot hmark)
        left
        rw [tokenBefore?, hwithin, hgaps, hbefore, htrimmed]
    | literal lit =>
      have hmem : .literal lit ∈ before := by
        rw [← List.mem_reverse]
        exact (List.dropWhile_sublist _).subset (hlast ▸ List.mem_cons_self)
      right
      rcases getLast?_of_mem hsplit hafter hmem with hline | ⟨d, hd, hopens⟩
      · right
        rw [followsLineComment, hwithin, hlast]
        exact hline
      · left
        have hd : (Segment.literal lit).text.getLast? = some d := hd
        refine ⟨d, ?_, .inr hopens⟩
        rw [charBefore?, hbefore, trimEnd_flatMap hlast hd (isBlank_of_opensLiteral hopens),
          getLast?_flatMap hd]

end Before

/-! ## Behind a place -/

section Behind

variable {text : List Char} {place : Nat}

theorem opensLiteral_of_isBlank {c : Char} (h : Text.isBlank c = true) :
    opensLiteral c = false := by
  rw [Bool.eq_false_iff]
  intro hopens
  rw [isBlank_of_opensLiteral hopens] at h
  cases h

/-- A text starts with a segment of its first character. -/
theorem next_cases (c : Char) (rest : List Char) :
    (next c rest).1 = .code c
      ∨ ∃ more, (next c rest).1 = .literal (c :: more) ∧ opensLiteral c = true := by
  cases hfirst : (next c rest).1 with
  | literal lit =>
    obtain ⟨hopens, more, rfl⟩ := exists_of_next_literal hfirst
    exact .inr ⟨more, rfl, hopens⟩
  | code d =>
    left
    have htext := text_next c rest
    rw [hfirst] at htext
    rw [(List.cons.inj htext).1]

/-- Blanks at the start of a text are segments of their own. -/
theorem dropWhile_split (text : List Char) :
    (split text).dropWhile Segment.isBlank = split (Text.trimStart text) := by
  induction text with
  | nil => simp [split, Text.trimStart]
  | cons c rest ih =>
    by_cases hblank : Text.isBlank c = true
    · have hnext := next_of_plain (opensLiteral_of_isBlank hblank) rest
      have htrim : Text.trimStart (c :: rest) = Text.trimStart rest := by
        simp [Text.trimStart, hblank]
      have hfirst : Segment.isBlank (.code c) = true := hblank
      rw [split_cons, hnext, htrim, ← ih, List.dropWhile_cons, if_pos hfirst]
    · have htrim : Text.trimStart (c :: rest) = c :: rest := by
        simp [Text.trimStart, hblank]
      have hfirst : Segment.isBlank (next c rest).1 = false := by
        rcases next_cases c rest with hcode | ⟨more, hliteral, -⟩
        · rw [hcode]
          exact Bool.eq_false_iff.mpr hblank
        · rw [hliteral]
          rfl
      rw [htrim, split_cons, List.dropWhile_cons, hfirst, if_neg Bool.false_ne_true]

/-- **The character behind a place** belongs to the token behind it, unless it is
a byte order mark or starts a comment. -/
theorem tokenAfter?_eq
    (h : ∀ c, (ofText text).charAfter? place = some c → c ≠ '\ufeff' ∧ c ≠ '/') :
    tokenAfter? text place = firstToken? (Text.trimStart (text.drop place)) := by
  have hblank := dropWhile_split (text.drop place)
  have hgaps : (split (text.drop place)).dropWhile isGap
      = split (Text.trimStart (text.drop place)) := by
    cases htrim : Text.trimStart (text.drop place) with
    | nil =>
      rw [htrim, split, List.dropWhile_eq_nil_iff] at hblank
      rw [split, List.dropWhile_eq_nil_iff]
      exact fun s hs => isGap_of_isBlank (hblank s hs)
    | cons c rest =>
      obtain ⟨hmark, hslash⟩ := h c (by rw [charAfter?, ofText, htrim, List.head?_cons])
      have hnot : Text.isBlank c = false := by
        have hhead := List.head?_dropWhile_not Text.isBlank (text.drop place)
        rw [← Text.trimStart, htrim] at hhead
        exact hhead
      have hgap : isGap (next c rest).1 = false := by
        rcases next_cases c rest with hcode | ⟨more, hliteral, -⟩
        · rw [hcode, isGap_code hnot hmark]
        · simp [hliteral, isGap, hslash]
      rw [htrim, split_cons] at hblank
      rw [split_cons, dropWhile_of_imp (fun _ => isGap_of_isBlank) hblank hgap]
  rw [tokenAfter?, hgaps, text_split]

end Behind

end Downlevel.Code
