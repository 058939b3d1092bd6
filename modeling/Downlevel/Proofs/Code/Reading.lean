/-
Downlevel.Proofs.Code.Reading — how the reading of a text is put together.

Two texts are read apart when the segments of the one followed by the other are
those of the first and those of the second (`ReadApart`). This says that the
place between them is in code (`readApart_iff_isBetween`), and it depends on the
second text by its first character only (`ReadApart.congr`): the end of a segment
is decided when the next character is seen, or the text is over.

Strings and block comments that something follows are closed: they stay what they
are whatever follows. Only line comments need their line break
(`literal_cases`). So a text whose last segment is a character or a closed literal
is tidy: nothing that may follow changes how it is read, unless it makes a comment
of a slash at its end (`isTidy_of_getLast?`).
-/
import Downlevel.Proofs.Code.InCode
import Downlevel.Proofs.Code.Tokens

namespace Downlevel.Code

open Segment

namespace Segment

variable {c quote : Char} {s : Segment} {u v w b cs rest lit : List Char}
  {before after : List Segment}

/-! ## One segment -/

theorem quotedRest_congr (hb : b = [] ∨ (quotedRest quote cs).2 ≠ []) :
    quotedRest quote ((quotedRest quote cs).1 ++ b) = ((quotedRest quote cs).1, b) := by
  fun_induction quotedRest quote cs with
  | case1 =>
    obtain rfl := hb.resolve_right (absurd rfl)
    rfl
  | case2 rest =>
    rw [List.singleton_append, quotedRest.eq_def]
    exact if_pos rfl
  | case3 hquote =>
    obtain rfl := hb.resolve_right (absurd rfl)
    rw [List.append_nil, quotedRest.eq_def]
    simp only [if_neg hquote, if_pos]
  | case4 escaped rest hquote ih =>
    rw [List.cons_append, List.cons_append, quotedRest.eq_def]
    simp only [if_neg hquote, if_pos, ih hb]
  | case5 c rest hquote hescape ih =>
    rw [List.cons_append, quotedRest.eq_def]
    simp only [if_neg hquote, if_neg hescape, ih hb]

theorem head?_blockRest (c : Char) (rest : List Char) :
    ∃ more, (blockRest (c :: rest)).1 = c :: more := by
  rw [blockRest]
  split <;> exact ⟨_, rfl⟩

theorem blockRest_congr (hb : b = [] ∨ (blockRest cs).2 ≠ []) :
    blockRest ((blockRest cs).1 ++ b) = ((blockRest cs).1, b) := by
  induction cs with
  | nil =>
    obtain rfl := hb.resolve_right (absurd rfl)
    rfl
  | cons c rest ih =>
    rw [blockRest] at hb ⊢
    split at hb
    · next hclose =>
      rw [if_pos hclose, List.cons_append, blockRest, if_pos ⟨hclose.1, rfl⟩]
      rfl
    · next hopen =>
      have hopen' : ¬ (c = '*' ∧ ((blockRest rest).1 ++ b).head? = some '/') := by
        rintro ⟨rfl, hhead⟩
        refine hopen ⟨rfl, ?_⟩
        cases rest with
        | nil =>
          obtain rfl := hb.resolve_right (absurd rfl)
          exact hhead
        | cons d rest =>
          obtain ⟨more, hmore⟩ := head?_blockRest d rest
          rw [hmore] at hhead
          exact hhead
      rw [if_neg hopen, List.cons_append, blockRest, if_neg hopen', ih hb]

theorem lineRest_congr (hb : b = [] ∨ b.head? = (lineRest cs).2.head?) :
    lineRest ((lineRest cs).1 ++ b) = ((lineRest cs).1, b) := by
  have hall : ∀ x ∈ cs.takeWhile (· != '\n'), (x != '\n') = true :=
    List.all_eq_true.mp List.all_takeWhile
  have hend : b.takeWhile (· != '\n') = [] ∧ b.dropWhile (· != '\n') = b := by
    cases b with
    | nil => exact ⟨rfl, rfl⟩
    | cons x b =>
      have hhead := hb.resolve_left (List.cons_ne_nil x b)
      have hx : (x != '\n') = false := by
        have hnot := List.head?_dropWhile_not (· != '\n') cs
        rw [show cs.dropWhile (· != '\n') = (lineRest cs).2 from rfl, ← hhead] at hnot
        simpa using hnot
      exact ⟨by rw [List.takeWhile_cons, hx]; rfl, by rw [List.dropWhile_cons, hx]; rfl⟩
  rw [lineRest, lineRest, List.takeWhile_append_of_pos hall, List.dropWhile_append_of_pos hall,
    hend.1, hend.2, List.append_nil]

theorem next_quote (hquote : isQuote c = true) (rest : List Char) :
    next c rest = (.literal (c :: (quotedRest c rest).1), (quotedRest c rest).2) := by
  rw [next, if_pos hquote]

theorem next_line (rest : List Char) :
    next '/' ('/' :: rest) = (.literal ('/' :: '/' :: (lineRest rest).1), (lineRest rest).2) := by
  simp [next, isQuote, lineRest]

theorem next_block (rest : List Char) :
    next '/' ('*' :: rest) = (.literal ('/' :: '*' :: (blockRest rest).1), (blockRest rest).2) := by
  simp [next, isQuote]

theorem next_code (hquote : isQuote c = false)
    (hslash : c = '/' → rest.head? ≠ some '/' ∧ rest.head? ≠ some '*') :
    next c rest = (.code c, rest) := by
  rw [next, hquote, if_neg Bool.false_ne_true, if_neg fun h => (hslash h.1).1 h.2,
    if_neg fun h => (hslash h.1).2 h.2]

/-- What a segment may be: a string, a line comment, a block comment or a
character. -/
theorem next_cases (c : Char) (rest : List Char) :
    isQuote c = true ∨ (c = '/' ∧ ∃ more, rest = '/' :: more)
      ∨ (c = '/' ∧ ∃ more, rest = '*' :: more)
      ∨ (isQuote c = false ∧ (c = '/' → rest.head? ≠ some '/' ∧ rest.head? ≠ some '*')) := by
  by_cases hquote : isQuote c = true
  · exact .inl hquote
  by_cases hline : c = '/' ∧ rest.head? = some '/'
  · exact .inr (.inl ⟨hline.1, List.head?_eq_some_iff.mp hline.2⟩)
  by_cases hblock : c = '/' ∧ rest.head? = some '*'
  · exact .inr (.inr (.inl ⟨hblock.1, List.head?_eq_some_iff.mp hblock.2⟩))
  · exact .inr (.inr (.inr ⟨Bool.eq_false_iff.mpr hquote, fun hc => ⟨fun h => hline ⟨hc, h⟩,
      fun h => hblock ⟨hc, h⟩⟩⟩))

/-- **The next segment** depends on what follows it by the first character
only. -/
theorem next_congr (hb : b = [] ∨ b.head? = (next c rest).2.head?) :
    next c ((next c rest).1.text.tail ++ b) = ((next c rest).1, b) := by
  have hne : b = [] ∨ (next c rest).2 ≠ [] := by
    by_cases hnil : b = []
    · exact .inl hnil
    · refine .inr fun hrest => hnil ?_
      rw [hrest, List.head?_nil, List.head?_eq_none_iff] at hb
      exact hb.elim id id
  rcases next_cases c rest with hquote | ⟨rfl, more, rfl⟩ | ⟨rfl, more, rfl⟩ | ⟨hquote, hslash⟩
  · rw [next_quote hquote rest] at hne ⊢
    rw [text_literal, List.tail_cons, next_quote hquote, quotedRest_congr hne]
  · rw [next_line] at hb ⊢
    rw [text_literal, List.tail_cons, List.cons_append, next_line, lineRest_congr hb]
  · rw [next_block] at hne ⊢
    rw [text_literal, List.tail_cons, List.cons_append, next_block, blockRest_congr hne]
  · rw [next_code hquote hslash] at hb ⊢
    refine next_code hquote fun hc => ?_
    rcases hb with rfl | hhead
    · exact ⟨nofun, nofun⟩
    · rw [text_code, List.tail_cons, List.nil_append, hhead]
      exact hslash hc

/-! ## Texts that are read apart -/

/-- The segments of one text followed by the other are those of the first and
those of the second. -/
def ReadApart (u v : List Char) : Prop := split (u ++ v) = split u ++ split v

theorem split_nil : split [] = [] := by rw [split]

theorem readApart_nil_left (v : List Char) : ReadApart [] v := by
  rw [ReadApart, split_nil, List.nil_append, List.nil_append]

theorem readApart_nil_right (u : List Char) : ReadApart u [] := by
  rw [ReadApart, split_nil, List.append_nil, List.append_nil]

theorem exists_text_next (c : Char) (rest : List Char) :
    ∃ w, (next c rest).1.text = c :: w ∧ rest = w ++ (next c rest).2 := by
  have htext := text_next c rest
  have hmem : (next c rest).1 ∈ split (c :: rest) := by simp [split_cons]
  have hne : (next c rest).1.text ≠ [] := text_ne_nil hmem
  obtain ⟨d, w, hw⟩ := List.exists_cons_of_ne_nil hne
  rw [hw] at htext
  obtain ⟨rfl, hrest⟩ := List.cons.inj htext
  exact ⟨w, hw, hrest.symm⟩

/-- The segments up to a place between two of them are those of the text up to
there. -/
theorem split_flatMap (h : split cs = before ++ after) : split (before.flatMap text) = before := by
  induction before generalizing cs with
  | nil => exact split_nil
  | cons s before ih =>
    cases cs with
    | nil =>
      rw [split_nil] at h
      cases h
    | cons c rest =>
      rw [split_cons, List.cons_append] at h
      obtain ⟨rfl, hlater⟩ := List.cons.inj h
      obtain ⟨w, hw, -⟩ := exists_text_next c rest
      have hcut : next c (w ++ before.flatMap text) = ((next c rest).1, before.flatMap text) := by
        have htail : (next c rest).1.text.tail = w := by rw [hw, List.tail_cons]
        rw [← htail]
        refine next_congr ?_
        cases hbefore : before.flatMap text with
        | nil => exact .inl rfl
        | cons x more =>
          refine .inr ?_
          rw [← text_split (next c rest).2, hlater, List.flatMap_append, hbefore]
          rfl
      rw [List.flatMap_cons, hw, List.cons_append, split_cons, hcut, ih hlater]

/-- **Read apart means that the place between is in code.** -/
theorem readApart_iff_isBetween : ReadApart u v ↔ IsBetween (u ++ v) u.length := by
  constructor
  · exact fun h => ⟨split u, split v, h, by rw [width_split]⟩
  · rintro ⟨before, after, hsplit, hwidth⟩
    have htext : before.flatMap text ++ after.flatMap text = u ++ v := by
      rw [← List.flatMap_append, ← hsplit, text_split]
    obtain ⟨hu, hv⟩ := List.append_inj htext hwidth
    rw [ReadApart, hsplit, ← hu, ← hv, split_flatMap hsplit, split_suffix hsplit]

namespace ReadApart

/-- What follows matters by its first character only. -/
theorem congr (h : ReadApart u v) (hw : w.head? = v.head?) : ReadApart u w := by
  fun_induction split u with
  | case1 => exact readApart_nil_left w
  | case2 c rest ih =>
    obtain ⟨front, hfront, hrest⟩ := exists_text_next c rest
    rw [ReadApart, List.cons_append, split_cons, split_cons, List.cons_append] at h
    obtain ⟨hfirst, hlater⟩ := List.cons.inj h
    have hbehind : (next c (rest ++ v)).2 = (next c rest).2 ++ v := by
      have htext := text_next c (rest ++ v)
      rw [hfirst, hfront, List.cons_append, List.cons.injEq] at htext
      refine List.append_cancel_left (htext.2.trans ?_)
      conv => lhs; rw [hrest]
      exact List.append_assoc _ _ _
    rw [hbehind] at hlater
    have hcut : next c (front ++ ((next c rest).2 ++ w))
        = ((next c rest).1, (next c rest).2 ++ w) := by
      have htail : (next c (rest ++ v)).1.text.tail = front := by
        rw [hfirst, hfront, List.tail_cons]
      rw [← hfirst, ← htail]
      refine next_congr (.inr ?_)
      rw [hbehind, List.head?_append, List.head?_append, hw]
    rw [← List.append_assoc, ← hrest] at hcut
    rw [ReadApart, List.cons_append, split_cons, hcut, split_cons, List.cons_append, ih hlater]

/-- The end of the first text is read apart from the second. -/
theorem of_append (h : ReadApart (u ++ v) w) (huv : ReadApart u v) :
    ReadApart u (v ++ w) ∧ ReadApart v w := by
  rw [ReadApart, List.append_assoc, huv, List.append_assoc] at h
  have hbehind := split_suffix h
  rw [List.flatMap_append, text_split, text_split] at hbehind
  exact ⟨by rw [ReadApart, h, hbehind], hbehind⟩

theorem append (huv : ReadApart u v) (hu : ReadApart u (v ++ w)) (hv : ReadApart v w) :
    ReadApart (u ++ v) w := by
  rw [ReadApart, List.append_assoc, hu, hv, huv, List.append_assoc]

/-- A text that is read apart from a longer one is so from its start. -/
theorem extend (h : ReadApart u (v ++ w)) (hv : ReadApart v w) : ReadApart (u ++ v) w := by
  cases v with
  | nil => rwa [List.append_nil]
  | cons x v => exact (h.congr (w := x :: v) rfl).append h hv

/-- Plain characters are read apart from anything. -/
theorem plain (hu : IsPlain u) (v : List Char) : ReadApart u v := by
  induction u with
  | nil => exact readApart_nil_left v
  | cons c u ih =>
    obtain ⟨hc, hu⟩ := List.forall_mem_cons.mp hu
    rw [ReadApart, List.cons_append, split_cons, split_cons, next_of_plain hc, next_of_plain hc]
    exact congrArg _ (ih hu)

end ReadApart

/-! ## Closed literals -/

/-- The literal is the same whatever follows. -/
def IsClosed (lit : List Char) : Prop := ∀ v, split (lit ++ v) = .literal lit :: split v

/-- What follows a literal: nothing, or a line break, unless it is closed. -/
theorem literal_cases (h : split cs = before ++ .literal lit :: after) :
    after = [] ∨ (isLineComment (.literal lit) = true ∧ (after.flatMap text).head? = some '\n')
      ∨ (IsClosed lit ∧ ∃ d, lit.getLast? = some d ∧ opensLiteral d = true) := by
  by_cases hafter : after = []
  · exact .inl hafter
  obtain ⟨c, w, rfl, -⟩ :=
    exists_of_literal_mem (h ▸ List.mem_append_right before List.mem_cons_self)
  have hmore : after.flatMap text ≠ [] := by
    obtain ⟨s, rest, rfl⟩ := List.exists_cons_of_ne_nil hafter
    have hs : s ∈ split cs := by simp [h]
    rw [List.flatMap_cons]
    exact List.append_ne_nil_of_left_ne_nil (text_ne_nil hs) _
  have hnext : next c (w ++ after.flatMap text) = (.literal (c :: w), after.flatMap text) := by
    have hsplit := split_suffix h
    rw [List.flatMap_cons, text_literal, List.cons_append, split_cons] at hsplit
    obtain ⟨hfirst, hlater⟩ := List.cons.inj hsplit
    have hbehind := text_split (next c (w ++ after.flatMap text)).2
    rw [hlater] at hbehind
    exact Prod.ext hfirst hbehind.symm
  right
  rcases next_cases c (w ++ after.flatMap text) with hquote | ⟨rfl, more, hrest⟩
    | ⟨rfl, more, hrest⟩ | ⟨hquote, hslash⟩
  · rw [next_quote hquote] at hnext
    obtain ⟨hfirst, hbehind⟩ := Prod.mk.inj hnext
    obtain ⟨-, hfirst⟩ := List.cons.inj (literal.inj hfirst)
    rw [← hbehind] at hmore
    have hlast := getLast?_quotedRest hmore
    refine .inr ⟨fun v => ?_, c, ?_, by rw [opensLiteral, hquote, Bool.true_or]⟩
    · have hcut := quotedRest_congr (b := v) (.inr hmore)
      rw [hfirst] at hcut
      rw [List.cons_append, split_cons, next_quote hquote, hcut]
    · rw [List.getLast?_cons, ← hfirst, hlast]
      rfl
  · rw [hrest, next_line] at hnext
    obtain ⟨hfirst, hbehind⟩ := Prod.mk.inj hnext
    refine .inl ⟨by rw [← hfirst]; simp [isLineComment], ?_⟩
    obtain ⟨x, rest, hx⟩ := List.exists_cons_of_ne_nil hmore
    have hnot := List.head?_dropWhile_not (· != '\n') more
    rw [show more.dropWhile (· != '\n') = (lineRest more).2 from rfl, hbehind, hx] at hnot
    rw [hx]
    simpa using hnot
  · rw [hrest, next_block] at hnext
    obtain ⟨hfirst, hbehind⟩ := Prod.mk.inj hnext
    obtain ⟨-, hfirst⟩ := List.cons.inj (literal.inj hfirst)
    rw [← hbehind] at hmore
    have hlast := getLast?_blockRest hmore
    refine .inr ⟨fun v => ?_, '/', ?_, by decide⟩
    · have hcut := blockRest_congr (b := v) (.inr hmore)
      rw [← hfirst, List.cons_append, List.cons_append, split_cons, next_block, hcut]
    · rw [List.getLast?_cons, ← hfirst, List.getLast?_cons, hlast]
      rfl
  · rw [next_code hquote hslash] at hnext
    cases hnext

/-! ## Tidy texts -/

/-- Nothing that follows changes how the text is read, but a comment that its
last character might open. -/
def IsTidy (u : List Char) : Prop :=
  ∀ v, v.head? ≠ some '/' → v.head? ≠ some '*' → ReadApart u v

theorem IsTidy.readApart_cons (h : IsTidy u) {x : Char} (hslash : x ≠ '/') (hstar : x ≠ '*')
    (v : List Char) : ReadApart u (x :: v) :=
  h _ (by simpa using hslash) (by simpa using hstar)

/-- A character of code is no quote. -/
theorem isQuote_of_code_mem {c : Char} (h : .code c ∈ split cs) : isQuote c = false := by
  fun_induction split cs with
  | case1 => cases h
  | case2 d rest ih =>
    rcases List.mem_cons.mp h with hfirst | hlater
    · refine Bool.eq_false_iff.mpr fun hquote => ?_
      obtain ⟨w, hw, -⟩ := exists_text_next d rest
      rw [← hfirst, text_code] at hw
      obtain rfl : c = d := (List.cons.inj hw).1
      rw [next_quote hquote] at hfirst
      cases hfirst
    · exact ih hlater

/-- **A text is tidy** if it does not end in a literal that is not closed. -/
theorem isTidy_of_getLast? (h : ∀ lit, (split u).getLast? = some (.literal lit) → IsClosed lit) :
    IsTidy u := by
  intro v hslash hstar
  rcases List.eq_nil_or_concat (split u) with hnil | ⟨front, s, hsplit⟩
  · have hu := text_split u
    rw [hnil] at hu
    rw [← hu]
    exact readApart_nil_left v
  · rw [List.concat_eq_append] at hsplit
    have hlast : (split u).getLast? = some s := by rw [hsplit, List.getLast?_concat]
    have hs : split s.text = [s] := by
      have hsuffix := split_suffix hsplit
      rwa [List.flatMap_singleton] at hsuffix
    have hu : u = front.flatMap text ++ s.text := by
      rw [← text_split u, hsplit, List.flatMap_append, List.flatMap_singleton]
    have hapart : ReadApart (front.flatMap text) s.text := by
      rw [ReadApart, ← hu, hsplit, split_flatMap hsplit, hs]
    have hend : ReadApart s.text v := by
      cases s with
      | literal lit => rw [ReadApart, hs, text_literal, h lit hlast v, List.singleton_append]
      | code c =>
        have hquote := isQuote_of_code_mem (List.mem_of_getLast? hlast)
        rw [ReadApart, hs, text_code, List.singleton_append, split_cons,
          next_code hquote fun _ => ⟨hslash, hstar⟩, List.singleton_append]
    have hhead : (s.text ++ v).head? = s.text.head? := by
      obtain ⟨x, more, hx⟩ := List.exists_cons_of_ne_nil (text_ne_nil (List.mem_of_getLast? hlast))
      rw [hx]
      rfl
    rw [hu]
    exact hapart.append (hapart.congr hhead) hend

end Segment

end Downlevel.Code
