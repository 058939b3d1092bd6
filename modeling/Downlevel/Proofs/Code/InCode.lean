/-
Downlevel.Proofs.Code.InCode — places of a text that are in code.

A place is in code when it lies strictly inside no literal. The places of a
text are those between two of its segments and those strictly inside one
(`between_or_inside`), so in code means between two segments
(`inCode_iff_isBetween`). From such a place the scan goes on as it would at
the start of a text (`split_suffix`): that is what lets one walk over a stretch
of text and be in code at its end, over plain characters (`InCode.plain`) and
over a whole string (`InCode.quoted`).
-/
import Downlevel.Code.Basic
import Downlevel.Proofs.Pattern.Spelling

namespace Downlevel.Code

open Pattern (slice IsBracketed)

/-! ## Segments -/

namespace Segment

@[simp] theorem text_code (c : Char) : (code c).text = [c] := rfl

@[simp] theorem text_literal (lit : List Char) : (literal lit).text = lit := rfl

/-- The number of characters in segments. -/
def width (segments : List Segment) : Nat := (segments.flatMap text).length

@[simp] theorem width_nil : width [] = 0 := rfl

@[simp] theorem width_cons (s : Segment) (rest : List Segment) :
    width (s :: rest) = s.text.length + width rest := by
  simp [width]

@[simp] theorem width_append (before after : List Segment) :
    width (before ++ after) = width before + width after := by
  simp [width]

theorem split_cons (c : Char) (rest : List Char) :
    split (c :: rest) = (next c rest).1 :: split (next c rest).2 := by
  rw [split]

/-- **What follows a cut is what the scan finds there.** -/
theorem split_suffix {cs : List Char} {before after : List Segment}
    (h : split cs = before ++ after) : split (after.flatMap text) = after := by
  induction before generalizing cs with
  | nil =>
    rw [List.nil_append] at h
    rw [← h, text_split]
  | cons s before ih =>
    cases cs with
    | nil => simp [split] at h
    | cons c rest =>
      rw [split_cons, List.cons_append] at h
      exact ih (List.cons.inj h).2

/-- A place between two segments, or strictly inside a literal. -/
theorem between_or_inside {segments : List Segment} {offset : Nat} (h : offset ≤ width segments) :
    (∃ before after, segments = before ++ after ∧ width before = offset)
      ∨ ∃ before lit after, segments = before ++ .literal lit :: after
        ∧ width before < offset ∧ offset < width before + lit.length := by
  induction segments generalizing offset with
  | nil => exact .inl ⟨[], [], rfl, (Nat.le_zero.mp h).symm⟩
  | cons s rest ih =>
    rw [width_cons] at h
    by_cases hle : s.text.length ≤ offset
    · obtain ⟨n, rfl⟩ := Nat.exists_eq_add_of_le hle
      rcases ih (by omega : n ≤ width rest) with ⟨before, after, rfl, hn⟩ | hinside
      · exact .inl ⟨s :: before, after, rfl, by rw [width_cons, hn]⟩
      · obtain ⟨before, lit, after, rfl, hlt, hgt⟩ := hinside
        refine .inr ⟨s :: before, lit, after, rfl, ?_, ?_⟩ <;> rw [width_cons] <;> omega
    · by_cases hzero : offset = 0
      · exact .inl ⟨[], s :: rest, rfl, hzero.symm⟩
      · cases s with
        | code c =>
          simp only [text, List.length_singleton] at hle
          omega
        | literal lit =>
          simp only [text] at hle
          refine .inr ⟨[], lit, rest, rfl, ?_, ?_⟩ <;> rw [width_nil] <;> omega

/-- Not both. -/
theorem not_inside_of_between {before after before' after' : List Segment} {lit : List Char}
    (h : before ++ after = before' ++ .literal lit :: after') :
    ¬ (width before' < width before ∧ width before < width before' + lit.length) := by
  rintro ⟨hlt, hgt⟩
  rcases List.append_eq_append_iff.mp h with ⟨more, rfl, -⟩ | ⟨more, rfl, hmore⟩
  · rw [width_append] at hlt
    omega
  · cases more with
    | nil => simp at hlt
    | cons s more =>
      obtain ⟨rfl, -⟩ := List.cons.inj hmore
      rw [width_append, width_cons, text] at hgt
      omega

/-! ### What the scan takes -/

/-- Whether a literal may start with this character. -/
def opensLiteral (c : Char) : Bool := isQuote c || c == '/'

/-- Characters none of which may start a literal. -/
def IsPlain (w : List Char) : Prop := ∀ c ∈ w, opensLiteral c = false

instance (w : List Char) : Decidable (IsPlain w) :=
  decidable_of_iff (w.all fun c => !opensLiteral c) (by simp [IsPlain])

theorem IsPlain.append {u w : List Char} (hu : IsPlain u) (hw : IsPlain w) : IsPlain (u ++ w) :=
  List.forall_mem_append.mpr ⟨hu, hw⟩

theorem next_of_plain {c : Char} (h : opensLiteral c = false) (rest : List Char) :
    next c rest = (.code c, rest) := by
  obtain ⟨hquote, hslash⟩ := Bool.or_eq_false_iff.mp h
  simp [next, hquote, beq_eq_false_iff_ne.mp hslash]

/-- The inside of a string: no quote, and no backslash but before another
character. -/
inductive QuotedBody (quote : Char) : List Char → Prop
  | nil : QuotedBody quote []
  | plain {c : Char} {rest : List Char} :
      c ≠ quote → c ≠ '\\' → QuotedBody quote rest → QuotedBody quote (c :: rest)
  | escaped (c : Char) {rest : List Char} :
      QuotedBody quote rest → QuotedBody quote ('\\' :: c :: rest)

theorem quotedRest_of_body {quote : Char} {body : List Char} (hquote : quote ≠ '\\')
    (h : QuotedBody quote body) (rest : List Char) :
    quotedRest quote (body ++ quote :: rest) = (body ++ [quote], rest) := by
  induction h with
  | nil =>
    rw [List.nil_append, quotedRest.eq_def]
    exact if_pos rfl
  | plain hne hplain _ ih =>
    rw [List.cons_append, quotedRest.eq_def]
    simp only [if_neg hne, if_neg hplain, ih, List.cons_append]
  | escaped c _ ih =>
    rw [List.cons_append, List.cons_append, quotedRest.eq_def]
    simp only [if_neg hquote.symm, if_pos, ih, List.cons_append]

theorem next_of_quoted {quote : Char} {body : List Char} (hquote : isQuote quote = true)
    (h : QuotedBody quote body) (rest : List Char) :
    next quote (body ++ quote :: rest) = (.literal (quote :: (body ++ [quote])), rest) := by
  have hne : quote ≠ '\\' := by
    rintro rfl
    exact absurd hquote (by decide)
  rw [next, if_pos hquote, quotedRest_of_body hne h]

/-- A literal starts with a character that opens it. -/
theorem exists_of_next_literal {c : Char} {rest lit : List Char}
    (h : (next c rest).1 = .literal lit) : opensLiteral c = true ∧ ∃ more, lit = c :: more := by
  by_cases hplain : opensLiteral c = true
  · refine ⟨hplain, ?_⟩
    rw [next] at h
    split at h
    · cases h
      exact ⟨_, rfl⟩
    · split at h
      · cases h
        exact ⟨_, rfl⟩
      · split at h
        · cases h
          exact ⟨_, rfl⟩
        · cases h
  · rw [next_of_plain (Bool.eq_false_iff.mpr hplain)] at h
    cases h

theorem exists_of_literal_mem {cs lit : List Char} (h : .literal lit ∈ split cs) :
    ∃ c more, lit = c :: more ∧ opensLiteral c = true := by
  fun_induction split cs with
  | case1 => cases h
  | case2 c rest ih =>
    rcases List.mem_cons.mp h with hfirst | hlater
    · obtain ⟨hopens, more, rfl⟩ := exists_of_next_literal hfirst.symm
      exact ⟨c, more, rfl, hopens⟩
    · exact ih hlater

end Segment

open Segment

/-! ## Places -/

/-- The place lies strictly inside no literal. -/
def InCode (code : Code) (offset : Nat) : Prop := code.literalAt? offset = none

theorem inCode_iff {code : Code} {offset : Nat} :
    code.InCode offset ↔ ∀ l ∈ code.literals, ¬ (l.start < offset ∧ offset < l.stop) := by
  rw [InCode, literalAt?, List.find?_eq_none]
  simp

/-- The place is one between two segments. -/
def IsBetween (text : List Char) (offset : Nat) : Prop :=
  ∃ before after, split text = before ++ after ∧ width before = offset

theorem mem_spansFrom {s : Span} {offset : Nat} {segments : List Segment} :
    s ∈ spansFrom offset segments
      ↔ ∃ before lit after, segments = before ++ .literal lit :: after
        ∧ s = ⟨offset + width before, offset + width before + lit.length⟩ := by
  induction segments generalizing offset with
  | nil => simp [spansFrom]
  | cons first rest ih =>
    cases first with
    | code c =>
      rw [spansFrom, ih]
      constructor
      · rintro ⟨before, lit, after, rfl, rfl⟩
        exact ⟨.code c :: before, lit, after, rfl, by simp [Nat.add_assoc]⟩
      · rintro ⟨before, lit, after, h, rfl⟩
        cases before with
        | nil => cases h
        | cons s before =>
          obtain ⟨rfl, rfl⟩ := List.cons.inj h
          exact ⟨before, lit, after, rfl, by simp [Nat.add_assoc]⟩
    | literal first =>
      rw [spansFrom, List.mem_cons, ih]
      constructor
      · rintro (rfl | ⟨before, lit, after, rfl, rfl⟩)
        · exact ⟨[], first, rest, rfl, by simp⟩
        · exact ⟨.literal first :: before, lit, after, rfl, by simp [Nat.add_assoc]⟩
      · rintro ⟨before, lit, after, h, rfl⟩
        cases before with
        | nil =>
          obtain ⟨hfirst, rfl⟩ := List.cons.inj h
          cases hfirst
          exact .inl (by simp)
        | cons s before =>
          obtain ⟨rfl, rfl⟩ := List.cons.inj h
          exact .inr ⟨before, lit, after, rfl, by simp [Nat.add_assoc]⟩

theorem mem_literals {text : List Char} {l : Span} :
    l ∈ (ofText text).literals ↔ ∃ before lit after, split text = before ++ .literal lit :: after
      ∧ l = ⟨width before, width before + lit.length⟩ := by
  rw [ofText, mem_spansFrom]
  simp

theorem width_split (text : List Char) : width (split text) = text.length := by
  rw [width, text_split]

/-- **In code means between two segments.** -/
theorem inCode_iff_isBetween {text : List Char} {offset : Nat} (h : offset ≤ text.length) :
    (ofText text).InCode offset ↔ IsBetween text offset := by
  rw [inCode_iff]
  constructor
  · intro hnone
    rw [← width_split] at h
    rcases between_or_inside h with hbetween | ⟨before, lit, after, hsplit, hinside⟩
    · exact hbetween
    · exact absurd hinside (hnone _ (mem_literals.mpr ⟨before, lit, after, hsplit, rfl⟩))
  · rintro ⟨before, after, hsplit, rfl⟩ l hl
    obtain ⟨before', lit, after', hsplit', rfl⟩ := mem_literals.mp hl
    exact not_inside_of_between (hsplit.symm.trans hsplit')

/-! ## Walking over a text -/

theorem IsBetween.next {text : List Char} {offset : Nat} {c : Char} {rest : List Char}
    (h : IsBetween text offset) (hrest : text.drop offset = c :: rest) :
    IsBetween text (offset + (Segment.next c rest).1.text.length) := by
  obtain ⟨before, after, hsplit, rfl⟩ := h
  have hafter : after.flatMap Segment.text = c :: rest := by
    rw [← hrest]
    conv => rhs; rw [← text_split text, hsplit, List.flatMap_append]
    exact (List.drop_left' rfl).symm
  have hnext := split_suffix hsplit
  rw [hafter, split_cons] at hnext
  refine ⟨before ++ [(Segment.next c rest).1], split (Segment.next c rest).2, ?_, ?_⟩
  · rw [hsplit, ← hnext, List.append_assoc, List.singleton_append]
  · simp

variable {text : List Char} {p : Nat}

theorem length_of_drop {w rest : List Char} (h : text.drop p = w ++ rest) (hw : w ≠ []) :
    p + w.length ≤ text.length := by
  have hlength := congrArg List.length h
  have hpos := List.length_pos_iff.mpr hw
  rw [List.length_drop, List.length_append] at hlength
  omega

namespace InCode

theorem zero : (ofText text).InCode 0 := inCode_iff.mpr fun _ _ h => Nat.not_lt_zero _ h.1

/-- After a segment one is in code again. -/
theorem next {c : Char} {rest : List Char} (h : (ofText text).InCode p)
    (hrest : text.drop p = c :: rest) :
    (ofText text).InCode (p + (Segment.next c rest).1.text.length) := by
  have hp : p ≤ text.length :=
    Nat.le_of_add_right_le (length_of_drop (w := [c]) hrest (List.cons_ne_nil c []))
  have hbetween := ((inCode_iff_isBetween hp).mp h).next hrest
  obtain ⟨before, after, hsplit, hwidth⟩ := hbetween
  have hle : p + (Segment.next c rest).1.text.length ≤ text.length := by
    rw [← hwidth, ← width_split text, hsplit, width_append]
    omega
  exact (inCode_iff_isBetween hle).mpr ⟨before, after, hsplit, hwidth⟩

theorem plain {w rest : List Char} (h : (ofText text).InCode p) (hrest : text.drop p = w ++ rest)
    (hw : IsPlain w) : (ofText text).InCode (p + w.length) := by
  induction w generalizing p with
  | nil => exact h
  | cons c w ih =>
    have hone := h.next hrest
    rw [next_of_plain (hw c List.mem_cons_self), text_code, List.length_singleton] at hone
    have hdrop : text.drop (p + 1) = w ++ rest := by
      rw [← List.drop_drop, hrest]
      rfl
    have hall := ih hone hdrop fun d hd => hw d (List.mem_cons_of_mem c hd)
    rwa [Nat.add_assoc, Nat.add_comm 1] at hall

theorem quoted {quote : Char} {body rest : List Char} (h : (ofText text).InCode p)
    (hquote : isQuote quote = true) (hbody : QuotedBody quote body)
    (hrest : text.drop p = quote :: (body ++ [quote]) ++ rest) :
    (ofText text).InCode (p + (quote :: (body ++ [quote])).length) := by
  rw [List.cons_append, List.append_assoc, List.singleton_append] at hrest
  have hall := h.next hrest
  rwa [next_of_quoted hquote hbody] at hall

end InCode

end Downlevel.Code
