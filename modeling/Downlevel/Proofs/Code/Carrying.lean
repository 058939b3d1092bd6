/-
Downlevel.Proofs.Code.Carrying — literals between two places in code.

`LeadsToCode` says of characters that one is in code behind them if one was
before: plain characters, a string, and what is put together from such. A pair
of brackets is not always of this kind, because its closing bracket is the
first there is and may stand inside of a literal. `BracketsPair` excludes that.

`Carries` says of a stretch of text that it ends in code, and in which of its
parts its literals stand. Stretches are put together (`Carries.trans`), so
what a pattern matched can be followed piece by piece: plain characters hold
no literal (`Carries.plain`), and a piece from code to code holds the literals
in it whole (`Carries.part`).
-/
import Downlevel.Proofs.Code.InCode

namespace Downlevel

namespace Pattern

/-- A pair of parentheses or of square brackets, with none of its kind
inside. -/
def IsBrackets (w : List Char) : Prop := IsBracketed '(' ')' w ∨ IsBracketed '[' ']' w

theorem IsBrackets.exists_closing {w : List Char} (h : IsBrackets w) :
    ∃ front closing, w = front ++ [closing] ∧ (closing = ')' ∨ closing = ']') := by
  rcases h with ⟨body, rfl, -⟩ | ⟨body, rfl, -⟩
  · exact ⟨'(' :: body, ')', rfl, .inl rfl⟩
  · exact ⟨'[' :: body, ']', rfl, .inr rfl⟩

end Pattern

namespace Code

open Pattern (slice IsBracketed IsBrackets IsName)
open Segment (opensLiteral isQuote IsPlain QuotedBody)

/-! ## Slices -/

theorem slice_of_drop {text w rest : List Char} {p : Nat} (h : text.drop p = w ++ rest) :
    slice text p (p + w.length) = w := by
  rw [slice, h, Nat.add_sub_cancel_left, List.take_left']
  rfl

theorem drop_add_of_drop {text w rest : List Char} {p : Nat} (h : text.drop p = w ++ rest) :
    text.drop (p + w.length) = rest := by
  rw [← List.drop_drop, h, List.drop_left' rfl]

theorem slice_infix_slice (text : List Char) {p q i j : Nat} (hstart : p ≤ i) (hstop : j ≤ q) :
    slice text i j <:+: slice text p q := by
  have hslice : slice text i j = ((slice text p q).drop (i - p)).take (j - i) := by
    rw [slice, slice, List.drop_take, List.drop_drop, List.take_take]
    congr 1
    · omega
    · rw [Nat.add_sub_cancel' hstart]
  rw [hslice]
  exact (List.take_prefix _ _).isInfix.trans (List.drop_suffix _ _).isInfix

theorem getElem_mem_slice {text : List Char} {i j stop : Nat} (hj : j < text.length) (hi : i ≤ j)
    (hstop : j < stop) : text[j] ∈ slice text i stop := by
  rw [slice, List.mem_take_iff_getElem]
  refine ⟨j - i, by rw [List.length_drop]; omega, ?_⟩
  rw [List.getElem_drop]
  congr 1
  omega

/-- The last character of a slice. -/
theorem getElem_eq_of_slice {text front : List Char} {i j : Nat} {c : Char}
    (hj : j < text.length) (h : slice text i (j + 1) = front ++ [c]) : text[j] = c := by
  have hi : i ≤ j := by
    have hlength := congrArg List.length h
    rw [slice, List.length_take, List.length_append, List.length_singleton] at hlength
    omega
  have hlt : j - i < (text.drop i).length := by
    rw [List.length_drop]
    omega
  rw [slice, Nat.succ_sub hi, List.take_succ_eq_append_getElem hlt, List.getElem_drop] at h
  have hlast := List.singleton_inj.mp (List.append_inj_right' h rfl)
  rw [← hlast]
  congr 1
  omega

/-! ## Plain characters -/

/-- Characters of a class without quotes and without the slash. -/
theorem isPlain_of_forall {accepts : Char → Bool} {w : List Char}
    (hclass : accepts '\x27' = false ∧ accepts '"' = false ∧ accepts '\x60' = false
      ∧ accepts '/' = false)
    (hw : ∀ c ∈ w, accepts c = true) : IsPlain w := by
  intro c hc
  have haccepts := hw c hc
  refine Bool.eq_false_iff.mpr fun hopens => ?_
  have hcases : c = '\x27' ∨ c = '"' ∨ c = '\x60' ∨ c = '/' := by
    simpa [opensLiteral, isQuote, or_assoc] using hopens
  obtain ⟨hapostrophe, hquote, hbacktick, hslash⟩ := hclass
  rcases hcases with rfl | rfl | rfl | rfl
  · exact Bool.noConfusion (hapostrophe.symm.trans haccepts)
  · exact Bool.noConfusion (hquote.symm.trans haccepts)
  · exact Bool.noConfusion (hbacktick.symm.trans haccepts)
  · exact Bool.noConfusion (hslash.symm.trans haccepts)

theorem isPlain_of_isName {w : List Char} (h : IsName w) : IsPlain w :=
  isPlain_of_forall (by decide) h.isNamePart

/-! ## Words that lead to code -/

/-- Where a pair of brackets within a stretch opens in code, it closes in
code. -/
def BracketsPair (code : Code) (s : Span) : Prop :=
  ∀ i j, s.start ≤ i → j < s.stop → IsBrackets (slice code.text i (j + 1)) → code.InCode i →
    code.InCode j

/-- Behind these characters one is in code, wherever within the stretch they
start in code. -/
def LeadsToCode (code : Code) (s : Span) (w : List Char) : Prop :=
  ∀ p rest, code.text.drop p = w ++ rest → s.start ≤ p → p + w.length ≤ s.stop → code.InCode p →
    code.InCode (p + w.length)

namespace LeadsToCode

variable {text u w : List Char} {s : Span}

theorem plain (hw : IsPlain w) : (ofText text).LeadsToCode s w :=
  fun _ _ hrest _ _ hp => hp.plain hrest hw

theorem append (hu : (ofText text).LeadsToCode s u) (hw : (ofText text).LeadsToCode s w) :
    (ofText text).LeadsToCode s (u ++ w) := by
  intro p rest hrest hstart hstop hp
  rw [List.append_assoc] at hrest
  rw [List.length_append, ← Nat.add_assoc] at hstop ⊢
  have hmiddle := hu p (w ++ rest) hrest hstart (by omega) hp
  exact hw _ rest (drop_add_of_drop hrest) (by omega) hstop hmiddle

theorem flatten {pieces : List (List Char)}
    (h : ∀ piece ∈ pieces, (ofText text).LeadsToCode s piece) :
    (ofText text).LeadsToCode s pieces.flatten := by
  induction pieces with
  | nil => exact plain nofun
  | cons piece pieces ih =>
    obtain ⟨hpiece, hmore⟩ := List.forall_mem_cons.mp h
    exact hpiece.append (ih hmore)

theorem quoted {quote : Char} {body : List Char} (hquote : isQuote quote = true)
    (hbody : QuotedBody quote body) :
    (ofText text).LeadsToCode s (quote :: (body ++ [quote])) :=
  fun _ _ hrest _ _ hp => hp.quoted hquote hbody hrest

theorem brackets (hpair : (ofText text).BracketsPair s) (hw : IsBrackets w) :
    (ofText text).LeadsToCode s w := by
  intro p rest hrest hstart hstop hp
  obtain ⟨front, closing, rfl, hclosing⟩ := hw.exists_closing
  rw [List.length_append, List.length_singleton] at hstop ⊢
  have hslice : slice (ofText text).text p (p + front.length + 1) = front ++ [closing] := by
    simpa [Nat.add_assoc] using slice_of_drop hrest
  have hclose : (ofText text).InCode (p + front.length) := by
    refine hpair p (p + front.length) hstart (by omega) ?_ hp
    rw [hslice]
    exact hw
  have hplain : IsPlain [closing] := by
    rcases hclosing with rfl | rfl <;> decide
  rw [List.append_assoc] at hrest
  exact hclose.plain (drop_add_of_drop hrest) hplain

end LeadsToCode

/-! ## Literals of a stretch -/

theorem exists_of_mem_literals {text : List Char} {l : Span} (h : l ∈ (ofText text).literals) :
    ∃ c more rest, text.drop l.start = c :: more ++ rest ∧ l.stop = l.start + (c :: more).length
      ∧ opensLiteral c = true := by
  obtain ⟨before, lit, after, hsplit, rfl⟩ := mem_literals.mp h
  obtain ⟨c, more, rfl, hopens⟩ :=
    Segment.exists_of_literal_mem (hsplit ▸ List.mem_append_right before List.mem_cons_self)
  refine ⟨c, more, after.flatMap Segment.text, ?_, rfl, hopens⟩
  conv => lhs; rw [← Segment.text_split text, hsplit, List.flatMap_append]
  exact List.drop_left' rfl

theorem start_lt_stop {text : List Char} {l : Span} (h : l ∈ (ofText text).literals) :
    l.start < l.stop := by
  obtain ⟨c, more, rest, -, hstop, -⟩ := exists_of_mem_literals h
  rw [hstop, List.length_cons]
  omega

/-- Brackets pair everywhere in a text whose literals hold no closing
bracket. -/
theorem bracketsPair_of_forall {text : List Char}
    (h : ∀ l ∈ (ofText text).literals,
      ')' ∉ slice text l.start l.stop ∧ ']' ∉ slice text l.start l.stop)
    (s : Span) : (ofText text).BracketsPair s := by
  intro i j _ _ hbrackets _
  rw [inCode_iff]
  rintro l hl ⟨hstart, hstop⟩
  obtain ⟨c, more, rest, hdrop, hlength, -⟩ := exists_of_mem_literals hl
  have hj : j < text.length := by
    have := length_of_drop hdrop (List.cons_ne_nil c more)
    omega
  obtain ⟨hparen, hindex⟩ := h l hl
  obtain ⟨front, closing, hslice, hclosing⟩ := hbrackets.exists_closing
  have hmem : closing ∈ slice text l.start l.stop := by
    rw [← getElem_eq_of_slice hj hslice]
    exact getElem_mem_slice hj (Nat.le_of_lt hstart) hstop
  rcases hclosing with rfl | rfl
  · exact hparen hmem
  · exact hindex hmem

/-- A stretch that ends in code, every literal of which stands within one of
the parts. -/
structure Carries (code : Code) (p q : Nat) (parts : List (List Char)) : Prop where
  le : p ≤ q
  ends : code.InCode q
  within : ∀ l ∈ code.literals, p ≤ l.start → l.stop ≤ q →
    ∃ part ∈ parts, slice code.text l.start l.stop <:+: part

namespace Carries

variable {text : List Char} {p q r : Nat} {parts more : List (List Char)}

theorem trans (h : (ofText text).Carries p q parts) (h' : (ofText text).Carries q r more) :
    (ofText text).Carries p r (parts ++ more) := by
  refine ⟨Nat.le_trans h.le h'.le, h'.ends, fun l hl hstart hstop => ?_⟩
  by_cases hq : q ≤ l.start
  · obtain ⟨part, hpart, hinside⟩ := h'.within l hl hq hstop
    exact ⟨part, List.mem_append_right parts hpart, hinside⟩
  · -- the place between the stretches is in code, so the literal ends before it
    have hbefore : l.stop ≤ q := by
      have hnot := inCode_iff.mp h.ends l hl
      omega
    obtain ⟨part, hpart, hinside⟩ := h.within l hl hstart hbefore
    exact ⟨part, List.mem_append_left more hpart, hinside⟩

theorem plain {w rest : List Char} (h : (ofText text).InCode p) (hrest : text.drop p = w ++ rest)
    (hw : IsPlain w) : (ofText text).Carries p (p + w.length) [] := by
  refine ⟨Nat.le_add_right p _, h.plain hrest hw, fun l hl hstart hstop => ?_⟩
  obtain ⟨c, lit, after, hdrop, hlength, hopens⟩ := exists_of_mem_literals hl
  obtain ⟨n, hn⟩ := Nat.exists_eq_add_of_le hstart
  have hlt : n < w.length := by
    rw [hlength, hn, List.length_cons] at hstop
    omega
  have hc : c ∈ w := by
    rw [hn, ← List.drop_drop, hrest, List.drop_append_of_le_length (Nat.le_of_lt hlt)] at hdrop
    have hmem : w[n] = c := by
      rw [List.drop_eq_getElem_cons hlt] at hdrop
      exact (List.cons.inj hdrop).1
    exact hmem ▸ List.getElem_mem hlt
  rw [hw c hc] at hopens
  cases hopens

/-- A stretch from code to code holds its literals whole. -/
theorem part {w rest : List Char} {s : Span} (h : (ofText text).InCode p)
    (hw : (ofText text).LeadsToCode s w) (hrest : text.drop p = w ++ rest)
    (hstart : s.start ≤ p) (hstop : p + w.length ≤ s.stop) :
    (ofText text).Carries p (p + w.length) [w] := by
  refine ⟨Nat.le_add_right p _, hw p rest hrest hstart hstop h, fun l _ hl hl' => ?_⟩
  refine ⟨w, List.mem_singleton_self w, ?_⟩
  rw [← slice_of_drop hrest]
  exact slice_infix_slice text hl hl'

end Carries

end Code

end Downlevel
