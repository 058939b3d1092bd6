/-
Downlevel.Proofs.Code.Coalescing — the operands of a coalescing.

An operand is a head with links. Each of its pieces leads from code to code
(`leadsToCode_of_operand`): names and numbers are plain, a string in quotes
is one literal, and brackets do where they pair. What stands between the
operands is plain. So a coalescing carries its literals in its operands
(`carries_coalescing`), which its groups 1 and 2 hold.
-/
import Downlevel.Code.Nullish
import Downlevel.Proofs.Code.Passes
import Downlevel.Proofs.Text.CharClass

namespace Downlevel.Code.Nullish

open Pattern
open Segment (IsPlain QuotedBody)

/-! ## Strings -/

/-- A quoted string has the inside that the scan takes for one. -/
theorem exists_of_quotedBy {quote : String} {q : Char} {a b : Cursor} {w : List Char}
    (hquote : quote.toList = [q]) (h : Spells (quotedBy quote) a w b) :
    ∃ body, w = q :: (body ++ [q]) ∧ QuotedBody q body := by
  obtain ⟨u, close, _, rfl, hinner, hclose⟩ := h.of_append
  obtain ⟨opn, body, _, rfl, hopen, hbody⟩ := hinner.of_append
  obtain ⟨pieces, rfl, hpieces⟩ := hbody.of_star
  rw [hopen.of_literal, hclose.of_literal, hquote]
  refine ⟨pieces.flatten, by simp, ?_⟩
  clear h hinner hbody
  induction pieces with
  | nil => exact .nil
  | cons piece pieces ih =>
    obtain ⟨⟨_, _, hpiece⟩, hmore⟩ := List.forall_mem_cons.mp hpieces
    have hrest := ih hmore
    rcases hpiece.of_or with hplain | hescaped
    · obtain ⟨x, rfl, hx⟩ := hplain.of_char
      have hne : x ≠ q ∧ x ≠ '\\' := by simpa [hquote] using hx
      exact .plain hne.1 hne.2 hrest
    · obtain ⟨back, one, _, rfl, hback, hone⟩ := hescaped.of_append
      obtain ⟨x, rfl, -⟩ := hone.of_char
      rw [hback.of_literal]
      exact .escaped x hrest

/-! ## Operands -/

section Operands

variable {a b : Cursor} {w : List Char}

theorem isPlain_of_blanks (h : Spells blanks a w b) : IsPlain w :=
  isPlain_of_forall (by decide) h.of_star_char

theorem isPlain_of_number (h : Spells number a w b) : IsPlain w := by
  obtain ⟨u, rest, _, rfl, hu, hrest⟩ := h.of_append
  obtain ⟨sign, one, _, rfl, hsign, hone⟩ := hu.of_append
  obtain ⟨d, rfl, hd⟩ := hone.of_char
  refine .append (.append ?_ ?_) ?_
  · rcases hsign.of_opt with hminus | rfl
    · rw [hminus.of_literal]
      decide
    · exact nofun
  · exact isPlain_of_forall (by decide) (List.forall_mem_singleton.mpr hd)
  · exact isPlain_of_forall (by decide) hrest.of_star_char

/-- What operands start with. -/
def isOperandStart (c : Char) : Bool :=
  "(\"'-[\x7b".toList.contains c || Text.isDigit c || isNameStart c

theorem exists_cons_of_operand (h : Spells operand a w b) :
    ∃ c more, w = c :: more ∧ isOperandStart c = true := by
  obtain ⟨u, v, _, rfl, hhead, -⟩ := h.of_append
  obtain ⟨p, hp, hhead⟩ := hhead.of_alts
  have hof : ∀ {c : Char} {more : List Char}, u = c :: more → isOperandStart c = true →
      ∃ c more, u ++ v = c :: more ∧ isOperandStart c = true :=
    fun hu hc => ⟨_, _, by rw [hu]; rfl, hc⟩
  simp only [List.mem_cons, List.not_mem_nil, or_false] at hp
  rcases hp with rfl | rfl | rfl | rfl | rfl | rfl | rfl
  · obtain ⟨body, rfl, -⟩ := hhead.of_parenthesized
    exact hof rfl (by decide)
  · obtain ⟨body, rfl, -⟩ := exists_of_quotedBy rfl hhead
    exact hof rfl (by decide)
  · obtain ⟨body, rfl, -⟩ := exists_of_quotedBy rfl hhead
    exact hof rfl (by decide)
  · obtain ⟨signed, more, _, rfl, hsigned, -⟩ := hhead.of_append
    obtain ⟨sign, one, _, rfl, hsign, hone⟩ := hsigned.of_append
    obtain ⟨d, rfl, hd⟩ := hone.of_char
    rcases hsign.of_opt with hminus | rfl
    · rw [hminus.of_literal]
      exact ⟨_, _, rfl, by decide⟩
    · exact ⟨d, _, rfl, by simp [isOperandStart, hd]⟩
  · obtain ⟨c, more, rfl, hc, -⟩ := hhead.of_name
    exact hof rfl (by simp [isOperandStart, hc])
  · obtain ⟨body, rfl, -⟩ := hhead.of_indexed
    exact hof rfl (by decide)
  · rw [hhead.of_literal]
    exact ⟨_, _, rfl, by decide⟩

/-- **What operands end with**: parentheses without parentheses inside, or
neither a parenthesis nor a blank. -/
def EndsOperand (w : List Char) : Prop :=
  (∃ last, IsBracketed '(' ')' last ∧ last <:+ w)
    ∨ ∃ c, w.getLast? = some c ∧ c ≠ ')' ∧ Text.isBlank c = false

theorem EndsOperand.exists_getLast? (h : EndsOperand w) :
    ∃ c, w.getLast? = some c ∧ Text.isBlank c = false := by
  rcases h with ⟨_, ⟨body, rfl, -⟩, front, rfl⟩ | ⟨c, hlast, -, hc⟩
  · have hlast : ('(' :: (body ++ [')'])).getLast? = some ')' :=
      @List.getLast?_concat _ ('(' :: body) ')'
    exact ⟨')', by rw [List.getLast?_append, hlast, Option.some_or], by decide⟩
  · exact ⟨c, hlast, hc⟩

theorem EndsOperand.append {u v : List Char} (h : EndsOperand v) : EndsOperand (u ++ v) := by
  rcases h with ⟨last, hlast, hsuffix⟩ | ⟨c, hlast, hc⟩
  · exact .inl ⟨last, hlast, hsuffix.trans (List.suffix_append u v)⟩
  · exact .inr ⟨c, by rw [List.getLast?_append, hlast, Option.some_or], hc⟩

theorem endsOperand_of_isNamePart {u : List Char} {c : Char} (hlast : u.getLast? = some c)
    (hc : isNamePart c = true) : EndsOperand u := by
  refine .inr ⟨c, hlast, ?_, isBlank_eq_false_of_isNamePart hc⟩
  rintro rfl
  exact absurd hc (by decide)

theorem endsOperand_of_isName (h : IsName w) : EndsOperand w := by
  have hpart := h.isNamePart
  obtain ⟨c, more, rfl, -⟩ := h
  exact endsOperand_of_isNamePart (List.getLast?_eq_some_getLast (List.cons_ne_nil c more))
    (hpart _ (List.getLast_mem _))

theorem endsOperand_of_number (h : Spells number a w b) : EndsOperand w := by
  obtain ⟨u, more, _, rfl, hu, hmore⟩ := h.of_append
  obtain ⟨sign, one, _, rfl, -, hone⟩ := hu.of_append
  obtain ⟨d, rfl, hd⟩ := hone.of_char
  have hwordOr : ∀ c ∈ more, (Text.isWord c || ".".toList.contains c) = true := hmore.of_star_char
  have hblank : ∀ c ∈ d :: more, c ≠ ')' ∧ Text.isBlank c = false := by
    refine List.forall_mem_cons.mpr ⟨⟨?_, ?_⟩, fun c hc => ⟨?_, ?_⟩⟩
    · rintro rfl
      exact absurd hd (by decide)
    · exact Bool.eq_false_iff.mpr fun hblank =>
        Bool.noConfusion (hd.symm.trans (Text.isDigit_eq_false_of_isBlank hblank))
    · rintro rfl
      exact absurd (hwordOr ')' hc) (by decide)
    · refine Bool.eq_false_iff.mpr fun hblank => ?_
      have hclass := hwordOr c hc
      rw [Text.isWord_eq_false_of_isBlank hblank, Bool.false_or] at hclass
      obtain rfl : c = '.' := by simpa using hclass
      exact absurd hblank (by decide)
  rw [List.append_assoc, List.singleton_append]
  have hlast := List.getLast?_eq_some_getLast (List.cons_ne_nil d more)
  exact .append (.inr ⟨_, hlast, hblank _ (List.getLast_mem _)⟩)

theorem endsOperand_of_link (h : Spells link a w b) : EndsOperand w := by
  rcases h.of_or with h | h
  · rcases h.of_or with h | h
    · obtain ⟨dot, member, _, rfl, -, hmember⟩ := h.of_append
      exact (endsOperand_of_isName hmember.of_name).append
    · exact .inl ⟨w, h.of_parenthesized, List.suffix_rfl⟩
  · obtain ⟨body, rfl, -⟩ := h.of_indexed
    exact .inr ⟨']', @List.getLast?_concat _ ('[' :: body) ']', by decide⟩

theorem endsOperand_of_head (h : Spells head a w b) : EndsOperand w := by
  obtain ⟨p, hp, h⟩ := h.of_alts
  simp only [List.mem_cons, List.not_mem_nil, or_false] at hp
  rcases hp with rfl | rfl | rfl | rfl | rfl | rfl | rfl
  · exact .inl ⟨w, h.of_parenthesized, List.suffix_rfl⟩
  · obtain ⟨body, rfl, -⟩ := exists_of_quotedBy rfl h
    exact .inr ⟨'"', @List.getLast?_concat _ ('"' :: body) '"', by decide⟩
  · obtain ⟨body, rfl, -⟩ := exists_of_quotedBy rfl h
    exact .inr ⟨'\x27', @List.getLast?_concat _ ('\x27' :: body) '\x27', by decide⟩
  · exact endsOperand_of_number h
  · exact endsOperand_of_isName h.of_name
  · obtain ⟨body, rfl, -⟩ := h.of_indexed
    exact .inr ⟨']', @List.getLast?_concat _ ('[' :: body) ']', by decide⟩
  · rw [h.of_literal]
    exact .inr ⟨'\x7d', by decide⟩

theorem endsOperand_of_spells (h : Spells operand a w b) : EndsOperand w := by
  obtain ⟨u, v, _, rfl, hhead, hlinks⟩ := h.of_append
  obtain ⟨pieces, rfl, hpieces⟩ := hlinks.of_star
  rcases List.eq_nil_or_concat pieces with rfl | ⟨front, last, rfl⟩
  · rw [List.flatten_nil, List.append_nil]
    exact endsOperand_of_head hhead
  · obtain ⟨_, _, hlast⟩ := hpieces last (by simp)
    rw [List.concat_eq_append, List.flatten_append, List.flatten_singleton, ← List.append_assoc]
    exact (endsOperand_of_link hlast).append

variable {text : List Char} {s : Span}

theorem leadsToCode_of_head (hpair : (ofText text).BracketsPair s) (h : Spells head a w b) :
    (ofText text).LeadsToCode s w := by
  obtain ⟨p, hp, h⟩ := h.of_alts
  simp only [List.mem_cons, List.not_mem_nil, or_false] at hp
  rcases hp with rfl | rfl | rfl | rfl | rfl | rfl | rfl
  · exact .brackets hpair (.inl h.of_parenthesized)
  · obtain ⟨body, rfl, hbody⟩ := exists_of_quotedBy rfl h
    exact .quoted (by decide) hbody
  · obtain ⟨body, rfl, hbody⟩ := exists_of_quotedBy rfl h
    exact .quoted (by decide) hbody
  · exact .plain (isPlain_of_number h)
  · exact .plain (isPlain_of_isName h.of_name)
  · exact .brackets hpair (.inr h.of_indexed)
  · rw [h.of_literal]
    exact .plain (by decide)

theorem leadsToCode_of_link (hpair : (ofText text).BracketsPair s) (h : Spells link a w b) :
    (ofText text).LeadsToCode s w := by
  rcases h.of_or with h | h
  · rcases h.of_or with h | h
    · obtain ⟨dot, member, _, rfl, hdot, hmember⟩ := h.of_append
      rw [hdot.of_literal]
      exact .append (.plain (by decide)) (.plain (isPlain_of_isName hmember.of_name))
    · exact .brackets hpair (.inl h.of_parenthesized)
  · exact .brackets hpair (.inr h.of_indexed)

theorem leadsToCode_of_operand (hpair : (ofText text).BracketsPair s) (h : Spells operand a w b) :
    (ofText text).LeadsToCode s w := by
  obtain ⟨u, v, _, rfl, hhead, hlinks⟩ := h.of_append
  obtain ⟨pieces, rfl, hpieces⟩ := hlinks.of_star
  refine (leadsToCode_of_head hpair hhead).append (.flatten fun piece hpiece => ?_)
  obtain ⟨_, _, hlink⟩ := hpieces piece hpiece
  exact leadsToCode_of_link hpair hlink

end Operands

/-! ## The two operands of a coalescing -/

/-- The characters of a coalescing: an operand, the operator with the blanks
around it, and an operand. -/
structure IsCoalescing (left middle right : List Char) : Prop where
  opens : ∃ c more, middle = c :: more ∧ (c = '?' ∨ Text.isBlank c = true)
  left : ∃ a b, Spells operand a left b
  middle : IsPlain middle
  right : ∃ a b, Spells operand a right b

theorem exists_of_coalescing {a b : Cursor} {w : List Char} (h : Spells coalescing a w b) :
    ∃ left middle right, IsCoalescing left middle right ∧ w = left ++ (middle ++ right)
      ∧ b.groups = ⟨2, a.offset + (left ++ middle).length, b.offset⟩
        :: ⟨1, a.offset, a.offset + left.length⟩ :: a.groups := by
  obtain ⟨u, right, c₄, rfl, hu, hright⟩ := h.of_append
  obtain ⟨u, after, c₃, rfl, hu, hafter⟩ := hu.of_append
  obtain ⟨u, operator, c₂, rfl, hu, hoperator⟩ := hu.of_append
  obtain ⟨left, before, c₁, rfl, hleft, hbefore⟩ := hu.of_append
  obtain ⟨c₀, hleftOperand, rfl⟩ := hleft.of_group
  obtain ⟨c₅, hrightOperand, rfl⟩ := hright.of_group
  refine ⟨left, before ++ operator ++ after, right,
    ⟨?_, ⟨_, _, hleftOperand⟩, ?_, ⟨_, _, hrightOperand⟩⟩, ?_, ?_⟩
  · rw [hoperator.of_literal]
    cases before with
    | nil => exact ⟨'?', _, rfl, .inl rfl⟩
    | cons c before => exact ⟨c, _, rfl, .inr (hbefore.of_star_char c List.mem_cons_self)⟩
  · rw [hoperator.of_literal]
    exact .append (.append (isPlain_of_blanks hbefore) (by decide)) (isPlain_of_blanks hafter)
  · simp
  · have hoffset : c₄.offset = a.offset + (left ++ (before ++ operator ++ after)).length := by
      rw [hafter.offset_eq, hoperator.offset_eq, hbefore.offset_eq, Cursor.record,
        hleftOperand.offset_eq]
      simp [Nat.add_assoc]
    have hgroups : c₅.groups = ⟨1, a.offset, a.offset + left.length⟩ :: a.groups := by
      rw [hrightOperand.groups_eq rfl, hafter.groups_eq rfl, hoperator.groups_eq rfl,
        hbefore.groups_eq rfl, Cursor.record, hleftOperand.groups_eq rfl, hleftOperand.offset_eq]
    rw [← hoffset, ← hgroups]
    rfl

/-- Where a coalescing was found, its operands are groups 1 and 2. -/
theorem exists_of_findFrom? {text : List Char} {place : Nat} {m : Match}
    (hplace : place ≤ text.length) (hm : coalescing.findFrom? text place = some m) :
    ∃ left middle right rest, IsCoalescing left middle right
      ∧ text.drop m.start = left ++ (middle ++ (right ++ rest))
      ∧ m.stop = m.start + (left ++ (middle ++ right)).length
      ∧ m.groupText? text 1 = some left ∧ m.groupText? text 2 = some right := by
  obtain ⟨a, w, b, hw, hstart, hrest, hnone, hstop, hgroups⟩ := findFrom?_spells hplace hm
  obtain ⟨left, middle, right, hparts, rfl, hrecorded⟩ := exists_of_coalescing hw
  rw [hw.rest_eq, List.append_assoc, List.append_assoc] at hrest
  have hlength := hw.offset_eq
  rw [hstart, hstop] at hlength
  refine ⟨left, middle, right, b.rest, hparts, hrest.symm, hlength, ?_, ?_⟩
  · have hleft := slice_of_drop hrest.symm
    simpa [Match.groupText?, Match.group?, ← hgroups, hrecorded, hstart] using hleft
  · have hfrom : text.drop m.start = left ++ middle ++ (right ++ b.rest) := by
      rw [← hrest, List.append_assoc]
    have hright := slice_of_drop (drop_add_of_drop hfrom)
    have hend : m.start + (left ++ middle).length + right.length = m.stop := by
      rw [hlength]
      simp [Nat.add_assoc]
    rw [hend] at hright
    simpa [Match.groupText?, Match.group?, ← hgroups, hrecorded, hstart, hstop] using hright

/-- What is replaced: a coalescing in code whose operands are whole. -/
theorem exists_of_replacements? {text : List Char} {replacements : List Replacement}
    (h : replacements? (ofText text) = some replacements) {r : Replacement}
    (hr : r ∈ replacements) :
    ∃ left middle right rest, IsCoalescing left middle right
      ∧ text.drop r.span.start = left ++ (middle ++ (right ++ rest))
      ∧ r.span.stop = r.span.start + (left ++ (middle ++ right)).length
      ∧ r.text = check left right ∧ (ofText text).InCode r.span.start
      ∧ leftIsWhole (ofText text) r.span.start = true
      ∧ rightIsWhole (ofText text) r.span.stop = true := by
  obtain ⟨place, m, hplace, hm, hcode, hrule, hspan⟩ := exists_match h hr
  obtain ⟨left, middle, right, rest, hparts, hdrop, hstop, hleft, hright⟩ :=
    exists_of_findFrom? hplace hm
  rw [replacement?, hleft, hright] at hrule
  split at hrule
  · next hwhole =>
    obtain ⟨hleftWhole, hrightWhole⟩ := Bool.and_eq_true_iff.mp hwhole
    rw [hspan]
    exact ⟨left, middle, right, rest, hparts, hdrop, hstop, (Option.some.inj hrule).symm, hcode,
      hleftWhole, hrightWhole⟩
  · cases hrule

theorem carries_coalescing {left middle right rest text : List Char} {s : Span} {p : Nat}
    (h : IsCoalescing left middle right) (hp : (ofText text).InCode p)
    (hpair : (ofText text).BracketsPair s)
    (hrest : text.drop p = left ++ (middle ++ (right ++ rest))) (hstart : s.start ≤ p)
    (hstop : p + (left ++ (middle ++ right)).length ≤ s.stop) :
    (ofText text).Carries p (p + (left ++ (middle ++ right)).length) [left, right] := by
  obtain ⟨_, _, hleft⟩ := h.left
  obtain ⟨_, _, hright⟩ := h.right
  rw [List.length_append, List.length_append, ← Nat.add_assoc, ← Nat.add_assoc] at hstop ⊢
  have hfirst := Carries.part hp (leadsToCode_of_operand hpair hleft) hrest hstart (by omega)
  have hmiddle := Carries.plain hfirst.ends (drop_add_of_drop hrest) h.middle
  have hsecond := Carries.part hmiddle.ends (leadsToCode_of_operand hpair hright)
    (drop_add_of_drop (drop_add_of_drop hrest)) (by omega) hstop
  exact (hfirst.trans hmiddle).trans hsecond

theorem left_infix_check (left right : List Char) : left <:+: check left right := by
  refine ⟨['('], " !== null && ".toList ++ left ++ " !== undefined ? ".toList ++ left
    ++ " : ".toList ++ right ++ [')'], ?_⟩
  simp [check]

theorem right_infix_check (left right : List Char) : right <:+: check left right :=
  List.infix_append _ right [')']

end Downlevel.Code.Nullish
