/-
Downlevel.Proofs.Code.SimpleOperands — coalescings of simple operands.

Some operands are matched whole by the pattern of the rule: names, and
parentheses without parentheses inside (`IsSimple`). With the operator between
two of them, that is what is found (`exists_matchAt?_coalescing`), and the check
of two names is such an operand again (`isBracketed_check`).

In the other direction, where a coalescing is found there is the operator,
with the end of an operand before it (`exists_operator_of_findFrom?`). So nothing
is found in a text without operators (`findFrom?_eq_none`), and a check of
anything and a check does not end like an operand
(`not_endsOperand_of_checks`).
-/
import Downlevel.Proofs.Code.Coalescing
import Downlevel.Proofs.Code.Tokens
import Downlevel.Proofs.Pattern.Search

namespace Downlevel.Code.Nullish

open Pattern
open Segment (IsPlain)

/-! ## Simple operands -/

/-- A name, or parentheses without parentheses inside. -/
def IsSimple (w : List Char) : Prop := IsName w ∨ IsBracketed '(' ')' w

/-- A blank comes next, or nothing. -/
def StopsOperand (rest : List Char) : Prop := ∀ c ∈ rest.head?, c = ' '

section Runs

variable {α : Type} {c : Cursor} {k : Cursor → Option α} {w rest : List Char} {r : α}

/-- No number starts with what names start with. -/
theorem run_number_eq_none (h : ∀ x, c.rest.head? = some x → isNameStart x = true) :
    number.run c k = none := by
  have hdigit : ∀ k : Cursor → Option α, digit.run c k = none :=
    fun k => run_char_eq_none fun x hx => isDigit_eq_false_of_isNameStart (h x hx)
  have hminus : ∀ k : Cursor → Option α, (literal "-").run c k = none :=
    fun k => run_literal_eq_none (x := '-') rfl fun hx => absurd (h '-' hx) (by decide)
  rw [number, run_append, run_append, opt, run, hminus, run]
  exact hdigit _

theorem run_head (hw : IsSimple w) (hrest : c.rest = w ++ rest) (hend : StopsOperand rest)
    (hk : k (c.behind w rest) = some r) : head.run c k = some r := by
  rcases hw with hname | hbrackets
  · have hstart : ∀ x, c.rest.head? = some x → isNameStart x = true := by
      obtain ⟨d, more, rfl, hd, -⟩ := hname
      intro x hx
      rw [hrest] at hx
      obtain rfl : d = x := Option.some.inj hx
      exact hd
    have hmark : ∀ {x : Char}, isNameStart x = false → c.rest.head? ≠ some x :=
      fun hx hc => Bool.noConfusion (hx.symm.trans (hstart _ hc))
    have hparen : parenthesized.run c k = none := run_bracketed_eq_none rfl (hmark (by decide))
    have hdouble : (quotedBy "\"").run c k = none := by
      rw [quotedBy, run_append, run_append]
      exact run_literal_eq_none (x := '"') rfl (hmark (by decide))
    have hsingle : (quotedBy "'").run c k = none := by
      rw [quotedBy, run_append, run_append]
      exact run_literal_eq_none (x := '\x27') rfl (hmark (by decide))
    have hwhole : name.run c k = some r := by
      refine run_name hname hrest (fun x hx => ?_) hk
      rw [hend x hx]
      decide
    have halternatives : head = (parenthesized ||| (quotedBy "\"" ||| (quotedBy "'" ||| (number
        ||| (name ||| alts [indexed, literal "\x7b\x7d"]))))) := rfl
    rw [halternatives, run_or_eq_right hparen, run_or_eq_right hdouble, run_or_eq_right hsingle,
      run_or_eq_right (run_number_eq_none hstart)]
    exact run_or_eq_left hwhole
  · have hopens : parenthesized.run c k = some r := run_bracketed rfl rfl hbrackets hrest hk
    exact run_or_eq_left hopens

theorem run_link_eq_none (h : StopsOperand c.rest) : link.run c k = none := by
  have hmark : ∀ {x : Char}, x ≠ ' ' → c.rest.head? ≠ some x := fun hx hc => hx (h _ hc)
  have hmember : (literal "." ++ name).run c k = none :=
    run_literal_eq_none (x := '.') rfl (hmark (by decide))
  have hcall : parenthesized.run c k = none := run_bracketed_eq_none rfl (hmark (by decide))
  have hindex : indexed.run c k = none := run_bracketed_eq_none rfl (hmark (by decide))
  rw [link, run_or_eq_right, hindex]
  rw [run_or_eq_right hmember, hcall]

/-- A simple operand is matched whole. -/
theorem run_operand (hw : IsSimple w) (hrest : c.rest = w ++ rest) (hend : StopsOperand rest)
    (hk : k (c.behind w rest) = some r) : operand.run c k = some r := by
  rw [operand, run_append]
  refine run_head hw hrest hend ?_
  rw [run_star_of_eq_none fun k => run_link_eq_none hend]
  exact hk

end Runs

/-! ## A coalescing of simple operands -/

theorem isBlank_head_of_isSimple {w rest : List Char} (hw : IsSimple w) :
    ∀ x, (w ++ rest).head? = some x → Text.isBlank x = false := by
  intro x hx
  rcases hw with hname | ⟨body, rfl, -⟩
  · have hpart := hname.isNamePart
    obtain ⟨d, more, rfl, -⟩ := hname
    obtain rfl : d = x := Option.some.inj hx
    exact isBlank_eq_false_of_isNamePart (hpart d List.mem_cons_self)
  · obtain rfl : '(' = x := Option.some.inj hx
    decide

section Matches

variable {a b rest : List Char} {c : Cursor}

/-- Two simple operands with the operator between them are matched whole. -/
theorem exists_matchAt?_coalescing (ha : IsSimple a) (hb : IsSimple b) (hrest : StopsOperand rest)
    (hc : c.rest = a ++ (" ?? ".toList ++ (b ++ rest))) :
    ∃ c', coalescing.matchAt? c = some c'
      ∧ c'.offset = c.offset + a.length + " ?? ".toList.length + b.length
      ∧ c'.groups = ⟨2, c.offset + a.length + " ?? ".toList.length, c'.offset⟩
        :: ⟨1, c.offset, c.offset + a.length⟩ :: c.groups := by
  -- the cursors behind the left operand and before the right one
  let c₁ := (c.behind a (" ?? ".toList ++ (b ++ rest))).record 1 c.offset
  let c₂ := c₁.behind [' '] ("?? ".toList ++ (b ++ rest))
  let c₃ := c₂.behind "??".toList (' ' :: (b ++ rest))
  let c₄ := c₃.behind [' '] (b ++ rest)
  let c' := (c₄.behind b rest).record 2 c₄.offset
  have hright : operand.run c₄ (fun c' => some (c'.record 2 c₄.offset)) = some c' :=
    run_operand hb rfl hrest rfl
  have hafter : blanks.run c₃ (fun c₄ => (Pattern.group 2 operand).run c₄ some) = some c' :=
    run_star_char (w := [' ']) rfl (by decide) (isBlank_head_of_isSimple hb) hright
  have hoperator : (literal "??").run c₂
      (fun c₃ => blanks.run c₃ fun c₄ => (Pattern.group 2 operand).run c₄ some) = some c' := by
    rw [run_literal (show c₂.rest = "??".toList ++ ' ' :: (b ++ rest) from rfl)]
    exact hafter
  have hbefore : blanks.run c₁ (fun c₂ => (literal "??").run c₂
      fun c₃ => blanks.run c₃ fun c₄ => (Pattern.group 2 operand).run c₄ some) = some c' := by
    have hrest : c₁.rest = [' '] ++ ("?? ".toList ++ (b ++ rest)) := rfl
    refine run_star_char hrest (by decide) ?_ hoperator
    rintro x ⟨⟩
    decide
  have hstop : StopsOperand (" ?? ".toList ++ (b ++ rest)) := by
    rintro x ⟨⟩
    rfl
  have hleft : operand.run c (fun c₀ => blanks.run (c₀.record 1 c.offset) fun c₂ =>
      (literal "??").run c₂ fun c₃ => blanks.run c₃ fun c₄ =>
        (Pattern.group 2 operand).run c₄ some) = some c' :=
    run_operand ha hc hstop hbefore
  refine ⟨c', hleft, ?_, ?_⟩
  · simp [c', c₄, c₃, c₂, c₁, Cursor.record]
  · simp [c', c₄, c₃, c₂, c₁, Cursor.record]

end Matches

/-! ## Checks -/

/-- What a check consists of, besides its operands. -/
def checkMarks : List (List Char) :=
  [['('], " !== null && ".toList, " !== undefined ? ".toList, " : ".toList, [')']]

/-- What holds of the operands and the marks, and of two texts put together,
holds of the check. -/
theorem check_of_append {P : List Char → Prop}
    (happend : ∀ {u v : List Char}, P u → P v → P (u ++ v))
    (hmarks : ∀ w ∈ checkMarks, P w) {left right : List Char} (hleft : P left) (hright : P right) :
    P (check left right) := by
  simp only [checkMarks, List.forall_mem_cons] at hmarks
  obtain ⟨hopen, hnull, hundefined, hcolon, hclose, -⟩ := hmarks
  have htest := happend (happend (happend (happend hopen hleft) hnull) hleft) hundefined
  exact happend (happend (happend (happend htest hleft) hcolon) hright) hclose

/-- A check of two names has no parentheses inside. -/
theorem isBracketed_check {a b : List Char} (ha : IsName a) (hb : IsName b) :
    IsBracketed '(' ')' (check a b) := by
  have hname : ∀ {w : List Char}, IsName w → ∀ x ∈ w, x ≠ '(' ∧ x ≠ ')' := by
    intro w hw x hx
    have hpart := hw.isNamePart x hx
    refine ⟨?_, ?_⟩
    · rintro rfl
      cases hpart
    · rintro rfl
      cases hpart
  have hall : ∀ {u v : List Char}, (∀ x ∈ u, x ≠ '(' ∧ x ≠ ')') → (∀ x ∈ v, x ≠ '(' ∧ x ≠ ')') →
      ∀ x ∈ u ++ v, x ≠ '(' ∧ x ≠ ')' := fun hu hv => List.forall_mem_append.mpr ⟨hu, hv⟩
  refine ⟨a ++ " !== null && ".toList ++ a ++ " !== undefined ? ".toList ++ a ++ " : ".toList ++ b,
    rfl, ?_⟩
  exact hall (hall (hall (hall (hall (hall (hname ha) (by decide)) (hname ha)) (by decide))
    (hname ha)) (by decide)) (hname hb)

/-! ## Operators -/

/-- No two question marks follow each other, also where something is put before
the text. -/
structure IsOperatorFree (w : List Char) : Prop where
  ne : ∀ u v, w ≠ u ++ '?' :: '?' :: v
  ne_nil : w ≠ []
  head : w.head? ≠ some '?'

section Operators

variable {u v w : List Char}

/-- An operator in two texts stands in one of them or over the border. -/
theorem operator_of_append {a b : List Char} (h : a ++ b = u ++ '?' :: '?' :: v) :
    (∃ x, a = u ++ '?' :: '?' :: x) ∨ (a = u ++ ['?'] ∧ b.head? = some '?')
      ∨ ∃ x, u = a ++ x ∧ b = x ++ '?' :: '?' :: v := by
  rcases List.append_eq_append_iff.mp h with ⟨x, hu, hb⟩ | ⟨x, ha, hmarks⟩
  · exact .inr (.inr ⟨x, hu, hb⟩)
  · rcases x with _ | ⟨c, _ | ⟨d, x⟩⟩
    · exact .inr (.inr ⟨[], by rw [ha, List.append_nil, List.append_nil], hmarks.symm⟩)
    · obtain ⟨rfl, hb⟩ := List.cons.inj hmarks
      exact .inr (.inl ⟨ha, by rw [← hb.trans (List.nil_append b)]; rfl⟩)
    · obtain ⟨rfl, hd⟩ := List.cons.inj hmarks
      obtain ⟨rfl, -⟩ := List.cons.inj hd
      exact .inl ⟨x, ha⟩

namespace IsOperatorFree

theorem append (hu : IsOperatorFree u) (hv : IsOperatorFree v) : IsOperatorFree (u ++ v) := by
  refine ⟨fun front behind h => ?_, fun h => hu.ne_nil (List.append_eq_nil_iff.mp h).1, ?_⟩
  · rcases operator_of_append h with ⟨x, hx⟩ | ⟨-, hhead⟩ | ⟨x, -, hx⟩
    · exact hu.ne front x hx
    · exact hv.head hhead
    · exact hv.ne x behind hx
  · rw [List.head?_append_of_ne_nil u hu.ne_nil]
    exact hu.head

/-- It is enough to look at the neighbours. -/
theorem of_neighbours (hne : w ≠ []) (hhead : w.head? ≠ some '?')
    (h : ('?', '?') ∉ w.zip w.tail) : IsOperatorFree w := by
  refine ⟨?_, hne, hhead⟩
  rintro u v rfl
  refine h ?_
  clear h hhead hne
  induction u with
  | nil => simp
  | cons c u ih =>
    cases u with
    | nil => simp
    | cons d u => exact List.mem_cons_of_mem _ ih

theorem of_isName (h : IsName w) : IsOperatorFree w := by
  have hpart := h.isNamePart
  have hmark : '?' ∉ w := fun hmem => absurd (hpart '?' hmem) (by decide)
  obtain ⟨c, more, rfl, -⟩ := h
  refine ⟨?_, List.cons_ne_nil c more, ?_⟩
  · intro u v h
    exact hmark (by rw [h]; simp)
  · rintro h
    exact hmark (List.mem_of_head? h)

/-- The marks of a check stand apart. -/
theorem check (hu : IsOperatorFree u) (hv : IsOperatorFree v) : IsOperatorFree (check u v) := by
  have hmarks : ∀ w ∈ checkMarks, w ≠ [] ∧ w.head? ≠ some '?' ∧ ('?', '?') ∉ w.zip w.tail := by
    decide
  refine check_of_append append (fun w hw => ?_) hu hv
  obtain ⟨hne, hhead, hneighbours⟩ := hmarks w hw
  exact of_neighbours hne hhead hneighbours

end IsOperatorFree

end Operators

/-! ## Where nothing is found -/

section Nothing

variable {text before lead rest : List Char} {place : Nat} {m : Match}

/-- A coalescing starts with what operands start with. -/
theorem not_matchesAt_of_isOperandStart
    (h : ∀ x ∈ (text.drop place).head?, isOperandStart x = false) :
    ¬ coalescing.MatchesAt text place := by
  intro hmatch
  obtain ⟨c, hc⟩ := Option.isSome_iff_exists.mp hmatch
  obtain ⟨w, b, hw, -⟩ := run_spells coalescing _ some c hc
  obtain ⟨left, middle, right, hparts, rfl, -⟩ := exists_of_coalescing hw
  obtain ⟨_, _, hleft⟩ := hparts.left
  obtain ⟨x, more, rfl, hx⟩ := exists_cons_of_operand hleft
  have hrest : text.drop place = _ := hw.rest_eq
  rw [hrest] at h
  exact Bool.noConfusion (hx.symm.trans (h x rfl))

/-- A search passes over characters that no operand starts with. -/
theorem findFrom?_skip (hlead : ∀ x ∈ lead, isOperandStart x = false) :
    coalescing.findFrom? (before ++ (lead ++ rest)) before.length
      = coalescing.findFrom? (before ++ (lead ++ rest)) (before ++ lead).length := by
  induction lead generalizing before with
  | nil => rw [List.append_nil]
  | cons x lead ih =>
    obtain ⟨hx, hmore⟩ := List.forall_mem_cons.mp hlead
    have hnot : ¬ coalescing.MatchesAt (before ++ (x :: lead ++ rest)) before.length := by
      refine not_matchesAt_of_isOperandStart fun y hy => ?_
      rw [List.drop_left' rfl] at hy
      obtain rfl : x = y := Option.some.inj hy
      exact hx
    have hnext :
        coalescing.findFrom? (before ++ [x] ++ (lead ++ rest)) (before ++ [x]).length = _ :=
      ih hmore
    simp only [List.append_assoc, List.singleton_append, List.length_append, List.length_singleton]
      at hnext
    rw [findFrom?_succ hnot (by simp)]
    simpa using hnext

/-- **What a coalescing needs**: the operator, and before it an operand that starts
where the search does or later. -/
theorem exists_operator_of_findFrom? (hplace : place ≤ text.length)
    (hm : coalescing.findFrom? text place = some m) :
    ∃ u v, text = u ++ '?' :: '?' :: v ∧ place ≤ u.length ∧ EndsOperand (Text.trimEnd u) := by
  obtain ⟨a, w, b, hw, hstart, hrest, -⟩ := findFrom?_spells hplace hm
  obtain ⟨w, right, _, rfl, hw', -⟩ := hw.of_append
  obtain ⟨w, after, _, rfl, hw', -⟩ := hw'.of_append
  obtain ⟨w, operator, _, rfl, hw', hoperator⟩ := hw'.of_append
  obtain ⟨left, blanks, _, rfl, hleft, hblanks⟩ := hw'.of_append
  obtain ⟨_, hleft, -⟩ := hleft.of_group
  obtain rfl := hoperator.of_literal
  have hspan := findFrom?_some hplace hm
  have hends := endsOperand_of_spells hleft
  rw [hw.rest_eq] at hrest
  refine ⟨text.take m.start ++ (left ++ blanks), after ++ (right ++ b.rest), ?_, ?_, ?_⟩
  · have hparts : text = text.take m.start ++ text.drop m.start := (List.take_append_drop _ _).symm
    rw [← hrest] at hparts
    conv => lhs; rw [hparts]
    simp
  · rw [List.length_append, List.length_take_of_le (by omega)]
    omega
  · obtain ⟨c, hlast, hc⟩ := hends.exists_getLast?
    rw [← List.append_assoc, trimEnd_append_of_isBlank (by rw [List.getLast?_append, hlast]; rfl) hc
      hblanks.of_star_char]
    exact hends.append

/-- Nothing is found in a text without operators. -/
theorem findFrom?_eq_none (hrest : ∀ u v, rest ≠ u ++ '?' :: '?' :: v) :
    coalescing.findFrom? (before ++ rest) before.length = none := by
  cases hm : coalescing.findFrom? (before ++ rest) before.length with
  | none => rfl
  | some m =>
    obtain ⟨u, v, htext, hle, -⟩ := exists_operator_of_findFrom? (by simp) hm
    rcases List.append_eq_append_iff.mp htext with ⟨x, -, hx⟩ | ⟨x, rfl, hx⟩
    · exact absurd hx (hrest x v)
    · have hnil : x = [] := List.eq_nil_of_length_eq_zero (by rw [List.length_append] at hle; omega)
      subst hnil
      exact absurd (hx.symm.trans (List.nil_append _).symm) (hrest [] v)

/-- A check of anything and a check does not end like an operand. -/
theorem not_endsOperand_of_checks (w : List Char) : ¬ EndsOperand (w ++ "))".toList) := by
  rintro (⟨_, ⟨body, rfl, hbody⟩, hsuffix⟩ | ⟨c, hlast, hc, -⟩)
  · rcases List.eq_nil_or_concat body with rfl | ⟨body, c, rfl⟩
    · obtain ⟨front, hfront⟩ := hsuffix
      exact absurd (List.append_inj' hfront rfl).2 (by decide)
    · obtain ⟨front, hfront⟩ := hsuffix
      have hends : front ++ '(' :: body ++ [c, ')'] = w ++ "))".toList := by
        simpa using hfront
      obtain rfl : c = ')' := by simpa using (List.append_inj' hends rfl).2
      exact (hbody ')' (by simp)).2 rfl
  · rw [List.getLast?_append] at hlast
    exact hc (Option.some.inj hlast).symm

/-- A text without operators is no leftover. -/
theorem occurs_leftover_eq_false {text : List Char} (h : ∀ u v, text ≠ u ++ '?' :: '?' :: v) :
    (ofText text).occurs leftover = false := by
  have hnone : leftover.findFrom? text 0 = none := by
    cases hm : leftover.findFrom? text 0 with
    | none => rfl
    | some m =>
      obtain ⟨a, w, b, hw, -, hrest, -⟩ := findFrom?_spells (Nat.zero_le _) hm
      obtain ⟨u, v, _, rfl, hu, -⟩ := hw.of_append
      obtain rfl := hu.of_literal
      have hdrop := (List.take_append_drop m.start text).symm
      rw [← hrest, hw.rest_eq, List.append_assoc] at hdrop
      exact absurd hdrop (h _ _)
  rw [occurs, all, allFrom, ofText, if_pos (Nat.zero_le _), hnone]
  rfl

end Nothing

end Downlevel.Code.Nullish
