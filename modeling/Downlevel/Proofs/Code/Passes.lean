/-
Downlevel.Proofs.Code.Passes — what a rule replaces, and pass after pass.

The replacements of one pass come from matches that start in code
(`exists_match`) and stand from left to right without overlap
(`inOrder_of_replacementsFrom?`). So their texts, and all that stands between
their ranges, are parts of the result (`text_infix_patchFrom`,
`slice_infix_patchFrom`).

A rule makes a pass over a text, or several: `passesOf` lists them, and the
text a rule hands back is what the last of them left. `textsOf` lists the
texts that were gone over, also one in which nothing was found or the rule
declined.
-/
import Downlevel.Code.Nullish
import Downlevel.Code.OptionalAccess
import Downlevel.Proofs.Code.Carrying

namespace Downlevel.Code

open Pattern (slice)

/-! ## The replacements of one pass -/

/-- The ranges stand from left to right, none of them before the offset. -/
def InOrder : Nat → List Replacement → Prop
  | _, [] => True
  | offset, r :: rest =>
    offset ≤ r.span.start ∧ r.span.start ≤ r.span.stop ∧ InOrder r.span.stop rest

theorem InOrder.weaken {offset offset' : Nat} {replacements : List Replacement}
    (h : InOrder offset replacements) (hle : offset' ≤ offset) : InOrder offset' replacements := by
  cases replacements with
  | nil => trivial
  | cons r rest => exact ⟨Nat.le_trans hle h.1, h.2⟩

section Found

variable {code : Code} {p : Pattern} {consuming : 0 < p.minLength}
  {rule : Pattern.Match → Option (List Char)} {offset : Nat} {replacements : List Replacement}

/-- **Every replacement comes from a match that starts in code.** It is found
from a place that has what every place has where the search goes on: behind a
literal or behind a match. -/
theorem exists_match_of_resumed (Resumed : Nat → Prop) {r : Replacement}
    (hliteral : ∀ l ∈ code.literals, Resumed l.stop)
    (hmatch : ∀ place m, place ≤ code.text.length → p.findFrom? code.text place = some m →
      Resumed m.stop)
    (hoffset : Resumed offset)
    (h : code.replacementsFrom? p consuming rule offset = some replacements)
    (hr : r ∈ replacements) :
    ∃ place m, place ≤ code.text.length ∧ Resumed place ∧ p.findFrom? code.text place = some m
      ∧ code.InCode m.start ∧ rule m = some r.text ∧ r.span = ⟨m.start, m.stop⟩ := by
  fun_induction replacementsFrom? code p consuming rule offset generalizing replacements with
  | case1 offset inside hnone =>
    cases h
    cases hr
  | case2 offset inside m hm literal hinside ih =>
    exact ih (hliteral literal (List.mem_of_find?_eq_some hinside)) h hr
  | case3 => cases h
  | case4 offset inside m hm hcode text htext ih =>
    obtain ⟨later, hlater, rfl⟩ := Option.map_eq_some_iff.mp h
    rcases List.mem_cons.mp hr with rfl | hr
    · exact ⟨offset, m, inside, hoffset, hm, hcode, htext, rfl⟩
    · exact ih (hmatch offset m inside hm) hlater hr
  | case5 =>
    cases h
    cases hr

theorem exists_match {r : Replacement}
    (h : code.replacementsFrom? p consuming rule offset = some replacements)
    (hr : r ∈ replacements) :
    ∃ place m, place ≤ code.text.length ∧ p.findFrom? code.text place = some m
      ∧ code.InCode m.start ∧ rule m = some r.text ∧ r.span = ⟨m.start, m.stop⟩ := by
  obtain ⟨place, m, hplace, -, hm⟩ :=
    exists_match_of_resumed (fun _ => True) (fun _ _ => trivial)
      (fun _ _ _ _ => trivial) trivial h hr
  exact ⟨place, m, hplace, hm⟩

theorem inOrder_of_replacementsFrom?
    (h : code.replacementsFrom? p consuming rule offset = some replacements) :
    InOrder offset replacements := by
  fun_induction replacementsFrom? code p consuming rule offset generalizing replacements with
  | case1 offset inside hnone =>
    cases h
    trivial
  | case2 offset inside m hm literal hliteral ih =>
    have hmatch := Pattern.findFrom?_some inside hm
    have hinside := literalAt?_some hliteral
    exact (ih h).weaken (by omega)
  | case3 => cases h
  | case4 offset inside m hm hliteral text htext ih =>
    obtain ⟨later, hlater, rfl⟩ := Option.map_eq_some_iff.mp h
    obtain ⟨hstart, hstop, -⟩ := Pattern.findFrom?_some inside hm
    exact ⟨hstart, Nat.le_of_add_right_le hstop, ih hlater⟩
  | case5 offset outside =>
    cases h
    trivial

theorem replacementsFrom?_nil (h : p.findFrom? code.text offset = none) :
    code.replacementsFrom? p consuming rule offset = some [] := by
  rw [replacementsFrom?]
  split
  · split
    · rfl
    · next hm => cases h.symm.trans hm
  · rfl

theorem replacementsFrom?_cons {m : Pattern.Match} {new : List Char}
    (hoffset : offset ≤ code.text.length) (hm : p.findFrom? code.text offset = some m)
    (hcode : code.InCode m.start) (hrule : rule m = some new)
    (hlater : code.replacementsFrom? p consuming rule m.stop = some replacements) :
    code.replacementsFrom? p consuming rule offset
      = some (⟨⟨m.start, m.stop⟩, new⟩ :: replacements) := by
  rw [replacementsFrom?, dif_pos hoffset]
  split
  · next hnone => cases hm.symm.trans hnone
  · next m' hm' =>
    obtain rfl := Option.some.inj (hm.symm.trans hm')
    split
    · next hliteral => cases hcode.symm.trans hliteral
    · simp only [hrule, hlater, Option.map_some]

end Found

/-! ## Occurrences -/

/-- The stretches at which a pattern is found in code, one after another. -/
def occurrences (code : Code) (p : Pattern) (consuming : 0 < p.minLength) : List Span :=
  ((code.replacements? p consuming fun _ => some []).getD []).map Replacement.span

section Occurrences

variable {code : Code} {p : Pattern} {consuming : 0 < p.minLength}
  {rule : Pattern.Match → Option (List Char)} {offset : Nat} {replacements : List Replacement}

/-- A rule that declines nothing finds what any other one finds. -/
theorem replacementsFrom?_accepting
    (h : code.replacementsFrom? p consuming rule offset = some replacements) :
    code.replacementsFrom? p consuming (fun _ => some []) offset
      = some (replacements.map fun r => ⟨r.span, []⟩) := by
  fun_induction replacementsFrom? code p consuming rule offset generalizing replacements with
  | case1 offset inside hnone =>
    cases h
    rw [replacementsFrom?, dif_pos inside]
    split
    · rfl
    · next hm => cases hnone.symm.trans hm
  | case2 offset inside m hm literal hliteral ih =>
    rw [replacementsFrom?, dif_pos inside]
    split
    · next hnone => cases hm.symm.trans hnone
    · next hm' =>
      obtain rfl := Option.some.inj (hm.symm.trans hm')
      split
      · next hliteral' =>
        rw [← Option.some.inj (hliteral.symm.trans hliteral')]
        exact ih h
      · next hcode => cases hliteral.symm.trans hcode
  | case3 => cases h
  | case4 offset inside m hm hliteral text htext ih =>
    obtain ⟨later, hlater, rfl⟩ := Option.map_eq_some_iff.mp h
    rw [replacementsFrom?, dif_pos inside]
    split
    · next hnone => cases hm.symm.trans hnone
    · next hm' =>
      obtain rfl := Option.some.inj (hm.symm.trans hm')
      split
      · next hinside => cases hliteral.symm.trans hinside
      · rw [ih hlater]
        rfl
  | case5 offset outside =>
    cases h
    rw [replacementsFrom?, dif_neg outside]
    rfl

/-- A rule that declines nothing replaces every occurrence. -/
theorem occurrences_eq (h : code.replacements? p consuming rule = some replacements) :
    code.occurrences p consuming = replacements.map Replacement.span := by
  rw [occurrences, replacements?, replacementsFrom?_accepting h, Option.getD_some, List.map_map]
  rfl

end Occurrences

/-! ## The result of a pass -/

section Patched

variable {text : List Char} {offset : Nat} {replacements : List Replacement}

theorem text_infix_patchFrom {r : Replacement} (hr : r ∈ replacements) :
    r.text <:+: patchFrom text offset replacements := by
  induction replacements generalizing offset with
  | nil => cases hr
  | cons first rest ih =>
    rw [patchFrom]
    rcases List.mem_cons.mp hr with rfl | hr
    · exact List.infix_append _ _ _
    · exact (ih hr).trans (List.suffix_append _ _).isInfix

/-- What stands before all replacements is kept. -/
theorem patchFrom_skip {w rest : List Char} (hdrop : text.drop offset = w ++ rest)
    (horder : InOrder (offset + w.length) replacements) :
    patchFrom text offset replacements = w ++ patchFrom text (offset + w.length) replacements := by
  cases replacements with
  | nil => rw [patchFrom, patchFrom, hdrop, drop_add_of_drop hdrop]
  | cons r replacements =>
    have hstart : offset + w.length ≤ r.span.start := horder.1
    have hslice : slice text offset r.span.start
        = w ++ slice text (offset + w.length) r.span.start := by
      rw [slice, slice, hdrop, drop_add_of_drop hdrop, List.take_append,
        List.take_of_length_le (by omega), Nat.sub_sub]
    rw [patchFrom, patchFrom, hslice, List.append_assoc, List.append_assoc, List.append_assoc]

/-- What stands between the ranges stays. -/
theorem slice_infix_patchFrom {i j : Nat} (horder : InOrder offset replacements)
    (hstart : offset ≤ i)
    (hbetween : ∀ r ∈ replacements, j ≤ r.span.start ∨ r.span.stop ≤ i) :
    slice text i j <:+: patchFrom text offset replacements := by
  induction replacements generalizing offset with
  | nil =>
    have hrest : slice text offset (max j text.length) = text.drop offset := by
      rw [slice, List.take_of_length_le]
      rw [List.length_drop]
      omega
    rw [patchFrom, ← hrest]
    exact slice_infix_slice text hstart (Nat.le_max_left j _)
  | cons r rest ih =>
    obtain ⟨hr, hrest⟩ := List.forall_mem_cons.mp hbetween
    rw [patchFrom]
    rcases hr with hbefore | hbehind
    · rw [List.append_assoc]
      exact (slice_infix_slice text hstart hbefore).trans (List.prefix_append _ _).isInfix
    · exact (ih horder.2.2 hbehind hrest).trans (List.suffix_append _ _).isInfix

end Patched

/-! ## Pass after pass -/

/-- A pass over a text, with what it replaces there. -/
structure Pass where
  text : List Char
  replacements : List Replacement
  deriving DecidableEq, Repr

namespace Pass

def code (pass : Pass) : Code := ofText pass.text

/-- The text that the pass leaves. -/
def result (pass : Pass) : List Char := pass.code.patch pass.replacements

end Pass

/-- The passes that are made on a text, so many at most: each goes over what
the one before left, and there are no more once nothing is found or the rule
declines. -/
def passesOf (find? : Code → Option (List Replacement)) : Nat → List Char → List Pass
  | 0, _ => []
  | n + 1, text =>
    match find? (ofText text) with
    | none => []
    | some [] => []
    | some (r :: rest) => ⟨text, r :: rest⟩ :: passesOf find? n ((ofText text).patch (r :: rest))

/-- The text after some passes over a text. -/
def outcome (text : List Char) (passes : List Pass) : List Char :=
  passes.foldl (fun _ pass => pass.result) text

/-- A pass replaces what the rule finds in its text. -/
theorem find?_of_mem_passesOf {find? : Code → Option (List Replacement)} {n : Nat}
    {text : List Char} {pass : Pass} (h : pass ∈ passesOf find? n text) :
    find? pass.code = some pass.replacements := by
  induction n generalizing text with
  | zero => cases h
  | succ n ih =>
    rw [passesOf] at h
    split at h
    · cases h
    · cases h
    · next r rest hfound =>
      rcases List.mem_cons.mp h with rfl | h
      · exact hfound
      · exact ih h

theorem passesOf_succ {find? : Code → Option (List Replacement)} {text : List Char}
    {replacements : List Replacement} (hfound : find? (ofText text) = some replacements)
    (hsome : replacements ≠ []) (n : Nat) :
    passesOf find? (n + 1) text
      = ⟨text, replacements⟩ :: passesOf find? n ((ofText text).patch replacements) := by
  cases replacements with
  | nil => exact absurd rfl hsome
  | cons r rest => rw [passesOf, hfound]

/-- The texts that passes go over, so many at most: the text itself and, where
something was replaced in it, what that left. -/
def textsOf (find? : Code → Option (List Replacement)) : Nat → List Char → List (List Char)
  | 0, _ => []
  | n + 1, text =>
    text ::
      match find? (ofText text) with
      | none => []
      | some [] => []
      | some (r :: rest) => textsOf find? n ((ofText text).patch (r :: rest))

theorem textsOf_succ {find? : Code → Option (List Replacement)} {text : List Char}
    {replacements : List Replacement} (hfound : find? (ofText text) = some replacements)
    (hsome : replacements ≠ []) (n : Nat) :
    textsOf find? (n + 1) text = text :: textsOf find? n ((ofText text).patch replacements) := by
  cases replacements with
  | nil => exact absurd rfl hsome
  | cons r rest => rw [textsOf, hfound]

/-- The one pass of optional access. -/
def OptionalAccess.passes (source : List Char) : List Pass :=
  passesOf OptionalAccess.replacements? 1 source

def Nullish.passes (source : List Char) : List Pass :=
  passesOf Nullish.replacements? Nullish.maxPasses source

/-- The rule for optional access makes one pass. It hands back what came out if
that holds no link. -/
theorem OptionalAccess.exists_pass {source out : List Char}
    (h : OptionalAccess.degrade? source = some out) :
    ∃ replacements, replacements ≠ []
      ∧ OptionalAccess.replacements? (ofText source) = some replacements
      ∧ OptionalAccess.passes source = [⟨source, replacements⟩]
      ∧ out = (ofText source).patch replacements
      ∧ (ofText out).occurs OptionalAccess.leftover = false := by
  rw [OptionalAccess.degrade?] at h
  split at h
  · cases h
  · next replacements hfound =>
    dsimp only at h
    split at h
    · cases h
    · next hchanged =>
      obtain ⟨hsome, hoccurs⟩ := not_or.mp hchanged
      cases h
      exact ⟨replacements, hsome, hfound, passesOf_succ hfound hsome 0, rfl,
        Bool.eq_false_iff.mpr hoccurs⟩

theorem OptionalAccess.outcome_passes {source out : List Char}
    (h : OptionalAccess.degrade? source = some out) :
    OptionalAccess.passes source ≠ [] ∧ outcome source (OptionalAccess.passes source) = out := by
  obtain ⟨replacements, -, -, hpasses, rfl, -⟩ := OptionalAccess.exists_pass h
  rw [hpasses]
  exact ⟨List.cons_ne_nil _ _, rfl⟩

theorem Nullish.outcome_passesOf {n : Nat} {text out : List Char} {changed changed' : Bool}
    (h : Nullish.passes? n text changed = some (out, changed')) :
    outcome text (passesOf Nullish.replacements? n text) = out
      ∧ (passesOf Nullish.replacements? n text = [] → changed' = changed) := by
  induction n generalizing text changed with
  | zero =>
    cases h
    exact ⟨rfl, fun _ => rfl⟩
  | succ n ih =>
    rw [Nullish.passes?] at h
    split at h
    · cases h
    · next hfound =>
      cases h
      rw [passesOf, hfound]
      exact ⟨rfl, fun _ => rfl⟩
    · next replacements hsome hfound =>
      rw [passesOf_succ hfound fun hnil => hsome hnil]
      exact ⟨(ih h).1, nofun⟩

theorem Nullish.outcome_passes {source out : List Char} (h : Nullish.degrade? source = some out) :
    Nullish.passes source ≠ [] ∧ outcome source (Nullish.passes source) = out := by
  rw [Nullish.degrade?] at h
  split at h
  · next text hpasses =>
    split at h
    · cases h
    · cases h
      obtain ⟨houtcome, hchanged⟩ := Nullish.outcome_passesOf hpasses
      exact ⟨fun hnil => Bool.noConfusion (hchanged hnil), houtcome⟩
  · cases h

/-- No pass over a text declines, when something comes of the passes. -/
theorem Nullish.exists_of_mem_textsOf {n : Nat} {source text : List Char} {changed : Bool}
    {result : List Char × Bool} (h : Nullish.passes? n source changed = some result)
    (htext : text ∈ textsOf Nullish.replacements? n source) :
    ∃ replacements, Nullish.replacements? (ofText text) = some replacements := by
  induction n generalizing source changed with
  | zero => cases htext
  | succ n ih =>
    rw [passes?] at h
    split at h
    · cases h
    · next hfound =>
      rw [textsOf, hfound, List.mem_singleton] at htext
      exact ⟨[], htext ▸ hfound⟩
    · next replacements hsome hfound =>
      rw [textsOf_succ hfound fun hnil => hsome hnil] at htext
      rcases List.mem_cons.mp htext with rfl | hlater
      · exact ⟨replacements, hfound⟩
      · exact ih h hlater

theorem Nullish.exists_of_degrade? {source out text : List Char}
    (h : Nullish.degrade? source = some out)
    (htext : text ∈ textsOf Nullish.replacements? Nullish.maxPasses source) :
    ∃ replacements, Nullish.replacements? (ofText text) = some replacements := by
  rw [degrade?] at h
  split at h
  · next hpasses => exact exists_of_mem_textsOf hpasses htext
  · cases h

end Downlevel.Code
