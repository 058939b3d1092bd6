/-
Downlevel.Proofs.Code.LiteralsKept — what the rules make of literals.

Optional access and coalescing repeat what stands in an expression, literals
included. A replaced range starts in code. It ends in code, and every literal
is left in place or carried whole into the new text, as long as the brackets
in the range pair (`literals_kept`).

The condition is not idle. The patterns end brackets at the first closing
one, also at one inside of a string, and the text behind the match is then
read as if the string had ended there (`chain_stops_in_string`).
-/
import Downlevel.Proofs.Code.Chain
import Downlevel.Proofs.Code.Coalescing

namespace Downlevel.Code

open Pattern (slice IsBrackets)

/-! ## One replacement -/

/-- A replacement starts in code. Where the brackets in its range pair, it
also ends in code, and every literal of the text stands apart from the range
or in it, and then in the new text as well. -/
structure Replacement.KeepsLiterals (code : Code) (r : Replacement) : Prop where
  starts : code.InCode r.span.start
  ends : code.BracketsPair r.span → code.InCode r.span.stop
  carries : code.BracketsPair r.span → ∀ l ∈ code.literals,
    l.stop ≤ r.span.start ∨ r.span.stop ≤ l.start
      ∨ r.span.start ≤ l.start ∧ l.stop ≤ r.span.stop
        ∧ slice code.text l.start l.stop <:+: r.text

theorem Replacement.keepsLiterals {text : List Char} {r : Replacement}
    (hstart : (ofText text).InCode r.span.start)
    (hcarries : (ofText text).BracketsPair r.span → ∃ parts,
      (ofText text).Carries r.span.start r.span.stop parts ∧ ∀ part ∈ parts, part <:+: r.text) :
    r.KeepsLiterals (ofText text) := by
  refine ⟨hstart, fun hpair => ?_, fun hpair l hl => ?_⟩
  · obtain ⟨parts, hparts, -⟩ := hcarries hpair
    exact hparts.ends
  · obtain ⟨parts, hparts, hinside⟩ := hcarries hpair
    have hlt := start_lt_stop hl
    have hnotStart := inCode_iff.mp hstart l hl
    have hnotStop := inCode_iff.mp hparts.ends l hl
    by_cases hbefore : l.stop ≤ r.span.start
    · exact .inl hbefore
    by_cases hbehind : r.span.stop ≤ l.start
    · exact .inr (.inl hbehind)
    -- the literal overlaps the range, both ends of which are in code
    have hfirst : r.span.start ≤ l.start := by omega
    have hlast : l.stop ≤ r.span.stop := by omega
    obtain ⟨part, hpart, hl⟩ := hparts.within l hl hfirst hlast
    exact .inr (.inr ⟨hfirst, hlast, hl.trans (hinside part hpart)⟩)

theorem OptionalAccess.keepsLiterals_of_replacements? {text : List Char}
    {replacements : List Replacement}
    (h : OptionalAccess.replacements? (ofText text) = some replacements) :
    ∀ r ∈ replacements, r.KeepsLiterals (ofText text) := by
  intro r hr
  obtain ⟨c, rest, hrest, hstop, htext, hstart⟩ := OptionalAccess.exists_of_replacements? h hr
  refine Replacement.keepsLiterals hstart fun hpair => ?_
  have hcarries := c.carries hstart hpair hrest (Nat.le_refl _) (Nat.le_of_eq hstop.symm)
  rw [← hstop] at hcarries
  refine ⟨_, hcarries, fun part hpart => ?_⟩
  obtain ⟨l, hl, rfl⟩ := List.mem_map.mp hpart
  rw [htext]
  exact OptionalAccess.part_infix_guardChain hl

theorem Nullish.keepsLiterals_of_replacements? {text : List Char}
    {replacements : List Replacement}
    (h : Nullish.replacements? (ofText text) = some replacements) :
    ∀ r ∈ replacements, r.KeepsLiterals (ofText text) := by
  intro r hr
  obtain ⟨left, middle, right, rest, hparts, hrest, hstop, htext, hstart, -, -⟩ :=
    Nullish.exists_of_replacements? h hr
  refine Replacement.keepsLiterals hstart fun hpair => ?_
  have hcarries := Nullish.carries_coalescing hparts hstart hpair hrest (Nat.le_refl _)
    (Nat.le_of_eq hstop.symm)
  rw [← hstop] at hcarries
  refine ⟨_, hcarries, ?_⟩
  rw [htext]
  exact List.forall_mem_cons.mpr ⟨Nullish.left_infix_check left right,
    List.forall_mem_singleton.mpr (Nullish.right_infix_check left right)⟩

/-! ## Whole passes -/

/-- Every replacement of the pass keeps the literals. Where the brackets in
all of the ranges pair, every literal of the text is found in the result. -/
structure Pass.KeepsLiterals (pass : Pass) : Prop where
  replacement : ∀ r ∈ pass.replacements, r.KeepsLiterals pass.code
  result : (∀ r ∈ pass.replacements, pass.code.BracketsPair r.span) →
    ∀ l ∈ pass.code.literals, slice pass.text l.start l.stop <:+: pass.result

theorem Pass.keepsLiterals {pass : Pass} (horder : InOrder 0 pass.replacements)
    (hkeeps : ∀ r ∈ pass.replacements, r.KeepsLiterals pass.code) : pass.KeepsLiterals := by
  refine ⟨hkeeps, fun hpair l hl => ?_⟩
  by_cases hcarried : ∃ r ∈ pass.replacements, slice pass.text l.start l.stop <:+: r.text
  · obtain ⟨r, hr, hinside⟩ := hcarried
    exact hinside.trans (text_infix_patchFrom hr)
  · -- no replacement carries the literal, so it stands between their ranges
    refine slice_infix_patchFrom horder (Nat.zero_le _) fun r hr => ?_
    rcases (hkeeps r hr).carries (hpair r hr) l hl with hbefore | hbehind | ⟨-, -, hinside⟩
    · exact .inl hbefore
    · exact .inr hbehind
    · exact absurd ⟨r, hr, hinside⟩ hcarried

/-- A text that some passes lead to, each of which keeps the literals of the
text that it goes over. -/
structure LeavesLiterals (source out : List Char) (passes : List Pass) : Prop where
  made : passes ≠ []
  outcome : outcome source passes = out
  keeps : ∀ pass ∈ passes, pass.KeepsLiterals

/-- **The rules leave literals alone** in each of their passes, as far as
brackets pair. -/
theorem literals_kept (source out : List Char) :
    (OptionalAccess.degrade? source = some out →
      LeavesLiterals source out (OptionalAccess.passes source))
    ∧ (Nullish.degrade? source = some out →
      LeavesLiterals source out (Nullish.passes source)) := by
  constructor
  · intro h
    obtain ⟨hmade, houtcome⟩ := OptionalAccess.outcome_passes h
    refine ⟨hmade, houtcome, fun pass hpass => ?_⟩
    have hfound := find?_of_mem_passesOf hpass
    exact Pass.keepsLiterals (inOrder_of_replacementsFrom? hfound)
      (OptionalAccess.keepsLiterals_of_replacements? hfound)
  · intro h
    obtain ⟨hmade, houtcome⟩ := Nullish.outcome_passes h
    refine ⟨hmade, houtcome, fun pass hpass => ?_⟩
    have hfound := find?_of_mem_passesOf hpass
    exact Pass.keepsLiterals (inOrder_of_replacementsFrom? hfound)
      (Nullish.keepsLiterals_of_replacements? hfound)

/-- A call with a string, and a default for one: no literal closes a bracket,
so the brackets pair and the literals are kept. -/
theorem literals_kept_of_strings :
    (∃ out pass, OptionalAccess.degrade? "log?.write(\"?.\", x);".toList = some out
      ∧ LeavesLiterals "log?.write(\"?.\", x);".toList out [pass]
      ∧ ∀ r ∈ pass.replacements, pass.code.BracketsPair r.span)
    ∧ ∃ out pass, Nullish.degrade? "f(\"??\") ?? \"none\";".toList = some out
      ∧ LeavesLiterals "f(\"??\") ?? \"none\";".toList out [pass]
      ∧ ∀ r ∈ pass.replacements, pass.code.BracketsPair r.span := by
  have haccess : OptionalAccess.degrade? "log?.write(\"?.\", x);".toList
      = some "(log && log.write(\"?.\", x));".toList := by decide +kernel
  have haccessPasses : OptionalAccess.passes "log?.write(\"?.\", x);".toList
      = [⟨"log?.write(\"?.\", x);".toList,
        [⟨⟨0, 19⟩, "(log && log.write(\"?.\", x))".toList⟩]⟩] := by
    decide +kernel
  have hnullish : Nullish.degrade? "f(\"??\") ?? \"none\";".toList
      = some "(f(\"??\") !== null && f(\"??\") !== undefined ? f(\"??\") : \"none\");".toList := by
    decide +kernel
  have hnullishPasses : Nullish.passes "f(\"??\") ?? \"none\";".toList
      = [⟨"f(\"??\") ?? \"none\";".toList, [⟨⟨0, 17⟩,
        "(f(\"??\") !== null && f(\"??\") !== undefined ? f(\"??\") : \"none\")".toList⟩]⟩] := by
    decide +kernel
  refine ⟨⟨_, _, haccess, haccessPasses ▸ (literals_kept _ _).1 haccess, fun r _ => ?_⟩,
    ⟨_, _, hnullish, hnullishPasses ▸ (literals_kept _ _).2 hnullish, fun r _ => ?_⟩⟩
  · exact bracketsPair_of_forall (by decide +kernel) r.span
  · exact bracketsPair_of_forall (by decide +kernel) r.span

/-- The parenthesis in the string is taken for the one that ends the call. The
chain is cut off inside of the string, and the string is not found in the
result. -/
theorem chain_stops_in_string :
    ∃ pass r l, OptionalAccess.degrade? "log?.write(\":)\");".toList
        = some "(log && log.write(\":))\");".toList
      ∧ OptionalAccess.passes "log?.write(\":)\");".toList = [pass] ∧ r ∈ pass.replacements
      ∧ l ∈ pass.code.literals ∧ l.start < r.span.stop ∧ r.span.stop < l.stop
      ∧ ¬ slice pass.text l.start l.stop <:+: pass.result := by
  refine ⟨⟨"log?.write(\":)\");".toList, [⟨⟨0, 14⟩, "(log && log.write(\":))".toList⟩]⟩,
    ⟨⟨0, 14⟩, "(log && log.write(\":))".toList⟩, ⟨11, 15⟩, ?_, ?_, List.mem_singleton_self _,
    ?_, by decide, by decide, ?_⟩
  all_goals decide +kernel

end Downlevel.Code
