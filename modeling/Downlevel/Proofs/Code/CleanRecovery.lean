/-
Downlevel.Proofs.Code.CleanRecovery — what a recovery leaves of the constructs
that a message complained about.

Each rule removes its construct from the text of its turn, or it declines. No
rule that runs later brings the construct of an earlier one back
(`not_occursIn_of_later`), so what is gone stays gone over all later turns
(`not_occursIn_foldl`). So the recovered text holds the construct of a rule only
if the rule declined a text that held it (`recovered_text_clean`). That does
happen: the recovery then still reports what the other rules did
(`declined_link_stays`).

Three things are left out. An optional link in code at the end of the source
goes unnoticed. A rule for links or for defaults may take a bracket in a literal
for one of code, and a rule for arrows may drop the line break that ends
a comment; `IsTidyOn` excludes these for the texts that such rules run on.
-/
import Downlevel.Proofs.Code.CheckedDefaults
import Downlevel.Proofs.Code.FunctionExpressions
import Downlevel.Proofs.Code.Leftovers
import Downlevel.Proofs.Code.PlainDeclarations

namespace Downlevel

namespace Degradation

/-! ## Turns -/

/-- The rules that run before this one. -/
def earlier (rule : Degradation) : List Degradation := all.takeWhile (· ≠ rule)

/-- The rules that run after it. -/
def later (rule : Degradation) : List Degradation := (all.dropWhile (· ≠ rule)).drop 1

/-- What the rules before this one make of a text. -/
def turnText (rule : Degradation) (source message : String) : String :=
  (rule.earlier.foldl (Recovery.applyRule message) ⟨source, []⟩).loweredText

/-- The rule leaves a text as it is although its construct stands there. -/
def DeclinesOn (rule : Degradation) (text : String) : Prop :=
  rule.degrade? text = none ∧ rule.OccursIn text.toList

/-- The rule reads literals of this text as they are meant: brackets pair in
what is replaced, and no line comment ends in what is left out. -/
def IsTidyOn : Degradation → String → Prop
  | .optionalMemberAccess, text => ∀ pass ∈ Code.OptionalAccess.passes text.toList,
    ∀ r ∈ pass.replacements, pass.code.BracketsPair r.span
  | .nullishCoalescing, text => ∀ pass ∈ Code.Nullish.passes text.toList,
    ∀ r ∈ pass.replacements, pass.code.BracketsPair r.span
  | .declarationKeywords, _ => True
  | .arrowFunctions, text => Code.Arrows.dropsLineEnd text.toList = false

/-! ## One turn -/

variable {rule other : Degradation} {text out : String}

theorem exists_of_degrade? (h : rule.degrade? text = some out) :
    rule.degradeChars? text.toList = some out.toList := by
  obtain ⟨chars, hchars, rfl⟩ := Option.map_eq_some_iff.mp h
  rw [hchars, String.toList_ofList]

/-- **A rule removes its construct** from the text that it hands back. -/
theorem not_occursIn_of_degrade? (h : rule.degrade? text = some out)
    (hend : rule = .optionalMemberAccess → ['?', '.'] <:+ text.toList →
      ¬ (Code.ofText text.toList).InCode (text.toList.length - 2) ∧ rule.IsTidyOn text) :
    ¬ rule.OccursIn out.toList := by
  have hchars := exists_of_degrade? h
  cases rule with
  | optionalMemberAccess => exact Code.OptionalAccess.not_occursIn hchars (hend rfl)
  | nullishCoalescing => exact Code.Nullish.not_occursIn hchars
  | declarationKeywords => exact Code.Declarations.not_occursIn hchars
  | arrowFunctions => exact Code.Arrows.not_occursIn hchars

/-- **A later rule brings nothing back.** -/
theorem not_occursIn_of_later (hother : other ∈ rule.later) (h : other.degrade? text = some out)
    (htidy : other.IsTidyOn text) (hclean : ¬ rule.OccursIn text.toList) :
    ¬ rule.OccursIn out.toList := by
  have hchars := exists_of_degrade? h
  cases other with
  | optionalMemberAccess => cases rule <;> exact absurd hother (by decide)
  | nullishCoalescing =>
    have hrule : rule = .optionalMemberAccess := by
      cases rule with
      | optionalMemberAccess => rfl
      | _ => exact absurd hother (by decide)
    subst hrule
    exact Code.Nullish.not_occursIn_of_not hchars htidy hclean
  | declarationKeywords => exact Code.Declarations.not_occursIn_of_not hchars hclean
  | arrowFunctions => exact Code.Arrows.not_occursIn_of_not hchars htidy hclean

/-- The rule for declarations declines only where there is nothing to do. -/
theorem not_declinesOn_declarations (text : String) :
    ¬ Degradation.declarationKeywords.DeclinesOn text := by
  rintro ⟨hnone, hoccurs⟩
  exact Code.Declarations.not_occursIn_of_eq_none (Option.map_eq_none_iff.mp hnone) hoccurs

end Degradation

namespace Recovery

open Degradation (all)

variable {message : String} {rule other : Degradation} {r : Recovery}

/-! ## All turns -/

theorem applyRule_of_some {out : String} (htriggered : other.isTriggeredBy message = true)
    (h : other.degrade? r.loweredText = some out) :
    applyRule message r other = ⟨out, r.warnings ++ [other.warning]⟩ := by
  rw [applyRule, if_pos htriggered, h]

theorem applyRule_of_none
    (h : other.isTriggeredBy message = true → other.degrade? r.loweredText = none) :
    applyRule message r other = r := by
  rw [applyRule]
  split
  · next htriggered => rw [h htriggered]
  · rfl

/-- One turn keeps a text clean of the constructs of earlier rules. -/
theorem not_occursIn_applyRule (hother : other ∈ rule.later)
    (htidy : other.isTriggeredBy message = true → other.degrade? r.loweredText ≠ none →
      other.IsTidyOn r.loweredText)
    (hclean : ¬ rule.OccursIn r.loweredText.toList) :
    ¬ rule.OccursIn (applyRule message r other).loweredText.toList := by
  by_cases hruns : other.isTriggeredBy message = true ∧ other.degrade? r.loweredText ≠ none
  · obtain ⟨htriggered, hsome⟩ := hruns
    obtain ⟨out, hout⟩ := Option.ne_none_iff_exists'.mp hsome
    rw [applyRule_of_some htriggered hout]
    exact Degradation.not_occursIn_of_later hother hout (htidy htriggered hsome) hclean
  · rw [applyRule_of_none fun htriggered => Decidable.byContradiction fun hsome =>
      hruns ⟨htriggered, hsome⟩]
    exact hclean

/-- The text that a rule finds on its turn is what the turns before left. -/
theorem turnText_eq {front rest : List Degradation} (source : String)
    (h : all = front ++ other :: rest) :
    other.turnText source message = (front.foldl (applyRule message) ⟨source, []⟩).loweredText := by
  have hnodup : (front ++ other :: rest).Nodup := h ▸ (by decide : all.Nodup)
  have hfront : other ∉ front := fun hother =>
    (List.nodup_append.mp hnodup).2.2 other hother other List.mem_cons_self rfl
  have hearlier : other.earlier = front := by
    rw [Degradation.earlier, h, List.takeWhile_append_of_pos, List.takeWhile_cons_of_neg,
      List.append_nil]
    · simp
    · intro r hr
      exact decide_eq_true fun heq => hfront (heq ▸ hr)
  rw [Degradation.turnText, hearlier]

/-- So do all the turns that are left. -/
theorem not_occursIn_foldl {source : String} {front rest : List Degradation}
    (hall : all = front ++ rest) (hrest : ∀ other ∈ rest, other ∈ rule.later)
    (htidy : ∀ other ∈ rule.later, other.isTriggeredBy message = true →
      other.degrade? (other.turnText source message) ≠ none →
      other.IsTidyOn (other.turnText source message))
    (hclean : ¬ rule.OccursIn (front.foldl (applyRule message) ⟨source, []⟩).loweredText.toList) :
    ¬ rule.OccursIn (all.foldl (applyRule message) ⟨source, []⟩).loweredText.toList := by
  induction rest generalizing front with
  | nil =>
    rw [List.append_nil] at hall
    rwa [hall]
  | cons other rest ih =>
    obtain ⟨hother, hmore⟩ := List.forall_mem_cons.mp hrest
    refine @ih (front ++ [other]) (by rw [hall, List.append_assoc]; rfl) hmore ?_
    have htidy := htidy other hother
    rw [turnText_eq source hall] at htidy
    rw [List.foldl_append]
    exact not_occursIn_applyRule hother htidy hclean

/-- **A recovered text is clean** of the construct of every rule that the
message triggers, unless the rule declined a text that held it. -/
theorem recovered_text_clean {source message : String} {recovery : Recovery} {rule : Degradation}
    (h : ofFailure? source message = some recovery) (htriggered : rule.isTriggeredBy message = true)
    (hdeclines : rule ≠ .declarationKeywords →
      ¬ rule.DeclinesOn (rule.turnText source message))
    (hend : rule = .optionalMemberAccess → ['?', '.'] <:+ source.toList →
      ¬ (Code.ofText source.toList).InCode (source.toList.length - 2) ∧ rule.IsTidyOn source)
    (htidy : ∀ other ∈ rule.later, other.isTriggeredBy message = true →
      other.degrade? (other.turnText source message) ≠ none →
      other.IsTidyOn (other.turnText source message)) :
    ¬ rule.OccursIn recovery.loweredText.toList := by
  have hrecovery : recovery = all.foldl (applyRule message) ⟨source, []⟩ := by
    simp only [ofFailure?] at h
    split at h
    · cases h
    · exact (Option.some.inj h).symm
  have hall : all = rule.earlier ++ [rule] ++ rule.later := by
    cases rule <;> rfl
  rw [hrecovery]
  refine not_occursIn_foldl hall (fun _ h => h) htidy ?_
  rw [List.foldl_append, List.foldl_cons, List.foldl_nil]
  cases hout : rule.degrade? (rule.turnText source message) with
  | none =>
    rw [applyRule_of_none fun _ => hout]
    intro hoccurs
    by_cases hkeywords : rule = .declarationKeywords
    · subst hkeywords
      exact Degradation.not_declinesOn_declarations _ ⟨hout, hoccurs⟩
    · exact hdeclines hkeywords ⟨hout, hoccurs⟩
  | some out =>
    rw [applyRule_of_some htriggered hout]
    refine Degradation.not_occursIn_of_degrade? hout ?_
    rintro rfl
    exact hend rfl

/-- All four rules run on this text, which ends with a link in a comment. The rule
for links, which comes first, leaves none in code, and the three others bring
none back. -/
theorem recovered_text_clean_of_four_rules :
    ∃ recovery, ofFailure? "let f = x => x?.y ?? 0; // ?." "Unexpected token '?.' let =>"
        = some recovery
      ∧ recovery.warnings = all.map Degradation.warning
      ∧ ¬ Degradation.optionalMemberAccess.OccursIn recovery.loweredText.toList := by
  have htriggers : ∀ rule : Degradation,
      rule.isTriggeredBy "Unexpected token '?.' let =>" = true := by
    rintro (_ | _ | _ | _)
    all_goals decide +kernel
  have hlink : Degradation.optionalMemberAccess.degrade? "let f = x => x?.y ?? 0; // ?."
      = some "let f = x => (x && x.y) ?? 0; // ?." := by decide +kernel
  have hnullish : Degradation.nullishCoalescing.degrade? "let f = x => (x && x.y) ?? 0; // ?."
      = some ("let f = x => ((x && x.y) !== null && (x && x.y) !== undefined"
        ++ " ? (x && x.y) : 0); // ?.") := by
    decide +kernel
  have hkeyword : Degradation.declarationKeywords.degrade?
      ("let f = x => ((x && x.y) !== null && (x && x.y) !== undefined"
        ++ " ? (x && x.y) : 0); // ?.")
      = some ("var f = x => ((x && x.y) !== null && (x && x.y) !== undefined"
        ++ " ? (x && x.y) : 0); // ?.") := by
    decide +kernel
  -- `pieces` does not reduce, so the arrow is found step by step
  have hbody : Code.Arrows.expressionBody
      (("var f = x => ((x && x.y) !== null && (x && x.y) !== undefined"
        ++ " ? (x && x.y) : 0); // ?.").toList.drop 13)
      = "((x && x.y) !== null && (x && x.y) !== undefined ? (x && x.y) : 0)".toList := by
    decide +kernel
  have hpieces : Code.Arrows.pieces
      ("var f = x => ((x && x.y) !== null && (x && x.y) !== undefined"
        ++ " ? (x && x.y) : 0); // ?.").toList
      = [.kept "var f = ".toList, .expression "x => ".toList "x".toList
        [.kept "((x && x.y) !== null && (x && x.y) !== undefined ? (x && x.y) : 0)".toList],
        .kept "; // ?.".toList] := by
    rw [Code.Arrows.pieces, Code.Arrows.piecesFrom_of_expression (m := ⟨8, 13, [⟨2, 8, 9⟩]⟩)
      (by decide) (by decide +kernel) (by decide +kernel) (by decide +kernel), hbody,
      Code.Arrows.pieces, Code.Arrows.piecesFrom_of_none (by decide +kernel),
      Code.Arrows.piecesFrom_of_none (by decide +kernel)]
    rfl
  have harrow : Degradation.arrowFunctions.degrade?
      ("var f = x => ((x && x.y) !== null && (x && x.y) !== undefined"
        ++ " ? (x && x.y) : 0); // ?.")
      = some ("var f = function(x) \x7b return ((x && x.y) !== null && (x && x.y) !== undefined"
        ++ " ? (x && x.y) : 0); \x7d; // ?.") := by
    rw [Degradation.degrade?, Degradation.degradeChars?, Code.Arrows.degrade?, Code.Arrows.lowered,
      hpieces]
    decide +kernel
  have hfirst := applyRule_of_some (r := ⟨_, []⟩) (htriggers .optionalMemberAccess) hlink
  have hsecond := applyRule_of_some (r := ⟨_, [Degradation.optionalMemberAccess.warning]⟩)
    (htriggers .nullishCoalescing) hnullish
  have hthird := applyRule_of_some (r := ⟨_, [Degradation.optionalMemberAccess.warning,
    Degradation.nullishCoalescing.warning]⟩) (htriggers .declarationKeywords) hkeyword
  have hfourth := applyRule_of_some (r := ⟨_, [Degradation.optionalMemberAccess.warning,
    Degradation.nullishCoalescing.warning, Degradation.declarationKeywords.warning]⟩)
    (htriggers .arrowFunctions) harrow
  have hrecovery : ofFailure? "let f = x => x?.y ?? 0; // ?." "Unexpected token '?.' let =>"
      = some ⟨"var f = function(x) \x7b return ((x && x.y) !== null && (x && x.y) !== undefined"
        ++ " ? (x && x.y) : 0); \x7d; // ?.", all.map Degradation.warning⟩ := by
    simp only [ofFailure?, all, List.foldl_cons, List.foldl_nil, hfirst, hsecond, hthird, hfourth,
      List.nil_append, List.cons_append]
    rfl
  have hlinkPasses : (Code.OptionalAccess.passes "let f = x => x?.y ?? 0; // ?.".toList).map
      Code.Pass.text = ["let f = x => x?.y ?? 0; // ?.".toList] := by decide +kernel
  have hnullishPasses : (Code.Nullish.passes "let f = x => (x && x.y) ?? 0; // ?.".toList).map
      Code.Pass.text = ["let f = x => (x && x.y) ?? 0; // ?.".toList] := by decide +kernel
  refine ⟨_, hrecovery, rfl, recovered_text_clean hrecovery (htriggers _) ?_ ?_ ?_⟩
  · rintro - ⟨hnone, -⟩
    cases hnone.symm.trans hlink
  · intro _ _
    refine ⟨by decide +kernel, fun pass hpass r _ => ?_⟩
    have htext := hlinkPasses ▸ List.mem_map_of_mem hpass
    rw [Code.Pass.code, List.mem_singleton.mp htext]
    exact Code.bracketsPair_of_forall (by decide +kernel) r.span
  · intro other hother _ _
    cases other with
    | optionalMemberAccess => exact absurd hother (by decide)
    | nullishCoalescing =>
      have hturn : Degradation.nullishCoalescing.turnText "let f = x => x?.y ?? 0; // ?."
          "Unexpected token '?.' let =>" = "let f = x => (x && x.y) ?? 0; // ?." :=
        congrArg loweredText hfirst
      rw [hturn]
      intro pass hpass r _
      have htext := hnullishPasses ▸ List.mem_map_of_mem hpass
      rw [Code.Pass.code, List.mem_singleton.mp htext]
      exact Code.bracketsPair_of_forall (by decide +kernel) r.span
    | declarationKeywords => trivial
    | arrowFunctions =>
      have hturn : Degradation.arrowFunctions.turnText "let f = x => x?.y ?? 0; // ?."
          "Unexpected token '?.' let =>"
          = "var f = x => ((x && x.y) !== null && (x && x.y) !== undefined"
            ++ " ? (x && x.y) : 0); // ?." := by
        rw [turnText_eq _ (show all = [.optionalMemberAccess, .nullishCoalescing,
          .declarationKeywords] ++ .arrowFunctions :: [] from rfl)]
        simp only [List.foldl_cons, List.foldl_nil, hfirst, hsecond, hthird, List.nil_append,
          List.cons_append]
      rw [hturn, Degradation.IsTidyOn, Code.Arrows.dropsLineEnd, hpieces]
      decide +kernel

/-- A call that the chain cannot take in makes the rule for links decline, and
the link stays in a text that is handed back as recovered because a keyword was
replaced. -/
theorem declined_link_stays :
    ∃ recovery, ofFailure? "const x = a?.b(f());" "Unexpected token '?.' const" = some recovery
      ∧ Degradation.optionalMemberAccess.isTriggeredBy "Unexpected token '?.' const" = true
      ∧ Degradation.optionalMemberAccess.OccursIn recovery.loweredText.toList := by
  refine ⟨⟨"var x = a?.b(f());", [Degradation.declarationKeywords.warning]⟩, ?_, ?_, ?_⟩
  all_goals decide +kernel

end Recovery

end Downlevel
