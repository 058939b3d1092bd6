/-
Downlevel.Proofs.Code.SafeDegradation — no text makes a rule fail.

The rules are written once more with offsets in bytes: a cut of a text may fail, a
counter may fall below zero, a round of a loop may leave it where it was, and the
body of an arrow may be no smaller than the text around it. Each of these gives none.
`CheckedRules` does so for the rules that replace matches; here it is done for
arrows, whose bodies are scanned anew.

For every text, with whatever characters and however it is cut off, the literals
are found and each rule comes to its end (`degradation_is_safe`).
-/
import Downlevel.Proofs.Code.CheckedRules
import Downlevel.Proofs.Code.ExpressionReading
import Downlevel.Proofs.Code.FunctionExpressions

namespace Downlevel

open Text (byteSize byteSlice? byteOffset IsBoundary)

namespace Code

open Pattern (Match Captures slice)

namespace Arrows

/-! ## Arrows -/

/-- Puts functions in the place of the arrows from byte `i` on, where the text up
to byte `last` is done and gave `out`. None also where a round does not get further to
the right within the text, or a body is no smaller than the text. -/
def lowerFromChecked (code : Code) (last i : Nat) (out : List Char) : Option (List Char) := do
  match ← head.capturesChecked code.text i with
  | none =>
    let rest ← byteSlice? code.text last (byteSize code.text)
    return out ++ rest
  | some m =>
    match code.literalAt? m.whole.start with
    | some literal =>
      if i < literal.stop ∧ literal.stop ≤ byteSize code.text then
        lowerFromChecked code last literal.stop out
      else none
    | none =>
      let parameters := Text.trim (((m.groupText? 1).or (m.groupText? 2)).getD [])
      let skipped ← byteSlice? code.text last m.whole.start
      let after ← byteSlice? code.text m.whole.stop (byteSize code.text)
      if after.head? = some '\x7b' then
        if i < m.whole.stop ∧ m.whole.stop ≤ byteSize code.text then
          lowerFromChecked code m.whole.stop m.whole.stop
            (out ++ skipped ++ ("function(".toList ++ parameters ++ ") ".toList))
        else none
      else
        let stop ← expressionEndChecked after
        let body ← (byteSlice? after 0 stop).map Text.trimEnd
        let bodyCode ← ofTextChecked body
        if byteSize bodyCode.text < byteSize code.text then
          let lowered ← lowerFromChecked bodyCode 0 0 []
          if i < m.whole.stop + byteSize body
              ∧ m.whole.stop + byteSize body ≤ byteSize code.text then
            lowerFromChecked code (m.whole.stop + byteSize body) (m.whole.stop + byteSize body)
              (out ++ skipped ++ ("function(".toList ++ parameters ++ ") \x7b return ".toList
                ++ lowered ++ "; \x7d".toList))
          else none
        else none
termination_by (byteSize code.text, byteSize code.text - i)
decreasing_by
  · exact Prod.Lex.right _ (by omega)
  · exact Prod.Lex.right _ (by omega)
  · exact Prod.Lex.left _ _ (by assumption)
  · exact Prod.Lex.right _ (by omega)

def loweredChecked (source : List Char) : Option (List Char) := do
  let code ← ofTextChecked source
  lowerFromChecked code 0 0 []

def degradeChecked (source : List Char) : Option (Option (List Char)) := do
  let text ← loweredChecked source
  if text = source then return none else withoutChecked leftover text

section Lowering

variable {text : List Char} {last offset : Nat}

/-- The cut of an expression body falls between two characters. -/
theorem byteSlice?_expressionBody (after : List Char) :
    (byteSlice? after 0 (byteOffset after (expressionEnd after))).map Text.trimEnd
      = some (expressionBody after) := by
  have hcut := Text.byteSlice?_start (after.take (expressionEnd after))
    (after.drop (expressionEnd after))
  rw [List.take_append_drop] at hcut
  rw [byteOffset, hcut]
  rfl

/-- The byte behind an expression body. -/
theorem byteOffset_expressionBody (text : List Char) (n : Nat) :
    byteOffset text n + byteSize (expressionBody (text.drop n))
      = byteOffset text (n + (expressionBody (text.drop n)).length) := by
  obtain ⟨trail, htrail, -⟩ := closes_expressionBody (text.drop n)
  have hbody : expressionBody (text.drop n) <+: text.drop n := ⟨trail, htrail.symm⟩
  rw [Text.byteOffset_add, ← List.prefix_iff_eq_take.mp hbody]

/-- An expression body is smaller than a text that has something in front of it. -/
theorem byteSize_expressionBody_lt {n : Nat} (hpos : 0 < n) (hn : n ≤ text.length) :
    byteSize (expressionBody (text.drop n)) < byteSize text := by
  have hfront := Text.byteOffset_lt hpos hn
  have hend := (Text.isBoundary_byteOffset text (n + (expressionBody (text.drop n)).length)).le
  rw [← byteOffset_expressionBody] at hend
  omega

/-- The round of a head: it is in a literal, or in front of a block, or in front of
an expression. -/
theorem lowerFromChecked_found {m : Match} (hm : head.findFrom? text offset = some m)
    (hlast : last ≤ offset) (hoffset : offset ≤ text.length) (out : List Char) :
    lowerFromChecked (ofText text).inBytes (byteOffset text last) (byteOffset text offset) out
      = match (ofText text).literalAt? m.start with
        | some literal =>
          lowerFromChecked (ofText text).inBytes (byteOffset text last)
            (byteOffset text literal.stop) out
        | none =>
          if (text.drop m.stop).head? = some '\x7b' then
            lowerFromChecked (ofText text).inBytes (byteOffset text m.stop)
              (byteOffset text m.stop) (out ++ slice text last m.start
                ++ ("function(".toList ++ parameters text m ++ ") ".toList))
          else
            let body := expressionBody (text.drop m.stop)
            (lowerFromChecked (ofText body).inBytes 0 0 []).bind fun lowered =>
              lowerFromChecked (ofText text).inBytes (byteOffset text (m.stop + body.length))
                (byteOffset text (m.stop + body.length)) (out ++ slice text last m.start
                  ++ ("function(".toList ++ parameters text m ++ ") \x7b return ".toList ++ lowered
                    ++ "; \x7d".toList)) := by
  obtain ⟨hstart, hmin, hstop⟩ := Pattern.findFrom?_some hoffset hm
  have hin : m.start ≤ text.length := Nat.le_trans (Nat.le_of_add_right_le hmin) hstop
  have hskipped := Text.byteSlice?_byteOffset (Nat.le_trans hlast hstart) hin
  have hconsumed : offset < m.stop := by
    have := two_le_minLength_head
    omega
  rw [lowerFromChecked.eq_def, inBytes_text, ofText_text, Pattern.capturesChecked_eq head hoffset,
    hm]
  simp only [Option.map_some, Option.bind_eq_bind, Option.bind_some, Match.inBytes, Span.inBytes,
    literalAt?_inBytes hin]
  cases hliteral : (ofText text).literalAt? m.start with
  | some literal =>
    have hinside := literalAt?_some hliteral
    have hbound := stop_le_length (List.mem_of_find?_eq_some hliteral)
    exact if_pos (Text.byteOffset_further (by omega) hbound)
  | none =>
    have hbody : m.stop + (expressionBody (text.drop m.stop)).length ≤ text.length := by
      have := length_expressionBody_le (text.drop m.stop)
      rw [List.length_drop] at this
      omega
    simp only [Option.map_none, hskipped, Text.byteSlice?_to_end hstop, Option.bind_some,
      expressionEndChecked_eq, byteSlice?_expressionBody, ofTextChecked_eq, inBytes_text,
      ofText_text, byteOffset_expressionBody]
    rw [if_pos (Text.byteOffset_further hconsumed hstop),
      if_pos (byteSize_expressionBody_lt (Nat.zero_lt_of_lt hconsumed) hstop)]
    simp only [if_pos (Text.byteOffset_further (Nat.lt_add_right _ hconsumed) hbody)]
    rfl

/-- **Arrows by bytes**: each round gets further, each body is smaller than the text,
and no cut fails. -/
theorem lowerFromChecked_eq (out : List Char) (hlast : last ≤ offset)
    (hoffset : offset ≤ text.length) :
    lowerFromChecked (ofText text).inBytes (byteOffset text last) (byteOffset text offset) out
      = some (out ++ writtenAll (piecesFrom text last offset)) := by
  fun_induction piecesFrom text last offset generalizing out with
  | case1 text last offset inside hnone =>
    rw [lowerFromChecked, inBytes_text, ofText_text, Pattern.capturesChecked_eq head hoffset, hnone]
    simp only [Option.map_none, Option.bind_eq_bind, Option.bind_some,
      Text.byteSlice?_to_end (Nat.le_trans hlast hoffset)]
    rw [writtenAll, writtenAll, List.append_nil]
    rfl
  | case2 text last offset inside m hm literal hliteral ih =>
    obtain ⟨hstart, -, -⟩ := Pattern.findFrom?_some hoffset hm
    have hinside := literalAt?_some hliteral
    have hbound := stop_le_length (List.mem_of_find?_eq_some hliteral)
    rw [lowerFromChecked_found hm hlast hoffset, hliteral]
    exact ih out (by omega) hbound
  | case3 text last offset inside m hm hcode skipped after hblock ih =>
    obtain ⟨-, -, hstop⟩ := Pattern.findFrom?_some hoffset hm
    rw [lowerFromChecked_found hm hlast hoffset, hcode]
    dsimp only
    rw [if_pos hblock, ih _ (Nat.le_refl _) hstop, writtenAll_cons, writtenAll_cons,
      written_blockHead]
    simp only [skipped, written_kept, List.append_assoc]
  | case4 text last offset inside m hm hcode skipped after hblock body ihBody ihRest =>
    obtain ⟨-, -, hstop⟩ := Pattern.findFrom?_some hoffset hm
    have hbody : body.length ≤ text.length - m.stop := by
      rw [← List.length_drop]
      exact length_expressionBody_le after
    have hlowered := ihBody [] (Nat.le_refl 0) (Nat.zero_le _)
    rw [Text.byteOffset_zero, List.nil_append] at hlowered
    rw [lowerFromChecked_found hm hlast hoffset, hcode]
    dsimp only
    rw [if_neg hblock, hlowered, Option.bind_some, ihRest _ (Nat.le_refl _) (by omega),
      writtenAll_cons, writtenAll_cons, written_expression]
    simp only [skipped, written_kept, List.append_assoc]
  | case5 text last offset outside => exact absurd hoffset outside

end Lowering

theorem loweredChecked_eq (source : List Char) :
    loweredChecked source = some (lowered source) := by
  have hall := @lowerFromChecked_eq source 0 0 [] (Nat.le_refl 0) (Nat.zero_le _)
  rw [Text.byteOffset_zero, List.nil_append] at hall
  rw [loweredChecked, ofTextChecked_eq, Option.bind_eq_bind, Option.bind_some, hall]
  rfl

theorem degradeChecked_eq (source : List Char) :
    degradeChecked source = some (degrade? source) := by
  rw [degradeChecked, loweredChecked_eq, Option.bind_eq_bind, Option.bind_some, degrade?,
    withoutChecked_eq]
  by_cases hsame : lowered source = source
  · rw [if_pos hsame, if_pos (.inl hsame)]
    rfl
  · simp [hsame]

end Arrows

end Code

/-! ## All rules -/

/-- What a rule makes of a text, by offsets in bytes. The outer result is none
where a cut fails or a round gets no further. -/
def Degradation.degradeCharsChecked : Degradation → List Char → Option (Option (List Char))
  | .optionalMemberAccess => Code.OptionalAccess.degradeChecked
  | .nullishCoalescing => Code.Nullish.degradeChecked
  | .declarationKeywords => Code.Declarations.degradeChecked
  | .arrowFunctions => Code.Arrows.degradeChecked

theorem Degradation.degradeCharsChecked_eq (rule : Degradation) (text : List Char) :
    rule.degradeCharsChecked text = some (rule.degradeChars? text) := by
  cases rule with
  | optionalMemberAccess => exact Code.OptionalAccess.degradeChecked_eq text
  | nullishCoalescing => exact Code.Nullish.degradeChecked_eq text
  | declarationKeywords => exact Code.Declarations.degradeChecked_eq text
  | arrowFunctions => exact Code.Arrows.degradeChecked_eq text

/-- **No text makes a rule fail.** A cut by bytes succeeds exactly where its ends are
in order, within the text and between two characters. On every text the scan for
literals ends with such cuts only, and its literals are in order and apart, not
empty, within the text, between characters, and start with a quote or the mark of a
comment. On every text the guards of a chain, the replacing of arrows and of their
bodies, and each rule with all that it asks of the places around a match end with such
cuts only, and give what they give in characters. -/
theorem degradation_is_safe (text : List Char) :
    (∀ cs i j, (byteSlice? cs i j).isSome = true
        ↔ i ≤ j ∧ j ≤ byteSize cs ∧ IsBoundary cs i ∧ IsBoundary cs j)
      ∧ Code.ofTextChecked text = some (Code.ofText text).inBytes
      ∧ (Code.ofText text).inBytes.IsWellCut
      ∧ Code.OptionalAccess.guardChainChecked text = some (Code.OptionalAccess.guardChain text)
      ∧ Code.Arrows.loweredChecked text = some (Code.Arrows.lowered text)
      ∧ ∀ rule : Degradation, rule.degradeCharsChecked text = some (rule.degradeChars? text) :=
  ⟨fun _ _ _ => Text.byteSlice?_isSome_iff, Code.ofTextChecked_eq text, Code.isWellCut_inBytes text,
    Code.OptionalAccess.guardChainChecked_eq text, Code.Arrows.loweredChecked_eq text,
    fun rule => rule.degradeCharsChecked_eq text⟩

end Downlevel
