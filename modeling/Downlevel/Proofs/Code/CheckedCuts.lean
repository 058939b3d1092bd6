/-
Downlevel.Proofs.Code.CheckedCuts — a text cut around its matches by bytes.

What the rules ask of a place (`beforeChecked`, `wordBeforeChecked`,
`charAfterChecked`) and the replacing of matches (`replaceChecked`) once more, by
offsets in bytes: every cut of a text fails unless its ends are in order and fall
between two characters, a search fails unless it goes on from such a place, and
a loop fails unless each round gets further to the right.

At the places of a text none of them fails, and they give what the same questions
give in characters (`replaceChecked_eq`). A rule that does not fail where its
pattern matches makes a replacing that does not fail.
-/
import Downlevel.Proofs.Code.LiteralBytes
import Mathlib.Data.List.Find

namespace Downlevel

open Text (byteSize byteSlice? byteOffset)

namespace Pattern

/-- A match with its ends in bytes, its characters, and those of its groups. -/
structure Captures where
  whole : Span
  text : List Char
  groupText? : Nat → Option (List Char)

def Match.inBytes (text : List Char) (m : Match) : Captures :=
  ⟨Span.inBytes text ⟨m.start, m.stop⟩, m.text text, m.groupText? text⟩

/-- The first match from a byte on. -/
def capturesChecked (p : Pattern) (text : List Char) (i : Nat) : Option (Option Captures) := do
  let before ← Text.takeBytes? i text
  return (p.findFrom? text before.length).map (Match.inBytes text)

theorem capturesChecked_eq (p : Pattern) {text : List Char} {n : Nat} (hn : n ≤ text.length) :
    p.capturesChecked text (byteOffset text n)
      = some ((p.findFrom? text n).map (Match.inBytes text)) := by
  have htake : Text.takeBytes? (byteOffset text n) text = some (text.take n) :=
    Text.takeBytes?_eq_some_iff.mpr ⟨text.drop n, (List.take_append_drop n text).symm, rfl⟩
  rw [capturesChecked, htake, Option.bind_eq_bind, Option.bind_some, List.length_take_of_le hn]
  rfl

end Pattern

namespace Code

open Pattern (Match Captures)

/-! ## Around a place -/

/-- What stands before a byte, without the blanks just before it. -/
def beforeChecked (code : Code) (i : Nat) : Option (List Char) := do
  let before ← byteSlice? code.text 0 i
  return Text.trimEnd before

def charBeforeChecked (code : Code) (i : Nat) : Option (Option Char) := do
  let before ← code.beforeChecked i
  return before.getLast?

/-- The identifier that ends before a byte: what is behind the rest of the text
when the characters of identifiers are dropped from its end. -/
def wordBeforeChecked (code : Code) (i : Nat) : Option (List Char) := do
  let before ← code.beforeChecked i
  let front := (before.reverse.dropWhile Text.isIdentifier).reverse
  byteSlice? before (byteSize front) (byteSize before)

/-- The next character that is not blank, and whether a line ends before it. -/
def charAfterChecked (code : Code) (i : Nat) : Option (Option Char × Bool) := do
  let after ← byteSlice? code.text i (byteSize code.text)
  let trimmed := Text.trimStart after
  if byteSize trimmed ≤ byteSize after then
    let skipped ← byteSlice? after 0 (byteSize after - byteSize trimmed)
    return (trimmed.head?, skipped.contains '\n')
  else none

section Places

variable {code : Code} {n : Nat}

theorem beforeChecked_eq (hn : n ≤ code.text.length) :
    code.beforeChecked (byteOffset code.text n) = some (code.before n) := by
  have hcut := Text.byteSlice?_byteOffset (Nat.zero_le n) hn
  rw [Text.byteOffset_zero, Pattern.slice, List.drop_zero, Nat.sub_zero] at hcut
  rw [beforeChecked, hcut]
  rfl

theorem charBeforeChecked_eq (hn : n ≤ code.text.length) :
    code.charBeforeChecked (byteOffset code.text n) = some (code.charBefore? n) := by
  rw [charBeforeChecked, beforeChecked_eq hn]
  rfl

theorem wordBeforeChecked_eq (hn : n ≤ code.text.length) :
    code.wordBeforeChecked (byteOffset code.text n) = some (code.wordBefore n) := by
  have hparts : code.before n
      = ((code.before n).reverse.dropWhile Text.isIdentifier).reverse ++ code.wordBefore n := by
    rw [wordBefore, ← List.reverse_append, List.takeWhile_append_dropWhile, List.reverse_reverse]
  have hcut := Text.byteSlice?_end
    ((code.before n).reverse.dropWhile Text.isIdentifier).reverse (code.wordBefore n)
  rw [← hparts] at hcut
  rw [wordBeforeChecked, beforeChecked_eq hn]
  exact hcut

theorem charAfterChecked_eq (hn : n ≤ code.text.length) :
    code.charAfterChecked (byteOffset code.text n)
      = some (code.charAfter? n, code.lineEndsAfter n) := by
  have hparts : byteSize ((code.text.drop n).takeWhile Text.isBlank)
      + byteSize (Text.trimStart (code.text.drop n)) = byteSize (code.text.drop n) := by
    rw [← Text.byteSize_append, Text.trimStart, List.takeWhile_append_dropWhile]
  have hcut := Text.byteSlice?_start ((code.text.drop n).takeWhile Text.isBlank)
    (Text.trimStart (code.text.drop n))
  rw [Text.trimStart, List.takeWhile_append_dropWhile] at hcut
  rw [charAfterChecked, Text.byteSlice?_to_end hn]
  simp only [Option.bind_eq_bind, Option.bind_some, ← hparts, Nat.add_sub_cancel, hcut,
    Nat.le_add_left, if_true]
  rfl

end Places

/-! ## Literals -/

/-- A place is inside of the same literal in bytes. -/
theorem literalAt?_inBytes {text : List Char} {n : Nat} (hn : n ≤ text.length) :
    (ofText text).inBytes.literalAt? (byteOffset text n)
      = ((ofText text).literalAt? n).map (Span.inBytes text) := by
  rw [literalAt?, literalAt?, inBytes, List.find?_map]
  refine congrArg _ (List.find?_congr fun s hs => ?_)
  simp only [Function.comp, Span.inBytes, ofText_text, Text.byteOffset_lt_iff hn,
    Text.byteOffset_lt_iff (stop_le_length hs)]

/-! ## Replacing -/

/-- Puts what a rule makes of the matches that start in code in their place, from
byte `i` on, where the text up to byte `last` is done and gave `out`. Also counts
them. The inner result is none if the rule declines. The outer one is none also
where a round does not get further to the right within the text. -/
def replaceFromChecked (code : Code) (p : Pattern)
    (rule : Captures → Option (Option (List Char))) (last i : Nat) (out : List Char)
    (count : Nat) : Option (Option (List Char × Nat)) := do
  match ← p.capturesChecked code.text i with
  | none =>
    let rest ← byteSlice? code.text last (byteSize code.text)
    return some (out ++ rest, count)
  | some m =>
    match code.literalAt? m.whole.start with
    | some literal =>
      if i < literal.stop ∧ literal.stop ≤ byteSize code.text then
        replaceFromChecked code p rule last literal.stop out count
      else none
    | none =>
      let skipped ← byteSlice? code.text last m.whole.start
      match ← rule m with
      | none => return none
      | some new =>
        if i < m.whole.stop ∧ m.whole.stop ≤ byteSize code.text then
          replaceFromChecked code p rule m.whole.stop m.whole.stop (out ++ skipped ++ new)
            (count + 1)
        else none
termination_by byteSize code.text - i

def replaceChecked (code : Code) (p : Pattern) (rule : Captures → Option (Option (List Char))) :
    Option (Option (List Char × Nat)) :=
  code.replaceFromChecked p rule 0 0 [] 0

section Replacing

variable {p : Pattern} {rule : Match → Option (List Char)}
  {ruleChecked : Captures → Option (Option (List Char))} {text : List Char} {last offset : Nat}

/-- The round of a match: it is in a literal, or the rule is asked. -/
theorem replaceFromChecked_found {m : Match} (consuming : 0 < p.minLength)
    (hm : p.findFrom? text offset = some m)
    (hrule : ruleChecked (m.inBytes text) = some (rule m)) (hlast : last ≤ offset)
    (hoffset : offset ≤ text.length) (out : List Char) (count : Nat) :
    (ofText text).inBytes.replaceFromChecked p ruleChecked (byteOffset text last)
        (byteOffset text offset) out count
      = match (ofText text).literalAt? m.start with
        | some literal =>
          (ofText text).inBytes.replaceFromChecked p ruleChecked (byteOffset text last)
            (byteOffset text literal.stop) out count
        | none =>
          match rule m with
          | none => some none
          | some new =>
            (ofText text).inBytes.replaceFromChecked p ruleChecked (byteOffset text m.stop)
              (byteOffset text m.stop) (out ++ Pattern.slice text last m.start ++ new)
              (count + 1) := by
  obtain ⟨hstart, hmin, hstop⟩ := Pattern.findFrom?_some hoffset hm
  have hin : m.start ≤ text.length := Nat.le_trans (Nat.le_of_add_right_le hmin) hstop
  have hcut := Text.byteSlice?_byteOffset (Nat.le_trans hlast hstart) hin
  rw [replaceFromChecked.eq_def, inBytes_text, ofText_text, Pattern.capturesChecked_eq p hoffset,
    hm]
  simp only [Option.map_some, Option.bind_eq_bind, Option.bind_some, hrule]
  simp only [Match.inBytes, Span.inBytes, literalAt?_inBytes hin]
  cases hliteral : (ofText text).literalAt? m.start with
  | some literal =>
    have hinside := literalAt?_some hliteral
    have hbound := stop_le_length (List.mem_of_find?_eq_some hliteral)
    exact if_pos (Text.byteOffset_further (by omega) hbound)
  | none =>
    simp only [Option.map_none, hcut, Option.bind_some]
    cases rule m with
    | none => rfl
    | some new => exact if_pos (Text.byteOffset_further (by omega) hstop)

/-- **Replacing by bytes** ends, and no cut in it fails, if the rule does not fail
where its pattern matches. -/
theorem replaceFromChecked_eq (consuming : 0 < p.minLength)
    (hrule : ∀ place m, place ≤ text.length → p.findFrom? text place = some m →
      ruleChecked (m.inBytes text) = some (rule m))
    (out : List Char) (count : Nat) (hlast : last ≤ offset) (hoffset : offset ≤ text.length) :
    (ofText text).inBytes.replaceFromChecked p ruleChecked (byteOffset text last)
        (byteOffset text offset) out count
      = some (((ofText text).replacementsFrom? p consuming rule offset).map fun replacements =>
          (out ++ patchFrom text last replacements, count + replacements.length)) := by
  fun_induction replacementsFrom? (ofText text) p consuming rule offset
    generalizing last out count with
  | case1 offset inside hnone =>
    rw [ofText_text] at hnone
    rw [replaceFromChecked, inBytes_text, ofText_text, Pattern.capturesChecked_eq p hoffset, hnone]
    simp only [Option.map_none, Option.bind_eq_bind, Option.bind_some,
      Text.byteSlice?_to_end (Nat.le_trans hlast hoffset)]
    rfl
  | case2 offset inside m hm literal hliteral ih =>
    rw [ofText_text] at hm
    have hmatch := Pattern.findFrom?_some hoffset hm
    have hinside := literalAt?_some hliteral
    have hbound := stop_le_length (List.mem_of_find?_eq_some hliteral)
    rw [replaceFromChecked_found consuming hm (hrule offset m hoffset hm) hlast hoffset, hliteral]
    exact ih out count (by omega) hbound
  | case3 offset inside m hm hcode hdeclined =>
    rw [ofText_text] at hm
    rw [replaceFromChecked_found consuming hm (hrule offset m hoffset hm) hlast hoffset, hcode,
      hdeclined]
    rfl
  | case4 offset inside m hm hcode new hnew ih =>
    rw [ofText_text] at hm
    obtain ⟨-, -, hstop⟩ := Pattern.findFrom?_some hoffset hm
    rw [replaceFromChecked_found consuming hm (hrule offset m hoffset hm) hlast hoffset, hcode,
      hnew]
    dsimp only
    rw [ih _ _ (Nat.le_refl _) hstop, Option.map_map]
    refine congrArg (fun f => some (Option.map f _)) (funext fun replacements => ?_)
    simp [patchFrom, Nat.add_assoc, Nat.add_comm 1]
  | case5 offset outside => exact absurd hoffset outside

/-- **A whole text**, with the number of its replacements. -/
theorem replaceChecked_eq (consuming : 0 < p.minLength)
    (hrule : ∀ place m, place ≤ text.length → p.findFrom? text place = some m →
      ruleChecked (m.inBytes text) = some (rule m)) :
    (ofText text).inBytes.replaceChecked p ruleChecked
      = some (((ofText text).replacements? p consuming rule).map fun replacements =>
          ((ofText text).patch replacements, replacements.length)) := by
  have hall := replaceFromChecked_eq consuming hrule [] 0 (Nat.le_refl 0) (Nat.zero_le _)
  simp only [List.nil_append, Nat.zero_add] at hall
  exact hall

end Replacing

end Code

end Downlevel
