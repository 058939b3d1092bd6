/-
Downlevel.Proofs.Code.CheckedRules — the replacing rules by bytes.

The rules for optional access, nullish coalescing and declarations once more, with
every cut checked: the chain cut at the end of its base, the character before an
equals sign, the groups of a match that must have taken part. The result is none
where one of these fails.

None fails, on any text, and what comes out is what the rule makes of the text
(`degradeChecked_eq` of each rule).
-/
import Downlevel.Proofs.Code.CheckedCuts
import Downlevel.Proofs.Code.Coalescing
import Downlevel.Proofs.Code.PlainDeclarations

namespace Downlevel

open Text (byteSize byteSlice? byteOffset)

namespace Pattern

/-- A match in a list of matches was found from a place of the text. -/
theorem exists_findFrom?_of_mem_allFrom {p : Pattern} {text : List Char} {offset : Nat} {m : Match}
    (h : m ∈ p.allFrom text offset) :
    ∃ place, place ≤ text.length ∧ p.findFrom? text place = some m := by
  fun_induction allFrom p text offset with
  | case1 offset inside found hfound ih =>
    rcases List.mem_cons.mp h with rfl | hlater
    · exact ⟨offset, inside, hfound⟩
    · exact ih hlater
  | case2 => cases h
  | case3 => cases h

/-- A group at the end of a pattern takes part in every match. -/
theorem exists_groupText?_of_findFrom? {p body : Pattern} {index place : Nat} {text : List Char}
    {m : Match} (hplace : place ≤ text.length)
    (hm : (p ++ .group index body).findFrom? text place = some m) :
    ∃ w, m.groupText? text index = some w := by
  obtain ⟨a, w, b, hw, -, -, -, -, hgroups⟩ := findFrom?_spells hplace hm
  obtain ⟨_, _, c, -, -, hgroup⟩ := hw.of_append
  obtain ⟨d, -, rfl⟩ := hgroup.of_group
  rw [Cursor.record] at hgroups
  rw [Match.groupText?, Match.group?, ← hgroups, List.find?_cons_of_pos (by simp)]
  exact ⟨_, rfl⟩

end Pattern

namespace Code

open Pattern (Match Captures)

/-! ## What is left over -/

/-- Whether a pattern matches somewhere in the code. -/
def occursInBytes (code : Code) (p : Pattern) : Bool :=
  (p.all code.text).any fun m => (code.literalAt? (byteOffset code.text m.start)).isNone

theorem occursInBytes_eq (text : List Char) (p : Pattern) :
    (ofText text).inBytes.occursInBytes p = (ofText text).occurs p := by
  have hsame : ∀ m ∈ p.all text,
      ((ofText text).inBytes.literalAt? (byteOffset text m.start)).isNone
        = ((ofText text).literalAt? m.start).isNone := by
    intro m hm
    obtain ⟨place, hplace, hfound⟩ := Pattern.exists_findFrom?_of_mem_allFrom hm
    have hmatch := Pattern.findFrom?_some hplace hfound
    rw [literalAt?_inBytes (by omega), Option.isNone_map]
  rw [Bool.eq_iff_iff, occursInBytes, occurs, List.any_eq_true, List.any_eq_true]
  exact exists_congr fun m => and_congr_right fun hm => Bool.eq_iff_iff.mp (hsame m hm)

/-- A text in which a pattern does not occur in code. -/
def withoutChecked (p : Pattern) (text : List Char) : Option (Option (List Char)) := do
  let code ← ofTextChecked text
  return if code.occursInBytes p then none else some text

theorem withoutChecked_eq (p : Pattern) (text : List Char) :
    withoutChecked p text = some (if (ofText text).occurs p then none else some text) := by
  rw [withoutChecked, ofTextChecked_eq, Option.bind_eq_bind, Option.bind_some, occursInBytes_eq]
  rfl

/-! ## Optional access -/

namespace OptionalAccess

/-- The guards of a chain, which is cut behind its base. Every link has a part. -/
def guardChainChecked (chain : List Char) : Option (List Char) := do
  let stop := (Text.findByte? (fun rest => rest.head?.any fun c => !isBaseChar c) chain).getD
    (byteSize chain)
  let base ← byteSlice? chain 0 stop
  let rest ← byteSlice? chain stop (byteSize chain)
  let links ← (linkParts.all rest).mapM fun m =>
    (m.groupText? rest 2).map fun part => (⟨m.groupText? rest 1, part⟩ : Link)
  return '(' :: List.intercalate " && ".toList (guards base links) ++ [')']

/-- Every link has a part, so all of them are made. -/
theorem mapM_links (ms : List Match) {rest : List Char}
    (h : ∀ m ∈ ms, ∃ part, m.groupText? rest 2 = some part) :
    (ms.mapM fun m => (m.groupText? rest 2).map fun part => (⟨m.groupText? rest 1, part⟩ : Link))
      = some (ms.map fun m => ⟨m.groupText? rest 1, (m.groupText? rest 2).getD []⟩) := by
  induction ms with
  | nil => rfl
  | cons m ms ih =>
    obtain ⟨⟨part, hpart⟩, hlater⟩ := List.forall_mem_cons.mp h
    rw [List.mapM_cons, ih hlater, hpart, List.map_cons, hpart]
    rfl

/-- **Guards by bytes**: no cut of a chain fails. -/
theorem guardChainChecked_eq (chain : List Char) :
    guardChainChecked chain = some (guardChain chain) := by
  have hparts : chain = base chain ++ chain.dropWhile isBaseChar :=
    List.takeWhile_append_dropWhile.symm
  have hstop := Text.findByte?_head (fun c => !isBaseChar c) chain
  simp only [Bool.not_not] at hstop
  have hbase := Text.byteSlice?_start (base chain) (chain.dropWhile isBaseChar)
  have hrest := Text.byteSlice?_end (base chain) (chain.dropWhile isBaseChar)
  rw [← hparts] at hbase hrest
  have hlinks := mapM_links (linkParts.all (chain.dropWhile isBaseChar)) fun m hm => by
    obtain ⟨place, hplace, hfound⟩ := Pattern.exists_findFrom?_of_mem_allFrom hm
    exact Pattern.exists_groupText?_of_findFrom? hplace hfound
  rw [guardChainChecked, hstop]
  dsimp only [base] at hbase hrest ⊢
  rw [hbase, Option.bind_eq_bind, Option.bind_some, hrest, Option.bind_eq_bind, Option.bind_some,
    hlinks]
  rfl

/-- Whether a chain is a whole operand. -/
def isWholeChecked (code : Code) (i j : Nat) : Option Bool := do
  let c ← code.charBeforeChecked i
  if c = some '.' then return false
  else
    let word ← code.wordBeforeChecked i
    if word = "new".toList ∨ word = "delete".toList then return false
    else
      let (next, _) ← code.charAfterChecked j
      return !(next.any fun c => c == '(' || c == '[' || c == '\x60')

theorem isWholeChecked_eq {code : Code} {i j : Nat} (hi : i ≤ code.text.length)
    (hj : j ≤ code.text.length) :
    isWholeChecked code (byteOffset code.text i) (byteOffset code.text j)
      = some (isWhole code i j) := by
  rw [isWholeChecked, charBeforeChecked_eq hi, wordBeforeChecked_eq hi, charAfterChecked_eq hj]
  simp only [Option.bind_eq_bind, Option.bind_some, Option.pure_def, isWhole]
  by_cases hdot : code.charBefore? i = some '.'
  · simp [hdot]
  by_cases hword : code.wordBefore i = "new".toList ∨ code.wordBefore i = "delete".toList
  · rcases hword with hword | hword <;> simp [hdot, hword]
  · rw [if_neg hdot, if_neg hword]
    obtain ⟨hnew, hdelete⟩ := not_or.mp hword
    rw [bne_iff_ne.mpr hdot, bne_iff_ne.mpr hnew, bne_iff_ne.mpr hdelete]
    rfl

def replacementChecked (code : Code) (m : Captures) : Option (Option (List Char)) := do
  if ← isWholeChecked code m.whole.start m.whole.stop then
    let new ← guardChainChecked m.text
    return some new
  else return none

theorem replacementChecked_eq (code : Code) {m : Match} (hm : m.start ≤ m.stop)
    (hstop : m.stop ≤ code.text.length) :
    replacementChecked code (m.inBytes code.text) = some (replacement? code m) := by
  have hwhole := isWholeChecked_eq (Nat.le_trans hm hstop) hstop
  rw [replacementChecked, replacement?]
  simp only [Match.inBytes, Span.inBytes, hwhole, Option.bind_eq_bind, Option.bind_some,
    guardChainChecked_eq]
  split <;> rfl

def degradeChecked (source : List Char) : Option (Option (List Char)) := do
  let code ← ofTextChecked source
  match ← code.replaceChecked chain (replacementChecked code) with
  | none => return none
  | some (text, count) => if count = 0 then return none else withoutChecked leftover text

theorem degradeChecked_eq (source : List Char) :
    degradeChecked source = some (degrade? source) := by
  have hrule : ∀ place m, place ≤ source.length → chain.findFrom? source place = some m →
      replacementChecked (ofText source).inBytes (m.inBytes source)
        = some (replacement? (ofText source) m) := by
    intro place m hplace hm
    obtain ⟨-, hmin, hstop⟩ := Pattern.findFrom?_some hplace hm
    exact replacementChecked_eq (ofText source).inBytes (Nat.le_of_add_right_le hmin) hstop
  rw [degradeChecked, ofTextChecked_eq, Option.bind_eq_bind, Option.bind_some,
    replaceChecked_eq chain_consuming hrule, Option.bind_eq_bind, Option.bind_some, degrade?,
    replacements?]
  cases (ofText source).replacements? chain chain_consuming (replacement? (ofText source)) with
  | none => rfl
  | some replacements =>
    simp only [Option.map_some, withoutChecked_eq, List.length_eq_zero_iff]
    by_cases hnone : replacements = [] <;> simp [hnone]

end OptionalAccess

/-! ## Nullish coalescing -/

namespace Nullish

/-- Whether nothing before a byte binds tighter than the operator. -/
def leftIsWholeChecked (code : Code) (i : Nat) : Option Bool := do
  match ← code.charBeforeChecked i with
  | none => return true
  | some c =>
    if c = '>' then
      let before ← code.beforeChecked i
      return ['=', '>'].isSuffixOf before
    else if c = '=' then
      let before ← code.beforeChecked i
      if 1 ≤ byteSize before then
        let front ← byteSlice? before 0 (byteSize before - 1)
        return !(front.getLast?.any fun d => "=!<>".toList.contains d)
      else none
    else if Text.isIdentifier c then
      let word ← code.wordBeforeChecked i
      return word == "return".toList || word == "yield".toList
    else return "(,:[\x7b;?|&".toList.contains c

/-- An arrow at the end of a text. -/
theorem isSuffixOf_arrow (front : List Char) :
    ['=', '>'].isSuffixOf (front ++ ['>']) = (front.getLast? == some '=') := by
  rw [Bool.eq_iff_iff, List.isSuffixOf_iff_suffix, beq_iff_eq, List.getLast?_eq_some_iff]
  constructor
  · rintro ⟨more, hmore⟩
    have hsplit : more ++ ['='] ++ ['>'] = front ++ ['>'] := by
      rw [← hmore, List.append_assoc]
      rfl
    exact ⟨more, (List.append_cancel_right hsplit).symm⟩
  · rintro ⟨more, rfl⟩
    exact ⟨more, by rw [List.append_assoc]; rfl⟩

theorem leftIsWholeChecked_eq {code : Code} {n : Nat} (hn : n ≤ code.text.length) :
    leftIsWholeChecked code (byteOffset code.text n) = some (leftIsWhole code n) := by
  rw [leftIsWholeChecked, leftIsWhole, charBeforeChecked_eq hn, Option.bind_eq_bind,
    Option.bind_some]
  cases hc : code.charBefore? n with
  | none => rfl
  | some c =>
    obtain ⟨front, hfront⟩ : ∃ front, code.before n = front ++ [c] :=
      List.getLast?_eq_some_iff.mp hc
    simp only [beforeChecked_eq hn, wordBeforeChecked_eq hn, Option.bind_eq_bind, Option.bind_some,
      hfront, List.dropLast_concat, Text.byteSize_append]
    by_cases harrow : c = '>'
    · subst harrow
      rw [if_pos rfl, if_pos rfl, isSuffixOf_arrow]
      rfl
    by_cases hequals : c = '='
    · subst hequals
      have hcut := Text.byteSlice?_start front ['=']
      have hone : byteSize ['='] = 1 := rfl
      rw [if_neg harrow, if_neg harrow, if_pos rfl, if_pos rfl, hone, Nat.add_sub_cancel, hcut,
        if_pos (Nat.le_add_left 1 _)]
      rfl
    · rw [if_neg harrow, if_neg hequals, if_neg harrow, if_neg hequals]
      split <;> rfl

/-- Whether nothing after a byte binds tighter than the operator. -/
def rightIsWholeChecked (code : Code) (i : Nat) : Option Bool := do
  match ← code.charAfterChecked i with
  | (none, _) => return true
  | (some c, lineEnds) =>
    return ";)]\x7d,:?".toList.contains c
      || lineEnds && !(".([\x60".toList.contains c) && !isOperatorChar c

theorem rightIsWholeChecked_eq {code : Code} {n : Nat} (hn : n ≤ code.text.length) :
    rightIsWholeChecked code (byteOffset code.text n) = some (rightIsWhole code n) := by
  rw [rightIsWholeChecked, rightIsWhole, charAfterChecked_eq hn, Option.bind_eq_bind,
    Option.bind_some]
  cases code.charAfter? n <;> rfl

/-- The check for a match whose operands are its two groups. -/
def replacementChecked (code : Code) (m : Captures) : Option (Option (List Char)) := do
  if ← leftIsWholeChecked code m.whole.start then
    if ← rightIsWholeChecked code m.whole.stop then
      let left ← m.groupText? 1
      let right ← m.groupText? 2
      return some (check left right)
    else return none
  else return none

theorem replacementChecked_eq (code : Code) {place : Nat} {m : Match}
    (hplace : place ≤ code.text.length) (hm : coalescing.findFrom? code.text place = some m) :
    replacementChecked code (m.inBytes code.text) = some (replacement? code m) := by
  obtain ⟨-, hmin, hstop⟩ := Pattern.findFrom?_some hplace hm
  have hin : m.start ≤ code.text.length := Nat.le_trans (Nat.le_of_add_right_le hmin) hstop
  obtain ⟨left, _, right, _, -, -, -, hleft, hright⟩ := exists_of_findFrom? hplace hm
  rw [replacementChecked, replacement?, hleft, hright]
  simp only [Match.inBytes, Span.inBytes, leftIsWholeChecked_eq hin, rightIsWholeChecked_eq hstop,
    hleft, hright, Option.bind_eq_bind, Option.bind_some]
  cases leftIsWhole code m.start <;> cases rightIsWhole code m.stop <;> rfl

/-- Passes until one of them finds nothing, with whether any of them found
something. -/
def passesChecked : Nat → List Char → Bool → Option (Option (List Char × Bool))
  | 0, text, changed => some (some (text, changed))
  | n + 1, text, changed => do
    let code ← ofTextChecked text
    match ← code.replaceChecked coalescing (replacementChecked code) with
    | none => return none
    | some (next, count) =>
      if count = 0 then return some (text, changed) else passesChecked n next true

theorem passesChecked_eq (n : Nat) (text : List Char) (changed : Bool) :
    passesChecked n text changed = some (passes? n text changed) := by
  induction n generalizing text changed with
  | zero => rfl
  | succ n ih =>
    have hrule : ∀ place m, place ≤ text.length → coalescing.findFrom? text place = some m →
        replacementChecked (ofText text).inBytes (m.inBytes text)
          = some (replacement? (ofText text) m) :=
      fun _ _ => replacementChecked_eq (ofText text).inBytes
    rw [passesChecked, ofTextChecked_eq, Option.bind_eq_bind, Option.bind_some,
      replaceChecked_eq coalescing_consuming hrule, passes?, replacements?]
    cases (ofText text).replacements? coalescing coalescing_consuming
        (replacement? (ofText text)) with
    | none => rfl
    | some replacements =>
      cases replacements with
      | nil => rfl
      | cons r later => exact ih _ true

def degradeChecked (source : List Char) : Option (Option (List Char)) := do
  match ← passesChecked maxPasses source false with
  | some (text, true) => withoutChecked leftover text
  | _ => return none

theorem degradeChecked_eq (source : List Char) :
    degradeChecked source = some (degrade? source) := by
  rw [degradeChecked, passesChecked_eq, Option.bind_eq_bind, Option.bind_some, degrade?]
  rcases passes? maxPasses source false with _ | ⟨text, _ | _⟩
  · rfl
  · rfl
  · exact withoutChecked_eq leftover text

end Nullish

/-! ## Declarations -/

namespace Declarations

def replacementChecked (m : Captures) : Option (Option (List Char)) := do
  let blanks ← m.groupText? 1
  return some ("var".toList ++ blanks)

theorem replacementChecked_eq (code : Code) {place : Nat} {m : Match}
    (hplace : place ≤ code.text.length) (hm : declaration.findFrom? code.text place = some m) :
    replacementChecked (m.inBytes code.text) = some (replacement? code m) := by
  obtain ⟨_, gap, _, -, -, -, hgap⟩ := exists_of_findFrom? hplace hm
  rw [replacementChecked, replacement?, hgap, Match.inBytes]
  simp only [hgap]
  rfl

def degradeChecked (source : List Char) : Option (Option (List Char)) := do
  let code ← ofTextChecked source
  match ← code.replaceChecked declaration replacementChecked with
  | none => return none
  | some (text, count) => return if 0 < count then some text else none

theorem degradeChecked_eq (source : List Char) :
    degradeChecked source = some (degrade? source) := by
  have hrule : ∀ place m, place ≤ source.length → declaration.findFrom? source place = some m →
      replacementChecked (m.inBytes source) = some (replacement? (ofText source) m) :=
    fun _ _ => replacementChecked_eq (ofText source)
  rw [degradeChecked, ofTextChecked_eq, Option.bind_eq_bind, Option.bind_some,
    replaceChecked_eq declaration_consuming hrule, degrade?, replacements?]
  cases (ofText source).replacements? declaration declaration_consuming
      (replacement? (ofText source)) with
  | none => rfl
  | some replacements => cases replacements <;> simp

end Declarations

end Code

end Downlevel
