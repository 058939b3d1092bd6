/-
Downlevel.Proofs.Code.CheckMeaning — what coalescings and checks mean.

The expressions here are those that a chain of defaults and its checks consist
of: names, comparisons by `!==`, `&&`, `??`, the conditional and parentheses. A
reader takes a text apart by their precedence (`read?`), each level a function
of the level below it, and gives up on everything else. An expression has a
value where names have one (`Expression.value`), or raises what reading a name
raises.

Operands that were put together pair by pair, by a check for each pair, are a
tree (`Grouping`). However they are grouped, a chain of them reads as an
expression whose value is that of the first name that is not nullish, or of the
last one (`meaning?_chain`): taking the first of two is associative
(`orElse_assoc`).
-/
import Downlevel.Code.Nullish
import Downlevel.Proofs.Pattern.Spelling
import Downlevel.Proofs.Text.CharClass

namespace Downlevel.Code.Nullish

open Pattern (IsName isNameStart isNamePart isBlank_eq_false_of_isNamePart)

universe u v

/-! ## Expressions -/

inductive Expression where
  | name (text : List Char)
  | differs (left right : Expression)
  | both (left right : Expression)
  | coalesce (left right : Expression)
  | choose (test yes no : Expression)
  deriving DecidableEq, Repr

inductive Value (V : Type u) where
  | null
  | undefined
  | boolean (b : Bool)
  | other (v : V)

/-- What names stand for, and what is truthy and the same among other values. -/
structure Scope (V : Type u) (E : Type v) where
  valueOf : List Char → Except E (Value V)
  isTruthy : V → Bool
  areSame : V → V → Bool

namespace Value

variable {V : Type u} {E : Type v} (scope : Scope V E)

def isNullish : Value V → Bool
  | null | undefined => true
  | _ => false

def isTruthy : Value V → Bool
  | null | undefined => false
  | boolean b => b
  | other v => scope.isTruthy v

/-- Whether two values are strictly equal. -/
def areSame : Value V → Value V → Bool
  | null, null => true
  | undefined, undefined => true
  | boolean a, boolean b => a == b
  | other v, other w => scope.areSame v w
  | _, _ => false

end Value

section Evaluation

variable {V : Type u} {E : Type v} (scope : Scope V E)

/-- The first outcome, or the second one where that is nullish. -/
def orElse (x y : Except E (Value V)) : Except E (Value V) :=
  match x with
  | .error e => .error e
  | .ok v => if v.isNullish then y else .ok v

def nullName : List Char := "null".toList

def undefinedName : List Char := "undefined".toList

/-- The value of a name. Two of them are constants. -/
def nameValue (name : List Char) : Except E (Value V) :=
  if name = nullName then .ok .null
  else if name = undefinedName then .ok .undefined
  else scope.valueOf name

/-- The value of an expression. Only what is needed is evaluated, from left to
right. -/
def Expression.value : Expression → Except E (Value V)
  | .name text => nameValue scope text
  | .differs left right =>
    match left.value with
    | .error e => .error e
    | .ok v =>
      match right.value with
      | .error e => .error e
      | .ok w => .ok (.boolean !(v.areSame scope w))
  | .both left right =>
    match left.value with
    | .error e => .error e
    | .ok v => if v.isTruthy scope then right.value else .ok v
  | .coalesce left right => orElse left.value right.value
  | .choose test yes no =>
    match test.value with
    | .error e => .error e
    | .ok v => if v.isTruthy scope then yes.value else no.value

/-- The value of the first name that is not nullish, or else of the last one. -/
def firstPresent : List (List Char) → Except E (Value V)
  | [] => .ok .undefined
  | [name] => nameValue scope name
  | name :: rest => orElse (nameValue scope name) (firstPresent rest)

end Evaluation

/-! ## Reading -/

/-- Reads an expression at the start of a text and hands back what follows it. -/
abbrev Reader := List Char → Option (Expression × List Char)

/-- What follows a mark, if blanks and the mark come next. -/
def behind? (mark : String) (cs : List Char) : Option (List Char) :=
  let rest := Text.trimStart cs
  if mark.toList.isPrefixOf rest then some (rest.drop mark.toList.length) else none

/-- A comparison of two operands, or one of them. -/
def comparison (operand : Reader) : Reader := fun cs =>
  match operand cs with
  | none => none
  | some (left, rest) =>
    match behind? "!==" rest with
    | none => some (left, rest)
    | some rest =>
      match operand rest with
      | none => none
      | some (right, rest) => some (.differs left right, rest)

/-- Goes on with a chain of coalescings, which are taken from left to right. -/
def chainFrom (operand : Reader) : Nat → Expression → Reader
  | 0, left, cs => some (left, cs)
  | n + 1, left, cs =>
    match behind? "??" cs with
    | none => some (left, cs)
    | some rest =>
      match comparison operand rest with
      | none => none
      | some (right, rest) => chainFrom operand n (.coalesce left right) rest

/-- A conjunction or a chain of coalescings. The two do not mix without
parentheses. -/
def shortCircuit (operand : Reader) : Reader := fun cs =>
  match comparison operand cs with
  | none => none
  | some (left, rest) =>
    match behind? "&&" rest with
    | none => chainFrom operand rest.length left rest
    | some rest =>
      match comparison operand rest with
      | none => none
      | some (right, rest) => some (.both left right, rest)

def conditional (operand : Reader) : Reader := fun cs =>
  match shortCircuit operand cs with
  | none => none
  | some (test, rest) =>
    match behind? "?" rest with
    | none => some (test, rest)
    | some rest =>
      match shortCircuit operand rest with
      | none => none
      | some (yes, rest) =>
        match behind? ":" rest with
        | none => none
        | some rest =>
          match shortCircuit operand rest with
          | none => none
          | some (no, rest) => some (.choose test yes no, rest)

/-- A name, or an expression in parentheses that are nested so deep at most. -/
def primary : Nat → Reader
  | 0, _ => none
  | depth + 1, cs =>
    match Text.trimStart cs with
    | [] => none
    | c :: rest =>
      if c = '(' then
        match conditional (primary depth) rest with
        | none => none
        | some (inner, rest) => (behind? ")" rest).map fun rest => (inner, rest)
      else if isNameStart c then
        some (.name (c :: rest.takeWhile isNamePart), rest.dropWhile isNamePart)
      else none

/-- The expression that a text is. -/
def read? (text : List Char) : Option Expression :=
  match conditional (primary text.length) text with
  | none => none
  | some (e, rest) => if Text.trimStart rest = [] then some e else none

/-- The value of a text. -/
def meaning? {V : Type u} {E : Type v} (scope : Scope V E) (text : List Char) :
    Option (Except E (Value V)) :=
  (read? text).map (Expression.value scope)

/-! ## Groupings -/

/-- Operands put together pair by pair. -/
inductive Grouping where
  | name (text : List Char)
  | pair (left right : Grouping)
  deriving DecidableEq, Repr

namespace Grouping

/-- A check for each pair. -/
def text : Grouping → List Char
  | name text => text
  | pair left right => check left.text right.text

def names : Grouping → List (List Char)
  | name text => [text]
  | pair left right => left.names ++ right.names

def height : Grouping → Nat
  | name _ => 0
  | pair left right => max left.height right.height + 1

/-- What the text of a grouping is read as. -/
def expression : Grouping → Expression
  | name text => .name text
  | pair left right =>
    .choose (.both (.differs left.expression (.name nullName))
      (.differs left.expression (.name undefinedName))) left.expression right.expression

/-- All names are proper ones. -/
def IsProper (g : Grouping) : Prop := ∀ name ∈ g.names, IsName name

end Grouping

/-- The operator with an operand behind it. -/
def tail (gs : List Grouping) : List Char := gs.flatMap fun g => " ?? ".toList ++ g.text

/-- Groupings with the operator between them. -/
def chain : List Grouping → List Char
  | [] => []
  | g :: gs => g.text ++ tail gs

/-! ## How groupings are read -/

section Reading

variable {name rest : List Char} {c : Char}

theorem isBlank_eq_false_of_isNameStart (h : isNameStart c = true) : Text.isBlank c = false :=
  isBlank_eq_false_of_isNamePart (Pattern.isNamePart_of_isNameStart h)

theorem ne_paren_of_isNameStart (h : isNameStart c = true) : c ≠ '(' := by
  rintro rfl
  cases h

/-- What comes behind an operand does not go on with a name. -/
def EndsName (rest : List Char) : Prop := ∀ c ∈ rest.head?, isNamePart c = false

theorem primary_blank (depth : Nat) (cs : List Char) :
    primary depth (' ' :: cs) = primary depth cs := by
  cases depth <;> rfl

theorem primary_name (depth : Nat) (hname : IsName name) (hrest : EndsName rest) :
    primary (depth + 1) (name ++ rest) = some (.name name, rest) := by
  obtain ⟨c, more, rfl, hc, hmore⟩ := hname
  have htrim : Text.trimStart (c :: more ++ rest) = c :: (more ++ rest) := by
    simp [Text.trimStart, isBlank_eq_false_of_isNameStart hc]
  have htake : (more ++ rest).takeWhile isNamePart = more := by
    rw [List.takeWhile_append_of_pos hmore]
    cases rest with
    | nil => simp
    | cons d rest => simp [hrest d rfl]
  have hdrop : (more ++ rest).dropWhile isNamePart = rest := by
    rw [List.dropWhile_append_of_pos hmore]
    cases rest with
    | nil => rfl
    | cons d rest => simp [hrest d rfl]
  simp only [primary, htrim, if_neg (ne_paren_of_isNameStart hc), if_pos hc, htake, hdrop]

theorem comparison_blank (depth : Nat) (cs : List Char) :
    comparison (primary depth) (' ' :: cs) = comparison (primary depth) cs := by
  simp only [comparison, primary_blank]

theorem shortCircuit_blank (depth : Nat) (cs : List Char) :
    shortCircuit (primary depth) (' ' :: cs) = shortCircuit (primary depth) cs := by
  simp only [shortCircuit, comparison_blank]

theorem isName_nullName : IsName nullName := ⟨'n', "ull".toList, by decide⟩

theorem isName_undefinedName : IsName undefinedName := ⟨'u', "ndefined".toList, by decide⟩

section Levels

variable {operand : Reader} {e left right : Expression} {cs behind : List Char}

theorem comparison_of_none (h : operand cs = some (e, rest)) (hrest : behind? "!==" rest = none) :
    comparison operand cs = some (e, rest) := by
  simp only [comparison, h, hrest]

theorem comparison_of_some (h : operand cs = some (left, rest))
    (hrest : behind? "!==" rest = some behind) {after : List Char}
    (hright : operand behind = some (right, after)) :
    comparison operand cs = some (.differs left right, after) := by
  simp only [comparison, h, hrest, hright]

/-- An operand with nothing behind it that goes on with it. -/
theorem shortCircuit_of_none (h : operand cs = some (e, rest))
    (hdiffers : behind? "!==" rest = none) (hboth : behind? "&&" rest = none)
    (hcoalesce : behind? "??" rest = none) :
    shortCircuit operand cs = some (e, rest) := by
  have hchain : ∀ n, chainFrom operand n e rest = some (e, rest) := by
    intro n
    cases n with
    | zero => rfl
    | succ n => simp only [chainFrom, hcoalesce]
  simp only [shortCircuit, comparison_of_none h hdiffers, hboth, hchain]

theorem shortCircuit_of_both (h : comparison operand cs = some (left, rest))
    (hboth : behind? "&&" rest = some behind) {after : List Char}
    (hright : comparison operand behind = some (right, after)) :
    shortCircuit operand cs = some (.both left right, after) := by
  simp only [shortCircuit, h, hboth, hright]

theorem conditional_of_choose {test yes no : Expression} {second third last after : List Char}
    (htest : shortCircuit operand cs = some (test, rest))
    (hquestion : behind? "?" rest = some second)
    (hyes : shortCircuit operand second = some (yes, third))
    (hcolon : behind? ":" third = some last)
    (hno : shortCircuit operand last = some (no, after)) :
    conditional operand cs = some (.choose test yes no, after) := by
  simp only [conditional, htest, hquestion, hyes, hcolon, hno]

theorem primary_paren {depth : Nat} (h : conditional (primary depth) cs = some (e, rest))
    (hclose : behind? ")" rest = some behind) :
    primary (depth + 1) ('(' :: cs) = some (e, behind) := by
  have htrim : Text.trimStart ('(' :: cs) = '(' :: cs := rfl
  simp only [primary, htrim, if_true, h, hclose, Option.map_some]

end Levels

theorem endsName_of_toList {mark : String} {after : List Char}
    (hmark : (mark.toList.head?.any fun c => !isNamePart c) = true) :
    EndsName (mark.toList ++ after) := by
  intro c hc
  cases hcons : mark.toList with
  | nil =>
    rw [hcons] at hmark
    cases hmark
  | cons d more =>
    rw [hcons] at hmark hc
    obtain rfl : d = c := Option.some.inj hc
    simpa using hmark

/-- A check is read, if its operands are. -/
theorem primary_check {depth : Nat} {left right : List Char} {l r : Expression}
    (hl : ∀ after, EndsName after → primary (depth + 1) (left ++ after) = some (l, after))
    (hr : ∀ after, EndsName after → primary (depth + 1) (right ++ after) = some (r, after)) :
    primary (depth + 2) (check left right ++ rest)
      = some (.choose (.both (.differs l (.name nullName)) (.differs l (.name undefinedName))) l r,
        rest) := by
  -- a comparison with one of the constants
  have hdiffers : ∀ (name after : List Char), IsName name → EndsName after →
      comparison (primary (depth + 1)) (left ++ (" !== ".toList ++ (name ++ after)))
        = some (.differs l (.name name), after) := by
    intro name after hname hafter
    refine comparison_of_some (hl _ (endsName_of_toList (by decide))) rfl ?_
    show primary (depth + 1) (' ' :: (name ++ after)) = _
    rw [primary_blank, primary_name depth hname hafter]
  have hno : shortCircuit (primary (depth + 1)) (' ' :: (right ++ (')' :: rest)))
      = some (r, ')' :: rest) := by
    rw [shortCircuit_blank]
    exact shortCircuit_of_none (hr _ (by rintro c ⟨⟩; decide)) rfl rfl rfl
  have hyes : shortCircuit (primary (depth + 1))
      (' ' :: (left ++ (" : ".toList ++ (right ++ (')' :: rest)))))
      = some (l, " : ".toList ++ (right ++ (')' :: rest))) := by
    rw [shortCircuit_blank]
    exact shortCircuit_of_none (hl _ (endsName_of_toList (by decide))) rfl rfl rfl
  have hundefined := hdiffers undefinedName (" ? ".toList ++ (left ++ (" : ".toList ++ (right
    ++ (')' :: rest))))) isName_undefinedName (endsName_of_toList (by decide))
  have hnull := hdiffers nullName (" && ".toList ++ (left ++ (" !== ".toList ++ (undefinedName
    ++ (" ? ".toList ++ (left ++ (" : ".toList ++ (right ++ (')' :: rest))))))))) isName_nullName
    (endsName_of_toList (by decide))
  rw [← comparison_blank] at hundefined
  have hread := primary_paren
    (conditional_of_choose (shortCircuit_of_both hnull rfl hundefined) rfl hyes rfl hno) rfl
  have hchecked : check left right ++ rest = '(' :: (left ++ (" !== ".toList ++ (nullName
      ++ (" && ".toList ++ (left ++ (" !== ".toList ++ (undefinedName ++ (" ? ".toList
      ++ (left ++ (" : ".toList ++ (right ++ (')' :: rest)))))))))))) := by
    have hnull : " !== null && ".toList = " !== ".toList ++ (nullName ++ " && ".toList) := by decide
    have hundefined : " !== undefined ? ".toList
        = " !== ".toList ++ (undefinedName ++ " ? ".toList) := by decide
    rw [check, hnull, hundefined]
    simp only [List.append_assoc, List.cons_append, List.nil_append]
  rw [hchecked]
  exact hread

open Grouping in
/-- **A grouping is read as its expression**, wherever no name goes on behind
it. -/
theorem primary_text (g : Grouping) (hg : g.IsProper) : ∀ {depth : Nat} {rest : List Char},
    g.height ≤ depth → EndsName rest →
      primary (depth + 1) (g.text ++ rest) = some (g.expression, rest) := by
  induction g with
  | name text =>
    intro depth rest _ hrest
    exact primary_name depth (hg text (List.mem_singleton_self text)) hrest
  | pair l r ihLeft ihRight =>
    intro depth rest hdepth _
    obtain ⟨hleft, hright⟩ := List.forall_mem_append.mp hg
    have hheight : max l.height r.height + 1 ≤ depth := hdepth
    obtain ⟨depth, rfl⟩ :=
      Nat.exists_eq_add_one_of_ne_zero (Nat.ne_of_gt (Nat.zero_lt_of_lt hheight))
    refine primary_check (fun after hafter => ?_) fun after hafter => ?_
    · exact ihLeft hleft (by omega) hafter
    · exact ihRight hright (by omega) hafter

/-- No name goes on behind an operand of a chain. -/
theorem endsName_tail (gs : List Grouping) : EndsName (tail gs) := by
  cases gs with
  | nil => exact nofun
  | cons g gs =>
    rintro c ⟨⟩
    decide

theorem tail_cons (g : Grouping) (gs : List Grouping) :
    tail (g :: gs) = " ?? ".toList ++ (g.text ++ tail gs) := by
  rw [tail, List.flatMap_cons, List.append_assoc]
  rfl

/-- Behind an operand of a chain comes the operator, and no other one. -/
theorem behind?_tail (gs : List Grouping) :
    behind? "!==" (tail gs) = none ∧ behind? "&&" (tail gs) = none := by
  cases gs with
  | nil => exact ⟨rfl, rfl⟩
  | cons g gs => exact ⟨rfl, rfl⟩

theorem chainFrom_tail {depth : Nat} {gs : List Grouping} (hproper : ∀ g ∈ gs, g.IsProper)
    (hheight : ∀ g ∈ gs, g.height ≤ depth) : ∀ {n : Nat} (e : Expression), gs.length ≤ n →
      chainFrom (primary (depth + 1)) n e (tail gs)
        = some ((gs.map Grouping.expression).foldl .coalesce e, []) := by
  induction gs with
  | nil =>
    intro n e _
    cases n <;> rfl
  | cons g gs ih =>
    intro n e hn
    obtain ⟨n, rfl⟩ := Nat.exists_eq_add_one_of_ne_zero (Nat.ne_of_gt (Nat.zero_lt_of_lt hn))
    obtain ⟨hg, hmore⟩ := List.forall_mem_cons.mp hproper
    obtain ⟨hgHeight, hmoreHeight⟩ := List.forall_mem_cons.mp hheight
    have hoperator : behind? "??" (tail (g :: gs)) = some (' ' :: (g.text ++ tail gs)) := by
      rw [tail_cons]
      rfl
    have hread : comparison (primary (depth + 1)) (' ' :: (g.text ++ tail gs))
        = some (g.expression, tail gs) := by
      rw [comparison_blank]
      exact comparison_of_none (primary_text g hg hgHeight (endsName_tail gs)) (behind?_tail gs).1
    simp only [chainFrom, hoperator, hread]
    exact ih hmore hmoreHeight _ (Nat.le_of_succ_le_succ hn)

theorem height_lt_length (g : Grouping) (hg : g.IsProper) : g.height < g.text.length := by
  induction g with
  | name text =>
    obtain ⟨c, more, rfl, -⟩ := hg text (List.mem_singleton_self text)
    exact Nat.zero_lt_succ _
  | pair l r ihLeft ihRight =>
    obtain ⟨hleft, hright⟩ := List.forall_mem_append.mp hg
    have hl := ihLeft hleft
    have hr := ihRight hright
    simp only [Grouping.height, Grouping.text, check, List.length_append, List.length_cons]
    omega

theorem length_le_of_mem {g : Grouping} {gs : List Grouping} (h : g ∈ gs) :
    g.text.length ≤ (tail gs).length := by
  obtain ⟨before, after, rfl⟩ := List.append_of_mem h
  simp only [tail, List.flatMap_append, List.flatMap_cons, List.length_append]
  omega

theorem length_le_length_tail (gs : List Grouping) : gs.length ≤ (tail gs).length := by
  induction gs with
  | nil => exact Nat.le_refl 0
  | cons g gs ih =>
    rw [tail_cons, List.length_append, List.length_append, List.length_cons]
    have hmark : " ?? ".toList.length = 4 := rfl
    omega

/-- **A chain is read from left to right.** -/
theorem read?_chain (g : Grouping) (gs : List Grouping) (hproper : ∀ g' ∈ g :: gs, g'.IsProper) :
    read? (chain (g :: gs)) = some ((gs.map Grouping.expression).foldl .coalesce g.expression) := by
  obtain ⟨hg, hgs⟩ := List.forall_mem_cons.mp hproper
  have hlong := height_lt_length g hg
  have hlength : (chain (g :: gs)).length = g.text.length + (tail gs).length := List.length_append
  obtain ⟨depth, hdepth⟩ := Nat.exists_eq_add_one_of_ne_zero
    (by omega : (chain (g :: gs)).length ≠ 0)
  have hheight : ∀ g' ∈ gs, g'.height ≤ depth := by
    intro g' hg'
    have := height_lt_length g' (hgs g' hg')
    have := length_le_of_mem hg'
    omega
  have hfirst : comparison (primary (depth + 1)) (chain (g :: gs)) = some (g.expression, tail gs) :=
    comparison_of_none (primary_text g hg (by omega) (endsName_tail gs)) (behind?_tail gs).1
  have hread : conditional (primary (depth + 1)) (chain (g :: gs))
      = some ((gs.map Grouping.expression).foldl .coalesce g.expression, []) := by
    have hshort : shortCircuit (primary (depth + 1)) (chain (g :: gs))
        = some ((gs.map Grouping.expression).foldl .coalesce g.expression, []) := by
      simp only [shortCircuit, hfirst, (behind?_tail gs).2,
        chainFrom_tail hgs hheight _ (length_le_length_tail gs)]
    have hend : behind? "?" [] = none := rfl
    simp only [conditional, hshort, hend]
  simp only [read?, hdepth, hread, Text.trimStart, List.dropWhile_nil, if_true]

end Reading

/-- What would need parentheses is not read. -/
example : read? "a ?? (b) ?? c".toList
      = some (.coalesce (.coalesce (.name ['a']) (.name ['b'])) (.name ['c']))
    ∧ read? "a && b ?? c".toList = none := by decide

/-! ## What groupings mean -/

section Meaning

variable {V : Type u} {E : Type v} (scope : Scope V E)

theorem orElse_assoc (x y z : Except E (Value V)) :
    orElse (orElse x y) z = orElse x (orElse y z) := by
  cases x with
  | error e => rfl
  | ok v => cases v <;> rfl

theorem firstPresent_cons (x : List Char) {rest : List (List Char)} (hrest : rest ≠ []) :
    firstPresent scope (x :: rest) = orElse (nameValue scope x) (firstPresent scope rest) := by
  cases rest with
  | nil => exact absurd rfl hrest
  | cons y rest => rfl

theorem firstPresent_append {xs ys : List (List Char)} (hxs : xs ≠ []) (hys : ys ≠ []) :
    firstPresent scope (xs ++ ys) = orElse (firstPresent scope xs) (firstPresent scope ys) := by
  induction xs with
  | nil => exact absurd rfl hxs
  | cons x xs ih =>
    rw [List.cons_append, firstPresent_cons scope x (by simp [hys])]
    cases xs with
    | nil => rfl
    | cons x' xs =>
      rw [ih (List.cons_ne_nil x' xs), firstPresent_cons scope x (List.cons_ne_nil x' xs),
        orElse_assoc]

/-- **A check means the coalescing** of its operands. -/
theorem value_check (l r : Expression) :
    Expression.value scope (.choose (.both (.differs l (.name nullName))
      (.differs l (.name undefinedName))) l r) = orElse (l.value scope) (r.value scope) := by
  have hnull : nameValue scope nullName = .ok .null := rfl
  have hundefined : nameValue scope undefinedName = .ok .undefined := rfl
  simp only [Expression.value, hnull, hundefined]
  cases hl : l.value scope with
  | error e => rfl
  | ok v => cases v <;> rfl

namespace Grouping

theorem names_ne_nil (g : Grouping) : g.names ≠ [] := by
  induction g with
  | name text => exact List.cons_ne_nil text []
  | pair l r ihLeft _ => exact fun h => ihLeft (List.append_eq_nil_iff.mp h).1

/-- The grouping makes no difference. -/
theorem value_expression (g : Grouping) :
    g.expression.value scope = firstPresent scope g.names := by
  induction g with
  | name text => rfl
  | pair l r ihLeft ihRight =>
    rw [expression, value_check, ihLeft, ihRight, names,
      firstPresent_append scope l.names_ne_nil r.names_ne_nil]

end Grouping

theorem value_foldl (gs : List Grouping) : ∀ (e : Expression) {names : List (List Char)},
    names ≠ [] → e.value scope = firstPresent scope names →
      Expression.value scope ((gs.map Grouping.expression).foldl .coalesce e)
        = firstPresent scope (names ++ gs.flatMap Grouping.names) := by
  induction gs with
  | nil =>
    intro e names _ he
    rw [List.flatMap_nil, List.append_nil]
    exact he
  | cons g gs ih =>
    intro e names hnames he
    have hnext : Expression.value scope (.coalesce e g.expression)
        = firstPresent scope (names ++ g.names) := by
      rw [firstPresent_append scope hnames g.names_ne_nil, ← he, ← g.value_expression scope]
      rfl
    have hall := ih (.coalesce e g.expression) (by simp [hnames]) hnext
    rwa [List.append_assoc, ← List.flatMap_cons] at hall

/-- **A chain of groupings** has the value of the first name in it that is not
nullish, or of the last one. -/
theorem meaning?_chain {gs : List Grouping} (hne : gs ≠ []) (hproper : ∀ g ∈ gs, g.IsProper) :
    meaning? scope (chain gs) = some (firstPresent scope (gs.flatMap Grouping.names)) := by
  obtain ⟨g, gs, rfl⟩ := List.exists_cons_of_ne_nil hne
  rw [meaning?, read?_chain g gs hproper, Option.map_some,
    value_foldl scope gs g.expression g.names_ne_nil (g.value_expression scope), List.flatMap_cons]

end Meaning

end Downlevel.Code.Nullish
