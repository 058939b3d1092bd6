/-
Downlevel.Code.Nullish — nullish coalescing as an explicit check.

`l ?? r` becomes `(l !== null && l !== undefined ? l : r)`. Operands are
recognised by their outer form, and a text is changed only when nothing
next to an operand binds tighter than the operator. The result of one pass
may be the left operand of another occurrence, so several passes are made.
-/
import Downlevel.Code.Basic

namespace Downlevel.Code.Nullish

open Pattern

/-! ## Operands -/

/-- A string between two quotes, escapes included. -/
def quotedBy (quote : String) : Pattern :=
  literal quote ++ .star (noneOf (quote ++ "\\") ||| (literal "\\" ++ inLine)) ++ literal quote

def number : Pattern := opt (literal "-") ++ digit ++ .star (wordOr ".")

/-- What an operand starts with. -/
def head : Pattern :=
  alts [parenthesized, quotedBy "\"", quotedBy "'", number, name, indexed, literal "\x7b\x7d"]

/-- What may follow the head of an operand. -/
def link : Pattern := (literal "." ++ name) ||| parenthesized ||| indexed

def operand : Pattern := head ++ .star link

/-- The operator with its operands, which are groups 1 and 2. -/
def coalescing : Pattern :=
  .group 1 operand ++ blanks ++ literal "??" ++ blanks ++ .group 2 operand

theorem coalescing_consuming : 0 < coalescing.minLength := by decide

/-! ## Surroundings -/

/-- Whether nothing before a place binds tighter than the operator. -/
def leftIsWhole (code : Code) (offset : Nat) : Bool :=
  match code.charBefore? offset with
  | none => true
  | some c =>
    let beforeChar := (code.before offset).dropLast.getLast?
    if c = '>' then beforeChar == some '='
    else if c = '=' then !(beforeChar.any fun d => "=!<>".toList.contains d)
    else if Text.isIdentifier c then
      code.wordBefore offset == "return".toList || code.wordBefore offset == "yield".toList
    else "(,:[\x7b;?|&".toList.contains c

def isOperatorChar (c : Char) : Bool := "+-*/%<>=!&|^".toList.contains c

/-- Whether nothing after a place binds tighter than the operator. On a
new line only brackets, a member access, a template and operators could
continue the operand. -/
def rightIsWhole (code : Code) (offset : Nat) : Bool :=
  match code.charAfter? offset with
  | none => true
  | some c =>
    ";)]\x7d,:?".toList.contains c
      || code.lineEndsAfter offset && !(".([\x60".toList.contains c) && !isOperatorChar c

/-! ## The rule -/

/-- The check that stands for an occurrence. -/
def check (left right : List Char) : List Char :=
  '(' :: left ++ " !== null && ".toList ++ left ++ " !== undefined ? ".toList ++ left
    ++ " : ".toList ++ right ++ [')']

def replacement? (code : Code) (m : Match) : Option (List Char) :=
  if leftIsWhole code m.start && rightIsWhole code m.stop then
    some (check ((m.groupText? code.text 1).getD []) ((m.groupText? code.text 2).getD []))
  else none

/-- What one pass replaces. -/
def replacements? (code : Code) : Option (List Replacement) :=
  code.replacements? coalescing coalescing_consuming (replacement? code)

/-- How many passes are made at most. -/
def maxPasses : Nat := 8

/-- Makes passes until one of them finds nothing. Also says whether any of
them found something. -/
def passes? : Nat → List Char → Bool → Option (List Char × Bool)
  | 0, text, changed => some (text, changed)
  | n + 1, text, changed =>
    match replacements? (Code.ofText text) with
    | none => none
    | some [] => some (text, changed)
    | some replacements => passes? n ((Code.ofText text).patch replacements) true

/-- The operator in what came out; an assignment is something else. -/
def leftover : Pattern := literal "??" ++ (noneOf "=" ||| .textEnd)

def degrade? (source : List Char) : Option (List Char) :=
  match passes? maxPasses source false with
  | some (text, true) => if (Code.ofText text).occurs leftover then none else some text
  | _ => none

end Downlevel.Code.Nullish
