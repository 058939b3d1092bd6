/-
Downlevel.Code.Basic — source text of which only the code may change.

A `Code` is a text with the stretches of its literals. A place counts as
inside a literal when it lies strictly between its ends, so the opening
quote itself is still code.

`replacements?` lists what a rule puts in place of the matches that start
in code. The matches are taken from left to right without overlap, and a
rule that declines one of them declines the whole text.
-/
import Downlevel.Code.Segment
import Downlevel.Pattern.Script

namespace Downlevel

/-- A stretch of a text, from `start` up to `stop`. -/
structure Span where
  start : Nat
  stop : Nat
  deriving DecidableEq, Repr

/-- A text with its literals from left to right. -/
structure Code where
  text : List Char
  literals : List Span

namespace Code

/-! ## Literals -/

/-- The stretches of the literals among segments that start at an
offset. -/
def spansFrom : Nat → List Segment → List Span
  | _, [] => []
  | offset, .code _ :: rest => spansFrom (offset + 1) rest
  | offset, .literal text :: rest =>
    ⟨offset, offset + text.length⟩ :: spansFrom (offset + text.length) rest

def ofText (text : List Char) : Code := ⟨text, spansFrom 0 (Segment.split text)⟩

/-- The literal that a place lies strictly inside of. -/
def literalAt? (code : Code) (offset : Nat) : Option Span :=
  code.literals.find? fun s => s.start < offset && offset < s.stop

theorem literalAt?_some {code : Code} {offset : Nat} {s : Span}
    (h : code.literalAt? offset = some s) : s.start < offset ∧ offset < s.stop := by
  have := List.find?_some h
  simpa using this

/-- Whether a pattern matches somewhere in the code. -/
def occurs (code : Code) (p : Pattern) : Bool :=
  (p.all code.text).any fun m => (code.literalAt? m.start).isNone

/-! ## Surroundings of a place -/

/-- What stands before a place, without the blanks just before it. -/
def before (code : Code) (offset : Nat) : List Char := Text.trimEnd (code.text.take offset)

def charBefore? (code : Code) (offset : Nat) : Option Char := (code.before offset).getLast?

/-- The characters of an identifier that end before a place. -/
def wordBefore (code : Code) (offset : Nat) : List Char :=
  ((code.before offset).reverse.takeWhile Text.isIdentifier).reverse

/-- The next character that is not blank. -/
def charAfter? (code : Code) (offset : Nat) : Option Char :=
  (Text.trimStart (code.text.drop offset)).head?

/-- Whether a line ends between a place and the next character that is not
blank. -/
def lineEndsAfter (code : Code) (offset : Nat) : Bool :=
  ((code.text.drop offset).takeWhile Text.isBlank).contains '\n'

/-! ## Replacements -/

/-- A stretch with the text that takes its place. -/
structure Replacement where
  span : Span
  text : List Char
  deriving DecidableEq, Repr

/-- What `rule` makes of the matches of a pattern that start in code, from
an offset on. The pattern must not match the empty text. -/
def replacementsFrom? (code : Code) (p : Pattern) (consuming : 0 < p.minLength)
    (rule : Pattern.Match → Option (List Char)) (offset : Nat) : Option (List Replacement) :=
  if _inside : offset ≤ code.text.length then
    match _h : p.findFrom? code.text offset with
    | none => some []
    | some m =>
      match _hl : code.literalAt? m.start with
      | some literal => replacementsFrom? code p consuming rule literal.stop
      | none =>
        match rule m with
        | none => none
        | some text =>
          (replacementsFrom? code p consuming rule m.stop).map (⟨⟨m.start, m.stop⟩, text⟩ :: ·)
  else some []
termination_by code.text.length + 1 - offset
decreasing_by
  · have := Pattern.findFrom?_some _inside _h
    have := literalAt?_some _hl
    omega
  · have := Pattern.findFrom?_some _inside _h
    omega

def replacements? (code : Code) (p : Pattern) (consuming : 0 < p.minLength)
    (rule : Pattern.Match → Option (List Char)) : Option (List Replacement) :=
  code.replacementsFrom? p consuming rule 0

/-- The text from an offset on with replacements made. -/
def patchFrom (text : List Char) : Nat → List Replacement → List Char
  | offset, [] => text.drop offset
  | offset, r :: rest =>
    Pattern.slice text offset r.span.start ++ r.text ++ patchFrom text r.span.stop rest

/-- The text with replacements made. -/
def patch (code : Code) (replacements : List Replacement) : List Char :=
  patchFrom code.text 0 replacements

end Code

end Downlevel
