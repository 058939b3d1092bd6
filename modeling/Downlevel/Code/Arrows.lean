/-
Downlevel.Code.Arrows — arrow functions as function expressions.

An arrow with a block becomes `function(params)` in front of its block. An
arrow with an expression becomes a function that returns the expression,
in which arrows are replaced too.

A text is first taken apart into the pieces that stay and the arrows
(`pieces`). `ArrowPiece.written` gives the new form of a piece and
`ArrowPiece.given` its old one, so what is kept and what is changed can
be read off the pieces.
-/
import Downlevel.Code.Basic

namespace Downlevel.Code.Arrows

open Pattern

/-! ## Heads and bodies -/

/-- The head of an arrow up to its body. Group 1 holds parameters in
parentheses, group 2 a bare one. -/
def head : Pattern :=
  ((literal "(" ++ .group 1 (.star (noneOf "()")) ++ literal ")") ||| (edge ++ .group 2 name))
    ++ blanks ++ literal "=>" ++ blanks

theorem two_le_minLength_head : 2 ≤ head.minLength := by decide

/-- The parameters that a head declares. -/
def parameters (text : List Char) (m : Match) : List Char :=
  Text.trim (((m.groupText? text 1).or (m.groupText? text 2)).getD [])

/-- How far a scan of an expression has come: the brackets that are open,
the quote that is open, and whether the next character is escaped. -/
structure ScanState where
  depth : Nat
  quote : Option Char
  escaped : Bool
  deriving DecidableEq, Repr

def isOpening (c : Char) : Bool := c == '(' || c == '[' || c == '\x7b'

def isClosing (c : Char) : Bool := c == ')' || c == ']' || c == '\x7d'

def isSeparator (c : Char) : Bool := c == ',' || c == ';' || c == '\n'

/-- One character of an expression; none where it ends the expression. -/
def ScanState.step (s : ScanState) (c : Char) : Option ScanState :=
  match s.quote with
  | some q =>
    if s.escaped then some { s with escaped := false }
    else if c = '\\' then some { s with escaped := true }
    else if c = q then some { s with quote := none }
    else some s
  | none =>
    if Segment.isQuote c then some { s with quote := some c }
    else if isOpening c then some { s with depth := s.depth + 1 }
    else if isClosing c then if s.depth = 0 then none else some { s with depth := s.depth - 1 }
    else if isSeparator c && s.depth == 0 then none
    else some s

/-- The number of characters until an expression ends. -/
def expressionLength (s : ScanState) : List Char → Nat
  | [] => 0
  | c :: rest =>
    match s.step c with
    | none => 0
    | some s => expressionLength s rest + 1

/-- Where an expression body ends: at the first separator or closing
bracket outside of brackets and strings of its own. -/
def expressionEnd (body : List Char) : Nat := expressionLength ⟨0, none, false⟩ body

/-- The expression body at the start of a text, without blanks at its
end. -/
def expressionBody (after : List Char) : List Char :=
  Text.trimEnd (after.take (expressionEnd after))

theorem length_trimEnd_le (cs : List Char) : (Text.trimEnd cs).length ≤ cs.length := by
  have := (List.dropWhile_sublist Text.isBlank (l := cs.reverse)).length_le
  simpa [Text.trimEnd] using this

theorem length_expressionBody_le (after : List Char) :
    (expressionBody after).length ≤ after.length := by
  have := length_trimEnd_le (after.take (expressionEnd after))
  simp only [List.length_take] at this
  unfold expressionBody
  omega

/-! ## Pieces -/

/-- A piece of a text: characters that stay, the head of an arrow whose
block follows, or an arrow with the pieces of its expression. -/
inductive ArrowPiece where
  | kept (text : List Char)
  | blockHead (head parameters : List Char)
  | expression (head parameters : List Char) (body : List ArrowPiece)

/-- The pieces of a text from offset `last` on, in which arrows are looked
for from offset `offset` on. -/
def piecesFrom (text : List Char) (last offset : Nat) : List ArrowPiece :=
  if _inside : offset ≤ text.length then
    match _h : head.findFrom? text offset with
    | none => [.kept (text.drop last)]
    | some m =>
      match _hl : (Code.ofText text).literalAt? m.start with
      | some literal => piecesFrom text last literal.stop
      | none =>
        let skipped := ArrowPiece.kept (slice text last m.start)
        let after := text.drop m.stop
        if after.head? = some '\x7b' then
          skipped :: .blockHead (m.text text) (parameters text m) :: piecesFrom text m.stop m.stop
        else
          let body := expressionBody after
          skipped :: .expression (m.text text) (parameters text m) (piecesFrom body 0 0)
            :: piecesFrom text (m.stop + body.length) (m.stop + body.length)
  else [.kept (text.drop last)]
termination_by (text.length, text.length + 1 - offset)
decreasing_by
  · have := findFrom?_some _inside _h
    have := literalAt?_some _hl
    exact Prod.Lex.right _ (by omega)
  · have := findFrom?_some _inside _h
    have := two_le_minLength_head
    exact Prod.Lex.right _ (by omega)
  · have := findFrom?_some _inside _h
    have := two_le_minLength_head
    have := length_expressionBody_le (text.drop m.stop)
    rw [List.length_drop] at this
    exact Prod.Lex.left _ _ (by omega)
  · have := findFrom?_some _inside _h
    have := two_le_minLength_head
    exact Prod.Lex.right _ (by omega)

def pieces (text : List Char) : List ArrowPiece := piecesFrom text 0 0

mutual

/-- The new form of a piece. -/
def ArrowPiece.written : ArrowPiece → List Char
  | .kept text => text
  | .blockHead _ parameters => "function(".toList ++ parameters ++ ") ".toList
  | .expression _ parameters body =>
    "function(".toList ++ parameters ++ ") \x7b return ".toList ++ writtenAll body
      ++ "; \x7d".toList

def writtenAll : List ArrowPiece → List Char
  | [] => []
  | piece :: rest => piece.written ++ writtenAll rest

end

mutual

/-- The old form of a piece. -/
def ArrowPiece.given : ArrowPiece → List Char
  | .kept text => text
  | .blockHead head _ => head
  | .expression head _ body => head ++ givenAll body

def givenAll : List ArrowPiece → List Char
  | [] => []
  | piece :: rest => piece.given ++ givenAll rest

end

/-! ## The rule -/

/-- A text with every arrow replaced. -/
def lowered (text : List Char) : List Char := writtenAll (pieces text)

/-- An arrow in what came out. -/
def leftover : Pattern := literal "=>"

def degrade? (source : List Char) : Option (List Char) :=
  let text := lowered source
  if text = source ∨ (Code.ofText text).occurs leftover then none else some text

end Downlevel.Code.Arrows
