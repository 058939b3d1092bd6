/-
Downlevel.Pattern.Script — patterns for the small parts of a script.

Names start with an ASCII letter, an underscore or a dollar sign and go on
with any word characters and dollar signs. Blanks, digits and the edges of
words are those of Unicode.
-/
import Downlevel.Pattern.Basic
import Downlevel.Text.CharClass

namespace Downlevel.Pattern

/-! ## Characters -/

def isNameStart (c : Char) : Bool := c.isAlpha || c == '_' || c == '$'

def isNamePart (c : Char) : Bool := Text.isWord c || c == '$'

def nameStart : Pattern := .char isNameStart

def namePart : Pattern := .char isNamePart

/-- The start of a name, or one of the given characters. -/
def nameStartOr (chars : String) : Pattern :=
  let listed := chars.toList
  .char fun c => isNameStart c || listed.contains c

/-- A word character, or one of the given characters. -/
def wordOr (chars : String) : Pattern :=
  let listed := chars.toList
  .char fun c => Text.isWord c || listed.contains c

def digit : Pattern := .char Text.isDigit

def blank : Pattern := .char Text.isBlank

/-- The edge of a word. -/
def edge : Pattern := .boundary Text.isWord

/-! ## Runs -/

/-- Any number of blanks. -/
def blanks : Pattern := .star blank

/-- At least one blank. -/
def gap : Pattern := .plus blank

/-- A whole name. -/
def name : Pattern := nameStart ++ .star namePart

/-- A word that is not the end of a longer one. -/
def keyword (text : String) : Pattern := edge ++ literal text

/-- A pair of brackets around characters other than the brackets
themselves. -/
def bracketed (opening closing : String) : Pattern :=
  literal opening ++ .star (noneOf (opening ++ closing)) ++ literal closing

/-- Parentheses without parentheses inside. -/
def parenthesized : Pattern := bracketed "(" ")"

/-- Square brackets without square brackets inside. -/
def indexed : Pattern := bracketed "[" "]"

end Downlevel.Pattern
