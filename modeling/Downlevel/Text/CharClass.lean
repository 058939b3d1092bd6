/-
Downlevel.Text.CharClass — classes of characters and the operations on
text that rest on them.

Blanks, digits and word characters are those of Unicode. Below 128 each
class is the familiar one, and the tables are not consulted:

* a blank is a tab, line feed, vertical tab, form feed, carriage return
  or space;
* a digit is one of `0` to `9`;
* a word character is a letter, a digit or the underscore.

Two versions of Unicode are in use. Patterns know the characters of
version 16, so a digit or a word character beyond 127 is one that this
version has; the alphanumeric characters, of which names are made, are
those of version 17.
-/
import Downlevel.Text.Property

namespace Downlevel.Text

/-! ## Classes -/

def isBlank (c : Char) : Bool :=
  if c.toNat < 128 then c == ' ' || (9 ≤ c.toNat && c.toNat ≤ 13)
  else Property.whiteSpace.has c.toNat

/-- Whether version 16 has a character of version 17. -/
def isInVersion16 (c : Char) : Bool := !Property.addedInVersion17.has c.toNat

def isDigit (c : Char) : Bool :=
  if c.toNat < 128 then c.isDigit
  else isInVersion16 c && Property.decimalNumber.has c.toNat

/-- The letters and numbers of version 17. -/
def isAlphanumeric (c : Char) : Bool :=
  if c.toNat < 128 then c.isAlphanum
  else
    Property.alphabetic.has c.toNat || Property.decimalNumber.has c.toNat
      || Property.otherNumber.has c.toNat

/-- The characters of words: letters, marks, digits, connectors and the
two join controls. -/
def isWord (c : Char) : Bool :=
  if c.toNat < 128 then c.isAlphanum || c == '_'
  else
    isInVersion16 c
      && (Property.alphabetic.has c.toNat || Property.mark.has c.toNat
        || Property.decimalNumber.has c.toNat || Property.connectorPunctuation.has c.toNat
        || Property.joinControl.has c.toNat)

/-- The characters of identifiers, as far as scanning backwards over one
needs them. -/
def isIdentifier (c : Char) : Bool := isAlphanumeric c || c == '_' || c == '$'

/-! ## Trimming -/

def trimStart (cs : List Char) : List Char := cs.dropWhile isBlank

def trimEnd (cs : List Char) : List Char := (cs.reverse.dropWhile isBlank).reverse

def trim (cs : List Char) : List Char := trimEnd (trimStart cs)

def isBlankText (text : String) : Bool := text.toList.all isBlank

/-! ## Pieces -/

/-- Whether `part` starts `cs`. -/
def startsWith (part cs : List Char) : Bool := part.isPrefixOf cs

/-- Whether `part` occurs somewhere in `cs`. -/
def occursIn (part : List Char) : List Char → Bool
  | [] => part.isEmpty
  | c :: rest => startsWith part (c :: rest) || occursIn part rest

def contains (text part : String) : Bool := occursIn part.toList text.toList

/-- What stands after the last occurrence of a character; the whole text
where it does not occur. -/
def afterLast (c : Char) (cs : List Char) : List Char :=
  (cs.reverse.takeWhile (· != c)).reverse

/-- The pieces between the occurrences of a character; always at least
one. -/
def splitAt (c : Char) : List Char → List (List Char)
  | [] => [[]]
  | x :: rest =>
    if x = c then [] :: splitAt c rest
    else
      match splitAt c rest with
      | [] => [[x]]
      | first :: others => (x :: first) :: others

/-- Texts with a separator between them. -/
def join (separator : String) (texts : List String) : String :=
  String.ofList (List.intercalate separator.toList (texts.map String.toList))

/-- Lower-case form of the ASCII letters. -/
def lowerAscii (cs : List Char) : List Char := cs.map Char.toLower

end Downlevel.Text
