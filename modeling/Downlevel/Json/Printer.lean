/-
Downlevel.Json.Printer — the written forms of a JSON value.

`Json.print` writes a value without spaces, members in the order in which
the value lists them. `Json.canonicalText` sorts the members first, so it
gives equal texts for values that differ only in the order of members.
`Json.pretty` spreads a value over lines, two blanks for each level.

A string is written between quotes. Only the quote, the backslash and the
control characters below the blank are escaped; every other character
stands for itself. A double that is not finite is written `null`.
-/
import Downlevel.Json.Basic
import Downlevel.Decimal.Notation

namespace Downlevel.Json

/-! ## Strings -/

def hexDigit (n : Nat) : Char := Nat.digitChar n

/-- A character inside a string. -/
def escapeChar (c : Char) : List Char :=
  if c = '"' then ['\\', '"']
  else if c = '\\' then ['\\', '\\']
  else if c = '\x08' then ['\\', 'b']
  else if c = '\x0c' then ['\\', 'f']
  else if c = '\n' then ['\\', 'n']
  else if c = '\r' then ['\\', 'r']
  else if c = '\t' then ['\\', 't']
  else if c.toNat < 0x20 then
    ['\\', 'u', '0', '0', hexDigit (c.toNat / 16), hexDigit (c.toNat % 16)]
  else [c]

def escape (cs : List Char) : List Char := cs.flatMap escapeChar

def quoted (text : String) : List Char := '"' :: escape text.toList ++ ['"']

/-! ## Compact form -/

def floatText (x : Float) : List Char := (Decimal.written? x).getD ['n', 'u', 'l', 'l']

mutual

/-- A value without spaces. -/
def printChars : Json → List Char
  | .null => ['n', 'u', 'l', 'l']
  | .bool true => ['t', 'r', 'u', 'e']
  | .bool false => ['f', 'a', 'l', 's', 'e']
  | .int n => Decimal.ofInt n
  | .float x => floatText x
  | .str text => quoted text
  | .arr items => '[' :: (printItems items ++ [']'])
  | .obj members => '\x7b' :: (printMembers members ++ ['\x7d'])

def printItems : List Json → List Char
  | [] => []
  | [item] => item.printChars
  | item :: rest => item.printChars ++ ',' :: printItems rest

def printMembers : List (String × Json) → List Char
  | [] => []
  | [(key, value)] => quoted key ++ ':' :: value.printChars
  | (key, value) :: rest => quoted key ++ ':' :: (value.printChars ++ ',' :: printMembers rest)

end

def print (j : Json) : String := String.ofList j.printChars

/-- The text of a value with the members of every object sorted. -/
def canonicalText (j : Json) : String := j.canonical.print

/-! ## Spread form -/

def indent (level : Nat) : List Char := '\n' :: List.replicate (2 * level) ' '

mutual

/-- A value whose opening bracket stands at an indentation level. Empty
arrays and objects stay on one line. -/
def prettyChars (level : Nat) : Json → List Char
  | .arr [] => ['[', ']']
  | .arr (item :: rest) => '[' :: (prettyItems (level + 1) (item :: rest) ++ indent level ++ [']'])
  | .obj [] => ['\x7b', '\x7d']
  | .obj (member :: rest) =>
    '\x7b' :: (prettyMembers (level + 1) (member :: rest) ++ indent level ++ ['\x7d'])
  | .null => ['n', 'u', 'l', 'l']
  | .bool true => ['t', 'r', 'u', 'e']
  | .bool false => ['f', 'a', 'l', 's', 'e']
  | .int n => Decimal.ofInt n
  | .float x => floatText x
  | .str text => quoted text

def prettyItems (level : Nat) : List Json → List Char
  | [] => []
  | [item] => indent level ++ prettyChars level item
  | item :: rest => indent level ++ prettyChars level item ++ ',' :: prettyItems level rest

def prettyMembers (level : Nat) : List (String × Json) → List Char
  | [] => []
  | [(key, value)] => indent level ++ quoted key ++ ':' :: ' ' :: prettyChars level value
  | (key, value) :: rest =>
    indent level ++ quoted key ++ ':' :: ' ' :: prettyChars level value
      ++ ',' :: prettyMembers level rest

end

def pretty (j : Json) : String := String.ofList (prettyChars 0 j)

end Downlevel.Json
