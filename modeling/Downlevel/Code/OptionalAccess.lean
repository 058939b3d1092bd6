/-
Downlevel.Code.OptionalAccess — optional chains as guards.

A chain such as `a?.b.c?.d()` becomes `(a && a.b.c && a.b.c.d())`: each
optional link adds a guard, which is the plain chain up to that link. A
chain is replaced only where it is a whole operand, and a text is only
changed when no optional link is left in its code.
-/
import Downlevel.Code.Basic

namespace Downlevel.Code.OptionalAccess

open Pattern

/-! ## Chains -/

/-- A name, arguments or an index. -/
def part : Pattern := name ||| parenthesized ||| indexed

def optionalLink : Pattern := literal "?." ++ part

/-- A link of a chain, optional or not. -/
def link : Pattern := (literal "." ++ name) ||| parenthesized ||| indexed ||| optionalLink

/-- A name with links of which at least one is optional. -/
def chain : Pattern := name ++ .star link ++ optionalLink ++ .star link

theorem chain_consuming : 0 < chain.minLength := by decide

/-- A link taken apart: group 1 is its accessor, group 2 the rest. -/
def linkParts : Pattern := opt (.group 1 (literal "?." ||| literal ".")) ++ .group 2 part

/-- The pieces of a link. -/
structure Link where
  accessor : Option (List Char)
  part : List Char
  deriving DecidableEq, Repr

def Link.isOptional (l : Link) : Bool := l.accessor == some ['?', '.']

def isBracket (c : Char) : Bool := c == '(' || c == '['

/-- A link as it is written in a plain chain: brackets follow directly,
a name after a dot. -/
def Link.plain (l : Link) : List Char :=
  if l.accessor.isSome && !(l.part.head?.any isBracket) then '.' :: l.part else l.part

/-- Where the name that a chain starts with ends. -/
def isBaseChar (c : Char) : Bool := !(c == '.' || c == '?' || isBracket c)

def base (chain : List Char) : List Char := chain.takeWhile isBaseChar

def links (chain : List Char) : List Link :=
  let rest := chain.dropWhile isBaseChar
  (linkParts.all rest).map fun m => ⟨m.groupText? rest 1, (m.groupText? rest 2).getD []⟩

/-! ## Guards -/

/-- The plain chains before each optional link, and the whole plain chain
last. -/
def guards (current : List Char) : List Link → List (List Char)
  | [] => [current]
  | l :: rest =>
    if l.isOptional then current :: guards (current ++ l.plain) rest
    else guards (current ++ l.plain) rest

/-- The guards of a chain joined by conjunctions, in parentheses. -/
def guardChain (chain : List Char) : List Char :=
  '(' :: List.intercalate " && ".toList (guards (base chain) (links chain)) ++ [')']

/-! ## The rule -/

/-- Whether a chain is neither the tail of a longer member expression, nor
the target of `new` or `delete`, nor followed by a call, an index or a
template. -/
def isWhole (code : Code) (start stop : Nat) : Bool :=
  code.charBefore? start != some '.'
    && code.wordBefore start != "new".toList && code.wordBefore start != "delete".toList
    && !((code.charAfter? stop).any fun c => c == '(' || c == '[' || c == '\x60')

def replacement? (code : Code) (m : Match) : Option (List Char) :=
  if isWhole code m.start m.stop then some (guardChain (m.text code.text)) else none

def replacements? (code : Code) : Option (List Replacement) :=
  code.replacements? chain chain_consuming (replacement? code)

/-- An optional link in what came out. A digit after the dot makes it a
conditional. -/
def leftover : Pattern := literal "?." ++ .char fun c => !Text.isDigit c

def degrade? (source : List Char) : Option (List Char) :=
  let code := Code.ofText source
  match replacements? code with
  | none => none
  | some replacements =>
    let text := code.patch replacements
    if replacements = [] ∨ (Code.ofText text).occurs leftover then none else some text

end Downlevel.Code.OptionalAccess
