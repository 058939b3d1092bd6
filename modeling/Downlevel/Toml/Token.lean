/-
Downlevel.Toml.Token — the tokens of a TOML text.

The text is taken in one character at a time by a machine that is always
in one of a few modes: between tokens, in a word, in a comment, or
somewhere in a string. Blanks and comments are no tokens, but a token
knows whether a blank stands right before it. A line break inside a string
counts as one line feed, however it is written.

A word is a run of the characters of bare keys and numbers; what it means
depends on where it stands.
-/
import Downlevel.Json.Token

namespace Downlevel.Toml

inductive Token where
  | word (chars : List Char)
  /-- A string; only one that is written on one line can be a key. -/
  | text (value : String) (isBlock : Bool)
  | dot
  | equals
  | comma
  | openArray
  | closeArray
  | openTable
  | closeTable
  | lineBreak
  deriving DecidableEq, Repr

/-- A token, and whether it follows the one before it without a blank. -/
structure Lexeme where
  token : Token
  isGlued : Bool
  deriving DecidableEq, Repr

namespace Lexer

/-! ## Characters -/

def isBlank (c : Char) : Bool := c == ' ' || c == '\t'

def isWordChar (c : Char) : Bool := c.isAlphanum || c == '_' || c == '-' || c == '+'

/-- The characters that may stand in strings and comments: no controls but
the tab. -/
def isTextChar (c : Char) : Bool := c == '\t' || (0x20 ≤ c.toNat && c.toNat != 0x7f)

def punctuation? (c : Char) : Option Token :=
  if c = '.' then some .dot
  else if c = '=' then some .equals
  else if c = ',' then some .comma
  else if c = '[' then some .openArray
  else if c = ']' then some .closeArray
  else if c = '\x7b' then some .openTable
  else if c = '\x7d' then some .closeTable
  else none

/-- The two kinds of quotes. Escapes are understood between double ones
only. -/
inductive Quote where
  | double
  | single
  deriving DecidableEq, Repr

namespace Quote

def char : Quote → Char
  | .double => '"'
  | .single => '\x27'

def escapes : Quote → Bool
  | .double => true
  | .single => false

end Quote

/-! ## Modes -/

/-- Where the machine is. Text gathered so far stands last character
first. -/
inductive Mode where
  | between
  | word (gathered : List Char)
  | comment
  /-- After the first half of a line break of two characters. -/
  | lineReturn
  /-- After one or two opening quotes that may become three. -/
  | opening (quote : Quote) (isSecond : Bool)
  | line (quote : Quote) (gathered : List Char)
  /-- Right after three opening quotes, where a line break is dropped. -/
  | blockStart (quote : Quote)
  | blockStartReturn (quote : Quote)
  /-- In a block, after a run of quotes that may belong to its end. -/
  | block (quote : Quote) (gathered : List Char) (quotes : Nat)
  | blockReturn (quote : Quote) (gathered : List Char)
  /-- After a backslash. -/
  | escape (isBlock : Bool) (gathered : List Char)
  /-- In the digits of an escaped code point. -/
  | code (isBlock : Bool) (gathered : List Char) (missing value : Nat)
  /-- After a backslash in a block that joins lines: blanks and line breaks
  are dropped, of which at least one has to be a line break. -/
  | joint (gathered : List Char) (broken : Bool)
  | jointReturn (gathered : List Char)

/-- The machine between two characters, with the tokens found so far, last
one first. -/
structure State where
  mode : Mode
  isGlued : Bool
  found : List Lexeme

def State.start : State := ⟨.between, false, []⟩

namespace State

/-- Goes on in a mode. -/
def goOn (s : State) (mode : Mode) : Option State := some { s with mode := mode }

def emit (s : State) (token : Token) : State :=
  ⟨.between, true, ⟨token, s.isGlued⟩ :: s.found⟩

def emitText (s : State) (gathered : List Char) (isBlock : Bool) : State :=
  s.emit (.text (String.ofList gathered.reverse) isBlock)

/-- Goes on in the string that an escape stands in. -/
def resume (s : State) (isBlock : Bool) (gathered : List Char) : Option State :=
  s.goOn (if isBlock then .block .double gathered 0 else .line .double gathered)

end State

/-! ## Steps -/

/-- A character outside of all tokens. -/
def stepBetween (s : State) (c : Char) : Option State :=
  if isBlank c then some { s with isGlued := false }
  else if c = '\n' then some (s.emit .lineBreak)
  else if c = '\r' then s.goOn .lineReturn
  else if c = '#' then s.goOn .comment
  else if c = Quote.double.char then s.goOn (.opening .double false)
  else if c = Quote.single.char then s.goOn (.opening .single false)
  else if isWordChar c then s.goOn (.word [c])
  else (punctuation? c).map s.emit

/-- A character in a one-line string. -/
def stepLine (s : State) (quote : Quote) (gathered : List Char) (c : Char) : Option State :=
  if c = quote.char then some (s.emitText gathered false)
  else if c = '\\' ∧ quote.escapes then s.goOn (.escape false gathered)
  else if isTextChar c then s.goOn (.line quote (c :: gathered))
  else none

/-- A character of a block that is no quote of its end. -/
def stepBlockText (s : State) (quote : Quote) (gathered : List Char) (c : Char) : Option State :=
  if c = '\\' ∧ quote.escapes then s.goOn (.escape true gathered)
  else if c = '\n' then s.goOn (.block quote ('\n' :: gathered) 0)
  else if c = '\r' then s.goOn (.blockReturn quote gathered)
  else if isTextChar c then s.goOn (.block quote (c :: gathered) 0)
  else none

/-- The text of a block that ends after a run of quotes, all but the last
three of which belong to it. -/
def endBlock (s : State) (quote : Quote) (gathered : List Char) (quotes : Nat) : State :=
  s.emitText (List.replicate (quotes - 3) quote.char ++ gathered) true

/-- A character of a block. Three quotes end it; up to two more before
them are text. -/
def stepBlock (s : State) (quote : Quote) (gathered : List Char) (quotes : Nat) (c : Char) :
    Option State :=
  if c = quote.char then
    if quotes = 4 then some (endBlock s quote gathered 5)
    else s.goOn (.block quote gathered (quotes + 1))
  else if 3 ≤ quotes then stepBetween (endBlock s quote gathered quotes) c
  else stepBlockText s quote (List.replicate quotes quote.char ++ gathered) c

/-- The character after a backslash. -/
def stepEscape (s : State) (isBlock : Bool) (gathered : List Char) (c : Char) : Option State :=
  if c = 'u' then s.goOn (.code isBlock gathered 4 0)
  else if c = 'U' then s.goOn (.code isBlock gathered 8 0)
  else if c = '/' then none
  else
    match Json.Token.simpleEscape? c with
    | some escaped => s.resume isBlock (escaped :: gathered)
    | none =>
      if isBlock then
        if isBlank c then s.goOn (.joint gathered false)
        else if c = '\n' then s.goOn (.joint gathered true)
        else if c = '\r' then s.goOn (.jointReturn gathered)
        else none
      else none

/-- A digit of a code point; the last one completes it. -/
def stepCode (s : State) (isBlock : Bool) (gathered : List Char) (missing value : Nat) (c : Char) :
    Option State :=
  match Json.Token.hexValue? c with
  | none => none
  | some digit =>
    let value := value * 16 + digit
    if 1 < missing then s.goOn (.code isBlock gathered (missing - 1) value)
    else if value.isValidChar then s.resume isBlock (Char.ofNat value :: gathered)
    else none

/-- A character after a joint of lines. -/
def stepJoint (s : State) (gathered : List Char) (broken : Bool) (c : Char) : Option State :=
  if isBlank c then s.goOn (.joint gathered broken)
  else if c = '\n' then s.goOn (.joint gathered true)
  else if c = '\r' then s.goOn (.jointReturn gathered)
  else if broken then stepBlock s .double gathered 0 c
  else none

/-- Takes in one character; none where no TOML text goes on this way. -/
def step (s : State) (c : Char) : Option State :=
  match s.mode with
  | .between => stepBetween s c
  | .word gathered =>
    if isWordChar c then s.goOn (.word (c :: gathered))
    else stepBetween (s.emit (.word gathered.reverse)) c
  | .comment =>
    if isTextChar c then some s
    else if c = '\n' ∨ c = '\r' then stepBetween s c
    else none
  | .lineReturn => if c = '\n' then some (s.emit .lineBreak) else none
  | .opening quote isSecond =>
    if isSecond then
      if c = quote.char then s.goOn (.blockStart quote)
      else stepBetween (s.emitText [] false) c
    else if c = quote.char then s.goOn (.opening quote true)
    else stepLine s quote [] c
  | .line quote gathered => stepLine s quote gathered c
  | .blockStart quote =>
    if c = '\n' then s.goOn (.block quote [] 0)
    else if c = '\r' then s.goOn (.blockStartReturn quote)
    else stepBlock s quote [] 0 c
  | .blockStartReturn quote => if c = '\n' then s.goOn (.block quote [] 0) else none
  | .block quote gathered quotes => stepBlock s quote gathered quotes c
  | .blockReturn quote gathered =>
    if c = '\n' then s.goOn (.block quote ('\n' :: gathered) 0) else none
  | .escape isBlock gathered => stepEscape s isBlock gathered c
  | .code isBlock gathered missing value => stepCode s isBlock gathered missing value c
  | .joint gathered broken => stepJoint s gathered broken c
  | .jointReturn gathered => if c = '\n' then s.goOn (.joint gathered true) else none

/-- The tokens once the text has ended; none where it ended inside of
one. -/
def finish? (s : State) : Option (List Lexeme) :=
  match s.mode with
  | .between | .comment => some s.found.reverse
  | .word gathered => some (s.emit (.word gathered.reverse)).found.reverse
  | .opening _ true => some (s.emitText [] false).found.reverse
  | .block quote gathered quotes =>
    if 3 ≤ quotes then some (endBlock s quote gathered quotes).found.reverse else none
  | _ => none

end Lexer

/-- The tokens of a text. A byte order mark in front of it does not
count. -/
def Lexeme.ofText? (text : String) : Option (List Lexeme) :=
  let chars := match text.toList with
    | '\ufeff' :: rest => rest
    | chars => chars
  (chars.foldlM Lexer.step .start).bind Lexer.finish?

end Downlevel.Toml
