/-
Downlevel.Toml.Reader — from a TOML text to its value.

The tokens are taken in one at a time, with the document so far, the
table that the last header named, and the arrays and inline tables that
are still open. The value is the document as data: an object whose keys
ascend.

Values nest less than 80 deep, and a key has less than 80 parts.
-/
import Downlevel.Toml.Scalar
import Downlevel.Toml.Table
import Downlevel.Toml.Token

namespace Downlevel.Toml

/-- The parts of a key so far, last one first. -/
abbrev KeyPath := List String

/-- A value that is still open: an array with its items so far, last one
first, or an inline table with its pairs so far and the key of the next
one. -/
inductive Frame where
  | array (done : List Json)
  | table (done : Entries) (key : KeyPath)

/-- What the next token may be. -/
inductive Expected where
  | statement
  | lineEnd
  /-- A part of a key. -/
  | keyPart (before : KeyPath)
  /-- A dot or an equals sign after part of a key. -/
  | keyEnd (key : KeyPath)
  /-- After the first bracket of a header. -/
  | header
  | headerPart (isSeries : Bool) (before : KeyPath)
  | headerEnd (isSeries : Bool) (key : KeyPath)
  /-- The second closing bracket of a series' header. -/
  | seriesEnd
  | value
  /-- After a word that may be the whole part of a number. -/
  | point (word : List Char)
  | fraction (word : List Char)
  /-- After a complete value. -/
  | after (value : Json)
  /-- An item of an array, or its end. -/
  | item
  /-- The first key of an inline table, or its end. -/
  | firstKey

/-- A document that is being read. -/
structure Document where
  root : Entries
  /-- The path of the table that the last header named. -/
  header : List String
  /-- The key whose value is being read. -/
  key : KeyPath
  frames : List Frame
  expected : Expected

namespace Document

def start : Document := ⟨[], [], [], [], .statement⟩

def maxDepth : Nat := 80

def expect (d : Document) (expected : Expected) : Option Document :=
  some { d with expected := expected }

/-! ## Keys -/

/-- The part of a key that a token is. -/
def part? : Token → Option String
  | .word chars => if chars.contains '+' then none else some (String.ofList chars)
  | .text value false => some value
  | _ => none

/-- A key with one more part. -/
def extend? (before : KeyPath) (token : Token) : Option KeyPath :=
  (part? token).bind fun part =>
    if before.length + 1 < maxDepth then some (part :: before) else none

/-- Opens the table that a complete header names. -/
def openHeader? (d : Document) (isSeries : Bool) (key : KeyPath) : Option Document :=
  match key with
  | [] => none
  | last :: before =>
    let path := before.reverse
    let opened :=
      if isSeries then d.root.openSeries? path last else d.root.openTable? path last
    opened.map fun root => { d with root := root, header := key.reverse, expected := .lineEnd }

/-- Starts the value of a complete key. -/
def startValue (d : Document) (key : KeyPath) : Document :=
  match d.frames with
  | .table done _ :: frames => { d with frames := .table done key :: frames, expected := .value }
  | _ => { d with key := key, expected := .value }

/-! ## Values -/

/-- Opens an array or an inline table. -/
def openFrame? (d : Document) (frame : Frame) (expected : Expected) : Option Document :=
  if d.frames.length + 1 < maxDepth then
    some { d with frames := frame :: d.frames, expected := expected }
  else none

/-- Closes the innermost array or inline table, whose value it is. -/
def closeFrame (d : Document) (frames : List Frame) (value : Json) : Option Document :=
  some { d with frames := frames, expected := .after value }

/-- A token that starts a value. -/
def beginValue? (d : Document) (token : Token) : Option Document :=
  match token with
  | .word chars => d.expect (.point chars)
  | .text value _ => d.expect (.after (.str value))
  | .openArray => d.openFrame? (.array []) .item
  | .openTable => d.openFrame? (.table [] []) .firstKey
  | _ => none

/-- An inline table with the pair whose value is complete. -/
def addInline? (done : Entries) (key : KeyPath) (value : Json) : Option Entries :=
  match key with
  | [] => none
  | last :: before => done.addPair? before.reverse last value

/-- Adds the pair of a line whose value is complete. -/
def addLine? (d : Document) (value : Json) : Option Document :=
  match d.key with
  | [] => none
  | last :: before =>
    (d.root.addBelow? d.header before.reverse last value).map fun root =>
      { d with root := root, expected := .statement }

/-- A token after a complete value. -/
def afterValue? (d : Document) (value : Json) (token : Token) : Option Document :=
  match d.frames, token with
  | [], .lineBreak => d.addLine? value
  | .array _ :: _, .lineBreak => d.expect (.after value)
  | .array done :: frames, .comma =>
    some { d with frames := .array (value :: done) :: frames, expected := .item }
  | .array done :: frames, .closeArray => d.closeFrame frames (.arr (value :: done).reverse)
  | .table done key :: frames, .comma =>
    (addInline? done key value).map fun done =>
      { d with frames := .table done [] :: frames, expected := .keyPart [] }
  | .table done key :: frames, .closeTable =>
    (addInline? done key value).bind fun done => d.closeFrame frames done.toJson
  | _, _ => none

/-- Takes a completed word for a value and goes on after it. -/
def afterWord? (d : Document) (word : List Char) (token : Token) : Option Document :=
  (scalar? word).bind fun value => d.afterValue? value token

/-! ## Steps -/

/-- Takes in one token; none where no document goes on this way. -/
def step (d : Document) (lexeme : Lexeme) : Option Document :=
  let token := lexeme.token
  match d.expected with
  | .statement =>
    match token with
    | .lineBreak => some d
    | .openArray => d.expect .header
    | token => (extend? [] token).bind fun key => d.expect (.keyEnd key)
  | .lineEnd => if token = .lineBreak then d.expect .statement else none
  | .keyPart before => (extend? before token).bind fun key => d.expect (.keyEnd key)
  | .keyEnd key =>
    match token with
    | .dot => d.expect (.keyPart key)
    | .equals => some (d.startValue key)
    | _ => none
  | .header =>
    if token = .openArray ∧ lexeme.isGlued then d.expect (.headerPart true [])
    else (extend? [] token).bind fun key => d.expect (.headerEnd false key)
  | .headerPart isSeries before =>
    (extend? before token).bind fun key => d.expect (.headerEnd isSeries key)
  | .headerEnd isSeries key =>
    match token with
    | .dot => d.expect (.headerPart isSeries key)
    | .closeArray =>
      (d.openHeader? isSeries key).map fun d =>
        if isSeries then { d with expected := .seriesEnd } else d
    | _ => none
  | .seriesEnd => if token = .closeArray ∧ lexeme.isGlued then d.expect .lineEnd else none
  | .value => d.beginValue? token
  | .point word =>
    if token = .dot ∧ lexeme.isGlued then d.expect (.fraction word) else d.afterWord? word token
  | .fraction word =>
    match token with
    | .word chars =>
      if lexeme.isGlued then
        (scalar? (word ++ '.' :: chars)).bind fun value => d.expect (.after value)
      else none
    | _ => none
  | .after value => d.afterValue? value token
  | .item =>
    match d.frames, token with
    | _, .lineBreak => some d
    | .array done :: frames, .closeArray => d.closeFrame frames (.arr done.reverse)
    | _, token => d.beginValue? token
  | .firstKey =>
    match d.frames, token with
    | .table done _ :: frames, .closeTable => d.closeFrame frames done.toJson
    | _, token => (extend? [] token).bind fun key => d.expect (.keyEnd key)

/-- The document once the tokens have ended, which also end the line. -/
def finish? (d : Document) : Option Json :=
  match d.expected with
  | .statement | .lineEnd => some d.root.toJson
  | _ => (d.step ⟨.lineBreak, false⟩).bind fun d =>
    match d.expected with
    | .statement => some d.root.toJson
    | _ => none

end Document

/-- The value of a TOML text; none when the text is malformed. -/
def parse? (text : String) : Option Json :=
  (Lexeme.ofText? text).bind fun lexemes =>
    (lexemes.foldlM Document.step .start).bind Document.finish?

end Downlevel.Toml
