/-
Downlevel.Event.TextScan — events of a text that does not parse.

One detector per construct looks for its outer form in the text. Some
report each occurrence together with a name in it, the others report once
that the construct occurs. The detectors know nothing of strings and
comments, so a construct inside a string is reported too.
-/
import Downlevel.Event.Basic
import Downlevel.Pattern.Script

namespace Downlevel.Event

open Pattern

/-! ## Forms of constructs -/

/-- Group 1 is what a detector reports about an occurrence. -/
def reported (p : Pattern) : Pattern := .group 1 p

def optionalChainForm : Pattern := literal "?." ++ nameStartOr "[("

def nullishForm : Pattern := literal "??" ++ (noneOf "=" ||| .textEnd)

def logicalAssignmentForm : Pattern :=
  (literal "||" ||| literal "&&" ||| literal "??") ++ literal "="

def exponentiationForm : Pattern :=
  wordOr ")]" ++ blanks ++ literal "**" ++ opt (literal "=") ++ blanks ++ wordOr "(-"

def classFieldForm : Pattern :=
  .lineStart ++ blanks ++ literal "static" ++ gap ++ nameStartOr "#" ++ .star namePart ++ blanks
    ++ literal "="

def privateMemberForm : Pattern :=
  (literal "." ||| (.lineStart ++ blanks) ||| (keyword "static" ++ gap)) ++ literal "#" ++ name

def staticBlockForm : Pattern := keyword "static" ++ blanks ++ literal "\x7b"

def decoratorForm : Pattern :=
  .lineStart ++ blanks ++ literal "@" ++ nameStart ++ .star (wordOr "$.")

def asyncGeneratorForm : Pattern :=
  keyword "async" ++ gap ++ literal "function" ++ blanks ++ literal "*"

def asyncFunctionForm : Pattern :=
  keyword "async" ++ gap
    ++ ((literal "function" ++ edge) ||| literal "(" ||| (name ++ blanks ++ literal "=>"))

def forAwaitForm : Pattern :=
  keyword "for" ++ gap ++ literal "await" ++ blanks ++ literal "("

def objectSpreadForm : Pattern :=
  (literal "\x7b" ++ blanks ++ literal "..." ++ nameStart)
    ||| (literal "," ++ blanks ++ literal "..." ++ nameStart ++ .star (wordOr "$.") ++ blanks
      ++ literal "\x7d")

def arrowForm : Pattern := literal "=>"

def templateForm : Pattern := literal "\x60"

def blockScopedForm : Pattern :=
  edge ++ reported (literal "let" ||| literal "const") ++ gap ++ nameStartOr "[\x7b"

def classForm : Pattern := keyword "class" ++ gap ++ nameStart

def classExtendsForm : Pattern :=
  keyword "class" ++ gap ++ name ++ gap ++ literal "extends" ++ gap
    ++ reported (name ++ opt (literal "." ++ name))

def bigIntForm : Pattern :=
  edge ++ digit ++ .star (.char fun c => Text.isDigit c || c == '_') ++ literal "n" ++ edge

def numericSeparatorForm : Pattern := edge ++ plus digit ++ literal "_" ++ digit

def dynamicImportForm : Pattern := keyword "import" ++ blanks ++ literal "("

def importMetaForm : Pattern := keyword "import.meta" ++ edge

def moduleForm : Pattern :=
  .lineStart ++ blanks
    ++ ((literal "import" ++ gap ++ wordOr "*\x7b'\"") ||| (literal "export" ++ gap))

def importSourceForm : Pattern :=
  .lineStart ++ blanks ++ literal "import" ++ gap
    ++ opt (plus (.char fun c => Text.isWord c || Text.isBlank c || "*\x7b\x7d,$".toList.contains c)
      ++ gap ++ literal "from" ++ gap)
    ++ oneOf "'\"" ++ reported (plus (noneOf "'\"")) ++ oneOf "'\""

/-- A type name that starts with a capital, with its arguments. -/
def capitalizedName : Pattern := .char Char.isUpper ++ .star namePart

def ascriptionForm : Pattern :=
  nameStartOr ")" ++ .star namePart ++ opt (literal "?") ++ blanks ++ literal ":" ++ blanks
    ++ alts [literal "string", literal "number", literal "boolean", literal "any",
      literal "unknown", literal "void", literal "never", literal "object",
      capitalizedName ++ opt (bracketed "<" ">")]
    ++ opt (literal "[]") ++ blanks ++ oneOf ",)=;\x7b"

/-- Type parameters, up to the first closing bracket. -/
def typeParameters : Pattern := literal "<" ++ .star (noneOf ">") ++ literal ">"

def interfaceForm : Pattern :=
  keyword "interface" ++ gap ++ reported name ++ blanks ++ opt typeParameters ++ blanks
    ++ opt (literal "extends" ++ gap ++ plus (noneOf "\x7b")) ++ literal "\x7b"

def typeAliasForm : Pattern :=
  .lineStart ++ blanks ++ opt (literal "export" ++ gap) ++ literal "type" ++ gap ++ reported name
    ++ blanks ++ opt typeParameters ++ blanks ++ literal "="

def enumForm : Pattern := keyword "enum" ++ gap ++ reported name ++ blanks ++ literal "\x7b"

def typeAssertionForm : Pattern :=
  (keyword "as" ++ gap
      ++ alts [literal "const", literal "string", literal "number", literal "boolean",
        literal "any", literal "unknown", capitalizedName]
      ++ edge)
    ||| (keyword "satisfies" ++ gap ++ nameStart)

def markupElementForm : Pattern :=
  (.lineStart ||| oneOf "(=?:,&|" ||| keyword "return") ++ blanks ++ literal "<"
    ++ .char Char.isAlpha ++ .star (wordOr ".:-") ++ opt (blank ++ .star (noneOf "<>"))
    ++ opt (literal "/") ++ literal ">"

def markupFragmentForm : Pattern := literal "<>" ||| literal "</>"

def callForm : Pattern :=
  edge ++ reported (name ++ opt (literal "." ++ name)) ++ blanks ++ literal "("

/-- Words that stand before a parenthesis without calling anything. -/
def callKeywords : List String := [
  "if", "for", "while", "switch", "catch", "function", "return", "typeof", "import", "super",
  "new", "await", "with", "do", "else", "in", "of", "void", "delete"]

/-! ## Detectors -/

/-- How much a detector reports. -/
inductive DetectorMode where
  /-- Once, that the construct occurs. -/
  | presence
  /-- The reported word of the first occurrence. -/
  | first
  /-- The reported word of every occurrence. -/
  | each
  deriving DecidableEq

structure Detector where
  kind : EventKind
  mode : DetectorMode
  form : Pattern

/-- The detectors in the order of their reports. -/
def detectors : List Detector := [
  ⟨.optionalChain, .presence, optionalChainForm⟩,
  ⟨.nullishCoalescing, .presence, nullishForm⟩,
  ⟨.logicalAssignment, .presence, logicalAssignmentForm⟩,
  ⟨.exponentiation, .presence, exponentiationForm⟩,
  ⟨.classField, .presence, classFieldForm⟩,
  ⟨.privateMember, .presence, privateMemberForm⟩,
  ⟨.staticBlock, .presence, staticBlockForm⟩,
  ⟨.decorator, .presence, decoratorForm⟩,
  ⟨.asyncGenerator, .presence, asyncGeneratorForm⟩,
  ⟨.asyncFunction, .presence, asyncFunctionForm⟩,
  ⟨.forAwait, .presence, forAwaitForm⟩,
  ⟨.objectSpread, .presence, objectSpreadForm⟩,
  ⟨.arrowFunction, .presence, arrowForm⟩,
  ⟨.templateLiteral, .presence, templateForm⟩,
  ⟨.blockScopedDeclaration, .first, blockScopedForm⟩,
  ⟨.classDeclaration, .presence, classForm⟩,
  ⟨.classExtends, .each, classExtendsForm⟩,
  ⟨.bigInt, .presence, bigIntForm⟩,
  ⟨.numericSeparator, .presence, numericSeparatorForm⟩,
  ⟨.dynamicImport, .presence, dynamicImportForm⟩,
  ⟨.importMeta, .presence, importMetaForm⟩,
  ⟨.moduleForm, .presence, moduleForm⟩,
  ⟨.importSource, .each, importSourceForm⟩,
  ⟨.ascription, .presence, ascriptionForm⟩,
  ⟨.interfaceDeclaration, .each, interfaceForm⟩,
  ⟨.typeAlias, .each, typeAliasForm⟩,
  ⟨.enumDeclaration, .each, enumForm⟩,
  ⟨.typeAssertion, .presence, typeAssertionForm⟩,
  ⟨.markupElement, .presence, markupElementForm⟩,
  ⟨.markupFragment, .presence, markupFragmentForm⟩,
  ⟨.call, .each, callForm⟩]

/-- The events of one occurrence. -/
def ofOccurrence (kind : EventKind) (text : List Char) (m : Match) : List Event :=
  match m.groupText? text 1 with
  | some word =>
    let word := String.ofList word
    if kind = .call ∧ callKeywords.contains word then [] else [.about kind word]
  | none => []

def Detector.scan (d : Detector) (text : List Char) : List Event :=
  match d.mode with
  | .presence => if d.form.occurs text then [.plain d.kind] else []
  | .first => ((d.form.find? text).map (ofOccurrence d.kind text)).getD []
  | .each => (d.form.all text).flatMap (ofOccurrence d.kind text)

/-- The events of a text, found without a syntax tree. -/
def scanText (source : String) : List Event :=
  let text := source.toList
  detectors.flatMap fun d => d.scan text

end Downlevel.Event
