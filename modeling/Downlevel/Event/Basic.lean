/-
Downlevel.Event.Basic — what was seen in a source text.

An event names a construct that occurs in the text, with a word about it
where the word matters: the name that a call calls, the source of an
import. A syntax tree and a plain scan of the text report in the same
vocabulary.
-/
import Downlevel.Json.Record

namespace Downlevel

/-- The constructs that are told apart. -/
inductive EventKind where
  | optionalChain
  | nullishCoalescing
  | logicalAssignment
  | exponentiation
  | classField
  | privateMember
  | staticBlock
  | decorator
  | asyncFunction
  | asyncGenerator
  | topLevelAwait
  | forAwait
  | objectSpread
  | objectRest
  | arrowFunction
  | templateLiteral
  | blockScopedDeclaration
  | classDeclaration
  | classExtends
  | bigInt
  | numericSeparator
  | dynamicImport
  | importMeta
  | moduleForm
  | importSource
  | ascription
  | interfaceDeclaration
  | typeAlias
  | enumDeclaration
  | typeAssertion
  | markupElement
  | markupFragment
  | call
  deriving DecidableEq, Repr, Inhabited

namespace EventKind

def all : List EventKind := [
  .optionalChain, .nullishCoalescing, .logicalAssignment, .exponentiation, .classField,
  .privateMember, .staticBlock, .decorator, .asyncFunction, .asyncGenerator, .topLevelAwait,
  .forAwait, .objectSpread, .objectRest, .arrowFunction, .templateLiteral,
  .blockScopedDeclaration, .classDeclaration, .classExtends, .bigInt, .numericSeparator,
  .dynamicImport, .importMeta, .moduleForm, .importSource, .ascription,
  .interfaceDeclaration, .typeAlias, .enumDeclaration, .typeAssertion, .markupElement,
  .markupFragment, .call]

def name : EventKind → String
  | .optionalChain => "optional-chain"
  | .nullishCoalescing => "nullish-coalescing"
  | .logicalAssignment => "logical-assignment"
  | .exponentiation => "exponentiation"
  | .classField => "class-field"
  | .privateMember => "private-member"
  | .staticBlock => "static-block"
  | .decorator => "decorator"
  | .asyncFunction => "async-function"
  | .asyncGenerator => "async-generator"
  | .topLevelAwait => "top-level-await"
  | .forAwait => "for-await"
  | .objectSpread => "object-spread"
  | .objectRest => "object-rest"
  | .arrowFunction => "arrow-function"
  | .templateLiteral => "template-literal"
  | .blockScopedDeclaration => "block-scoped-declaration"
  | .classDeclaration => "class"
  | .classExtends => "class-extends"
  | .bigInt => "big-int"
  | .numericSeparator => "numeric-separator"
  | .dynamicImport => "dynamic-import"
  | .importMeta => "import-meta"
  | .moduleForm => "module-syntax"
  | .importSource => "import-source"
  | .ascription => "type-annotation"
  | .interfaceDeclaration => "interface"
  | .typeAlias => "type-alias"
  | .enumDeclaration => "enum"
  | .typeAssertion => "type-assertion"
  | .markupElement => "markup-element"
  | .markupFragment => "markup-fragment"
  | .call => "call"

def toJson (k : EventKind) : Json := .str k.name

def ofJson? : Json → Option EventKind := Json.choice? (Json.named? name all) Json.isNull

end EventKind

/-- A construct that was seen. -/
structure Event where
  kind : EventKind
  data : Option String
  deriving DecidableEq, Repr

namespace Event

/-- A construct about which nothing more is reported. -/
def plain (kind : EventKind) : Event := ⟨kind, none⟩

def about (kind : EventKind) (data : String) : Event := ⟨kind, some data⟩

def toJson (e : Event) : Json := .obj [
  ("nodeKind", e.kind.toJson),
  ("nodeData", Json.ofOption Json.str e.data)]

def ofJson? : Json → Option Event := Json.Record.read do
  let kind ← Json.Record.required "nodeKind" EventKind.ofJson?
  let data ← Json.Record.optional "nodeData" Json.str?
  return ⟨kind, data⟩

end Event

end Downlevel
