/-
Downlevel.Event.Collector — events of a syntax tree.

A tree is walked once, every node before its children. The collector
counts the functions around the current node, because an `await` outside
of all of them makes the text a module.

`ownEvents` says what a node itself reports. A collector that has visited
a node stands at the depth at which it entered it.
-/
import Downlevel.Event.Basic
import Downlevel.Event.SyntaxTree
import Downlevel.Text.Bytes

namespace Downlevel

/-! ## Reports of one node -/

namespace SyntaxNode

/-- Whether the bytes of the source between two offsets hold a digit
separator. -/
def hasSeparator (source : String) (start stop : Nat) : Bool :=
  ((Text.byteSlice? source.toList start stop).getD []).contains '_'

/-- The name declared by a node whose first child is that name. -/
def declaredName (children : List SyntaxNode) : String :=
  ((children.head?.bind name?).getD "")

/-- What a node reports about itself, `depth` functions deep. -/
def ownEvents (source : String) (depth : Nat) (node : SyntaxNode) : List Event :=
  let children := node.children
  match node.shape with
  | .chainExpression => [.plain .optionalChain]
  | .logicalExpression operator => if operator = "??" then [.plain .nullishCoalescing] else []
  | .assignmentExpression operator =>
    if operator = "&&=" ∨ operator = "||=" ∨ operator = "??=" then [.plain .logicalAssignment]
    else if operator = "**=" then [.plain .exponentiation]
    else []
  | .binaryExpression operator => if operator = "**" then [.plain .exponentiation] else []
  | .propertyDefinition => [.plain .classField]
  | .privateIdentifier name => [.about .privateMember name]
  | .staticBlock => [.plain .staticBlock]
  | .decorator => [.plain .decorator]
  | .function isAsync isGenerator =>
    if isAsync then [.plain (if isGenerator then .asyncGenerator else .asyncFunction)] else []
  | .arrowFunction isAsync =>
    .plain .arrowFunction :: if isAsync then [.plain .asyncFunction] else []
  | .awaitExpression => if depth = 0 then [.plain .topLevelAwait] else []
  | .forOfStatement isAwait => if isAwait then [.plain .forAwait] else []
  | .objectExpression =>
    if children.any fun c => c.shape == .spreadElement then [.plain .objectSpread] else []
  | .objectPattern hasRest => if hasRest then [.plain .objectRest] else []
  | .templateLiteral => [.plain .templateLiteral]
  | .variableDeclaration keyword =>
    if keyword = "let" ∨ keyword = "const" then [.about .blockScopedDeclaration keyword] else []
  | .classNode heritage =>
    .plain .classDeclaration ::
      match (heritage.bind fun i => children[i]?).bind calledName? with
      | some name => [.about .classExtends name]
      | none => []
  | .bigIntLiteral start stop =>
    .plain .bigInt :: if hasSeparator source start stop then [.plain .numericSeparator] else []
  | .numericLiteral start stop =>
    if hasSeparator source start stop then [.plain .numericSeparator] else []
  | .importExpression => [.plain .dynamicImport]
  | .metaProperty => if declaredName children = "import" then [.plain .importMeta] else []
  | .importDeclaration source => [.plain .moduleForm, .about .importSource source]
  | .exportDeclaration => [.plain .moduleForm]
  | .ascription => [.plain .ascription]
  | .interfaceDeclaration => [.about .interfaceDeclaration (declaredName children)]
  | .typeAliasDeclaration => [.about .typeAlias (declaredName children)]
  | .enumDeclaration => [.about .enumDeclaration (declaredName children)]
  | .typeAssertion => [.plain .typeAssertion]
  | .markupElement => [.plain .markupElement]
  | .markupFragment => [.plain .markupFragment]
  | .callExpression =>
    match children.head?.bind calledName? with
    | some name => [.about .call name]
    | none => []
  | _ => []

/-- Whether a node is a function of its own. -/
def isFunction (node : SyntaxNode) : Bool :=
  match node.shape with
  | .function _ _ | .arrowFunction _ => true
  | _ => false

end SyntaxNode

/-! ## The walk -/

/-- The state of a walk. -/
structure Collector where
  functionDepth : Nat
  events : List Event

namespace Collector

def start : Collector := ⟨0, []⟩

/-- Reports a node and goes inside. -/
def enter (source : String) (c : Collector) (node : SyntaxNode) : Collector :=
  ⟨if node.isFunction then c.functionDepth + 1 else c.functionDepth,
    c.events ++ node.ownEvents source c.functionDepth⟩

/-- Comes back out of a node. -/
def leave (c : Collector) (node : SyntaxNode) : Collector :=
  { c with functionDepth := if node.isFunction then c.functionDepth - 1 else c.functionDepth }

mutual

def visit (source : String) (c : Collector) : SyntaxNode → Collector
  | .mk shape children =>
    (visitAll source (c.enter source (.mk shape children)) children).leave (.mk shape children)

def visitAll (source : String) (c : Collector) : List SyntaxNode → Collector
  | [] => c
  | node :: rest => visitAll source (visit source c node) rest

end

end Collector

/-- The events of a tree, in the order in which its nodes are visited. -/
def SyntaxTree.events (source : String) (tree : SyntaxTree) : List Event :=
  (Collector.start.visitAll source tree).events

end Downlevel
