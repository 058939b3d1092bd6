/-
Downlevel.Event.SyntaxTree — syntax trees as far as events need them.

A node keeps the attributes that decide what is reported about it; nodes
without any share one shape. Trees arrive as rows in preorder, each with
its depth: the children of a row are the rows one level deeper that follow
it before a row of its own depth or less.
-/
import Downlevel.Json.Record

namespace Downlevel

/-- What a node is. -/
inductive NodeShape where
  | chainExpression
  | logicalExpression (operator : String)
  | assignmentExpression (operator : String)
  | binaryExpression (operator : String)
  | propertyDefinition
  | privateIdentifier (name : String)
  | staticBlock
  | decorator
  | function (isAsync isGenerator : Bool)
  | arrowFunction (isAsync : Bool)
  | awaitExpression
  | forOfStatement (isAwait : Bool)
  | objectExpression
  | spreadElement
  | objectPattern (hasRest : Bool)
  | templateLiteral
  | variableDeclaration (keyword : String)
  /-- `heritage` is the position of the super class among the children. -/
  | classNode (heritage : Option Nat)
  /-- The offsets count the bytes of the source text. -/
  | bigIntLiteral (start stop : Nat)
  | numericLiteral (start stop : Nat)
  | importExpression
  | metaProperty
  | importDeclaration (source : String)
  | exportDeclaration
  | ascription
  | interfaceDeclaration
  | typeAliasDeclaration
  | enumDeclaration
  /-- A cast of any spelling, and the postfix non-null mark. -/
  | typeAssertion
  | markupElement
  | markupFragment
  | callExpression
  | staticMember
  | identifierReference (name : String)
  /-- A name that is not a reference. -/
  | bareName (name : String)
  | other
  deriving DecidableEq, Repr, Inhabited

/-- A node with its children in the order in which they are visited. -/
inductive SyntaxNode where
  | mk (shape : NodeShape) (children : List SyntaxNode)
  deriving Inhabited

/-- The roots of a syntax tree. -/
abbrev SyntaxTree := List SyntaxNode

namespace SyntaxNode

def shape : SyntaxNode → NodeShape
  | .mk shape _ => shape

def children : SyntaxNode → List SyntaxNode
  | .mk _ children => children

/-- The name of a node that is a name. -/
def name? (n : SyntaxNode) : Option String :=
  match n.shape with
  | .identifierReference name | .bareName name | .privateIdentifier name => some name
  | _ => none

/-- How a callee or a super class is called: an identifier by its name, a
member by its name too, after the object where the object is an
identifier. -/
def calledName? (n : SyntaxNode) : Option String :=
  match n.shape with
  | .identifierReference name => some name
  | .staticMember =>
    match n.children.head?, n.children.getLast?.bind name? with
    | some object, some property =>
      match object.shape with
      | .identifierReference name => some (name ++ "." ++ property)
      | _ => some property
    | _, _ => none
  | _ => none

end SyntaxNode

/-! ## Rows -/

/-- A node in preorder. -/
structure SyntaxRow where
  depth : Nat
  shape : NodeShape
  /-- The row of the super class, for a class that has one. -/
  heritageRow : Option Nat

namespace SyntaxRow

open Json.Record (required defaulted)

/-- The shape of a node by its type and attributes. -/
def shapeOf? (type : String) (attributes : Json) : Option NodeShape :=
  let text (key : String) : Option String := (attributes.member? key).bind Json.str?
  let flag (key : String) : Option Bool :=
    match attributes.member? key with
    | none => some false
    | some j => j.bool?
  let span : Option (Nat × Nat) :=
    match attributes.member? "span" with
    | some (.arr [start, stop]) => do
      return (← Json.word32? start, ← Json.word32? stop)
    | _ => none
  match type with
  | "ChainExpression" => some .chainExpression
  | "LogicalExpression" => (text "operator").map .logicalExpression
  | "AssignmentExpression" => (text "operator").map .assignmentExpression
  | "BinaryExpression" => (text "operator").map .binaryExpression
  | "PropertyDefinition" => some .propertyDefinition
  | "PrivateIdentifier" => (text "name").map .privateIdentifier
  | "StaticBlock" => some .staticBlock
  | "Decorator" => some .decorator
  | "Function" => do return .function (← flag "async") (← flag "generator")
  | "ArrowFunctionExpression" => (flag "async").map .arrowFunction
  | "AwaitExpression" => some .awaitExpression
  | "ForOfStatement" => (flag "await").map .forOfStatement
  | "ObjectExpression" => some .objectExpression
  | "SpreadElement" => some .spreadElement
  | "ObjectPattern" => (flag "rest").map .objectPattern
  | "TemplateLiteral" => some .templateLiteral
  | "VariableDeclaration" => (text "kind").map .variableDeclaration
  | "Class" => some (.classNode none)
  | "BigIntLiteral" => span.map fun s => .bigIntLiteral s.1 s.2
  | "NumericLiteral" => span.map fun s => .numericLiteral s.1 s.2
  | "ImportExpression" => some .importExpression
  | "MetaProperty" => some .metaProperty
  | "ImportDeclaration" => (text "source").map .importDeclaration
  | "ExportNamedDeclaration" => some .exportDeclaration
  | "ExportDefaultDeclaration" => some .exportDeclaration
  | "ExportAllDeclaration" => some .exportDeclaration
  | "TSTypeAnnotation" => some .ascription
  | "TSInterfaceDeclaration" => some .interfaceDeclaration
  | "TSTypeAliasDeclaration" => some .typeAliasDeclaration
  | "TSEnumDeclaration" => some .enumDeclaration
  | "TSAsExpression" => some .typeAssertion
  | "TSSatisfiesExpression" => some .typeAssertion
  | "TSNonNullExpression" => some .typeAssertion
  | "JSXElement" => some .markupElement
  | "JSXFragment" => some .markupFragment
  | "CallExpression" => some .callExpression
  | "StaticMemberExpression" => some .staticMember
  | "IdentifierReference" => (text "name").map .identifierReference
  | "IdentifierName" => (text "name").map .bareName
  | "BindingIdentifier" => (text "name").map .bareName
  | _ => some .other

/-- A row is an array of a depth, a type and, where there are any,
attributes. -/
def ofJson? : Json → Option SyntaxRow
  | .arr [depth, .str type] => do
    return ⟨← Json.word32? depth, ← shapeOf? type (.obj []), none⟩
  | .arr [depth, .str type, .obj attributes] => do
    let heritage ← match Entries.get? "superClass" attributes with
      | none => some none
      | some row => (Json.word32? row).map some
    return ⟨← Json.word32? depth, ← shapeOf? type (.obj attributes), heritage⟩
  | _ => none

end SyntaxRow

/-! ## Trees from rows -/

/-- A finished subtree with the place of its root among the rows. -/
structure SyntaxTree.Grown where
  depth : Nat
  row : Nat
  node : SyntaxNode

/-- Takes the deeper subtrees that follow a row as its children. -/
def SyntaxTree.grow (row : Nat) (r : SyntaxRow) (following : List Grown) : List Grown :=
  let children := following.takeWhile fun g => r.depth < g.depth
  let shape := match r.shape with
    | .classNode _ => .classNode (r.heritageRow.bind fun h => children.findIdx? fun g => g.row == h)
    | shape => shape
  ⟨r.depth, row, .mk shape (children.map (·.node))⟩
    :: following.dropWhile fun g => r.depth < g.depth

/-- The tree whose nodes are listed in preorder. -/
def SyntaxTree.ofRows (rows : List SyntaxRow) : SyntaxTree :=
  (rows.zipIdx.foldr (fun (r, i) following => grow i r following) []).map (·.node)

/-- Reads a tree given as rows. -/
def SyntaxTree.ofJson? (j : Json) : Option SyntaxTree :=
  (Json.items? SyntaxRow.ofJson? j).map SyntaxTree.ofRows

end Downlevel
