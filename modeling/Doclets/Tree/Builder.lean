import Doclets.Tree
import Doclets.Text.Pieces

/-!
Building a tree from its leaves up: children first, then their parent. `finish` wraps the top-level
statements in a program and links the tree.
-/

namespace Doclets

structure Builder where
  nodes : Array Node
  comments : Array Comment

abbrev Build := StateM Builder

namespace Build

def node (kind : NodeKind) (payload : Payload) (children : List NodeRef) : Build NodeRef :=
  modifyGet fun b => (some b.nodes.size, { b with nodes := b.nodes.push (.make kind payload children) })

/-! ### Leaves -/

def identifier (name : String) : Build NodeRef := node .identifier (.identifier name) []

def privateName (name : String) : Build NodeRef := node .privateName (.identifier name) []

def this : Build NodeRef := node .thisExpression .none []

def literal (value : LiteralValue) : Build NodeRef := node .literal (.literal value) []

/-! ### Expressions -/

def member (object : NodeRef) (property : String) : Build NodeRef := do
  let property ← identifier property
  node .memberExpression (.member object property false) [object, property]

/-- `this`, an identifier, or a member chain, from a dotted path. -/
def path (dotted : String) : Build NodeRef := do
  match (Text.splitAt '.' dotted.toList).map String.ofList with
  | [] => identifier ""
  | head :: rest =>
    let first ← if head = "this" then this else identifier head
    rest.foldlM member first

def call (callee : NodeRef) (arguments : List NodeRef) : Build NodeRef :=
  node .callExpression .none (callee :: arguments)

def new (callee : NodeRef) (arguments : List NodeRef) : Build NodeRef :=
  node .newExpression .none (callee :: arguments)

def assign (left right : NodeRef) : Build NodeRef :=
  node .assignmentExpression (.assignment "=" left right) [left, right]

def object (properties : List NodeRef) : Build NodeRef := node .objectExpression .none properties

def property (key : String) (value : NodeRef) : Build NodeRef := do
  let key ← identifier key
  node .property (.property key value .init false false) [key, value]

/-! ### Functions -/

def identifier? : Option String → Build NodeRef
  | some name => identifier name
  | none => pure none

def function (kind : NodeKind) (name : Option String) (params : List String) (body : NodeRef) :
    Build NodeRef := do
  let id ← identifier? name
  let params ← params.mapM identifier
  node kind (.function id params body false false) (id :: params ++ [body])

def block (body : List NodeRef) : Build NodeRef := node .blockStatement .none body

def functionDeclaration (name : String) (params : List String) (body : List NodeRef) :
    Build NodeRef := do
  function .functionDeclaration (some name) params (← block body)

def functionExpression (name : Option String) (params : List String) (body : List NodeRef) :
    Build NodeRef := do
  function .functionExpression name params (← block body)

def arrowFunction (params : List String) (body : List NodeRef) : Build NodeRef := do
  function .arrowFunctionExpression none params (← block body)

/-- An arrow function whose body is an expression. -/
def arrowExpression (params : List String) (expression : NodeRef) : Build NodeRef :=
  function .arrowFunctionExpression none params expression

/-- `count` arrow functions around an expression, each the body of the next. -/
def nestedArrows : Nat → NodeRef → Build NodeRef
  | 0, expression => pure expression
  | count + 1, expression => do nestedArrows count (← arrowExpression [] expression)

/-! ### Declarations and statements -/

def declarator (name : String) (init : NodeRef) : Build NodeRef := do
  let id ← identifier name
  node .variableDeclarator (.variableDeclarator id init) [id, init]

def declaration (kind : DeclarationKind) (declarators : List NodeRef) : Build NodeRef :=
  node .variableDeclaration (.variableDeclaration kind declarators) declarators

def var (name : String) (init : NodeRef) : Build NodeRef := do
  declaration .var [← declarator name init]

def constant (name : String) (init : NodeRef) : Build NodeRef := do
  declaration .const [← declarator name init]

def expressionStatement (expression : NodeRef) : Build NodeRef :=
  node .expressionStatement (.expressionStatement expression) [expression]

/-- An assignment to a dotted path, as a statement. -/
def assignStatement (target : String) (right : NodeRef) : Build NodeRef := do
  let left ← path target
  expressionStatement (← assign left right)

def returnStatement (argument : NodeRef) : Build NodeRef := node .returnStatement .none [argument]

/-! ### Classes -/

/-- A class; its parent is a dotted path. -/
def «class» (kind : NodeKind) (name superClass : Option String) (members : List NodeRef) :
    Build NodeRef := do
  let id ← identifier? name
  let superClass ← match superClass with
    | some dotted => path dotted
    | none => pure none
  let body ← node .classBody .none members
  node kind (.class id superClass body) [id, superClass, body]

def classDeclaration (name : String) (superClass : Option String) (members : List NodeRef) :
    Build NodeRef :=
  «class» .classDeclaration (some name) superClass members

def classExpression (name : Option String) (members : List NodeRef) : Build NodeRef :=
  «class» .classExpression name none members

def methodDefinition (key : String) (kind : MethodKind) (isStatic : Bool) (value : NodeRef) :
    Build NodeRef := do
  let key ← identifier key
  node .methodDefinition (.methodDefinition key value kind isStatic false) [key, value]

def method (key : String) (isStatic : Bool) (body : List NodeRef) : Build NodeRef := do
  methodDefinition key .method isStatic (← functionExpression none [] body)

def constructor (params : List String) (body : List NodeRef) : Build NodeRef := do
  methodDefinition "constructor" .constructor false (← functionExpression none params body)

def classProperty (key : String) (value : NodeRef) (isStatic : Bool) : Build NodeRef := do
  let key ← identifier key
  node .classProperty (.classProperty key value isStatic false) [key, value]

def privateProperty (key : String) (value : NodeRef) : Build NodeRef := do
  let key ← privateName key
  node .classPrivateProperty (.classProperty key value false false) [key, value]

/-! ### Modules -/

def exportNamed (declaration : NodeRef) : Build NodeRef :=
  node .exportNamedDeclaration (.export declaration) [declaration]

def exportDefault (declaration : NodeRef) : Build NodeRef :=
  node .exportDefaultDeclaration (.export declaration) [declaration]

/-! ### Comments -/

/-- Records a written block comment; the comments stand on lines of their own, from the first. -/
def comment (raw : String) : Build Nat :=
  modifyGet fun b =>
    let written : Comment := ⟨.block, Comment.valueOf raw, .none, ⟨b.comments.size + 1, 0⟩⟩
    (b.comments.size, { b with comments := b.comments.push written })

/-- Attaches a written block comment in front of a node. -/
def withComment (target : NodeRef) (raw : String) : Build Unit := do
  let index ← comment raw
  modify fun b =>
    match target with
    | some i =>
      { b with nodes := b.nodes.modify i fun n => { n with comments := n.comments ++ [index] } }
    | none => b

/-- The linked tree of a program with the statements that `body` builds. -/
def finish (fileName : String) (body : Build (List NodeRef)) : Tree :=
  let build : Build NodeRef := do node .program .none (← body)
  let (root, b) := build.run ⟨#[], #[]⟩
  Tree.link ⟨fileName, 0, b.nodes, root, b.comments⟩

end Build

end Doclets
