import Doclets.Doclet
import Doclets.Tree.Name

/-!
What the code says about a symbol: its name, the node its doclet is registered for, its value and
parameters, and the comment that documents it.
-/

namespace Doclets

/-- The facts about one symbol in the code. -/
structure Symbol where
  name : String
  /-- The node the doclet is registered for: an initializer, the function of a method, or the node
  of the symbol itself. -/
  node : NodeRef
  kind : NodeKind
  value : Option Json.Value
  params : List String
  /-- The longname of the function scope that declares an assigned name. -/
  funcscope : Option String
  /-- The kind of doclet that the declaration implies. -/
  docletKind : Option DocletKind

namespace Symbol

def origin (s : Symbol) (t : Tree) : CodeOrigin :=
  ⟨s.name, t.nodeId s.node, s.kind, s.value, s.params, s.funcscope⟩

/-- A symbol called `name` that stands for the value at `node`. -/
def ofValue (t : Tree) (name : String) (node : NodeRef) : Symbol where
  name := name
  node := node
  kind := (t.kind? node).getD .unknown
  value := t.value? node
  params := t.paramNames node
  funcscope := none
  docletKind := none

/-- A symbol that stands for itself, and has no value. -/
def ofSelf (t : Tree) (name : String) (node : NodeRef) : Symbol :=
  { ofValue t name node with value := none }

/-- A symbol that stands for `value`, or for itself where there is none. -/
def ofInit (t : Tree) (name : String) (node value : NodeRef) : Symbol :=
  if value.isSome then ofValue t name value else ofSelf t name node

def isConstant (t : Tree) (declaration : NodeRef) : Bool :=
  match t.payload? declaration with
  | some (.variableDeclaration .const _) => true
  | _ => false

/-- The symbol that a node stands for, if it is one. -/
def ofNode? (t : Tree) (r : NodeRef) : Option Symbol :=
  match t.node? r with
  | none => none
  | some n =>
    if n.kind.isSymbol then
      match n.payload with
      | .variableDeclarator id init =>
        let s := ofInit t (t.name id) r init
        some (if isConstant t n.parent then { s with docletKind := some .constant } else s)
      | .assignment _ left right => some (ofValue t (t.name left) right)
      | .methodDefinition _ value _ _ _ => some (ofValue t (t.name r) value)
      | .classProperty key value _ _ => some (ofInit t (t.name key) r value)
      | .property key value _ _ _ => some (ofValue t (t.name key) value)
      | _ => some (ofSelf t (t.name r) r)
    else none

/-- The kind of doclet a symbol makes where no tag gives one. -/
def impliedKind (s : Symbol) (t : Tree) (r : NodeRef) : DocletKind :=
  match t.payload? r with
  | some (.methodDefinition _ _ kind _ _) =>
    match kind with
    | .constructor => .class
    | .get | .set => .member
    | .method => .function
  | _ =>
    if s.kind.isFunction then .function
    else if s.kind.isClass then .class
    else .member

end Symbol

namespace Tree

def isConstructor (t : Tree) (r : NodeRef) : Bool :=
  match t.payload? r with
  | some (.methodDefinition _ _ .constructor _ _) => true
  | _ => false

def isExport (t : Tree) (r : NodeRef) : Bool :=
  match t.kind? r with
  | some kind => kind.isExport
  | none => false

/-- Whether a declaration lists a declarator first. -/
def isFirstOf (t : Tree) (declaration declarator : NodeRef) : Bool :=
  match t.payload? declaration with
  | some (.variableDeclaration _ (first :: _)) => first = declarator
  | _ => false

/-- The nodes whose comments document a symbol, nearest first: the node itself, the declaration
that it comes first in, the statement that it makes up, the export that it is declared in. -/
def documentedBy (t : Tree) (r : NodeRef) : List NodeRef :=
  match t.node? r with
  | none => []
  | some n =>
    match n.kind with
    | .variableDeclarator =>
      if t.isFirstOf n.parent r then
        let outer := t.parent n.parent
        if t.isExport outer then [r, n.parent, outer] else [r, n.parent]
      else [r]
    | .assignmentExpression =>
      if t.isKind n.parent .expressionStatement then [r, n.parent] else [r]
    | .functionDeclaration | .classDeclaration | .functionExpression
    | .arrowFunctionExpression | .classExpression =>
      if t.isExport n.parent then [r, n.parent] else [r]
    | _ => [r]

/-- The comment that counts in front of a node: the last one, if it is a documentation comment. -/
def ownDoc? (t : Tree) (r : NodeRef) : Option Comment :=
  (t.commentsOf r).getLast?.filter Comment.isDoc

/-- The documentation comment of a symbol. -/
def doc? (t : Tree) (r : NodeRef) : Option Comment := (t.documentedBy r).findSome? t.ownDoc?

end Tree

end Doclets
