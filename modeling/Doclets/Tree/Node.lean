import Doclets.Location
import Doclets.Tree.Kind

/-!
Nodes of a syntax tree. A node refers to others by their index in the table that holds them; its
payload says what part each of them plays, and its children list them in source order.
-/

namespace Doclets

abbrev NodeIndex := Nat

/-- A reference to a node, or to none: an absent parent, a missing initializer. -/
abbrev NodeRef := Option NodeIndex

/-- The number that stands for a reference; the largest 32-bit word stands for no node. -/
def NodeRef.number (r : NodeRef) : Nat := r.getD 0xFFFFFFFF

/-- A node among those of all units. -/
structure NodeId where
  unit : Nat
  index : NodeRef
  deriving DecidableEq

def NodeId.text (id : NodeId) : String :=
  "astnode" ++ toString id.unit ++ ":" ++ toString (NodeRef.number id.index)

inductive DeclarationKind where
  | var
  | «let»
  | const
  deriving DecidableEq

inductive MethodKind where
  | constructor
  | method
  | get
  | set
  deriving DecidableEq

inductive PropertyKind where
  | init
  | get
  | set
  deriving DecidableEq

inductive LiteralValue where
  | string (text : String)
  | number (value : Float)
  | boolean (value : Bool)
  | null
  /-- The source of a regular expression, with its slashes and flags. -/
  | regExp (source : String)
  | bigInt (digits : String)

/-- What a node of a kind refers to, and in which part. -/
inductive Payload where
  | none
  | identifier (name : String)
  | literal (value : LiteralValue)
  | function (id : NodeRef) (params : List NodeRef) (body : NodeRef)
      (isAsync isGenerator : Bool)
  | class (id superClass body : NodeRef)
  | variableDeclaration (kind : DeclarationKind) (declarations : List NodeRef)
  | variableDeclarator (id init : NodeRef)
  | methodDefinition (key value : NodeRef) (kind : MethodKind) (isStatic computed : Bool)
  | classProperty (key value : NodeRef) (isStatic computed : Bool)
  | property (key value : NodeRef) (kind : PropertyKind) (computed shorthand : Bool)
  | assignment (operator : String) (left right : NodeRef)
  | member (object property : NodeRef) (computed : Bool)
  | expressionStatement (expression : NodeRef)
  | assignmentPattern (left right : NodeRef)
  | restElement (argument : NodeRef)
  | export (declaration : NodeRef)
  | other (typeName : String)

structure Node where
  kind : NodeKind
  payload : Payload
  /-- The node this one is a child of; none for the root. -/
  parent : NodeRef
  /-- The nearest function or class around the node. -/
  scope : NodeRef
  children : List NodeIndex
  /-- The comments in front of the node, by their place among the comments of the unit. -/
  comments : List Nat
  range : Range
  position : Position

/-- A node without links, comments or place; references to no node are not children. -/
def Node.make (kind : NodeKind) (payload : Payload) (children : List NodeRef) : Node where
  kind := kind
  payload := payload
  parent := none
  scope := none
  children := children.filterMap id
  comments := []
  range := .none
  position := .unknown

end Doclets
