import Doclets.Json.Printer
import Doclets.Tree

/-!
The names and values of nodes in the terms of their source. Member chains are dotted paths,
declarations have the name they declare, and methods the name of their class joined to their own.
-/

namespace Doclets

/-- A number is written as an integer if it is one below `10 ^ 15` in size. -/
def smallWhole? (x : Float) : Option Int :=
  (Decimal.whole? x).filter fun n => n.natAbs < 1000000000000000

namespace LiteralValue

def text : LiteralValue → String
  | string s => s
  | number x =>
    match smallWhole? x with
    | some n => toString n
    | none => Decimal.plainText x
  | boolean b => if b then "true" else "false"
  | null => "null"
  | regExp source => source
  | bigInt digits => digits

def json : LiteralValue → Json.Value
  | string s => .str s
  | number x =>
    match smallWhole? x with
    | some n => .int n
    | none => if x.isFinite then .float x else .null
  | boolean b => .bool b
  | null => .null
  | regExp source => .str source
  | bigInt digits => .str digits

end LiteralValue

namespace Tree

/-- The node whose name stands in front of a method's: the class that it is in, or, if that is an
anonymous class expression, whatever the class is bound to. -/
def methodOwner (t : Tree) (method : NodeRef) : NodeRef :=
  let owner := t.parent (t.parent method)
  match t.node? owner with
  | some n =>
    if n.kind = .classExpression then
      match n.payload with
      | .class id _ _ => if id.isSome then id else n.parent
      | _ => n.parent
    else owner
  | none => none

/-- The name of a node, unless it takes more than `fuel` steps from node to node to find it. -/
def nameWithin (t : Tree) : Nat → NodeRef → Option String
  | 0, _ => none
  | fuel + 1, r =>
    match t.node? r with
    | none => some ""
    | some n =>
      match n.payload with
      | .identifier name => some name
      | .literal value => some value.text
      | .member object property computed =>
        match t.nameWithin fuel object, t.nameWithin fuel property with
        | some object, some name =>
          if !computed then some (object ++ "." ++ name)
          else if t.isKind property .literal then some (object ++ "[" ++ Json.quote name ++ "]")
          else some (object ++ "[" ++ name ++ "]")
        | _, _ => none
      | .function id _ _ _ _ => t.nameWithin fuel id
      | .class id _ _ => t.nameWithin fuel id
      | .variableDeclarator id _ => t.nameWithin fuel id
      | .assignment _ left _ => t.nameWithin fuel left
      | .assignmentPattern left _ => t.nameWithin fuel left
      | .restElement argument => t.nameWithin fuel argument
      | .property key _ _ _ _ => t.nameWithin fuel key
      | .classProperty key _ _ _ => t.nameWithin fuel key
      | .methodDefinition key _ kind isStatic _ =>
        match t.nameWithin fuel (t.methodOwner r) with
        | none => none
        | some owner =>
          if kind = .constructor then some owner
          else
            (t.nameWithin fuel key).map fun name =>
              owner ++ (if isStatic then "." else "#") ++ name
      | .expressionStatement expression => t.nameWithin fuel expression
      | .export declaration => t.nameWithin fuel declaration
      | .none => some (if n.kind = .thisExpression then "this" else "")
      | .variableDeclaration .. | .other _ => some ""

/-- The name a node stands for; the empty text if it has none. A chain of nodes that ends visits
none of them twice, so the size of the table bounds its steps. -/
def name (t : Tree) (r : NodeRef) : String := (t.nameWithin (t.nodes.size + 2) r).getD ""

/-- The value a node carries for its documentation: a literal's own, or the name of an identifier
or member chain. -/
def value? (t : Tree) (r : NodeRef) : Option Json.Value :=
  match t.payload? r with
  | some (.literal value) => some value.json
  | some (.identifier _) | some (.member ..) =>
    let text := t.name r
    if text.isEmpty then none else some (.str text)
  | _ => none

/-- The parameter names of a function. Destructuring patterns have none. -/
def paramNames (t : Tree) (function : NodeRef) : List String :=
  match t.payload? function with
  | some (.function _ params _ _ _) =>
    (params.map t.name).filter fun name => !name.isEmpty
  | _ => []

end Tree

end Doclets
