import Doclets.Json.Reader
import Doclets.Tree

/-!
Reading ESTree JSON. The root is a `Program`, or a `File` that wraps one. Comments stand in front
of the nodes they are attached to, as `leadingComments`, or in one list with ranges; then each
block comment is attached to the outermost node that starts after it within the node around it.

Which members of an object hold child nodes is settled by its kind (`NodeKind.slots`); nodes of
other kinds are walked through, and any member that looks like a node is a child.
-/

namespace Doclets

/-- Why a unit is not a syntax tree. -/
inductive TreeError where
  | invalidJson
  | notAProgram (found : String)
  | invalidNode (found : String)
  | missingType
  | tooDeep
  deriving DecidableEq

/-- The levels of nodes that may stand below a program. -/
def maxTreeDepth : Nat := 5000

def TreeError.message : TreeError → String
  | invalidJson => "invalid JSON"
  | notAProgram found => "expected an ESTree Program or File at the root, found " ++ found
  | invalidNode found => "expected an ESTree node, found " ++ found
  | missingType => "node is missing its `type` field"
  | tooDeep => "tree is nested deeper than " ++ toString maxTreeDepth ++ " levels"

namespace Estree

open Json (Value)

abbrev Members := List (String × Value)

def str? (key : String) (members : Members) : Option String :=
  (Ledger.get? key members).bind Value.str?

def flag (key : String) (members : Members) : Bool :=
  ((Ledger.get? key members).bind Value.bool?).getD false

/-! ### Where child nodes stand -/

/-- A member that holds a node or a list of nodes. -/
inductive Slot where
  | one (key : String)
  | many (key : String)

/-- The members that hold the children of a node, in source order; nothing is settled for the
kinds that are only walked through. -/
def slots : NodeKind → Option (List Slot)
  | .program | .blockStatement | .classBody => some [.many "body"]
  | .expressionStatement => some [.one "expression"]
  | .variableDeclaration => some [.many "declarations"]
  | .variableDeclarator => some [.one "id", .one "init"]
  | .functionDeclaration | .functionExpression | .arrowFunctionExpression =>
    some [.one "id", .many "params", .one "body"]
  | .classDeclaration | .classExpression => some [.one "id", .one "superClass", .one "body"]
  | .methodDefinition | .classProperty | .classPrivateProperty | .property =>
    some [.one "key", .one "value"]
  | .objectExpression => some [.many "properties"]
  | .assignmentExpression | .assignmentPattern => some [.one "left", .one "right"]
  | .memberExpression => some [.one "object", .one "property"]
  | .restElement => some [.one "argument"]
  | .exportNamedDeclaration | .exportDefaultDeclaration =>
    some [.one "declaration", .many "specifiers"]
  | .thisExpression | .identifier | .privateName | .literal => some []
  | .returnStatement | .callExpression | .newExpression | .unknown => none

/-- Members that never hold child nodes. -/
def plainKeys : List String :=
  ["type", "loc", "range", "start", "end", "leadingComments", "trailingComments",
    "innerComments", "comments", "tokens", "extra"]

/-- Whether a value looks like a node: it has a type. -/
def isNode (v : Value) : Bool := ((v.get? "type").bind Value.str?).isSome

/-- The values in child position that a slot holds. -/
def Slot.values (members : Members) : Slot → String × List Value
  | .one key => (key, (Ledger.get? key members).toList)
  | .many key => (key, ((Ledger.get? key members).bind Value.items?).getD [])

/-- The nodes and the lists of nodes among all members. -/
def nodesAmong (members : Members) : List (String × List Value) :=
  (members.filter fun (key, _) => !plainKeys.contains key).map fun (key, v) =>
    match v with
    | .arr items => (key, items.filter isNode)
    | v => (key, if isNode v then [v] else [])

/-- The values in child position of an object, by the member that holds them. -/
def childValues (kind : NodeKind) (members : Members) : List (String × List Value) :=
  match slots kind with
  | some slots => slots.map (Slot.values members)
  | none => nodesAmong members

/-! ### What a node says -/

/-- The children that were read, by the member that held them. -/
abbrev Children := List (String × List NodeRef)

/-- The child in a member that holds one. -/
def Children.one (children : Children) (key : String) : NodeRef :=
  ((Ledger.get? key children).bind List.head?).bind id

/-- The children in a member that holds a list, without its holes. -/
def Children.many (children : Children) (key : String) : List NodeRef :=
  ((Ledger.get? key children).getD []).filter Option.isSome

def Children.all (children : Children) : List NodeRef := children.flatMap Prod.snd

def regExpText (v : Value) : LiteralValue :=
  let text (key : String) := ((v.get? key).bind Value.str?).getD ""
  .regExp ("/" ++ text "pattern" ++ "/" ++ text "flags")

/-- A number as a double. -/
def number : Value → Float
  | .int (.ofNat n) => n.toUInt64.toFloat
  | .int (.negSucc n) => -(n + 1).toUInt64.toFloat
  | .float x => x
  | _ => 0

/-- The value of a literal. Regular expressions and big integers are told by a member of their
own or by the type of the node. -/
def literalValue (typeName : String) (members : Members) : LiteralValue :=
  match Ledger.get? "regex" members with
  | some regex => regExpText regex
  | none =>
    if typeName = "RegExpLiteral" then regExpText (.obj members)
    else match str? "bigint" members with
      | some digits => .bigInt digits
      | none =>
        if typeName = "BigIntLiteral" then .bigInt ((str? "value" members).getD "")
        else match Ledger.get? "value" members with
          | some (.str s) => .string s
          | some (.int n) => .number (number (.int n))
          | some (.float x) => .number x
          | some (.bool b) => .boolean b
          | _ => .null

/-- The name of an identifier; some producers wrap the identifier of a private name. -/
def identifierName (members : Members) : String :=
  ((str? "name" members).or
    (((Ledger.get? "id" members).bind (Value.get? "name")).bind Value.str?)).getD ""

def declarationKind (members : Members) : DeclarationKind :=
  match str? "kind" members with
  | some "const" => .const
  | some "var" | none => .var
  | some _ => .let

def methodKind (members : Members) : MethodKind :=
  match str? "kind" members with
  | some "constructor" => .constructor
  | some "get" => .get
  | some "set" => .set
  | _ => .method

def propertyKind (members : Members) : PropertyKind :=
  match str? "kind" members with
  | some "get" => .get
  | some "set" => .set
  | _ => .init

/-- The payload of a node, from its kind, its type, its members and the children read. -/
def payload (kind : NodeKind) (typeName : String) (members : Members) (children : Children) :
    Payload :=
  match kind with
  | .expressionStatement => .expressionStatement (children.one "expression")
  | .variableDeclaration =>
    .variableDeclaration (declarationKind members) (children.many "declarations")
  | .variableDeclarator => .variableDeclarator (children.one "id") (children.one "init")
  | .functionDeclaration | .functionExpression | .arrowFunctionExpression =>
    .function (children.one "id") (children.many "params") (children.one "body")
      (flag "async" members) (flag "generator" members)
  | .classDeclaration | .classExpression =>
    .class (children.one "id") (children.one "superClass") (children.one "body")
  | .methodDefinition =>
    .methodDefinition (children.one "key") (children.one "value") (methodKind members)
      (flag "static" members) (flag "computed" members)
  | .classProperty | .classPrivateProperty =>
    .classProperty (children.one "key") (children.one "value")
      (flag "static" members) (flag "computed" members)
  | .property =>
    .property (children.one "key") (children.one "value") (propertyKind members)
      (flag "computed" members) (flag "shorthand" members)
  | .assignmentExpression =>
    .assignment ((str? "operator" members).getD "=") (children.one "left") (children.one "right")
  | .memberExpression =>
    .member (children.one "object") (children.one "property") (flag "computed" members)
  | .identifier | .privateName => .identifier (identifierName members)
  | .literal => .literal (literalValue typeName members)
  | .assignmentPattern => .assignmentPattern (children.one "left") (children.one "right")
  | .restElement => .restElement (children.one "argument")
  | .exportNamedDeclaration | .exportDefaultDeclaration =>
    .export (children.one "declaration")
  | .unknown => .other typeName
  | .program | .blockStatement | .classBody | .objectExpression | .thisExpression
  | .returnStatement | .callExpression | .newExpression => .none

/-- The range of a node or comment, from `range` or else from `start` and `end`. -/
def range (members : Members) : Range :=
  let pair := match (Ledger.get? "range" members).bind Value.items? with
    | some (a :: b :: _) => do return (← a.nat?, ← b.nat?)
    | _ => none
  let pair := pair.or do
    return (← (Ledger.get? "start" members).bind Value.nat?,
      ← (Ledger.get? "end" members).bind Value.nat?)
  match pair with
  | some (first, last) => ⟨word32 first, word32 last⟩
  | none => .none

/-- Where a node or comment starts. -/
def position (members : Members) : Position :=
  let start := (Ledger.get? "loc" members).bind (Value.get? "start")
  let part (key : String) := ((start.bind (Value.get? key)).bind Value.nat?).getD 0
  ⟨word32 (part "line"), word32 (part "column")⟩

/-! ### Comments -/

/-- What has been read of a unit so far. -/
structure Harvest where
  nodes : Array Node
  comments : Array Comment
  /-- The place of the comment that a range stands for. -/
  byRange : List (Range × Nat)
  /-- Whether comments are attached to nodes. -/
  attached : Bool

def Harvest.empty : Harvest := ⟨#[], #[], [], false⟩

def commentKind? : String → Option CommentKind
  | "Block" | "CommentBlock" => some .block
  | "Line" | "CommentLine" => some .line
  | _ => none

/-- A comment as it is written in JSON; preserved comments read as documentation comments. -/
def comment? (v : Value) : Option Comment := do
  let members ← v.members?
  let kind ← (str? "type" members).bind commentKind?
  let text := (str? "value" members).getD ""
  let text := if kind = .block then Comment.unmask text else text
  return ⟨kind, text, range members, position members⟩

/-- Whether a comment has the shape of a documentation comment and a place in the source. -/
def isPlacedDoc (c : Comment) : Bool :=
  c.kind = .block && c.value.toList.head? = some '*' && !c.range.isEmpty

/-- Whether a documentation comment continues the comment before it: both are documentation
comments, and the one starts where the other ends. -/
def continues (previous next : Comment) : Bool :=
  isPlacedDoc previous && isPlacedDoc next && previous.range.last = next.range.first

/-- Stores a comment as one of its own. -/
def Harvest.keepNew (h : Harvest) (c : Comment) : Nat × Harvest :=
  (h.comments.size, { h with
    comments := h.comments.push c
    byRange :=
      if c.range.isEmpty then h.byRange
      else Ledger.insert c.range h.comments.size h.byRange })

/-- Keeps a comment, once for its range. A documentation comment that was written back to back
with the last one becomes a part of it. -/
def Harvest.keep (h : Harvest) (c : Comment) : Nat × Harvest :=
  match if c.range.isEmpty then none else Ledger.get? c.range h.byRange with
  | some index => (index, h)
  | none =>
    match h.comments.back? with
    | some previous =>
      if continues previous c then
        let merged : Comment :=
          { previous with
            value := Comment.merge previous.value c.value
            range := ⟨previous.range.first, c.range.last⟩ }
        let index := h.comments.size - 1
        (index, { h with
          comments := h.comments.pop.push merged
          byRange := Ledger.insert c.range index h.byRange })
      else h.keepNew c
    | none => h.keepNew c

/-- Keeps the comments of a list; what is no comment is left out. -/
def Harvest.keepAll (h : Harvest) : List Value → List Nat × Harvest
  | [] => ([], h)
  | v :: rest =>
    match comment? v with
    | some c =>
      let (index, h) := h.keep c
      let (indices, h) := h.keepAll rest
      (index :: indices, h)
    | none => h.keepAll rest

/-- A list without the elements that equal the one before them. -/
def dropRepeats : List Nat → List Nat
  | [] => []
  | [c] => [c]
  | c :: d :: rest => if c = d then dropRepeats (d :: rest) else c :: dropRepeats (d :: rest)

/-- Keeps the comments in front of a node. -/
def Harvest.leading (h : Harvest) (members : Members) : List Nat × Harvest :=
  match (Ledger.get? "leadingComments" members).bind Value.items? with
  | some list =>
    let (indices, h) := ({ h with attached := true } : Harvest).keepAll list
    (dropRepeats indices, h)
  | none => ([], h)

/-! ### Nodes -/

/-- The kind that a node has in the end: a class property with a private name is private. -/
def finalKind (h : Harvest) (kind : NodeKind) (children : Children) : NodeKind :=
  if kind = .classProperty then
    match (children.one "key").bind fun i => h.nodes[i]? with
    | some key => if key.kind = .privateName then .classPrivateProperty else kind
    | none => kind
  else kind

/-- Adds a node whose children have been read. -/
def Harvest.addNode (h : Harvest) (typeName : String) (members : Members) (children : Children) :
    NodeRef × Harvest :=
  let kind := NodeKind.ofType typeName
  let node := Node.make (finalKind h kind children) (payload kind typeName members children)
    children.all
  let (comments, h) := h.leading members
  let node :=
    { node with comments := comments, range := range members, position := position members }
  (some h.nodes.size, { h with nodes := h.nodes.push node })

/-- Reads the values of a list one after the other. -/
def readList (read : Value → Harvest → Except TreeError (NodeRef × Harvest)) :
    List Value → Harvest → Except TreeError (List NodeRef × Harvest)
  | [], h => .ok ([], h)
  | v :: rest, h =>
    match read v h with
    | .error e => .error e
    | .ok (r, h) =>
      match readList read rest h with
      | .error e => .error e
      | .ok (rs, h) => .ok (r :: rs, h)

/-- Reads the children of an object, member by member. -/
def readChildren (read : Value → Harvest → Except TreeError (NodeRef × Harvest)) :
    List (String × List Value) → Harvest → Except TreeError (Children × Harvest)
  | [], h => .ok ([], h)
  | (key, values) :: rest, h =>
    match readList read values h with
    | .error e => .error e
    | .ok (refs, h) =>
      match readChildren read rest h with
      | .error e => .error e
      | .ok (children, h) => .ok ((key, refs) :: children, h)

/-- Reads the value in a child position, with `levels` levels left for nodes. A `null` is no
node, at any depth. -/
def readNode : Nat → Value → Harvest → Except TreeError (NodeRef × Harvest)
  | _, .null, h => .ok (none, h)
  | 0, _, _ => .error .tooDeep
  | levels + 1, .obj members, h =>
    match str? "type" members with
    | none => .error .missingType
    | some typeName =>
      match readChildren (readNode levels)
          (childValues (NodeKind.ofType typeName) members) h with
      | .error e => .error e
      | .ok (children, h) => .ok (h.addNode typeName members children)
  | _, v, _ => .error (.invalidNode v.kindName)

/-! ### Attaching comments by range -/

/-- Narrows a search among `size` elements from `base` on to one element; the elements that
satisfy `p` are expected to come first. -/
def narrow {α : Type} (p : α → Bool) (xs : Array α) : Nat → Nat → Nat → Nat
  | 0, base, _ => base
  | fuel + 1, base, size =>
    if size ≤ 1 then base
    else
      let half := size / 2
      let middle := base + half
      let base := match xs[middle]? with
        | some x => if p x then middle else base
        | none => base
      narrow p xs fuel base (size - half)

/-- The number of elements in front of the first that fails `p`, found by bisection. -/
def partitionPoint {α : Type} (p : α → Bool) (xs : Array α) : Nat :=
  let base := narrow p xs xs.size 0 xs.size
  match xs[base]? with
  | some x => if p x then base + 1 else base
  | none => 0

def rangeOf (t : Tree) (i : NodeIndex) : Range :=
  match t.nodes[i]? with
  | some n => n.range
  | none => .none

/-- The node that a comment is attached to: the first one that starts at its end or later, if it is
a child of the innermost node around the comment. `order` lists the nodes below the root. -/
def target? (t : Tree) (order : Array NodeIndex) (c : Comment) : Option NodeIndex :=
  if c.kind ≠ .block || c.range.isEmpty then none
  else
    match order[partitionPoint (fun i => (rangeOf t i).first < c.range.last) order]? with
    | none => none
    | some target =>
      let opened := partitionPoint (fun i => (rangeOf t i).first ≤ c.range.first) order
      let around := (order.toList.take opened).reverse.find? fun i =>
        (rangeOf t i).contains c.range
      if t.parent (some target) = around.or t.root then some target else none

/-- Attaches each block comment to its target. -/
def attachByRange (t : Tree) : Tree :=
  let order := (t.preorder.filter fun i => some i ≠ t.root).toArray
  let nodes := (List.range t.comments.size).foldl (fun nodes index =>
    match (t.comments[index]?).bind (target? t order) with
    | some target =>
      nodes.modify target fun n => { n with comments := n.comments ++ [index] }
    | none => nodes) t.nodes
  { t with nodes := nodes }

/-! ### Units -/

/-- The program of a unit, by the value at its root. -/
def program? (v : Value) : Except TreeError (Members × Value) :=
  match v with
  | .obj members =>
    match str? "type" members with
    | none => .error .missingType
    | some "Program" => .ok (members, v)
    | some "File" =>
      match Ledger.get? "program" members with
      | some program => .ok (members, program)
      | none => .error (.notAProgram "File without program")
    | some other => .error (.notAProgram other)
  | v => .error (.notAProgram v.kindName)

/-- The list of all comments of a unit, if there is one. -/
def commentList (members : Members) (program : Value) : List Value :=
  (((Ledger.get? "comments" members).or (program.get? "comments")).bind Value.items?).getD []

/-- The linked tree that a JSON value stands for. -/
def ofValue (fileName : String) (v : Value) : Except TreeError Tree :=
  match program? v with
  | .error e => .error e
  | .ok (members, program) =>
    let (_, h) := Harvest.empty.keepAll (commentList members program)
    match readNode (maxTreeDepth + 1) program h with
    | .error e => .error e
    | .ok (root, h) =>
      let t := Tree.link ⟨fileName, 0, h.nodes, root, h.comments⟩
      .ok (if h.attached || h.comments.isEmpty then t else attachByRange t)

/-- The linked tree of a unit, from its text. -/
def ofText (fileName source : String) : Except TreeError Tree :=
  match Value.ofText? source with
  | none => .error .invalidJson
  | some v => ofValue fileName v

end Estree

end Doclets
