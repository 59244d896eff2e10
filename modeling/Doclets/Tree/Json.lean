import Doclets.Symbol

/-!
Syntax trees as JSON: the table of nodes with their links, names, values and documentation, the
order of the walk, and the comments. References are written as places in the table.
-/

namespace Doclets

open Json (Value memberIf memberUnlessEmpty)

def NodeRef.json (r : NodeRef) : Value := .ofOption .ofNat r

def NodeRef.jsonList (rs : List NodeRef) : Value := .arr (rs.map NodeRef.json)

def Range.json (r : Range) : Value := .naturals [r.first, r.last]

def Position.json (p : Position) : Value := .naturals [p.line, p.column]

def DeclarationKind.name : DeclarationKind → String
  | var => "var"
  | «let» => "let"
  | const => "const"

def MethodKind.name : MethodKind → String
  | constructor => "constructor"
  | method => "method"
  | get => "get"
  | set => "set"

def PropertyKind.name : PropertyKind → String
  | init => "init"
  | get => "get"
  | set => "set"

/-- A literal as it is in the tree: numbers stay floating-point numbers. -/
def LiteralValue.rawJson : LiteralValue → Value
  | string s => .str s
  | number x => .float x
  | boolean b => .bool b
  | null => .null
  | regExp source => .str source
  | bigInt digits => .str digits

namespace Payload

/-- The name of what a payload holds, and its parts. -/
def parts : Payload → String × List (String × Value)
  | none => ("None", [])
  | identifier name => ("Identifier", [("name", .str name)])
  | literal value => ("Literal", [("value", value.rawJson)])
  | function id params body isAsync isGenerator =>
    ("Function", [("id", id.json), ("params", NodeRef.jsonList params), ("body", body.json),
      ("is_async", .bool isAsync), ("is_generator", .bool isGenerator)])
  | «class» id superClass body =>
    ("Class", [("id", id.json), ("super_class", superClass.json), ("body", body.json)])
  | variableDeclaration kind declarations =>
    ("VariableDeclaration",
      [("kind", .str kind.name), ("declarations", NodeRef.jsonList declarations)])
  | variableDeclarator id init => ("VariableDeclarator", [("id", id.json), ("init", init.json)])
  | methodDefinition key value kind isStatic computed =>
    ("MethodDefinition", [("key", key.json), ("value", value.json), ("kind", .str kind.name),
      ("is_static", .bool isStatic), ("computed", .bool computed)])
  | classProperty key value isStatic computed =>
    ("ClassProperty", [("key", key.json), ("value", value.json), ("is_static", .bool isStatic),
      ("computed", .bool computed)])
  | property key value kind computed shorthand =>
    ("Property", [("key", key.json), ("value", value.json), ("kind", .str kind.name),
      ("computed", .bool computed), ("shorthand", .bool shorthand)])
  | assignment operator left right =>
    ("Assignment", [("operator", .str operator), ("left", left.json), ("right", right.json)])
  | member object key computed =>
    ("Member", [("object", object.json), ("property", key.json),
      ("computed", .bool computed)])
  | expressionStatement expression => ("ExpressionStatement", [("expression", expression.json)])
  | assignmentPattern left right =>
    ("AssignmentPattern", [("left", left.json), ("right", right.json)])
  | restElement argument => ("RestElement", [("argument", argument.json)])
  | «export» declaration => ("Export", [("declaration", declaration.json)])
  | other typeName => ("Other", [("type_name", .str typeName)])

def json (p : Payload) : Value :=
  match p.parts with
  | (name, []) => .str name
  | (name, members) => .obj [(name, .obj members)]

end Payload

def Symbol.json (s : Symbol) : Value :=
  .obj [("name", .str s.name), ("node", s.node.json), ("type", .str s.kind.name),
    ("value", s.value.getD .null), ("paramnames", .strings s.params),
    ("funcscope", .ofOption .str s.funcscope),
    ("kind", .ofOption (fun kind => .str kind.name) s.docletKind)]

def CommentKind.name : CommentKind → String
  | block => "Block"
  | line => "Line"

def Comment.json (c : Comment) : Value :=
  .obj [("kind", .str c.kind.name), ("value", .str c.value), ("range", c.range.json),
    ("loc", c.position.json), ("raw", .str c.raw), ("jsdoc", .bool c.isDoc)]

namespace Tree

/-- What the code says about a node that stands for a symbol. -/
def symbolMembers (t : Tree) (r : NodeRef) : List (String × Value) :=
  match Symbol.ofNode? t r with
  | none => []
  | some s =>
    [("symbol", s.json), ("symbol_kind", .str (s.impliedKind t r).name),
      ("constructor", .bool (t.isConstructor r))]

def nodeJson (t : Tree) (i : NodeIndex) (n : Node) : Value :=
  .obj ([("kind", .str n.kind.name), ("data", n.payload.json), ("parent", n.parent.json),
      ("scope", n.scope.json), ("children", .naturals n.children),
      ("comments", .naturals n.comments), ("range", n.range.json), ("loc", n.position.json),
      ("text", .str (t.name (some i)))] ++
    memberIf "value" id (t.value? (some i)) ++
    memberUnlessEmpty "params" Value.strings (t.paramNames (some i)) ++
    t.symbolMembers (some i) ++
    memberIf "doc" (fun c : Comment =>
      .arr [.str c.raw, .ofNat c.position.line, .ofNat c.position.column]) (t.doc? (some i)))

def json (t : Tree) : Value :=
  .obj [("file", .str t.fileName), ("root", .ofNat t.root.number),
    ("nodes", .arr (t.nodes.mapIdx t.nodeJson).toList), ("preorder", .naturals t.preorder),
    ("comments", .arr (t.comments.toList.map Comment.json))]

end Tree

end Doclets
