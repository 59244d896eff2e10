/-!
The kinds of node that naming depends on. Every other kind of node is only walked through.
-/

namespace Doclets

inductive NodeKind where
  | program
  | blockStatement
  | expressionStatement
  | returnStatement
  | variableDeclaration
  | variableDeclarator
  | functionDeclaration
  | functionExpression
  | arrowFunctionExpression
  | classDeclaration
  | classExpression
  | classBody
  | methodDefinition
  | classProperty
  | classPrivateProperty
  | objectExpression
  | property
  | assignmentExpression
  | memberExpression
  | callExpression
  | newExpression
  | thisExpression
  | identifier
  | privateName
  | literal
  | assignmentPattern
  | restElement
  | exportNamedDeclaration
  | exportDefaultDeclaration
  | unknown
  deriving DecidableEq

namespace NodeKind

def name : NodeKind → String
  | program => "Program"
  | blockStatement => "BlockStatement"
  | expressionStatement => "ExpressionStatement"
  | returnStatement => "ReturnStatement"
  | variableDeclaration => "VariableDeclaration"
  | variableDeclarator => "VariableDeclarator"
  | functionDeclaration => "FunctionDeclaration"
  | functionExpression => "FunctionExpression"
  | arrowFunctionExpression => "ArrowFunctionExpression"
  | classDeclaration => "ClassDeclaration"
  | classExpression => "ClassExpression"
  | classBody => "ClassBody"
  | methodDefinition => "MethodDefinition"
  | classProperty => "ClassProperty"
  | classPrivateProperty => "ClassPrivateProperty"
  | objectExpression => "ObjectExpression"
  | property => "Property"
  | assignmentExpression => "AssignmentExpression"
  | memberExpression => "MemberExpression"
  | callExpression => "CallExpression"
  | newExpression => "NewExpression"
  | thisExpression => "ThisExpression"
  | identifier => "Identifier"
  | privateName => "PrivateName"
  | literal => "Literal"
  | assignmentPattern => "AssignmentPattern"
  | restElement => "RestElement"
  | exportNamedDeclaration => "ExportNamedDeclaration"
  | exportDefaultDeclaration => "ExportDefaultDeclaration"
  | unknown => "Unknown"

/-- The kind of a node by the type it is given in ESTree, or in the dialect of it that splits
literals by their value and names some nodes differently. -/
def ofType : String → NodeKind
  | "Program" => program
  | "BlockStatement" => blockStatement
  | "ExpressionStatement" => expressionStatement
  | "ReturnStatement" => returnStatement
  | "VariableDeclaration" => variableDeclaration
  | "VariableDeclarator" => variableDeclarator
  | "FunctionDeclaration" => functionDeclaration
  | "FunctionExpression" => functionExpression
  | "ArrowFunctionExpression" => arrowFunctionExpression
  | "ClassDeclaration" => classDeclaration
  | "ClassExpression" => classExpression
  | "ClassBody" => classBody
  | "MethodDefinition" => methodDefinition
  | "ClassProperty" | "PropertyDefinition" => classProperty
  | "ClassPrivateProperty" => classPrivateProperty
  | "ObjectExpression" => objectExpression
  | "Property" | "ObjectProperty" => property
  | "AssignmentExpression" => assignmentExpression
  | "MemberExpression" => memberExpression
  | "CallExpression" => callExpression
  | "NewExpression" => newExpression
  | "ThisExpression" => thisExpression
  | "Identifier" => identifier
  | "PrivateName" | "PrivateIdentifier" => privateName
  | "Literal" | "StringLiteral" | "NumericLiteral" | "BooleanLiteral" | "NullLiteral"
  | "RegExpLiteral" | "BigIntLiteral" => literal
  | "AssignmentPattern" => assignmentPattern
  | "RestElement" => restElement
  | "ExportNamedDeclaration" => exportNamedDeclaration
  | "ExportDefaultDeclaration" => exportDefaultDeclaration
  | _ => unknown

def isFunction : NodeKind → Bool
  | functionDeclaration | functionExpression | arrowFunctionExpression => true
  | _ => false

def isClass : NodeKind → Bool
  | classDeclaration | classExpression => true
  | _ => false

/-- Whether a node opens a scope for the nodes below it. The program itself does not. -/
def opensScope (k : NodeKind) : Bool := k.isFunction || k.isClass

/-- Whether a node binds a value to a name. -/
def isAssignment : NodeKind → Bool
  | assignmentExpression | variableDeclarator => true
  | _ => false

def isExport : NodeKind → Bool
  | exportNamedDeclaration | exportDefaultDeclaration => true
  | _ => false

/-- Whether a node stands for a symbol that may be documented. -/
def isSymbol : NodeKind → Bool
  | variableDeclarator | assignmentExpression | functionDeclaration | functionExpression
  | arrowFunctionExpression | classDeclaration | classExpression | methodDefinition
  | classProperty | classPrivateProperty | property => true
  | _ => false

theorem opensScope_of_isFunction {k : NodeKind} (h : k.isFunction = true) :
    k.opensScope = true := by
  rw [opensScope, h, Bool.true_or]

theorem opensScope_of_isClass {k : NodeKind} (h : k.isClass = true) : k.opensScope = true := by
  rw [opensScope, h, Bool.or_true]

theorem isSymbol_of_opensScope {k : NodeKind} (h : k.opensScope = true) : k.isSymbol = true := by
  cases k <;> simp_all [opensScope, isFunction, isClass, isSymbol]

end NodeKind

end Doclets
