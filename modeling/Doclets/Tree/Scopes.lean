import Doclets.Tree

/-!
The scopes around a node, innermost first. A limit bounds every walk outwards: a malformed tree may
link a node to itself.
-/

namespace Doclets.Tree

/-- The scopes around a node, at most `limit` of them. -/
def scopesAround (t : Tree) : Nat → NodeRef → List NodeIndex
  | 0, _ => []
  | limit + 1, r =>
    match t.scope r with
    | some s => s :: t.scopesAround limit (some s)
    | none => []

/-- The scopes around a node that are met before a function declaration has to be left, at most
`limit` of them. -/
def scopesWithinDeclaration (t : Tree) : Nat → NodeRef → List NodeIndex
  | 0, _ => []
  | limit + 1, r =>
    if t.isKind r .functionDeclaration then []
    else
      match t.scope r with
      | some s => s :: t.scopesWithinDeclaration limit (some s)
      | none => []

/-- A node and, as long as the node around it is an assignment, that assignment, and so on, at most
`limit` of them. -/
def assignmentsAround (t : Tree) : Nat → NodeRef → List NodeIndex
  | 0, _ => []
  | _, none => []
  | limit + 1, some i =>
    let outer := t.parent (some i)
    if t.isKind outer .assignmentExpression then i :: t.assignmentsAround limit outer else [i]

end Doclets.Tree
