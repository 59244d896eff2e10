import Doclets.Doclet.Identity
import Doclets.Registry
import Doclets.Tree.Scopes

/-!
From the place of a node in its tree to the longname of its parent. The answers depend on the
doclets registered so far: a walk registers the scopes around a node before the node.
-/

namespace Doclets

/-- The scopes that one walk outwards visits at most. -/
def maxScopeWalk : Nat := 10000

/-- The scopes that the question what `this` is may be handed on to. -/
def maxThisDepth : Nat := 1000

/-- The nodes that the search for the owners of a property visits at most. -/
def maxOwnerWalk : Nat := 1000

/-- What a symbol belongs to. -/
structure Owner where
  /-- The longname of the parent, with punctuation behind it where that is known. -/
  memberof : Option String
  /-- The identifier, in front of the name, that is declared in a scope around the symbol. -/
  basename : Option String
  deriving DecidableEq

def Owner.unknown : Owner := ⟨none, none⟩

def Owner.parent (longname : String) : Owner := ⟨some longname, none⟩

/-- Whether a method is one of a class that an arrow function returns. -/
def Tree.isFactoryMethod (t : Tree) (method : NodeRef) : Bool :=
  let owner := t.parent (t.parent method)
  t.isKind owner .classExpression && t.scope method = owner &&
    t.isKind (t.parent owner) .arrowFunctionExpression

namespace Registry

/-- A member of the scope at `scope`, which may have no name. -/
def memberOfScope (r : Registry) (t : Tree) (scope : NodeRef) (punctuation : String) : Owner :=
  let longname := match r.ofNode? t scope with
    | some d => d.longname
    | none => Longname.anonymous
  .parent (longname ++ punctuation)

/-- The longname, if it is known, that a name declared around `node` resolved to: the innermost
scope that declares it answers, and in the end the scope around all units. -/
def declared? (r : Registry) (t : Tree) (node : NodeRef) (name : String) :
    Option (Option String) :=
  let inScopes := (t.scopesAround maxScopeWalk node).findSome? fun s =>
    (r.ofNode? t (some s)).bind fun d => Ledger.get? name d.origin.vars
  inScopes.or (Ledger.get? name (r.doclet r.global).origin.vars)

/-- The parent of a symbol that is named by a path: that of the declared name in front, or else
whatever documents the node around the symbol. -/
def ownerByName (r : Registry) (t : Tree) (node parent : NodeRef) : Owner :=
  match Longname.basename? (t.name node) with
  | none => .unknown
  | some basename =>
    match r.declared? t node basename with
    | some longname => ⟨longname, some basename⟩
    | none =>
      match r.ofNode? t parent with
      | some d => .parent d.longname
      | none => .unknown

/-- The parent of a class that is documented by its constructor: an inner member of whatever owns
the class. -/
def ownerOfConstructor (r : Registry) (t : Tree) (scope : NodeRef) : Owner :=
  ⟨((r.ofNode? t scope).bind Doclet.memberof).map (· ++ "~"), none⟩

/-- The parent of a method of a class that an arrow function returns: that function. -/
def ownerOfFactoryMethod (r : Registry) (t : Tree) (scope : NodeRef) (isStatic : Bool) : Owner :=
  ⟨(r.ofNode? t (t.parent scope)).map fun d => d.longname ++ if isStatic then "." else "#", none⟩

/-- The parent of the symbol at a node. Functions and variables inside a scope are inner members
of it, and class fields are instance members of their class. -/
def owner (r : Registry) (t : Tree) (node : NodeRef) : Owner :=
  match t.node? node with
  | none => .unknown
  | some n =>
    match n.kind with
    | .functionDeclaration | .functionExpression | .arrowFunctionExpression
    | .variableDeclarator =>
      if n.scope.isSome then r.memberOfScope t n.scope "~" else r.ownerByName t node n.parent
    | .classProperty | .classPrivateProperty =>
      if n.scope.isSome then r.memberOfScope t n.scope "#" else r.ownerByName t node n.parent
    | .methodDefinition =>
      if t.isConstructor node then r.ownerOfConstructor t n.scope
      else if t.isFactoryMethod node then
        let isStatic := match n.payload with
          | .methodDefinition _ _ _ isStatic _ => isStatic
          | _ => false
        r.ownerOfFactoryMethod t n.scope isStatic
      else r.ownerByName t node n.parent
    | _ => r.ownerByName t node n.parent

/-- The class that a scope is, or that its function is an instance member of. -/
def classAt? (r : Registry) (t : Tree) (scope : NodeIndex) : Option DocletId :=
  match r.idOfNode? t (some scope) with
  | none => none
  | some id =>
    let d := r.doclet id
    if d.isClass then some id
    else
      let path := Longname.shorten d.longname
      if path.scope = some '#' then
        (r.idOfLongname? path.memberof).filter fun owner => (r.doclet owner).isClass
      else none

/-- The nearest class around a node. -/
def classAround? (r : Registry) (t : Tree) (node : NodeRef) : Option DocletId :=
  (t.scopesAround maxScopeWalk node).findSome? (r.classAt? t)

/-- The longname of the function scope that declares a name, from `node` outwards; function
declarations are not left. The empty text where there is none. -/
def declaringScope (r : Registry) (t : Tree) (node : NodeRef) (name : String) : String :=
  ((t.scopesWithinDeclaration maxScopeWalk node).findSome? fun s =>
    (r.ofNode? t (some s)).bind fun d =>
      if Ledger.contains name d.origin.vars then some d.longname else none).getD ""

/-- The node that `this` is asked of: inside a constructor the class it builds, and elsewhere the
scope. -/
def thisNode (t : Tree) (n : Node) : NodeRef :=
  if t.isConstructor n.parent then t.parent (t.parent n.parent) else n.scope

/-- What `this` is where the scope around a node has the doclet `d`; nothing if the next scope has
to be asked. -/
def thisIn? (r : Registry) (t : Tree) (node : NodeRef) (kind : NodeKind) (d : Doclet) :
    Option String :=
  match d.thisName with
  | some this => some this
  | none =>
    match d.kind, d.memberof with
    | some .function, some owner =>
      if (r.classAround? t node).isSome || (Text.before? ".constructor" d.longname).isSome then
        some owner
      else some d.longname
    | some .member, _ => if kind.isAssignment then some d.longname else none
    | some .class, _ | some .module, _ => some d.longname
    | _, _ => none

/-- The longname that `this` stands for at a node, asking at most `limit` scopes. -/
def thisWithin (r : Registry) (t : Tree) : Nat → NodeRef → String
  | 0, _ => Longname.anonymous
  | limit + 1, node =>
    match t.node? node with
    | none => Longname.anonymous
    | some n =>
      if n.kind = .property then ((r.ofNode? t n.parent).map Doclet.longname).getD ""
      else if n.scope.isNone then Longname.anonymous
      else
        match r.ofNode? t (thisNode t n) with
        | none => Longname.anonymous
        | some d =>
          match r.thisIn? t node n.kind d with
          | some this => this
          | none => r.thisWithin t limit n.scope

/-- The longname that `this` stands for at a node. -/
def this (r : Registry) (t : Tree) (node : NodeRef) : String :=
  r.thisWithin t (maxThisDepth + 1) node

/-- The doclets that own the object literal a property stands in, innermost first: the literal may
be the value of several assignments at once. -/
def propertyOwners (r : Registry) (t : Tree) (property : NodeRef) : List DocletId :=
  (t.assignmentsAround maxOwnerWalk (t.parent property)).filterMap fun i => r.idOfNode? t (some i)

end Registry

end Doclets
