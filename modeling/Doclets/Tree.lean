import Doclets.Comment
import Doclets.Tree.Node

/-!
The syntax tree of one unit: a table of nodes, the root among them, and the comments in source
order. Links to parents and scopes are filled in by `Tree.link`.
-/

namespace Doclets

structure Tree where
  fileName : String
  /-- The number of the unit among those of a session. -/
  unit : Nat
  nodes : Array Node
  root : NodeRef
  comments : Array Comment

/-- What a node is linked to: its parent and the scope around it. -/
structure Link where
  parent : NodeRef
  scope : NodeRef

namespace Tree

/-- The node a reference leads to, if there is one. -/
def node? (t : Tree) (r : NodeRef) : Option Node := r.bind fun i => t.nodes[i]?

def kind? (t : Tree) (r : NodeRef) : Option NodeKind := (t.node? r).map Node.kind

def isKind (t : Tree) (r : NodeRef) (kind : NodeKind) : Bool := t.kind? r = some kind

def payload? (t : Tree) (r : NodeRef) : Option Payload := (t.node? r).map Node.payload

def parent (t : Tree) (r : NodeRef) : NodeRef := (t.node? r).bind Node.parent

/-- The nearest function or class around a node; none at the top level. -/
def scope (t : Tree) (r : NodeRef) : NodeRef := (t.node? r).bind Node.scope

def nodeId (t : Tree) (r : NodeRef) : NodeId := ⟨t.unit, r⟩

def childrenOf (t : Tree) (i : NodeIndex) : List NodeIndex :=
  match t.nodes[i]? with
  | some n => n.children
  | none => []

/-- The comments in front of a node. -/
def commentsOf (t : Tree) (r : NodeRef) : List Comment :=
  match t.node? r with
  | some n => n.comments.filterMap fun c => t.comments[c]?
  | none => []

/-! ### Linking -/

/-- The links found so far, by node. -/
abbrev Links := Array (Option Link)

/-- Links a child that is in the table and not linked yet, and puts it on the stack. -/
def linkChild (link : Link) (found : Links × List NodeIndex) (child : NodeIndex) :
    Links × List NodeIndex :=
  match found.1[child]? with
  | some none => (found.1.set! child (some link), child :: found.2)
  | _ => found

/-- The scope of the children of a node that lies in `scope` itself. -/
def scopeBelow (t : Tree) (i : NodeIndex) (scope : NodeRef) : NodeRef :=
  match t.nodes[i]? with
  | some n => if n.kind.opensScope then some i else scope
  | none => scope

/-- Links the children of the nodes on the stack, and theirs. Every node is put on the stack at
most once, so the number of nodes is enough fuel. -/
def linkFrom (t : Tree) : Nat → Links → List NodeIndex → Links
  | 0, found, _ => found
  | _, found, [] => found
  | fuel + 1, found, i :: stack =>
    let scope := match found[i]? with
      | some (some link) => link.scope
      | _ => none
    let (found, stack) := (t.childrenOf i).foldl
      (linkChild ⟨some i, t.scopeBelow i scope⟩) (found, stack)
    linkFrom t fuel found stack

/-- Fills in the links of every node that can be reached from the root. A child's scope is its
parent if that opens one, and otherwise its parent's scope. A node that is reached twice keeps the
parent that reached it first. -/
def link (t : Tree) : Tree :=
  match t.root with
  | none => t
  | some root =>
    if root < t.nodes.size then
      let start : Links := (Array.replicate t.nodes.size none).set! root (some ⟨none, none⟩)
      let found := t.linkFrom t.nodes.size start [root]
      { t with
        nodes := t.nodes.mapIdx fun i n =>
          match found[i]? with
          | some (some link) => { n with parent := link.parent, scope := link.scope }
          | _ => n }
    else t

/-! ### Order -/

/-- The nodes below `i` in pre-order, `i` first, followed by `rest`. The first argument bounds the
levels that are entered. -/
def visit (t : Tree) : Nat → NodeIndex → List NodeIndex → List NodeIndex
  | 0, i, rest => i :: rest
  | levels + 1, i, rest => i :: (t.childrenOf i).foldr (t.visit levels) rest

/-- All nodes in pre-order. A node that several nodes list as a child comes once for each. No path
down a tree is longer than its table. -/
def preorder (t : Tree) : List NodeIndex :=
  match t.root with
  | none => []
  | some root => if root < t.nodes.size then t.visit t.nodes.size root [] else []

end Tree

end Doclets
