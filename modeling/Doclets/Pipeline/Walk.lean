import Doclets.Pipeline.Handler
import Doclets.Registry.FollowUp

/-!
The walk through one unit. What it stops at is settled before it starts: first the comments in
front of no node, in source order, and then the nodes in pre-order, each after the comments in front
of it that have not been passed yet.
-/

namespace Doclets

/-- A stop of the walk. -/
inductive Stop where
  | comment (index : Nat)
  | node (index : NodeIndex)
  deriving DecidableEq

namespace Tree

/-- Marks the comments that stand in front of a node. -/
def markComments (t : Tree) (marks : Array Bool) (i : NodeIndex) : Array Bool :=
  match t.nodes[i]? with
  | some n => n.comments.foldl (fun marks c => marks.setIfInBounds c true) marks
  | none => marks

/-- The comments, of those in `indices`, that are still waiting, as stops after `stops`. -/
def passComments (waiting : Array Bool) (stops : Array Stop) (indices : List Nat) :
    Array Bool × Array Stop :=
  indices.foldl (fun (waiting, stops) c =>
    if waiting[c]? = some true then (waiting.setIfInBounds c false, stops.push (.comment c))
    else (waiting, stops)) (waiting, stops)

/-- The stops at a node. -/
def passNode (t : Tree) (passed : Array Bool × Array Stop) (i : NodeIndex) :
    Array Bool × Array Stop :=
  let indices := match t.nodes[i]? with
    | some n => n.comments
    | none => []
  let (waiting, stops) := passComments passed.1 passed.2 indices
  (waiting, stops.push (.node i))

/-- The stops of the walk, in order. -/
def stops (t : Tree) : List Stop :=
  let order := t.preorder
  let attached := order.foldl t.markComments (Array.replicate t.comments.size false)
  let loose := (List.range t.comments.size).filter fun c => attached[c]? = some false
  (order.foldl t.passNode (attached, (loose.map Stop.comment).toArray)).2.toList

end Tree

/-- What a walk changes: the tree, whose comments may be changed, the doclets, and the state of
the handlers. -/
structure Walk (σ : Type) where
  tree : Tree
  registry : Registry
  state : σ

/-- Those who watch a run. -/
structure Watchers (σ : Type) where
  handlers : List (Handler σ)
  visitors : List (Visitor σ)

namespace Watchers

variable {σ : Type}

/-- Shows new doclets to the handlers, and makes them results; gives the last one. -/
def register (w : Watchers σ) :
    List Doclet → Registry → σ → Flow × Option DocletId × Registry × σ
  | [], r, s => (.continue, none, r, s)
  | d :: rest, r, s =>
    let (flow, d, s) := Handler.relay Handler.newDoclet w.handlers d s
    let (id, r) := r.addDoclet d
    let (others, last, r, s) := w.register rest r s
    (flow.merge others, last.or (some id), r, s)

/-- Passes a documentation comment; any other says nothing. -/
def passComment (w : Watchers σ) (file : String) (index : Nat) (walk : Walk σ) :
    Flow × Walk σ :=
  match walk.tree.comments[index]? with
  | none => (.continue, walk)
  | some comment =>
    if comment.isDoc then
      let event : CommentFound :=
        ⟨comment.raw, file, comment.position.line, comment.position.column, []⟩
      let (flow, event, s) := Handler.relay
        (fun h => h.commentFound ⟨walk.registry, walk.tree⟩) w.handlers event walk.state
      let tree := if event.comment = comment.raw then walk.tree
        else { walk.tree with
          comments := walk.tree.comments.modify index fun c => c.withRaw event.comment }
      let (registered, _, r, s) := w.register event.doclets walk.registry s
      (flow.merge registered, ⟨tree, r, s⟩)
    else (.continue, walk)

/-- Notes the name that an assignment or declaration binds, with the scope around it, and asks
which function scope declares the name in front of an assignment. -/
def declareName (t : Tree) (node : NodeRef) (kind : NodeKind) (code : Symbol) (r : Registry) :
    Symbol × List FollowUp × Registry :=
  let (followUps, r) :=
    if code.name.isEmpty then ([], r)
    else
      match r.idOfNode? t (t.scope node) with
      | some scope => ([.trackName scope], r.declare scope code.name none)
      | none => ([], r)
  let code :=
    if kind = .assignmentExpression then
      match Longname.basename? code.name with
      | some basename =>
        if basename = "this" then code
        else
          let scope := r.declaringScope t node basename
          { code with funcscope := if scope.isEmpty then none else some scope }
      | none => code
    else code
  (code, followUps, r)

/-- What is to be done for a symbol before and after its checkpoint. -/
def prepare (t : Tree) (node : NodeRef) (kind : NodeKind) (code : Symbol) (r : Registry) :
    Symbol × List FollowUp × Registry :=
  match kind with
  | .variableDeclarator | .assignmentExpression => declareName t node kind code r
  | .property => (code, [.joinEnum], r)
  | .methodDefinition => (code, if t.isConstructor node then [.joinClass] else [], r)
  | _ => (code, [], r)

/-- The checkpoint of the symbol at a node, if it stands for one. -/
def symbolAt? (t : Tree) (file : String) (i : NodeIndex) (r : Registry) :
    Option (SymbolFound × List FollowUp × Registry) :=
  match t.nodes[i]?, Symbol.ofNode? t (some i) with
  | some n, some code =>
    let comment := ((t.doc? (some i)).map Comment.raw).getD ""
    let (code, followUps, r) := prepare t (some i) n.kind code r
    some (⟨comment, file, n.position.line, n.position.column, i, code, []⟩, followUps, r)
  | _, _ => none

/-- Shows a node that stands for no symbol to the visitors. -/
def visitPlain (w : Watchers σ) (t : Tree) (file : String) (i : NodeIndex) (s : σ) : σ :=
  w.visitors.foldl (fun s v => v.node t i file s) s

/-- Shows a symbol to the visitors. -/
def visitSymbol (w : Watchers σ) (t : Tree) (file : String) (event : SymbolFound) (s : σ) :
    SymbolFound × σ :=
  w.visitors.foldl (fun (event, s) v => v.symbol t file event s) (event, s)

/-- Passes a node. The doclets that handlers make for a symbol are stored, what remains to be done
for the last of them is done, and it is registered for the node that the symbol stands for. -/
def passNode (w : Watchers σ) (file : String) (i : NodeIndex) (walk : Walk σ) : Flow × Walk σ :=
  let t := walk.tree
  match symbolAt? t file i walk.registry with
  | none => (.continue, { walk with state := w.visitPlain t file i walk.state })
  | some (event, followUps, r) =>
    let (event, s) := w.visitSymbol t file event walk.state
    let (flow, event, s) := Handler.relay (fun h => h.symbolFound ⟨r, t⟩) w.handlers event s
    let (registered, last, r, s) := w.register event.doclets r s
    let r := match last with
      | some id =>
        followUps.foldl (Registry.follow t (some event.node) event.code.name id) r
      | none => r
    (flow.merge registered, ⟨t, r.registerNode t event.code.node last event.code, s⟩)

def pass (w : Watchers σ) (file : String) (walk : Walk σ) : Stop → Flow × Walk σ
  | .comment index => w.passComment file index walk
  | .node i => w.passNode file i walk

/-- Passes stop after stop, until a handler asks for something else. -/
def passAll (w : Watchers σ) (file : String) : List Stop → Walk σ → Flow × Walk σ
  | [], walk => (.continue, walk)
  | stop :: rest, walk =>
    match w.pass file walk stop with
    | (.continue, walk) => w.passAll file rest walk
    | (flow, walk) => (flow, walk)

end Watchers

end Doclets
