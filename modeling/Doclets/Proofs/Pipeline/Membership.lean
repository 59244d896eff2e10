import Mathlib.Data.List.TakeWhile
import Doclets.Proofs.Pipeline.ClassMembers
import Doclets.Proofs.Tree.Enclosing

/-!
Where the members of a class hang, in every run that only documents. A walk comes to the members
of a class behind the class itself, and to what a constructor puts on `this` behind the
constructor; the doclets that were made there are still those of their nodes.
-/

namespace Doclets

open Longname (EndsIn Segment Whole member)
open Documenter (constructorPlace? longnameAt methodPlace? parentAt)

/-- What stands in front of `a` begins with what stands in front of `x`, if `x` is part of it. -/
theorem exists_takeWhile_of_mem {α : Type} [DecidableEq α] {items : List α} {a x : α}
    (listed : x ∈ items.takeWhile fun y => y ≠ a) : ∃ between,
      (items.takeWhile fun y => y ≠ a) = (items.takeWhile fun y => y ≠ x) ++ x :: between := by
  induction items with
  | nil => cases listed
  | cons y rest ih =>
    by_cases last : y = a
    · simp [last] at listed
    · rw [List.takeWhile_cons_of_pos (by simpa using last)] at listed ⊢
      by_cases here : y = x
      · subst here
        exact ⟨_, by rw [List.takeWhile_cons_of_neg (by simp), List.nil_append]⟩
      · have later := (List.mem_cons.mp listed).resolve_left fun same => here same.symm
        obtain ⟨between, same⟩ := ih later
        exact ⟨between, by rw [same, List.takeWhile_cons_of_pos (by simpa using here)]; rfl⟩

theorem exists_eq_takeWhile {α : Type} [DecidableEq α] {items : List α} {a : α}
    (listed : a ∈ items) : ∃ rest, items = (items.takeWhile fun y => y ≠ a) ++ a :: rest := by
  induction items with
  | nil => cases listed
  | cons y others ih =>
    by_cases here : y = a
    · subst here
      exact ⟨others, by rw [List.takeWhile_cons_of_neg (by simp), List.nil_append]⟩
    · have later := (List.mem_cons.mp listed).resolve_left fun same => here same.symm
      obtain ⟨rest, same⟩ := ih later
      refine ⟨rest, ?_⟩
      rw [List.takeWhile_cons_of_pos (by simpa using here), List.cons_append, ← same]

namespace Tree

variable {t : Tree} {a f i : NodeIndex} {key : String}

/-- The stops of a walk in front of a node. -/
def stopsBefore (t : Tree) (i : NodeIndex) : List Stop :=
  t.stops.takeWhile fun stop => stop ≠ .node i

theorem not_mem_stopsBefore (t : Tree) (i : NodeIndex) : .node i ∉ t.stopsBefore i := by
  intro again
  simpa using List.mem_takeWhile_imp again

theorem exists_stops (visited : .node a ∈ t.stops) :
    ∃ rest, t.stops = t.stopsBefore a ++ .node a :: rest :=
  exists_eq_takeWhile visited

theorem exists_stopsBefore (passed : .node i ∈ t.stopsBefore a) :
    ∃ between, t.stopsBefore a = t.stopsBefore i ++ .node i :: between :=
  exists_takeWhile_of_mem passed

/-- A walk comes to a node once. -/
theorem Grown.stopsBefore_eq (h : t.Grown) {before after : List Stop}
    (split : t.stops = before ++ .node i :: after) : t.stopsBefore i = before := by
  have fresh : .node i ∉ before := by
    intro again
    obtain ⟨early, late, rfl⟩ := List.append_of_mem again
    rw [List.append_assoc, List.cons_append] at split
    exact h.not_passed_again split (by simp)
  have others : ∀ stop ∈ before, decide (stop ≠ .node i) = true := fun stop listed =>
    decide_eq_true fun same => fresh (same ▸ listed)
  unfold stopsBefore
  rw [split, List.takeWhile_append_of_pos others, List.takeWhile_cons_of_neg (by simp),
    List.append_nil]

/-- A walk that comes to a node has passed what lies around it. -/
theorem Grown.stopsBefore_of_around (h : t.Grown) (visited : .node a ∈ t.stops)
    (around : t.Around i a) : .node i ∈ t.stopsBefore a := by
  obtain ⟨rest, split⟩ := exists_stops visited
  exact h.passed_of_around around split

/-- A walk that comes to a child has passed its parent, and what it had passed there. -/
theorem Grown.stopsBefore_of_child (h : t.Grown) {p : NodeIndex} (visited : .node a ∈ t.stops)
    (listed : a ∈ t.childrenOf p) : .node p ∈ t.stops ∧ .node p ∈ t.stopsBefore a ∧
      ∀ stop ∈ t.stopsBefore p, stop ∈ t.stopsBefore a := by
  obtain ⟨rest, split⟩ := exists_stops visited
  have passed := h.passed_of_child listed split
  obtain ⟨between, longer⟩ := exists_stopsBefore passed
  refine ⟨?_, passed, fun stop before => ?_⟩
  · rw [split]
    exact List.mem_append_left _ passed
  · rw [longer]
    exact List.mem_append_left _ before

/-- A walk comes to a statement behind the function that it is in, and behind the node that lists
the function. -/
theorem Grown.stopsBefore_of_assigns (h : t.Grown) (visited : .node a ∈ t.stops)
    (assigns : t.AssignsThis f a key) (listed : f ∈ t.childrenOf i) : .node i ∈ t.stopsBefore a := by
  obtain ⟨s, b, _, _, here, up, above⟩ := assigns.statement
  obtain ⟨statement, _, first⟩ := h.stopsBefore_of_child visited (h.linked a s here).1
  obtain ⟨block, _, second⟩ := h.stopsBefore_of_child statement (h.linked s b up).1
  obtain ⟨function, _, third⟩ := h.stopsBefore_of_child block (h.linked b f above).1
  obtain ⟨_, passed, _⟩ := h.stopsBefore_of_child function listed
  exact first _ (second _ (third _ passed))

end Tree

namespace Run

variable {run : Run (Option String)} {file : String} {t : Tree} {a b c f i x : NodeIndex}

/-- A run that only documents, and the tree of a unit that it is about to walk. It may have been
asked anything before. -/
structure Documents (run : Run (Option String)) (file : String) (t : Tree) : Prop where
  asked : ∃ provider watchers state operations,
    run = (operations : List (Operation (Option String))).foldl perform
      (start provider watchers state)
  watchers : run.watchers = .documenting
  read : ∃ v source, Estree.ofValue file v = .ok source ∧
    t = { source with unit := run.registry.units }

/-- The walk of a tree when it comes to a node. -/
def walkTo (run : Run (Option String)) (file : String) (t : Tree) (i : NodeIndex) :
    Walk (Option String) :=
  (run.watchers.passAll file (t.stopsBefore i) ⟨t, run.registry.nextUnit.2, run.state⟩).2

theorem Documents.grown (h : run.Documents file t) : t.Grown := by
  obtain ⟨v, source, read, rfl⟩ := h.read
  have grown := Estree.grown_ofValue read
  exact ⟨grown.shaped, grown.below, grown.distinct, grown.unique, grown.rooted, grown.linked,
    grown.outermost⟩

theorem Documents.scoped (h : run.Documents file t) : t.Scoped := by
  obtain ⟨v, source, read, same⟩ := h.read
  exact same ▸ (Tree.scoped_ofValue read).inUnit run.registry.units

theorem Documents.visited (h : run.Documents file t) (bound : i < t.nodes.size) :
    .node i ∈ t.stops := by
  obtain ⟨v, source, read, rfl⟩ := h.read
  have listed := Estree.visited_ofValue read bound
  rw [← Tree.stops_inUnit (u := run.registry.units)] at listed
  exact listed

theorem Documents.registry (h : run.Documents file t) :
    run.registry.Sound ∧ run.registry.Numbered := by
  obtain ⟨provider, watchers, state, operations, asked⟩ := h.asked
  rw [asked]
  exact lasting_numbered.operations ⟨Registry.sound_empty, Registry.numbered_empty⟩ operations

theorem Documents.sound_walkTo (h : run.Documents file t) (i : NodeIndex) :
    (run.walkTo file t i).registry.Sound :=
  run.watchers.sound_passAll file (t.stopsBefore i) h.registry.1.nextUnit

theorem Documents.tree_walkTo (h : run.Documents file t) (i : NodeIndex) :
    (run.walkTo file t i).tree = t := by
  unfold walkTo
  rw [h.watchers, Watchers.tree_passAll]

theorem Documents.registry_walk (h : run.Documents file t) : (run.walk file t).2.registry =
    (Watchers.documenting.passAll file t.stops
      ⟨t, run.registry.nextUnit.2, run.state⟩).2.registry := by
  obtain ⟨v, source, _, same⟩ := h.read
  have numbered : { t with unit := run.registry.units } = t := by rw [same]
  unfold Run.walk
  dsimp only
  rw [show run.registry.nextUnit.1 = run.registry.units from rfl, numbered, h.watchers]

/-- After a node the walk passes what is left of the unit. -/
theorem Documents.registry_walk_of_split (h : run.Documents file t) {rest : List Stop}
    (split : t.stops = t.stopsBefore i ++ .node i :: rest) : (run.walk file t).2.registry =
      (Watchers.documenting.passAll file rest
        (Watchers.documenting.passNode file i (run.walkTo file t i)).2).2.registry := by
  rw [h.registry_walk, split, Watchers.passAll_append, Watchers.passAll_cons]
  unfold walkTo
  rw [h.watchers]
  rfl

/-- What is made when the walk of the unit comes to a node is a result of the unit. -/
theorem Documents.stored_of_made (h : run.Documents file t) (visited : .node i ∈ t.stops)
    {d : Doclet} (made : d ∈ (run.walkTo file t i).made file i) :
    let done := (run.walk file t).2.registry
    ∃ id ∈ done.results, (done.doclet id).SameIdentity d := by
  obtain ⟨rest, split⟩ := Tree.exists_stops visited
  obtain ⟨id, listed, bound, alike⟩ := Watchers.stored_passNode made
  have kept := Watchers.remembers_passAll file rest
    (Watchers.documenting.passNode file i (run.walkTo file t i)).2
  rw [h.registry_walk_of_split split]
  exact ⟨id, kept.results id listed, alike.trans (kept.doclet id bound)⟩

/-- Nothing has been registered for a node that is about to be walked. -/
theorem Documents.registered_start (h : run.Documents file t) (x : NodeIndex) :
    (⟨t, run.registry.nextUnit.2, run.state⟩ : Walk (Option String)).registered x = [] := by
  obtain ⟨v, source, _, same⟩ := h.read
  have unit : t.unit = run.registry.units := by rw [same]
  exact h.registry.2 t.unit (Nat.le_of_eq unit.symm) (some x)

theorem Documents.registered_walkTo_of_apart (h : run.Documents file t)
    (apart : ∀ j, .node j ∈ t.stopsBefore i → ∀ code, Symbol.ofNode? t (some j) = some code →
      code.node ≠ some x) : (run.walkTo file t i).registered x = [] := by
  unfold walkTo
  rw [h.watchers]
  exact (Watchers.registered_passAll_of_apart file apart).trans (h.registered_start x)

/-- A node that no symbol stands for has no doclet. -/
theorem Documents.ofNode?_of_plain (h : run.Documents file t)
    (plain : ∀ j code, Symbol.ofNode? t (some j) = some code → code.node ≠ some x) :
    (run.walkTo file t i).registry.ofNode? t (some x) = none := by
  have answer := (run.walkTo file t i).ofNode?_eq x
  rw [h.tree_walkTo, h.registered_walkTo_of_apart fun j _ => plain j] at answer
  exact answer

/-- A walk comes to a node by way of those that it passed, and to none of them twice. -/
theorem Documents.exists_walkTo (h : run.Documents file t) (visited : .node a ∈ t.stops)
    (passed : .node i ∈ t.stopsBefore a) : ∃ between,
      run.walkTo file t a = (Watchers.documenting.passAll file between
        (Watchers.documenting.passNode file i (run.walkTo file t i)).2).2 ∧
      ∀ j, .node j ∈ between → j ≠ i ∧ .node j ∉ t.stopsBefore i := by
  obtain ⟨between, longer⟩ := Tree.exists_stopsBefore passed
  obtain ⟨rest, split⟩ := Tree.exists_stops visited
  refine ⟨between, ?_, fun j listed => ⟨?_, fun earlier => ?_⟩⟩
  · unfold walkTo
    rw [longer, h.watchers, Watchers.passAll_append, Watchers.passAll_cons]
    rfl
  · rintro rfl
    rw [longer, List.append_assoc, List.cons_append] at split
    exact h.grown.not_passed_again split (List.mem_append_left _ listed)
  · obtain ⟨more, further⟩ := Tree.exists_stopsBefore earlier
    rw [longer, further, List.append_assoc, List.append_assoc, List.cons_append] at split
    apply h.grown.not_passed_again split
    simp [listed]

/-- The last doclet that is made of a symbol is the doclet of its node from then on, if no symbol
that has a name and stands for the node is passed later. -/
theorem Documents.ofNode?_behind (h : run.Documents file t) {code : Symbol} {d : Doclet}
    (visited : .node a ∈ t.stops) (passed : .node i ∈ t.stopsBefore a)
    (symbol : Symbol.ofNode? t (some i) = some code) (here : code.node = some x)
    (only : ∀ j ≠ i, .node j ∉ t.stopsBefore i → ∀ known : Prop, known →
      Watchers.Quiet t x known (.node j))
    (last : ((run.walkTo file t i).made file i).getLast? = some d) :
    ∃ e, (run.walkTo file t a).registry.ofNode? t (some x) = some e ∧ e.SameIdentity d := by
  let walk := run.walkTo file t i
  let next := (Watchers.documenting.passNode file i walk).2
  have tree : walk.tree = t := h.tree_walkTo i
  have same : next.tree = t := (Watchers.pass_documenting file walk (.node i)).2.trans tree
  obtain ⟨between, later, fresh⟩ := h.exists_walkTo visited passed
  have symbol : Symbol.ofNode? walk.tree (some i) = some code := by
    rw [tree]
    exact symbol
  obtain ⟨e, known, alike⟩ := Watchers.ofNode?_passNode symbol here last
  rw [tree] at known
  have registered : next.registered x ≠ [] := by
    intro nothing
    have answer := next.ofNode?_eq x
    rw [same, nothing] at answer
    rw [show next.registry.ofNode? t (some x) = some e from known] at answer
    cases answer
  have quiet : ∀ stop ∈ between, Watchers.Quiet next.tree x (next.registered x ≠ []) stop := by
    intro stop listed
    rw [same]
    cases stop with
    | comment => trivial
    | node j =>
      obtain ⟨other, later⟩ := fresh j listed
      exact only j other later _ registered
  have still := Watchers.passAll_quiet file quiet
  have kept := Watchers.remembers_passAll file between next
  have sound : next.registry.Sound :=
    Watchers.documenting.sound_passNode file i (h.sound_walkTo i)
  rw [← later] at still kept
  unfold Walk.registered at still
  rw [h.tree_walkTo, same] at still
  obtain ⟨e', found, also⟩ := kept.ofNode? sound.toAnchored still known
  exact ⟨e', found, alike.trans also⟩

/-- What a constructor puts on `this` belongs to what the constructor was made when the walk came
to it. -/
theorem Documents.makes_of_assignsThis (h : run.Documents file t) {value : NodeRef}
    {last key longname : String} (constructs : t.Constructs i value last) (function : value = some f)
    (made : (run.walkTo file t i).Makes file i fun e =>
      e.longname = longname ∧ e.kind = some .class ∧ e.thisName = none)
    (anonymous : t.IsAnonymous f) (assigns : t.AssignsThis f a key) (visited : .node a ∈ t.stops)
    (whole : Whole longname)
    (untagged : ∀ part ∈ Comment.parts (t.docText a), ∀ origin,
      (Doclet.ofComment part origin).Untagged) :
    (run.walkTo file t a).Makes file a fun e =>
      e.longname = member longname '#' key ∧ e.memberof = some longname := by
  obtain ⟨⟨name, isStatic, computed, payload⟩, _⟩ := constructs
  have listed : f ∈ t.childrenOf i := by
    apply (h.grown.shaped i _ payload).2
    simp [Payload.refs, function]
  have symbol := (h.grown.symbol_of_method payload).2
  obtain ⟨d, latest⟩ : ∃ d, ((run.walkTo file t i).made file i).getLast? = some d :=
    ⟨_, List.getLast?_eq_some_getLast made.1⟩
  obtain ⟨text, isClass, plain⟩ := made.2 d (List.mem_of_getLast? latest)
  have passed := h.grown.stopsBefore_of_assigns visited assigns listed
  obtain ⟨e, cached, alike⟩ := h.ofNode?_behind visited passed symbol function
    (fun j other _ known holds => h.grown.quiet_of_anonymous anonymous listed other holds) latest
  have tree := h.tree_walkTo a
  have same : e.longname = longname := alike.longname.trans text
  have result : (run.walkTo file t a).Makes file a _ :=
    Walk.makes_of_assignsThis (tree.symm ▸ h.grown) (h.sound_walkTo a).toAnchored
      (tree.symm ▸ assigns) (tree.symm ▸ anonymous) (tree.symm ▸ cached)
      (alike.kind.trans isClass) (alike.thisName.trans plain) (same.symm ▸ whole)
      (tree.symm ▸ untagged)
  rw [same] at result
  exact result

end Run

/-! ### A class that a module exports -/

namespace ExportedClass

def node (type : String) (members : List (String × Json.Value)) : Json.Value :=
  .obj (("type", .str type) :: members)

def identifier (name : String) : Json.Value := node "Identifier" [("name", .str name)]

def method (kind name : String) (body : List Json.Value) : Json.Value :=
  node "MethodDefinition" [("key", identifier name), ("kind", .str kind),
    ("value", node "FunctionExpression" [("params", .arr []),
      ("body", node "BlockStatement" [("body", .arr body)])])]

/-- `export class Foo { x; constructor() { this.y = z; } bar() {} }`, in the module `m`. -/
def unit : Json.Value :=
  let assigns := node "AssignmentExpression" [("operator", .str "="),
    ("left", node "MemberExpression" [("object", node "ThisExpression" []),
      ("property", identifier "y")]),
    ("right", identifier "z")]
  let members := [node "PropertyDefinition" [("key", identifier "x")],
    method "constructor" "constructor" [node "ExpressionStatement" [("expression", assigns)]],
    method "method" "bar" []]
  node "Program" [
    ("comments", .arr [node "Block" [("value", .str "* @module m ")]]),
    ("body", .arr [node "ExportNamedDeclaration" [("declaration",
      node "ClassDeclaration" [("id", identifier "Foo"),
        ("body", node "ClassBody" [("body", .arr members)])])]])]

def tree : Tree :=
  match Estree.ofValue "foo.js" unit with
  | .ok t => t
  | .error _ => ⟨"", 0, #[], none, #[]⟩

def run : Run (Option String) := .start .estree .documenting none

theorem documents : run.Documents "foo.js" tree where
  asked := ⟨.estree, .documenting, none, [], rfl⟩
  watchers := rfl
  read := ⟨unit, tree, rfl, rfl⟩

/-- The walk of the unit when it comes to a node. -/
def walk (i : NodeIndex) : Walk (Option String) := run.walkTo "foo.js" tree i

theorem tree_walk (i : NodeIndex) : (walk i).tree = tree := documents.tree_walkTo i

theorem untagged (part : String) (listed : part ∈ Comment.parts "") (origin : Origin) :
    (Doclet.ofComment part origin).Untagged ∧ (Doclet.ofComment part origin).thisName = none := by
  have only : Comment.parts "" = [""] := by decide
  obtain rfl := List.mem_singleton.mp (only ▸ listed)
  exact ⟨⟨rfl, rfl, rfl, rfl⟩, rfl⟩

theorem segment (name : String) (plain : (name.toList.all fun c => !Longname.isMark c) = true)
    (filled : name ≠ "") (other : name.toList ≠ Longname.prototypeWord) : Segment name :=
  ⟨filled, fun c listed => by simpa using List.all_eq_true.mp plain c listed, other⟩

theorem whole {text : String}
    (closed : text.toList.foldl Longname.Nesting.step .outside = .outside)
    (plain : text ≠ "" ∧ 'p' ∉ text.toList ∧ Longname.endsJoined text = false ∧
      ¬ Longname.global.toList <+: text.toList) : Whole text :=
  ⟨⟨plain.1, Longname.spelled_of_not_mem plain.2.1, closed, plain.2.2.1⟩, plain.2.2.2⟩

/-- At each member, the class is known by its longname in the module. -/
theorem atMember {i : NodeIndex} (member : tree.parent (some i) = some 17)
    (plain : tree.docText i = "")
    (known : ((walk i).registry.ofNode? tree (some 18)).map (fun d => (d.kind, d.longname)) =
      some (some .class, "module:m.Foo")) :
    ∃ d, d.longname = "module:m.Foo" ∧ (walk i).AtMember 18 i d := by
  obtain ⟨d, cached, same⟩ := Option.map_eq_some_iff.mp known
  obtain ⟨kind, longname⟩ := Prod.mk.inj same
  refine ⟨d, longname, ⟨?_, ?_⟩, ?_, kind, ?_, ?_⟩
  · exact ⟨.classDeclaration, by rw [tree_walk]; rfl, rfl⟩
  · exact ⟨17, by rw [tree_walk]; rfl, by rw [tree_walk]; exact member, by rw [tree_walk]; rfl⟩
  · rw [tree_walk]
    exact cached
  · rw [longname]
    exact whole rfl (by decide)
  · rw [tree_walk, plain]
    exact fun part listed origin => (untagged part listed origin).1

end ExportedClass

end Doclets
