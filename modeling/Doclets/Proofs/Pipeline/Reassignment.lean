import Doclets.Proofs.Pipeline.PrototypeMembers
import Doclets.Proofs.Pipeline.ScopesFirst

/-!
Assignments to a plain name, in every run that only documents. An assignment notes its name in the
scope it stands in before it asks which scope declares the name, so that the answer is always that
scope; and in a module it does not matter. Whatever function declares a variable, an assignment in
a function names it as if that function did, or the module.
-/

namespace Doclets

open Longname (Segment Whole member)

namespace Tree

variable {t : Tree} {a : NodeIndex} {x : String}

/-- An assignment to an identifier that means nothing else, wherever it stands, without tags. -/
structure Reassigns (t : Tree) (a : NodeIndex) (x : String) : Prop where
  payload : ∃ operator left right,
    t.payload? (some a) = some (.assignment operator left right) ∧
    t.payload? left = some (.identifier x)
  segment : Segment x
  leads : Longname.basename? x = some x
  not_this : x ≠ "this"
  not_exports : x ≠ "exports"
  untagged : ∀ part ∈ Comment.parts (t.docText a), ∀ origin,
    (Doclet.ofComment part origin).Untagged

end Tree

/-! ### What is made of an assignment -/

namespace Documenter

variable {ctx : Context} {event : SymbolFound} {m outer : String}

/-- A name that a function scope declares, outside any module. -/
theorem ofSymbol_of_funcscope
    (untagged : ∀ part ∈ Comment.parts event.comment, ∀ origin,
      (Doclet.ofComment part origin).Untagged)
    (segment : Segment event.code.name) (other : event.code.name ≠ "this")
    (owner : (ctx.registry.owner ctx.tree (some event.node)).memberof = none)
    (declared : event.code.funcscope = some outer) (whole : Whole outer) :
    ofSymbol ctx none event ≠ [] ∧ ∀ d ∈ ofSymbol ctx none event,
      d.longname = member outer '~' event.code.name ∧ d.memberof = some outer := by
  apply ofSymbol_of_resolved untagged segment.ne_empty
  · rw [Longname.endsJoined_member segment.ne_empty]
    exact segment.path.not_joined
  · intro d begun _
    have placed : placed ctx none (some event.node) d = d := by
      rw [placed_of_unreserved begun (reserved?_of_segment segment other fun _ => rfl)]
      unfold inScope
      simp only [owner, Option.filter_none]
      rfl
    have known : d.funcscope? = some outer := by
      rw [begun.funcscope, declared, Option.filter_some, if_pos (by simp [whole.ne_empty])]
    refine ⟨d, placed, ?_, ?_⟩
    · rw [begun.name]
      exact segment.ne_empty
    · rw [Doclet.resolve_of_funcscope whole segment begun.name begun.memberof known
        (by rw [begun.scope]; simp)]
      exact ⟨rfl, rfl⟩

/-- How the members of a module are joined to it: statically, if they are exported. -/
def moduleJoint (t : Tree) (node : NodeRef) : Scope :=
  if isNamedExport t node then .static else .inner

/-- How a name is joined to the module, or to the function scope where there is no module. -/
def jointOf (module : Option String) (t : Tree) (node : NodeRef) : Char :=
  if module.isSome && isNamedExport t node then '.' else '~'

theorem punctuation?_moduleJoint (m : String) (t : Tree) (node : NodeRef) :
    (moduleJoint t node).punctuation? = some (jointOf (some m) t node) := by
  unfold moduleJoint jointOf
  cases isNamedExport t node <;> rfl

theorem placed_of_module {node : NodeRef} {name : String} {funcscope : Option String} {d : Doclet}
    (begun : Begun d name funcscope) (free : reserved? ctx (some m) node name = none)
    (owner : (ctx.registry.owner ctx.tree node).memberof = none) (whole : Whole m)
    (other : name ≠ m) : placed ctx (some m) node d =
      { d with memberof := some m, scope := some (moduleJoint ctx.tree node) } := by
  have limited : moduleJoint ctx.tree node ≠ .global := by
    unfold moduleJoint
    split <;> exact nofun
  rw [placed_of_unreserved begun free]
  unfold inScope
  dsimp only
  rw [owner]
  dsimp only [Option.filter_none]
  unfold inModule
  simp only [begun.memberof, begun.name, begun.scope, Option.some.injEq, other, Option.isSome_none,
    decide_false, Bool.or_self, Bool.false_eq_true, if_false]
  rw [show (if isNamedExport ctx.tree node then Scope.static else .inner) =
    moduleJoint ctx.tree node from rfl, if_neg (by simpa using limited)]
  simp [Doclet.withMemberof, whole.parentOf]

/-- A name that nothing owns in a module belongs to that, whatever function scope declares it. -/
theorem ofSymbol_of_module
    (untagged : ∀ part ∈ Comment.parts event.comment, ∀ origin,
      (Doclet.ofComment part origin).Untagged)
    (segment : Segment event.code.name) (not_this : event.code.name ≠ "this")
    (not_exports : event.code.name ≠ "exports")
    (owner : (ctx.registry.owner ctx.tree (some event.node)).memberof = none)
    (whole : Whole m) (isModule : Longname.isModule m = true) :
    ofSymbol ctx (some m) event ≠ [] ∧ ∀ d ∈ ofSymbol ctx (some m) event,
      d.longname = member m (jointOf (some m) ctx.tree (some event.node)) event.code.name ∧
        d.memberof = some m := by
  have joins := punctuation?_moduleJoint m ctx.tree (some event.node)
  have other := (Longname.apart_of_module isModule segment.not_mem_colon).ne
  have free : reserved? ctx (some m) (some event.node) event.code.name = none :=
    reserved?_of_segment segment not_this fun exports => absurd exports not_exports
  have fits : Placement.Fits
      ⟨m, some (moduleJoint ctx.tree (some event.node)), event.code.name⟩ event.code.name :=
    ⟨whole, fun longer => absurd rfl longer, .alone⟩
  have made := ofSymbol_within untagged segment segment.ne_empty fits joins fun d begun => by
    rw [placed_of_module begun free owner whole other, begun.name]
  rw [Longname.shorten_member whole.toPath (Doclet.isPunctuation_of_scope joins) segment] at made
  exact made

end Documenter

namespace Walk

variable {walk : Walk (Option String)} {file x : String} {a g : NodeIndex} {d : Doclet}

/-- The checkpoint of an assignment to a name: the name is declared in the scope around it, but
resolved to nothing. -/
structure NameFound (walk : Walk (Option String)) (file : String) (a : NodeIndex) (x outer : String)
    (event : SymbolFound) (r : Registry) : Prop where
  made : walk.made file a = Documenter.ofSymbol ⟨r, walk.tree⟩ walk.state event
  named : event.code.name = x
  node : event.node = a
  comment : event.comment = walk.tree.docText a
  funcscope : event.code.funcscope = some outer
  owner : (r.owner walk.tree (some event.node)).memberof = none

theorem exists_nameFound (h : walk.tree.Grown) (anchored : walk.registry.Anchored)
    (reassigns : walk.tree.Reassigns a x) (scope : walk.tree.scope (some a) = some g)
    (cached : walk.registry.ofNode? walk.tree (some g) = some d) (filled : d.longname ≠ "")
    (file : String) : ∃ event r, walk.NameFound file a x d.longname event r := by
  obtain ⟨operator, left, right, payload, identifier⟩ := reassigns.payload
  obtain ⟨called, name⟩ := h.name_of_assignment payload (.identifier identifier)
  have kind := (h.symbol_of_assignment payload).1
  obtain ⟨event, followUps, found, code, text, node⟩ := symbolAt?_of_assignment h payload file
  obtain ⟨id, known, rfl⟩ : ∃ id, walk.registry.idOfNode? walk.tree (some g) = some id ∧
      walk.registry.doclet id = d := by
    unfold Registry.ofNode? at cached
    rw [if_neg (by simp)] at cached
    exact Option.map_eq_some_iff.mp cached
  have stored : id < walk.registry.doclets.size := by
    unfold Registry.idOfNode? at known
    rw [if_neg (by simp), History.latest?_eq_getLast?] at known
    exact anchored.stored _ id (List.mem_of_getLast? known)
  have inside : walk.tree.isKind (some a) .functionDeclaration = false := by
    rw [Tree.isKind, kind]
    rfl
  have own : (Symbol.ofValue walk.tree (walk.tree.name left) right).name = x := called
  obtain ⟨r, declared⟩ : ∃ r, walk.registry.declare id x none = r := ⟨_, rfl⟩
  have owner : r.declared? walk.tree (some a) x = some none :=
    declared ▸ walk.registry.declared?_declare_here id none scope known stored
  have search : r.declaringScope walk.tree (some a) x = (walk.registry.doclet id).longname :=
    declared ▸ walk.registry.declaringScope_declare_here id none scope inside known stored
  have noted : Watchers.declareName walk.tree (some a) .assignmentExpression
      (Symbol.ofValue walk.tree (walk.tree.name left) right) walk.registry =
        ({ Symbol.ofValue walk.tree (walk.tree.name left) right with
            funcscope := some (walk.registry.doclet id).longname }, [.trackName id], r) := by
    unfold Watchers.declareName
    simp [own, scope, known, reassigns.leads, reassigns.not_this, reassigns.segment.ne_empty,
      declared, search, filled]
  rw [noted] at found code
  refine ⟨event, r, made_of_symbol found, ?_, node, text, ?_, ?_⟩
  · rw [code]
    exact own
  · rw [code]
  · rw [node, Registry.owner_of_named kind (Or.inr rfl),
      Registry.ownerByName_of_declared (name.symm ▸ reassigns.leads) owner]

/-- What an assignment to a name makes in a scope that has a doclet: members of the module, if there
is one, and inner members of the scope otherwise. -/
theorem places_reassigned (h : walk.tree.Grown) (anchored : walk.registry.Anchored)
    (reassigns : walk.tree.Reassigns a x) (scope : walk.tree.scope (some a) = some g)
    (cached : walk.registry.ofNode? walk.tree (some g) = some d) (whole : Whole d.longname)
    (modules : ∀ m ∈ walk.state, Whole m ∧ Longname.isModule m = true) :
    let outer := walk.state.getD d.longname
    walk.Places file a
      (member outer (Documenter.jointOf walk.state walk.tree (some a)) x) (some outer) := by
  obtain ⟨event, r, found⟩ := exists_nameFound h anchored reassigns scope cached whole.ne_empty file
  obtain rfl := found.named
  have untagged := reassigns.untagged
  rw [← found.comment] at untagged
  unfold Places Makes
  rw [found.made]
  cases inModule : walk.state with
  | none =>
    exact Documenter.ofSymbol_of_funcscope untagged reassigns.segment reassigns.not_this found.owner
      found.funcscope whole
  | some m =>
    obtain ⟨named, isModule⟩ := modules m inModule
    rw [← found.node]
    exact Documenter.ofSymbol_of_module untagged reassigns.segment reassigns.not_this
      reassigns.not_exports found.owner named isModule

end Walk

namespace Run

variable {run : Run (Option String)} {file x : String} {t : Tree} {a j f g s : NodeIndex}
  {d : Doclet}

/-! ### Functions around a node -/

/-- A walk that comes to a node has a doclet for the function around it. -/
theorem Documents.exists_ofNode?_function (h : run.Documents file t) (visited : .node a ∈ t.stops)
    (scope : t.scope (some a) = some s)
    (function : (t.kind? (some s)).any NodeKind.isFunction = true) :
    ∃ d, (run.walkTo file t a).registry.ofNode? t (some s) = some d := by
  obtain ⟨provider, watchers, state, operations, asked⟩ := h.asked
  obtain ⟨v, source, _, same⟩ := h.read
  have rooted : run.registry.Rooted := asked ▸ (lasting_rooted.operations
    ⟨Registry.sound_empty, Registry.rooted_empty⟩ operations).2
  have fresh (node : NodeRef) : run.registry.registered t node = [] :=
    h.registry.2 t.unit (by rw [same]) node
  have begun : Walk.Fills ⟨t, run.registry.nextUnit.2, run.state⟩ t run.registry.doclets.size [] :=
    .start rooted.nextUnit fresh run.state
  have keeps : ∀ handler ∈ run.watchers.handlers, handler.KeepsNode := by
    rw [h.watchers]
    intro handler listed
    obtain rfl := List.mem_singleton.mp listed
    exact fun _ _ _ => rfl
  have reached : run.watchers.passAll file (t.stopsBefore a)
      ⟨t, run.registry.nextUnit.2, run.state⟩ = (.continue, run.walkTo file t a) :=
    Prod.ext (by rw [h.watchers, Watchers.flow_passAll]) rfl
  have fills := begun.passAll (by rw [h.watchers]; rfl) keeps reached
  rw [List.nil_append] at fills
  obtain ⟨kind, known, isFunction⟩ := (Option.any_eq_true _ _).mp function
  have symbol := h.grown.symbol_of_scope known (NodeKind.opensScope_of_isFunction isFunction)
  have passed := h.grown.stopsBefore_of_around visited ((h.scoped.scope a s).mp scope).around
  have some := fills.functions (.some s) ⟨s, _, passed, symbol, rfl⟩ function
  have answer := (run.walkTo file t a).ofNode?_eq s
  unfold Walk.registered at answer
  rw [h.tree_walkTo] at answer
  rw [answer]
  exact ⟨_, congrArg (Option.map _) (List.getLast?_eq_some_getLast some)⟩

/-- From then on the doclet of the function stays what it is. -/
theorem Documents.ofNode?_still (h : run.Documents file t) (visited : .node a ∈ t.stops)
    (before : .node j ∈ t.stopsBefore a) (scope : t.scope (some j) = some s)
    (cached : (run.walkTo file t j).registry.ofNode? t (some s) = some d) :
    ∃ e, (run.walkTo file t a).registry.ofNode? t (some s) = some e ∧ e.SameIdentity d := by
  obtain ⟨between, reached, fresh⟩ := h.exists_walkTo visited before
  have reached : run.walkTo file t a =
      (Watchers.documenting.passAll file (.node j :: between) (run.walkTo file t j)).2 := by
    rw [reached, Watchers.passAll_cons]
    rfl
  obtain ⟨rest, split⟩ := Tree.exists_stops visited
  have visitedBefore : .node j ∈ t.stops := by
    rw [split]
    exact List.mem_append_left _ before
  have around := ((h.scoped.scope j s).mp scope).around
  have passed := h.grown.stopsBefore_of_around visitedBefore around
  obtain ⟨more, longer⟩ := Tree.exists_stopsBefore passed
  obtain ⟨_, split'⟩ := Tree.exists_stops visitedBefore
  have visitedScope : .node s ∈ t.stops := by
    rw [split']
    exact List.mem_append_left _ passed
  -- Whatever the walk had not passed at the declaration, it had not passed at the function.
  have behind (k : NodeIndex) (later : .node k ∉ t.stopsBefore j) :
      k ≠ s ∧ .node k ∉ t.stopsBefore s := by
    refine ⟨?_, fun earlier => later ?_⟩
    · rintro rfl
      exact later passed
    · rw [longer]
      exact List.mem_append_left _ earlier
  have quiet : ∀ stop ∈ .node j :: between, Watchers.Quiet (run.walkTo file t j).tree s
      ((run.walkTo file t j).registered s ≠ []) stop := by
    rw [h.tree_walkTo]
    intro stop listed
    cases stop with
    | comment => trivial
    | node k =>
      have later : .node k ∉ t.stopsBefore j := by
        rcases List.mem_cons.mp listed with here | after
        · cases here
          exact t.not_mem_stopsBefore j
        · exact (fresh k after).2
      obtain ⟨other, notPassed⟩ := behind k later
      exact h.grown.quiet_behind visitedScope other notPassed _
  have still := Watchers.passAll_quiet file quiet
  have kept := Watchers.remembers_passAll file (.node j :: between) (run.walkTo file t j)
  rw [← reached] at still kept
  unfold Walk.registered at still
  rw [h.tree_walkTo, h.tree_walkTo] at still
  exact kept.ofNode? (h.sound_walkTo j).toAnchored still cached

/-! ### Assignments to declared names -/

/-- What an assignment to a variable registers, in the function `g`, behind a declaration of that
in the function `f`. The declaration is an inner member of `f`. The assignment is an inner member
of `g`, or a member of the module if there is one; so it keeps the longname of the declaration
exactly where that is the same. -/
theorem registers_reassigned (h : run.Documents file t) (declares : t.DeclaresPlainly j x)
    (within : t.scope (some j) = some f)
    (declaring : (t.kind? (some f)).any NodeKind.isFunction = true) (reassigns : t.Reassigns a x)
    (scope : t.scope (some a) = some g)
    (function : (t.kind? (some g)).any NodeKind.isFunction = true) (visited : .node a ∈ t.stops)
    (before : .node j ∈ t.stopsBefore a) : ∃ F G,
      (run.walkTo file t j).registry.ofNode? t (some f) = some F ∧
      (run.walkTo file t a).registry.ofNode? t (some g) = some G ∧
      (f = g → G.longname = F.longname) ∧
      let module := (run.walkTo file t a).state
      let outer := module.getD G.longname
      let joint := Documenter.jointOf module t (some a)
      (Whole F.longname → Whole G.longname →
        (∀ m ∈ module, Whole m ∧ Longname.isModule m = true) →
        run.RegistersInner file t j F.longname x ∧
        run.Registers file t a (member outer joint x) (some outer) ∧
        (((run.walkTo file t a).Makes file a fun e => e.longname = member F.longname '~' x) ↔
          outer = F.longname ∧ joint = '~')) := by
  have tree := h.tree_walkTo a
  have visitedBefore : .node j ∈ t.stops := by
    obtain ⟨rest, split⟩ := Tree.exists_stops visited
    rw [split]
    exact List.mem_append_left _ before
  obtain ⟨F, declared⟩ := h.exists_ofNode?_function visitedBefore within declaring
  obtain ⟨G, cached⟩ := h.exists_ofNode?_function visited scope function
  refine ⟨F, G, declared, cached, ?_, ?_⟩
  · rintro rfl
    obtain ⟨e, still, alike⟩ := h.ofNode?_still visited before within declared
    obtain rfl := Option.some.inj (cached.symm.trans still)
    exact alike.longname
  · intro module outer joint wholeF wholeG modules
    have places : (run.walkTo file t a).Places file a (member outer joint x) (some outer) := by
      have made : (run.walkTo file t a).Places file a _ _ :=
        Walk.places_reassigned (tree.symm ▸ h.grown) (h.sound_walkTo a).toAnchored
          (tree.symm ▸ reassigns) (tree.symm ▸ scope) (tree.symm ▸ cached) wholeG modules
      rw [tree] at made
      exact made
    refine ⟨h.registersInner declares within declared wholeF, h.registers_of_places visited places,
      ?_⟩
    rw [(places.imp fun _ both => both.1).eq_iff]
    constructor
    · intro same
      by_cases inner : joint = '~'
      · rw [inner] at same
        exact ⟨Longname.member_inj same, inner⟩
      · exact absurd same (Longname.member_ne_member inner x)
    · rintro ⟨same, inner⟩
      rw [same, inner]

end Run

/-! ### A variable that is assigned again -/

namespace ReassignedVariable

open ExportedClass (identifier node)
open NestedFunctions (block)
open PrototypeOfVariable (assignment inModule Placed)

/-- `function f() { var x = a; var h = function () { x = v; }; x = v; }`, after some comments. -/
def unit (comments : List Json.Value) (x : String) : Json.Value :=
  let again := assignment (identifier x) (identifier "v")
  let inner := node "FunctionExpression" [("params", .arr []), ("body", block [again])]
  node "Program" [("comments", .arr comments), ("body", .arr [NestedFunctions.declaration "f"
    [LiteralOfVariables.declaration x (identifier "a"),
      LiteralOfVariables.declaration "h" inner, again]])]

def treeOf (comments : List Json.Value) (x : String) : Tree :=
  match Estree.ofValue "x.js" (unit comments x) with
  | .ok t => t
  | .error _ => ⟨"", 0, #[], none, #[]⟩

def tree (comments : List Json.Value) : Tree := treeOf comments "x"

def run : Run (Option String) := .start .estree .documenting none

variable {comments : List Json.Value}

theorem documents (placed : Placed comments) : run.Documents "x.js" (tree comments) := by
  cases placed with
  | outside => exact ⟨⟨.estree, .documenting, none, [], rfl⟩, rfl, unit [] "x", _, rfl, rfl⟩
  | inside =>
    exact ⟨⟨.estree, .documenting, none, [], rfl⟩, rfl, unit inModule "x", _, rfl, rfl⟩

theorem word : Longname.Word "x" := by decide +kernel

theorem untagged {i : NodeIndex} (plain : (tree comments).docText i = "") :
    ∀ part ∈ Comment.parts ((tree comments).docText i), ∀ origin,
      (Doclet.ofComment part origin).Untagged := by
  rw [plain]
  exact fun part listed origin => (ExportedClass.untagged part listed origin).1

theorem declaresPlainly (placed : Placed comments) : (tree comments).DeclaresPlainly 3 "x" where
  declares := by cases placed <;> exact .declarator rfl rfl
  segment := word.segment
  not_this := by decide
  not_exports := by decide
  unplaced part listed origin :=
    (untagged (by cases placed <;> decide +kernel) part listed origin).unplaced

theorem reassigns {a : NodeIndex} (placed : Placed comments)
    (either : a = 8 ∨ a = 16) : (tree comments).Reassigns a "x" where
  payload := by rcases either with rfl | rfl <;> cases placed <;> exact ⟨_, _, _, rfl, rfl⟩
  segment := word.segment
  leads := by decide
  not_this := by decide
  not_exports := by decide
  untagged := untagged (by rcases either with rfl | rfl <;> cases placed <;> decide +kernel)

/-- The assignment in the inner function, which declares nothing, gives the variable of the outer
one another name. In a module the assignment beside the declaration does, too; and so does one to a
name of which only the beginning is read. -/
theorem reassignment_renames :
    (run.Documents "x.js" (tree []) ∧ (tree []).DeclaresPlainly 3 "x" ∧
      (tree []).Reassigns 8 "x" ∧ .node 3 ∈ (tree []).stopsBefore 8 ∧
      (tree []).scope (some 8) = some 11 ∧ (tree []).scope (some 11) = some 19 ∧
      (tree []).scope (some 3) = some 19 ∧
      (∀ i < (tree []).nodes.size, (tree []).scope (some i) = some 11 →
        (tree []).kind? (some i) ≠ some .variableDeclarator) ∧
      ((run.walkTo "x.js" (tree []) 3).made "x.js" 3).map Doclet.longname = ["f~x"] ∧
      ((run.walkTo "x.js" (tree []) 8).made "x.js" 8).map Doclet.longname = ["f~h~x"]) ∧
    (run.Documents "x.js" (tree inModule) ∧ (tree inModule).DeclaresPlainly 3 "x" ∧
      (tree inModule).Reassigns 16 "x" ∧ .node 3 ∈ (tree inModule).stopsBefore 16 ∧
      (tree inModule).scope (some 16) = some 19 ∧ (tree inModule).scope (some 3) = some 19 ∧
      ((run.walkTo "x.js" (tree inModule) 3).made "x.js" 3).map Doclet.longname =
        ["module:m~f~x"] ∧
      ((run.walkTo "x.js" (tree inModule) 16).made "x.js" 16).map Doclet.longname =
        ["module:m~x"]) ∧
    ((treeOf [] "aé").payload? (some 16) = some (.assignment "=" (some 14) (some 15)) ∧
      (treeOf [] "aé").payload? (some 14) = some (.identifier "aé") ∧
      (treeOf [] "aé").docText 16 = "" ∧ .node 3 ∈ (treeOf [] "aé").stopsBefore 16 ∧
      (treeOf [] "aé").scope (some 16) = some 19 ∧ (treeOf [] "aé").scope (some 3) = some 19 ∧
      ((run.walkTo "x.js" (treeOf [] "aé") 3).made "x.js" 3).map Doclet.longname = ["f~aé"] ∧
      ((run.walkTo "x.js" (treeOf [] "aé") 16).made "x.js" 16).map Doclet.longname = ["aé"]) := by
  refine ⟨⟨documents .outside, declaresPlainly .outside, reassigns .outside (.inl rfl), ?_, rfl, rfl,
    rfl, ?_, ?_, ?_⟩, ⟨documents .inside, declaresPlainly .inside, reassigns .inside (.inr rfl), ?_,
    rfl, rfl, ?_, ?_⟩, rfl, rfl, ?_, ?_, rfl, rfl, ?_, ?_⟩ <;> decide +kernel

theorem longname_eq {i s : NodeIndex} {d : Doclet} {longname : String}
    (cached : (run.walkTo "x.js" (tree comments) i).registry.ofNode? (tree comments) (some s) =
      some d)
    (known : ((run.walkTo "x.js" (tree comments) i).registry.ofNode? (tree comments)
      (some s)).map Doclet.longname = some longname) : d.longname = longname := by
  rw [cached] at known
  exact Option.some.inj known

/-- The assignment in the inner function outside any module, and the one in the outer function in a
module. -/
theorem registers_reassigned_variable :
    run.Registers "x.js" (tree []) 8 "f~h~x" (some "f~h") ∧
      run.Registers "x.js" (tree inModule) 16 "module:m~x" (some "module:m") := by
  constructor
  · obtain ⟨F, G, declared, cached, _, names⟩ := Run.registers_reassigned (documents .outside)
      (declaresPlainly .outside) (f := 19) rfl rfl (reassigns .outside (.inl rfl)) (g := 11) rfl rfl
      (by decide +kernel) (by decide +kernel)
    have outer : F.longname = "f" := longname_eq declared (by decide +kernel)
    have inner : G.longname = "f~h" := longname_eq cached (by decide +kernel)
    have outside : (run.walkTo "x.js" (tree []) 8).state = none := by decide +kernel
    dsimp only at names
    rw [outer, inner, outside] at names
    exact (names (ExportedClass.whole rfl (by decide)) (ExportedClass.whole rfl (by decide))
      nofun).2.1
  · obtain ⟨F, G, declared, cached, _, names⟩ := Run.registers_reassigned (documents .inside)
      (declaresPlainly .inside) (f := 19) rfl rfl (reassigns .inside (.inr rfl)) (g := 19) rfl rfl
      (by decide +kernel) (by decide +kernel)
    have outer : F.longname = "module:m~f" := longname_eq declared (by decide +kernel)
    have inner : G.longname = "module:m~f" := longname_eq cached (by decide +kernel)
    have inside : (run.walkTo "x.js" (tree inModule) 16).state = some "module:m" := by
      decide +kernel
    have unexported : Documenter.isNamedExport (tree inModule) (some 16) = false := by
      decide +kernel
    have whole : Whole "module:m~f" := ExportedClass.whole rfl (by decide)
    dsimp only at names
    rw [outer, inner, inside] at names
    unfold Documenter.jointOf at names
    rw [unexported] at names
    refine (names whole whole ?_).2.1
    rintro _ ⟨⟩
    exact ⟨ExportedClass.whole rfl (by decide), by decide⟩

end ReassignedVariable

end Doclets
