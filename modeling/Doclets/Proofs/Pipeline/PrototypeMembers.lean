import Doclets.Proofs.Pipeline.LiteralProperties
import Doclets.Proofs.Pipeline.PrototypePlaces

/-!
The members of a prototype, in every run that only documents. An assignment gives them one by one,
`Foo.prototype.bar = …`, or all at once, `Foo.prototype = { bar: … }`. The two ways agree exactly
where the name in front resolved to a longname: only then is there a doclet of the prototype that
the literal can hand on.
-/

namespace Doclets

open Longname (Segment Whole member prototypeOf)

namespace Walk

variable {walk : Walk (Option String)} {file : String} {i o p : NodeIndex} {path foo key : String}
  {right : NodeRef}

/-- The longname, if it is known, of the name that the path of a symbol begins with. -/
def front? (walk : Walk (Option String)) (i : NodeIndex) : Option String :=
  ((Longname.basename? (walk.tree.name (some i))).bind
    (walk.registry.declared? walk.tree (some i))).join

/-- The longname of the function scope that declares the name that an assignment begins with. -/
def funcscope? (walk : Walk (Option String)) (file : String) (i : NodeIndex) : Option String :=
  (Watchers.symbolAt? walk.tree file i walk.registry).bind fun found => found.1.code.funcscope

/-- The checkpoint of an assignment: the name is noted in the scope before. -/
structure AssignmentFound (walk : Walk (Option String)) (file : String) (i : NodeIndex)
    (path : String) (event : SymbolFound) (r : Registry) : Prop where
  made : walk.made file i = Documenter.ofSymbol ⟨r, walk.tree⟩ walk.state event
  named : event.code.name = path
  name : walk.tree.name (some i) = path
  node : event.node = i
  funcscope : event.code.funcscope = walk.funcscope? file i
  comment : event.comment = walk.tree.docText i
  noted : r = walk.registry ∨ ∃ scope, r = walk.registry.declare scope path none
  kind : walk.tree.kind? (some i) = some .assignmentExpression

/-- The checkpoint of an assignment, with the name noted. -/
theorem symbolAt?_of_assignment (h : walk.tree.Grown) {operator : String} {left : NodeRef}
    (payload : walk.tree.payload? (some i) = some (.assignment operator left right))
    (file : String) :
    let noted := Watchers.declareName walk.tree (some i) .assignmentExpression
      (Symbol.ofValue walk.tree (walk.tree.name left) right) walk.registry
    ∃ event followUps,
      Watchers.symbolAt? walk.tree file i walk.registry = some (event, followUps, noted.2.2) ∧
        event.code = noted.1 ∧ event.comment = walk.tree.docText i ∧ event.node = i := by
  obtain ⟨kind, symbol⟩ := h.symbol_of_assignment payload
  obtain ⟨n, stored, same⟩ := Option.map_eq_some_iff.mp kind
  have found := Watchers.symbolAt?_of_symbol stored symbol file walk.registry
  rw [same] at found
  exact ⟨_, _, found, rfl, rfl, rfl⟩

theorem exists_assignmentFound_of_payload (h : walk.tree.Grown) {operator : String} {left : NodeRef}
    (payload : walk.tree.payload? (some i) = some (.assignment operator left right))
    (called : walk.tree.name left = path) (name : walk.tree.name (some i) = path) (file : String) :
    ∃ event r, walk.AssignmentFound file i path event r := by
  have kind := (h.symbol_of_assignment payload).1
  obtain ⟨event, followUps, found, code, text, node⟩ := symbolAt?_of_assignment h payload file
  generalize noted : Watchers.declareName walk.tree (some i) .assignmentExpression
    (Symbol.ofValue walk.tree (walk.tree.name left) right) walk.registry = prepared at found code
  have named : event.code.name = path := by
    have same := Watchers.code_prepare walk.tree (some i) .assignmentExpression
      (Symbol.ofValue walk.tree (walk.tree.name left) right) walk.registry
    unfold Watchers.prepare at same
    rw [code, ← noted, same]
    exact called
  refine ⟨event, prepared.2.2, made_of_symbol found, named, name, node, ?_, text, ?_, kind⟩
  · unfold funcscope?
    rw [found]
    rfl
  · rw [← noted]
    unfold Watchers.declareName
    dsimp only
    rw [show (Symbol.ofValue walk.tree (walk.tree.name left) right).name = path from called]
    split
    · exact Or.inl rfl
    · split
      · exact Or.inr ⟨_, rfl⟩
      · exact Or.inl rfl

theorem exists_assignmentFound (h : walk.tree.Grown) (assigns : walk.tree.AssignsPath i path right)
    (file : String) : ∃ event r, walk.AssignmentFound file i path event r := by
  obtain ⟨operator, left, payload, spells⟩ := assigns.payload
  obtain ⟨called, name⟩ := h.name_of_assignment payload spells
  exact exists_assignmentFound_of_payload h payload called name file

/-- What a name resolved to is the same before and after another one is noted. -/
theorem AssignmentFound.declared {event : SymbolFound} {r : Registry}
    (found : walk.AssignmentFound file i path event r) {base : String} (other : base ≠ path) :
    r.declared? walk.tree (some i) base = walk.registry.declared? walk.tree (some i) base := by
  rcases found.noted with rfl | ⟨scope, rfl⟩
  · rfl
  · exact walk.registry.declared?_declare_of_ne scope none other

theorem AssignmentFound.ofNode? {event : SymbolFound} {r : Registry}
    (found : walk.AssignmentFound file i path event r) {x : NodeRef}
    (unknown : walk.registry.ofNode? walk.tree x = none) : r.ofNode? walk.tree x = none := by
  rcases found.noted with rfl | ⟨scope, rfl⟩
  · exact unknown
  · unfold Registry.ofNode? at unknown ⊢
    split
    · rfl
    next known =>
      rw [if_neg known] at unknown
      exact Option.map_eq_none_iff.mpr (Option.map_eq_none_iff.mp unknown)

theorem AssignmentFound.owner {event : SymbolFound} {r : Registry}
    (found : walk.AssignmentFound file i path event r) :
    r.owner walk.tree (some event.node) =
      r.ownerByName walk.tree (some i) (walk.tree.parent (some i)) := by
  rw [found.node]
  exact Registry.owner_of_named found.kind (Or.inr rfl)

theorem AssignmentFound.unexported {event : SymbolFound} {r : Registry}
    (found : walk.AssignmentFound file i path event r)
    (assigns : walk.tree.AssignsPath i path right) :
    Documenter.isNamedExport walk.tree (some event.node) = false := by
  obtain ⟨s, b, up, _, statement, _⟩ := assigns.statement
  rw [found.node]
  unfold Documenter.isNamedExport Tree.isKind
  rw [up, statement, found.kind]
  rfl

/-- Where the name in front resolved to nothing, nothing owns an assignment. -/
theorem AssignmentFound.unowned {event : SymbolFound} {r : Registry}
    (found : walk.AssignmentFound file i path event r)
    (statement : walk.registry.ofNode? walk.tree (walk.tree.parent (some i)) = none)
    (front : walk.front? i = none) : (r.owner walk.tree (some event.node)).memberof = none := by
  rw [found.owner]
  unfold front? at front
  unfold Registry.ownerByName
  cases leads : Longname.basename? (walk.tree.name (some i)) with
  | none => rfl
  | some base =>
    rw [leads, Option.bind_some] at front
    have unknown : (r.declared? walk.tree (some i) base).join = none := by
      rcases found.noted with rfl | ⟨scope, rfl⟩
      · exact front
      · exact walk.registry.declared?_declare_none scope front
    dsimp only
    cases resolved : r.declared? walk.tree (some i) base with
    | none =>
      rw [found.ofNode? statement]
      rfl
    | some longname =>
      rw [resolved] at unknown
      exact unknown

/-- Where it resolved, that owns the assignment. -/
theorem AssignmentFound.owned {event : SymbolFound} {r : Registry}
    (found : walk.AssignmentFound file i path event r) {parent : String}
    (front : walk.front? i = some parent) (leads : Longname.basename? path = some foo)
    (other : foo ≠ path) :
    r.owner walk.tree (some event.node) = ⟨some parent, some foo⟩ := by
  rw [found.owner]
  unfold front? at front
  rw [found.name, leads, Option.bind_some] at front
  have declared : walk.registry.declared? walk.tree (some i) foo = some (some parent) :=
    Option.join_eq_some_iff.mp front
  rw [← found.declared other] at declared
  exact Registry.ownerByName_of_declared (by rw [found.name]; exact leads) declared

/-! ### The two ways -/

/-- Assignments to prototypes begin with an identifier that is no reserved word, in a module that
stands for itself. -/
structure AtPrototype (walk : Walk (Option String)) (file : String) (i : NodeIndex)
    (foo path : String) (right : NodeRef) : Prop where
  assigns : walk.tree.AssignsPath i path right
  front : Documenter.Unreserved walk.state foo
  modules : ∀ m ∈ walk.state, Whole m ∧ Longname.isModule m = true
  scopes : ∀ scope ∈ walk.funcscope? file i, Whole scope
  untagged : ∀ part ∈ Comment.parts (walk.tree.docText i), ∀ origin,
    (Doclet.ofComment part origin).Untagged

theorem AtPrototype.unowned (here : walk.AtPrototype file i foo path right)
    {event : SymbolFound} {r : Registry} (found : walk.AssignmentFound file i path event r)
    {rest : List Char} (split : path.toList = foo.toList ++ '.' :: rest)
    (statement : walk.registry.ofNode? walk.tree (walk.tree.parent (some i)) = none)
    (front : walk.front? i = none) :
    Documenter.Unowned ⟨r, walk.tree⟩ walk.state event where
  untagged := found.comment ▸ here.untagged
  free := Documenter.reserved?_of_front here.front (found.named ▸ split)
  owner := found.unowned statement front
  inside := found.unexported here.assigns
  modules := here.modules
  scopes := found.funcscope ▸ here.scopes

theorem AtPrototype.owned (here : walk.AtPrototype file i foo path right)
    {event : SymbolFound} {r : Registry} (found : walk.AssignmentFound file i path event r)
    {rest : List Char} (split : path.toList = foo.toList ++ '.' :: rest) {parent : String}
    (front : walk.front? i = some parent) (whole : Whole parent)
    (leads : Longname.basename? path = some foo) :
    Documenter.Owned ⟨r, walk.tree⟩ walk.state event foo parent where
  untagged := found.comment ▸ here.untagged
  free := Documenter.reserved?_of_front here.front (found.named ▸ split)
  leads := found.named ▸ leads
  owner := by
    refine found.owned front leads ?_
    rintro rfl
    have length := congrArg List.length split
    simp at length
  whole := whole

/-- The prototype of a name that resolved to nothing makes no doclet. -/
theorem made_prototype_unowned (h : walk.tree.Grown)
    (here : walk.AtPrototype file i foo (prototypeOf foo) right)
    (statement : walk.registry.ofNode? walk.tree (walk.tree.parent (some i)) = none)
    (front : walk.front? i = none) : walk.made file i = [] := by
  obtain ⟨event, r, found⟩ := exists_assignmentFound h here.assigns file
  rw [found.made]
  exact (here.unowned found (Longname.toList_prototypeOf foo) statement front).ofSymbol_prototype
    here.front.segment found.named

/-- The prototype of a name that resolved is a static member of what that is. -/
theorem places_prototype_owned (h : walk.tree.Grown)
    (here : walk.AtPrototype file i foo (prototypeOf foo) right) {parent : String}
    (front : walk.front? i = some parent) (whole : Whole parent)
    (leads : Longname.basename? (prototypeOf foo) = some foo) :
    walk.Places file i (prototypeOf parent) (some parent) := by
  obtain ⟨event, r, found⟩ := exists_assignmentFound h here.assigns file
  unfold Places Makes
  rw [found.made]
  exact (here.owned found (Longname.toList_prototypeOf foo) front whole leads).ofSymbol_prototype
    here.front.segment found.named

/-- A member that is assigned on its own, where the name in front resolved to nothing. -/
theorem places_member_unowned (h : walk.tree.Grown)
    (here : walk.AtPrototype file i foo (member (prototypeOf foo) '.' key) right)
    (statement : walk.registry.ofNode? walk.tree (walk.tree.parent (some i)) = none)
    (own : Segment key) (front : walk.front? i = none) :
    let outer := Doclet.within (walk.state.or (walk.funcscope? file i)) foo
    walk.Places file i (member outer '#' key) (some outer) := by
  obtain ⟨event, r, found⟩ := exists_assignmentFound h here.assigns file
  unfold Places Makes
  rw [found.made, ← found.funcscope]
  exact (here.unowned found (Longname.toList_member_prototypeOf foo key) statement
    front).ofSymbol_member_prototype here.front.segment here.front.whole own found.named

/-- A member that is assigned on its own, where the name in front resolved. -/
theorem places_member_owned (h : walk.tree.Grown)
    (here : walk.AtPrototype file i foo (member (prototypeOf foo) '.' key) right)
    (own : Segment key) {parent : String} (front : walk.front? i = some parent)
    (whole : Whole parent) (other : parent ≠ "#" ++ key)
    (leads : Longname.basename? (member (prototypeOf foo) '.' key) = some foo) :
    walk.Places file i (member parent '#' key) (some parent) := by
  obtain ⟨event, r, found⟩ := exists_assignmentFound h here.assigns file
  unfold Places Makes
  rw [found.made]
  exact (here.owned found (Longname.toList_member_prototypeOf foo key) front whole
    leads).ofSymbol_member_prototype own other found.named

/-- A property of a literal that documents a prototype is an instance member. -/
theorem places_of_prototype (h : walk.tree.Grown) (here : walk.AtProperty o p key)
    {base parent : String} (leads : Longname.basename? key = some base)
    (undeclared : walk.registry.declared? walk.tree (some p) base = none) {d : Doclet}
    (cached : walk.registry.ofNode? walk.tree (some o) = some d)
    (prototype : d.longname = prototypeOf parent) (whole : Whole parent) :
    walk.Places file p (member parent '#' key) (some parent) := by
  obtain ⟨event, found⟩ := exists_propertyFound h here file
  obtain rfl := found.named
  rw [← (h.symbol_of_property here.isProperty).2.1] at leads
  have owner : walk.registry.owner walk.tree (some event.node) = .parent (prototypeOf parent) := by
    rw [found.owner, Registry.ownerByName_of_undeclared leads undeclared, cached]
    exact congrArg Owner.parent prototype
  have other : walk.tree.isKind (some event.node) .methodDefinition = false := by
    rw [Tree.isKind, found.kind]
    rfl
  unfold Places Makes
  rw [found.made]
  apply Documenter.ofSymbol_of_resolved found.untagged here.segment.ne_empty
  · rw [Longname.endsJoined_member here.segment.ne_empty]
    exact here.segment.path.not_joined
  · intro d begun _
    have placed : Documenter.placed walk.context walk.state (some event.node) d =
        { d with
          name := some event.code.name, memberof := some (parent ++ String.singleton '#') } := by
      rw [Documenter.placed_of_unreserved begun found.free]
      exact Documenter.inScope_prototype owner whole other
    have resolved := Doclet.resolve_joined (c := '#') (d := { d with
      name := some event.code.name, memberof := some (parent ++ String.singleton '#') })
      whole rfl here.segment rfl rfl begun.longname
      (by rw [show Doclet.scope _ = none from begun.scope]; simp)
    refine ⟨_, placed, here.segment.ne_empty, ?_⟩
    rw [resolved]
    exact ⟨rfl, rfl⟩

end Walk

/-! ### From one stop to the next -/

namespace Watchers

variable {walk : Walk (Option String)} {file : String} {i x : NodeIndex} {code : Symbol}

/-- A symbol without doclets registers nothing, unless it stands for a function. -/
theorem registered_of_unmade (symbol : Symbol.ofNode? walk.tree (some i) = some code)
    (here : code.node = some x) {kind : NodeKind} (known : walk.tree.kind? (some x) = some kind)
    (plain : kind.isFunction = false) (nothing : walk.made file i = []) :
    (documenting.passNode file i walk).2.registered x = walk.registered x := by
  cases found : symbolAt? walk.tree file i walk.registry with
  | none => rw [passNode_plain found]
  | some symbolFound =>
    obtain ⟨event, followUps, r⟩ := symbolFound
    obtain ⟨_, node⟩ := code_symbolAt? symbol found
    have kept := retains_symbolAt? found
    rw [passNode_documenting found, nothing]
    unfold Walk.registered
    dsimp only [register]
    unfold Registry.registerNode
    dsimp only
    rw [node, here, if_pos (by simp [known, plain]), kept.byNode]

end Watchers

namespace Run

variable {run : Run (Option String)} {file : String} {t : Tree} {a i j o p x b : NodeIndex}
  {path foo key : String} {right : NodeRef}

/-- A node that only one symbol stands for has no doclet, if none was made of that. -/
theorem Documents.ofNode?_of_unmade (h : run.Documents file t) {code : Symbol}
    (visited : .node a ∈ t.stops) (passed : .node i ∈ t.stopsBefore a)
    (symbol : Symbol.ofNode? t (some i) = some code) (here : code.node = some x)
    {kind : NodeKind} (known : t.kind? (some x) = some kind) (plain : kind.isFunction = false)
    (only : ∀ j other, Symbol.ofNode? t (some j) = some other → other.node = some x → j = i)
    (nothing : (run.walkTo file t i).made file i = []) :
    (run.walkTo file t a).registry.ofNode? t (some x) = none := by
  obtain ⟨between, reached, fresh⟩ := h.exists_walkTo visited passed
  let walk := run.walkTo file t i
  let next := (Watchers.documenting.passNode file i walk).2
  have tree : walk.tree = t := h.tree_walkTo i
  have later : next.tree = t := (Watchers.pass_documenting file walk (.node i)).2.trans tree
  -- no other stop registers anything for the node
  have apart {stops : List Stop} (absent : .node i ∉ stops) (j : NodeIndex)
      (listed : .node j ∈ stops) (other : Symbol) (symbol : Symbol.ofNode? t (some j) = some other) :
      other.node ≠ some x := fun here => absurd (only j other symbol here ▸ listed) absent
  have first : walk.registered x = [] :=
    h.registered_walkTo_of_apart (apart (t.not_mem_stopsBefore i))
  have second : next.registered x = walk.registered x :=
    Watchers.registered_of_unmade (by rw [tree]; exact symbol) here (by rw [tree]; exact known)
      plain nothing
  have third : (run.walkTo file t a).registered x = next.registered x := by
    rw [reached]
    refine Watchers.registered_passAll_of_apart file ?_
    rw [later]
    exact apart fun again => (fresh i again).1 rfl
  have still : (run.walkTo file t a).registered x = [] := (third.trans second).trans first
  have answer := (run.walkTo file t a).ofNode?_eq x
  rw [h.tree_walkTo, still] at answer
  exact answer

/-- The walk of a unit comes to `foo.prototype = { key: … }`, where the key is not declared. -/
structure GivesLiteral (run : Run (Option String)) (file : String) (t : Tree) (i o p : NodeIndex)
    (foo key : String) : Prop where
  visited : .node p ∈ t.stops
  prototype : (run.walkTo file t i).AtPrototype file i foo (prototypeOf foo) (some o)
  property : (run.walkTo file t p).AtProperty o p key
  undeclared : ∀ base ∈ Longname.basename? key,
    (run.walkTo file t p).registry.declared? t (some p) base = none
  module : (run.walkTo file t p).state = (run.walkTo file t i).state

/-- The walk of a unit comes to `foo.prototype.key = …`. -/
structure GivesMember (run : Run (Option String)) (file : String) (t : Tree) (j : NodeIndex)
    (foo key : String) : Prop where
  visited : .node j ∈ t.stops
  prototype : ∃ right,
    (run.walkTo file t j).AtPrototype file j foo (member (prototypeOf foo) '.' key) right
  segment : Segment key

/-- A statement has no doclet. -/
theorem Documents.ofNode?_statement (h : run.Documents file t)
    (assigns : t.AssignsPath i path right) :
    (run.walkTo file t i).registry.ofNode? t (t.parent (some i)) = none := by
  obtain ⟨s, b, up, above, statement, block⟩ := assigns.statement
  rw [up]
  exact h.ofNode?_of_plain fun j code symbol =>
    h.grown.not_symbol_of_statement above statement block symbol

theorem Documents.ofNode?_literal (h : run.Documents file t)
    (literal : run.GivesLiteral file t i o p foo key) :
    .node i ∈ t.stops ∧ ((run.walkTo file t i).made file i = [] →
      (run.walkTo file t p).registry.ofNode? t (some o) = none) ∧
    ∀ longname parent, (run.walkTo file t i).Places file i longname parent →
      ∃ d, (run.walkTo file t p).registry.ofNode? t (some o) = some d ∧ d.longname = longname := by
  have assigns := literal.prototype.assigns
  have inside := literal.property.inside
  have object := literal.property.inLiteral
  rw [h.tree_walkTo] at assigns inside object
  obtain ⟨operator, left, payload, _⟩ := assigns.payload
  have symbol := (h.grown.symbol_of_assignment payload).2
  have listed : o ∈ t.childrenOf i := (h.grown.shaped i _ payload).2 o (by simp [Payload.refs])
  have only (j : NodeIndex) (code : Symbol) (symbol : Symbol.ofNode? t (some j) = some code)
      (here : code.node = some o) : j = i := h.grown.eq_of_symbol object rfl listed symbol here
  obtain ⟨reached, _, before⟩ := h.grown.stopsBefore_of_child literal.visited
    (h.grown.linked p o inside).1
  obtain ⟨first, passed, _⟩ := h.grown.stopsBefore_of_child reached listed
  refine ⟨first, fun nothing => ?_, fun longname parent places => ?_⟩
  · exact h.ofNode?_of_unmade literal.visited (before _ passed) symbol rfl object rfl only nothing
  · obtain ⟨d, last⟩ : ∃ d, ((run.walkTo file t i).made file i).getLast? = some d :=
      ⟨_, List.getLast?_eq_some_getLast places.1⟩
    obtain ⟨e, cached, alike⟩ := h.ofNode?_behind literal.visited (before _ passed) symbol rfl
      (fun j other _ _ _ code symbol here => absurd (only j code symbol here) other) last
    exact ⟨e, cached, alike.longname.trans (places.2 d (List.mem_of_getLast? last)).1⟩

/-- What the literal registers: instance members of what the name in front resolved to, and of a
name that resolved to nothing only what any other literal would. -/
theorem registers_literal (h : run.Documents file t)
    (literal : run.GivesLiteral file t i o p foo key)
    (resolves : ∀ parent ∈ (run.walkTo file t i).front? i,
      Whole parent ∧ Longname.basename? (prototypeOf foo) = some foo) :
    let walk := run.walkTo file t i
    match walk.front? i with
    | some parent => run.Registers file t i (prototypeOf parent) (some parent) ∧
      run.Registers file t p (member parent '#' key) (some parent)
    | none => walk.made file i = [] ∧
      match walk.state with
      | some m => run.Registers file t p (member m '~' key) (some m)
      | none => run.Registers file t p key none := by
  have tree := h.tree_walkTo i
  have grown : (run.walkTo file t i).tree.Grown := tree.symm ▸ h.grown
  have tree' := h.tree_walkTo p
  have grown' : (run.walkTo file t p).tree.Grown := tree'.symm ▸ h.grown
  have prototype := literal.prototype
  obtain ⟨visited, unmade, made⟩ := h.ofNode?_literal literal
  obtain ⟨base, leads⟩ : ∃ base, Longname.basename? key = some base :=
    Longname.exists_basename? literal.property.segment.ne_empty
  have undeclared := literal.undeclared base leads
  dsimp only
  cases front : (run.walkTo file t i).front? i with
  | some parent =>
    obtain ⟨whole, leads'⟩ := resolves parent front
    have places := Walk.places_prototype_owned grown prototype front whole leads'
    obtain ⟨d, cached, longname⟩ := made _ _ places
    exact ⟨h.registers_of_places visited places, h.registers_of_places literal.visited
      (Walk.places_of_prototype grown' literal.property leads (by rw [tree']; exact undeclared)
        (by rw [tree']; exact cached) longname whole)⟩
  | none =>
    have statement := h.ofNode?_statement (tree ▸ prototype.assigns)
    have nothing :=
      Walk.made_prototype_unowned grown prototype (by rw [tree]; exact statement) front
    refine ⟨nothing, ?_⟩
    rw [← (grown'.symbol_of_property literal.property.isProperty).2.1, tree'] at leads
    have owner : ((run.walkTo file t p).registry.ownerByName (run.walkTo file t p).tree (some p)
        (some o)).memberof = none := by
      rw [tree', Registry.ownerByName_of_undeclared leads undeclared, unmade nothing]
      rfl
    have places := Walk.places_of_unowned grown' literal.property file owner
    rw [literal.module] at places
    have modules := prototype.modules
    cases module : (run.walkTo file t i).state with
    | none =>
      rw [module] at places
      exact h.registers_of_places literal.visited (places (by simp))
    | some m =>
      obtain ⟨whole, isModule⟩ := modules m module
      have other := (Longname.apart_of_module isModule literal.property.segment.not_mem_colon).ne
      have kept : Option.filter (fun m => decide (m ≠ key)) (some m) = some m := by
        rw [Option.filter_some, if_pos (by simpa using Ne.symm other)]
      rw [module, kept] at places
      exact h.registers_of_places literal.visited (places (by rintro _ ⟨⟩; exact whole))

/-- What the member that is assigned on its own registers: an instance member of what the name in
front resolved to, or else of that name, in the module or function scope around it. -/
theorem registers_member (h : run.Documents file t) (single : run.GivesMember file t j foo key)
    (resolves : ∀ parent ∈ (run.walkTo file t j).front? j,
      Whole parent ∧ parent ≠ "#" ++ key ∧ Longname.basename? (prototypeOf foo) = some foo) :
    let walk := run.walkTo file t j
    match walk.front? j with
    | some parent => run.Registers file t j (member parent '#' key) (some parent)
    | none =>
      let outer := Doclet.within (walk.state.or (walk.funcscope? file j)) foo
      run.Registers file t j (member outer '#' key) (some outer) := by
  have tree := h.tree_walkTo j
  have grown : (run.walkTo file t j).tree.Grown := tree.symm ▸ h.grown
  obtain ⟨right, prototype⟩ := single.prototype
  dsimp only
  cases front : (run.walkTo file t j).front? j with
  | some parent =>
    obtain ⟨whole, other, leads⟩ := resolves parent front
    exact h.registers_of_places single.visited
      (Walk.places_member_owned grown prototype single.segment front whole other
        (Longname.basename?_of_front (Longname.toList_prototypeOf foo)
          (Longname.toList_member_prototypeOf foo key) leads))
  | none =>
    have statement := h.ofNode?_statement (tree ▸ prototype.assigns)
    exact h.registers_of_places single.visited
      (Walk.places_member_unowned grown prototype (by rw [tree]; exact statement) single.segment
        front)

/-- All doclets that are made of one symbol have one longname. -/
theorem Registers.longname_eq {longname other : String} {above beside : Option String}
    (first : run.Registers file t i longname above) (also : run.Registers file t i other beside) :
    longname = other := by
  obtain ⟨d, made⟩ := List.exists_mem_of_ne_nil _ first.1.1
  exact (first.1.2 d made).1.symm.trans (also.1.2 d made).1

variable {run' : Run (Option String)} {file' : String} {t' : Tree}

/-- The two ways to give a prototype a member, in the same place. Where the name in front resolved,
the member has the same longname either way, but the literal leaves a doclet of the prototype; where
it did not, there is none, and the member of the literal is no member of the prototype. -/
theorem prototype_spellings (h : run.Documents file t) (h' : run'.Documents file' t')
    (literal : run.GivesLiteral file t i o p foo key)
    (single : run'.GivesMember file' t' j foo key)
    (module : (run'.walkTo file' t' j).state = (run.walkTo file t i).state)
    (front : (run'.walkTo file' t' j).front? j = (run.walkTo file t i).front? i)
    (resolves : ∀ parent ∈ (run.walkTo file t i).front? i,
      Whole parent ∧ parent ≠ "#" ++ key ∧ Longname.basename? (prototypeOf foo) = some foo) :
    let walk := run.walkTo file t i
    (match walk.front? i with
      | some parent => run.Registers file t i (prototypeOf parent) (some parent) ∧
        run.Registers file t p (member parent '#' key) (some parent) ∧
        run'.Registers file' t' j (member parent '#' key) (some parent)
      | none =>
        let outer := Doclet.within
          (walk.state.or ((run'.walkTo file' t' j).funcscope? file' j)) foo
        walk.made file i = [] ∧
        (match walk.state with
          | some m => run.Registers file t p (member m '~' key) (some m)
          | none => run.Registers file t p key none) ∧
        run'.Registers file' t' j (member outer '#' key) (some outer)) ∧
    ((∃ longname above beside, run.Registers file t p longname above ∧
      run'.Registers file' t' j longname beside) ↔ walk.front? i ≠ none) := by
  have first := registers_literal h literal fun parent found =>
    ⟨(resolves parent found).1, (resolves parent found).2.2⟩
  have second := registers_member h' single (front ▸ resolves)
  dsimp only at first second ⊢
  rw [front, module] at second
  cases resolved : (run.walkTo file t i).front? i with
  | some parent =>
    rw [resolved] at first second
    refine ⟨⟨first.1, first.2, second⟩, ?_⟩
    exact ⟨fun _ => by simp, fun _ => ⟨_, _, _, first.2, second⟩⟩
  | none =>
    rw [resolved] at first second
    dsimp only at first second
    refine ⟨⟨first.1, first.2, second⟩, ⟨?_, fun other => absurd rfl other⟩⟩
    rintro ⟨longname, above, beside, one, other⟩
    have same := other.longname_eq second
    cases inModule : (run.walkTo file t i).state with
    | none =>
      rw [inModule] at first
      exact absurd (same.symm.trans (one.longname_eq first.2)) (Longname.member_ne_self _ '#' key)
    | some m =>
      rw [inModule] at first
      exact absurd (same.symm.trans (one.longname_eq first.2))
        (Longname.member_ne_member (by decide) key)

end Run

/-! ### The prototype of a variable -/

namespace PrototypeOfVariable

open ExportedClass (identifier node)
open LiteralOfVariables (declaration property)

/-- `object.name` -/
def select (object : Json.Value) (name : String) : Json.Value :=
  node "MemberExpression" [("object", object), ("property", identifier name)]

def assignment (left right : Json.Value) : Json.Value :=
  node "ExpressionStatement" [("expression", node "AssignmentExpression" [("operator", .str "="),
    ("left", left), ("right", right)])]

def prototype : Json.Value := select (identifier "Foo") "prototype"

/-- `Foo.prototype = { k: v };` -/
def literal : Json.Value :=
  assignment prototype (node "ObjectExpression" [("properties", .arr [property "k" "v"])])

/-- `Foo.prototype.k = v;` -/
def single : Json.Value := assignment (select prototype "k") (identifier "v")

/-- `var Foo = w;` and a statement behind it, after some comments. -/
def unit (comments : List Json.Value) (statement : Json.Value) : Json.Value :=
  node "Program" [("comments", .arr comments),
    ("body", .arr [declaration "Foo" (identifier "w"), statement])]

/-- The comment that puts all symbols into the module `m`. -/
def inModule : List Json.Value := [node "Block" [("value", .str "* @module m ")]]

def tree (comments : List Json.Value) (statement : Json.Value) : Tree :=
  match Estree.ofValue "foo.js" (unit comments statement) with
  | .ok t => t
  | .error _ => ⟨"", 0, #[], none, #[]⟩

def run : Run (Option String) := .start .estree .documenting none

/-- The units are walked outside any module, or in one. -/
inductive Placed : List Json.Value → Prop where
  | outside : Placed []
  | inside : Placed inModule

variable {comments : List Json.Value}

theorem documents_literal (placed : Placed comments) :
    run.Documents "foo.js" (tree comments literal) := by
  cases placed with
  | outside => exact ⟨⟨.estree, .documenting, none, [], rfl⟩, rfl, unit [] literal, _, rfl, rfl⟩
  | inside =>
    exact ⟨⟨.estree, .documenting, none, [], rfl⟩, rfl, unit inModule literal, _, rfl, rfl⟩

theorem documents_single (placed : Placed comments) :
    run.Documents "foo.js" (tree comments single) := by
  cases placed with
  | outside => exact ⟨⟨.estree, .documenting, none, [], rfl⟩, rfl, unit [] single, _, rfl, rfl⟩
  | inside =>
    exact ⟨⟨.estree, .documenting, none, [], rfl⟩, rfl, unit inModule single, _, rfl, rfl⟩

theorem spells_prototype {t : Tree} (object : t.payload? (some 4) = some (.identifier "Foo"))
    (name : t.payload? (some 5) = some (.identifier "prototype"))
    (payload : t.payload? (some 6) = some (.member (some 4) (some 5) false)) :
    t.Spells (some 6) (prototypeOf "Foo") := by
  rw [Longname.prototypeOf_eq_member]
  exact .member (.identifier object) name payload

theorem assigns_literal (placed : Placed comments) :
    (tree comments literal).AssignsPath 11 (prototypeOf "Foo") (some 10) := by
  refine ⟨⟨"=", some 6, ?_, spells_prototype ?_ ?_ ?_⟩, 12, 13, ?_, ?_, ?_, Or.inl ?_⟩ <;>
    cases placed <;> rfl

theorem assigns_single (placed : Placed comments) :
    (tree comments single).AssignsPath 10 (member (prototypeOf "Foo") '.' "k") (some 9) := by
  have last : (tree comments single).payload? (some 7) = some (.identifier "k") := by
    cases placed <;> rfl
  refine ⟨⟨"=", some 8, ?_, .member (spells_prototype ?_ ?_ ?_) last ?_⟩, 11, 12, ?_, ?_, ?_,
    Or.inl ?_⟩ <;> cases placed <;> rfl

/-- An assignment to the prototype, outside any function. -/
theorem atPrototype {t : Tree} {walk : Walk (Option String)} {i : NodeIndex} {path : String}
    {right : NodeRef} (same : walk.tree = t) (assigns : t.AssignsPath i path right)
    (inside : walk.state = none ∨ walk.state = some "module:m")
    (outside : walk.funcscope? "foo.js" i = none) (plain : t.docText i = "") :
    walk.AtPrototype "foo.js" i "Foo" path right where
  assigns := same ▸ assigns
  front :=
    have word : Longname.Word "Foo" := by decide +kernel
    ⟨word.segment, (Longname.Words.one word).whole, by decide, by decide,
      fun exports => absurd exports (by decide)⟩
  modules := by
    have words : Longname.Words "m" := .one (by decide +kernel)
    rcases inside with none | some
    · simp [none]
    · rw [some]
      rintro _ ⟨⟩
      exact ⟨words.path.whole_module, by decide⟩
  scopes := by simp [outside]
  untagged := by
    rw [same, plain]
    exact fun part listed origin => (ExportedClass.untagged part listed origin).1

theorem givesLiteral (placed : Placed comments) :
    run.GivesLiteral "foo.js" (tree comments literal) 11 10 9 "Foo" "k" := by
  have word : Longname.Word "k" := by decide +kernel
  have same := (documents_literal placed).tree_walkTo
  refine ⟨?_, atPrototype (same 11) (assigns_literal placed) ?_ ?_ ?_, ⟨?_, ?_, ?_, word.segment,
    by decide, fun exports => absurd exports (by decide), ?_⟩, ?_, ?_⟩
  · cases placed <;> decide +kernel
  · cases placed <;> decide +kernel
  · cases placed <;> decide +kernel
  · cases placed <;> decide +kernel
  · rw [same]
    refine ⟨some 7, some 8, .init, false, false, ?_, ?_⟩ <;> cases placed <;> rfl
  · rw [same]
    cases placed <;> rfl
  · rw [same]
    cases placed <;> rfl
  · have plain : (tree comments literal).docText 9 = "" := by cases placed <;> decide +kernel
    rw [same, plain]
    exact fun part listed origin => (ExportedClass.untagged part listed origin).1
  · cases placed <;> decide +kernel
  · cases placed <;> decide +kernel

theorem givesMember (placed : Placed comments) :
    run.GivesMember "foo.js" (tree comments single) 10 "Foo" "k" := by
  have word : Longname.Word "k" := by decide +kernel
  refine ⟨?_, ⟨some 9, atPrototype ((documents_single placed).tree_walkTo 10)
    (assigns_single placed) ?_ ?_ ?_⟩, word.segment⟩ <;>
    cases placed <;> decide +kernel

theorem front_outside : (run.walkTo "foo.js" (tree [] literal) 11).front? 11 = none ∧
    (run.walkTo "foo.js" (tree [] single) 10).front? 10 = none := by
  decide +kernel

theorem front_inside :
    (run.walkTo "foo.js" (tree inModule literal) 11).front? 11 = some "module:m~Foo" ∧
      (run.walkTo "foo.js" (tree inModule single) 10).front? 10 = some "module:m~Foo" := by
  decide +kernel

/-- Outside any module, the two ways give the member different longnames. -/
theorem spellings_apart_outside :
    run.Documents "foo.js" (tree [] literal) ∧ run.Documents "foo.js" (tree [] single) ∧
    run.GivesLiteral "foo.js" (tree [] literal) 11 10 9 "Foo" "k" ∧
    run.GivesMember "foo.js" (tree [] single) 10 "Foo" "k" ∧
    (run.walk "foo.js" (tree [] literal)).2.results.map Doclet.longname = ["Foo", "k"] ∧
    (run.walk "foo.js" (tree [] single)).2.results.map Doclet.longname = ["Foo", "Foo#k"] ∧
    ¬ ∃ longname above beside, run.Registers "foo.js" (tree [] literal) 9 longname above ∧
      run.Registers "foo.js" (tree [] single) 10 longname beside := by
  have placed : Placed [] := .outside
  refine ⟨documents_literal placed, documents_single placed, givesLiteral placed,
    givesMember placed, by decide +kernel, by decide +kernel, ?_⟩
  rintro ⟨longname, above, beside, ⟨⟨_, first⟩, _⟩, ⟨⟨_, second⟩, _⟩⟩
  have ways : ((run.walkTo "foo.js" (tree [] literal) 9).made "foo.js" 9).map Doclet.longname =
      ["k"] ∧ ((run.walkTo "foo.js" (tree [] single) 10).made "foo.js" 10).map Doclet.longname =
      ["Foo#k"] := by decide +kernel
  obtain ⟨d, made, text⟩ := List.mem_map.mp (ways.1 ▸ List.mem_cons_self)
  obtain ⟨e, made', text'⟩ := List.mem_map.mp (ways.2 ▸ List.mem_cons_self)
  exact absurd ((text.symm.trans (first d made).1).trans ((second e made').1.symm.trans text'))
    (by decide)

/-- Outside any module the name in front resolves to nothing, and the member of the literal is no
member of the prototype; in a module it resolves, and the two ways agree. -/
theorem prototype_spellings_variable :
    (run.Registers "foo.js" (tree [] literal) 9 "k" none ∧
      run.Registers "foo.js" (tree [] single) 10 "Foo#k" (some "Foo")) ∧
    run.Registers "foo.js" (tree inModule literal) 9 "module:m~Foo#k" (some "module:m~Foo") ∧
      run.Registers "foo.js" (tree inModule single) 10 "module:m~Foo#k" (some "module:m~Foo") := by
  constructor
  · have placed : Placed [] := .outside
    have spellings := Run.prototype_spellings (documents_literal placed) (documents_single placed)
      (givesLiteral placed) (givesMember placed) (by decide +kernel)
      (front_outside.2.trans front_outside.1.symm) (by simp [front_outside.1])
    have state : (run.walkTo "foo.js" (tree [] literal) 11).state = none := by decide +kernel
    have scope : (run.walkTo "foo.js" (tree [] single) 10).funcscope? "foo.js" 10 = none := by
      decide +kernel
    dsimp only at spellings
    rw [front_outside.1, state, scope] at spellings
    exact spellings.1.2
  · have placed : Placed inModule := .inside
    have whole : Whole "module:m~Foo" := ExportedClass.whole rfl (by decide)
    have spellings := Run.prototype_spellings (documents_literal placed) (documents_single placed)
      (givesLiteral placed) (givesMember placed) (by decide +kernel)
      (front_inside.2.trans front_inside.1.symm) (by
        rw [front_inside.1]
        rintro _ ⟨⟩
        exact ⟨whole, by decide, by decide⟩)
    dsimp only at spellings
    rw [front_inside.1] at spellings
    exact spellings.1.2

end PrototypeOfVariable

end Doclets
