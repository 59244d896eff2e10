import Doclets.Proofs.Longname.Words
import Doclets.Proofs.Pipeline.Membership
import Doclets.Proofs.Registry.Names
import Doclets.Proofs.Tree.Paths

/-!
The properties of object literals, in every run that only documents. A property is a static member
of its literal as long as nothing of its name is declared around it: a declared name is looked up
before the literal is.
-/

namespace Doclets

open Longname (Segment Whole member)

namespace Documenter

/-- What is left of a plain name is plain. -/
theorem plain_withoutBasename {name : String} (plain : Longname.Plain name.toList)
    (basename : String) : Longname.Plain (withoutBasename name basename).toList := by
  unfold withoutBasename
  split
  next rest found =>
    split
    · intro c listed
      apply plain c
      rw [Text.after?_eq_some_iff.mp found, String.toList_append]
      rw [String.toList_ofList] at listed
      exact List.mem_append_right _ (List.mem_of_mem_drop listed)
    · exact plain
  · exact plain

end Documenter

/-! ### Properties -/

namespace Walk

variable {walk : Walk (Option String)} {file : String} {o p : NodeIndex} {key base : String}

/-- A walk at a property of an object literal that no tag places, and that is not called by a
reserved word. -/
structure AtProperty (walk : Walk (Option String)) (o p : NodeIndex) (key : String) : Prop where
  isProperty : walk.tree.IsProperty p key
  inLiteral : walk.tree.kind? (some o) = some .objectExpression
  inside : walk.tree.parent (some p) = some o
  segment : Segment key
  other : key ≠ "this"
  outside : key = "exports" → walk.state = none
  untagged : ∀ part ∈ Comment.parts (walk.tree.docText p), ∀ origin,
    (Doclet.ofComment part origin).Untagged

/-- All doclets that are made of the symbol at a node have this longname and this parent. -/
def Places (walk : Walk (Option String)) (file : String) (i : NodeIndex) (longname : String)
    (parent : Option String) : Prop :=
  walk.Makes file i fun e => e.longname = longname ∧ e.memberof = parent

/-- The checkpoint of a property: the code names it by a segment, and only the scopes around it say
where it belongs. -/
structure PropertyFound (walk : Walk (Option String)) (file : String) (o p : NodeIndex)
    (key : String) (event : SymbolFound) : Prop where
  made : walk.made file p = Documenter.ofSymbol walk.context walk.state event
  named : event.code.name = key
  undeclared : event.code.funcscope = none
  untagged : ∀ part ∈ Comment.parts event.comment, ∀ origin,
    (Doclet.ofComment part origin).Untagged
  free : Documenter.reserved? walk.context walk.state (some event.node) key = none
  owner : walk.registry.owner walk.tree (some event.node) =
    walk.registry.ownerByName walk.tree (some p) (some o)
  kind : walk.tree.kind? (some event.node) = some .property
  unexported : Documenter.isNamedExport walk.tree (some event.node) = false

theorem exists_propertyFound (h : walk.tree.Grown) (here : walk.AtProperty o p key)
    (file : String) : ∃ event, walk.PropertyFound file o p key event := by
  obtain ⟨kind, _, value, symbol⟩ := h.symbol_of_property here.isProperty
  obtain ⟨event, made, text, node, code⟩ := exists_made kind rfl symbol file
  refine ⟨event, made, by rw [code]; rfl, by rw [code]; rfl, text ▸ here.untagged, ?_, ?_,
    node ▸ kind, ?_⟩
  · exact Documenter.reserved?_of_segment here.segment here.other here.outside
  · rw [node, Registry.owner_of_named kind (Or.inl rfl), here.inside]
  · rw [node]
    unfold Documenter.isNamedExport Tree.isKind
    rw [here.inside, here.inLiteral, kind]
    rfl

/-- A property that nothing owns is an inner member of the module, or else its own longname. -/
theorem places_of_unowned (h : walk.tree.Grown) (here : walk.AtProperty o p key) (file : String)
    (owner : (walk.registry.ownerByName walk.tree (some p) (some o)).memberof = none)
    (whole : ∀ m ∈ walk.state.filter fun m => m ≠ key, Whole m) :
    match walk.state.filter fun m => m ≠ key with
    | some m => walk.Places file p (member m '~' key) (some m)
    | none => walk.Places file p key none := by
  obtain ⟨event, found⟩ := exists_propertyFound h here file
  obtain rfl := found.named
  have made := Documenter.ofSymbol_segment_unowned found.untagged here.segment found.undeclared
    found.unexported found.free (by rw [← owner]; exact congrArg Owner.memberof found.owner) whole
  unfold Places Makes
  rw [found.made]
  cases inModule : walk.state.filter fun m => m ≠ event.code.name with
  | some m =>
    rw [inModule] at made
    exact made
  | none =>
    rw [inModule] at made
    exact made

variable (h : walk.tree.Grown) (here : walk.AtProperty o p key)
  (leads : Longname.basename? key = some base)

include h here leads

/-- A property whose name is not declared belongs to its literal. -/
theorem places_of_undeclared {d : Doclet}
    (cached : walk.registry.ofNode? walk.tree (some o) = some d) (whole : Whole d.longname)
    (undeclared : walk.registry.declared? walk.tree (some p) base = none) :
    walk.Places file p (member d.longname '.' key) (some d.longname) := by
  obtain ⟨event, found⟩ := exists_propertyFound h here file
  obtain rfl := found.named
  rw [← (h.symbol_of_property here.isProperty).2.1] at leads
  have owner : walk.registry.owner walk.tree (some event.node) = .parent d.longname := by
    rw [found.owner, Registry.ownerByName_of_undeclared leads undeclared, cached]
  have other : walk.tree.isKind (some event.node) .methodDefinition = false := by
    rw [Tree.isKind, found.kind]
    rfl
  unfold Places Makes
  rw [found.made]
  refine Documenter.ofSymbol_static found.untagged here.segment whole here.segment.ne_empty
    here.segment.plain fun d begun => ?_
  rw [Documenter.placed_of_unreserved begun found.free]
  exact Documenter.inScope_around owner whole other

/-- Where the name of a property is declared, what that resolved to is its parent. -/
theorem placed_of_declared {event : SymbolFound} {parent : String} {d : Doclet}
    (found : walk.PropertyFound file o p key event) (whole : Whole parent)
    (declared : walk.registry.declared? walk.tree (some p) base = some (some parent))
    (begun : Documenter.Begun d event.code.name event.code.funcscope) :
    Documenter.placed walk.context walk.state (some event.node) d =
      { d with name := some (Documenter.withoutBasename key base), memberof := some parent } := by
  obtain rfl := found.named
  rw [← (h.symbol_of_property here.isProperty).2.1] at leads
  have owner : walk.registry.owner walk.tree (some event.node) = ⟨some parent, some base⟩ := by
    rw [found.owner, Registry.ownerByName_of_declared leads declared]
  rw [Documenter.placed_of_unreserved begun found.free]
  exact Documenter.inScope_declared owner whole

/-- A property whose name is declared belongs to what that resolved to. -/
theorem places_of_declared {parent : String} (whole : Whole parent)
    (declared : walk.registry.declared? walk.tree (some p) base = some (some parent))
    (filled : Documenter.withoutBasename key base ≠ "") :
    walk.Places file p (member parent '.' (Documenter.withoutBasename key base))
      (some parent) := by
  obtain ⟨event, found⟩ := exists_propertyFound h here file
  have segment := here.segment
  rw [← found.named] at segment
  unfold Places Makes
  rw [found.made]
  exact Documenter.ofSymbol_static found.untagged segment whole filled
    (Documenter.plain_withoutBasename here.segment.plain base)
    fun d begun => placed_of_declared h here leads found whole declared begun

/-- Nothing is made of a property that has no name left behind the declared one. -/
theorem made_of_declared {parent : String} (whole : Whole parent)
    (declared : walk.registry.declared? walk.tree (some p) base = some (some parent))
    (empty : Documenter.withoutBasename key base = "") : walk.made file p = [] := by
  obtain ⟨event, found⟩ := exists_propertyFound h here file
  rw [found.made]
  apply Documenter.ofSymbol_nameless found.untagged
  intro d begun
  rw [placed_of_declared h here leads found whole declared begun, empty]

end Walk

namespace Run

open Documenter (withoutBasename)

variable {run : Run (Option String)} {file : String} {t : Tree} {i o p : NodeIndex}
  {key base longname : String} {parent : Option String}

/-- The doclets of the symbol at a node all have this longname and this parent, and the walk of the
unit ends with such a result. -/
def Registers (run : Run (Option String)) (file : String) (t : Tree) (i : NodeIndex)
    (longname : String) (parent : Option String) : Prop :=
  (run.walkTo file t i).Places file i longname parent ∧
    let done := (run.walk file t).2.registry
    ∃ id ∈ done.results, (done.doclet id).longname = longname ∧ (done.doclet id).memberof = parent

theorem Documents.registers_of_places (h : run.Documents file t) (visited : .node i ∈ t.stops)
    (places : (run.walkTo file t i).Places file i longname parent) :
    run.Registers file t i longname parent := by
  obtain ⟨d, made⟩ := List.exists_mem_of_ne_nil _ places.1
  obtain ⟨id, listed, alike⟩ := h.stored_of_made visited made
  obtain ⟨text, above⟩ := places.2 d made
  exact ⟨places, id, listed, alike.longname.trans text, alike.memberof.trans above⟩

/-- What a property of a documented object literal registers. What its key begins with is looked up
among the declared names first: a name that resolved has the property for a member, a name that did
not leaves it to the module, and only a name that is not declared leaves it to the literal. -/
theorem registers_property (h : run.Documents file t) (visited : .node p ∈ t.stops)
    (here : (run.walkTo file t p).AtProperty o p key) {d : Doclet}
    (cached : (run.walkTo file t p).registry.ofNode? t (some o) = some d)
    (whole : Whole d.longname) (leads : Longname.basename? key = some base) :
    let walk := run.walkTo file t p
    match walk.registry.declared? t (some p) base with
    | none => run.Registers file t p (member d.longname '.' key) (some d.longname)
    | some (some parent) => Whole parent →
      if withoutBasename key base = "" then walk.made file p = []
      else run.Registers file t p (member parent '.' (withoutBasename key base)) (some parent)
    | some none => (∀ m ∈ walk.state.filter fun m => m ≠ key, Whole m) →
      match walk.state.filter fun m => m ≠ key with
      | some m => run.Registers file t p (member m '~' key) (some m)
      | none => run.Registers file t p key none := by
  have tree := h.tree_walkTo p
  have grown : (run.walkTo file t p).tree.Grown := tree.symm ▸ h.grown
  dsimp only
  cases declared : (run.walkTo file t p).registry.declared? t (some p) base with
  | none =>
    exact h.registers_of_places visited
      (Walk.places_of_undeclared grown here leads (tree.symm ▸ cached) whole (tree.symm ▸ declared))
  | some resolved =>
    cases resolved with
    | none =>
      intro inModule
      rw [← (grown.symbol_of_property here.isProperty).2.1, tree] at leads
      have places := Walk.places_of_unowned grown here file (by
        rw [tree, Registry.ownerByName_of_declared leads declared]) inModule
      cases module : (run.walkTo file t p).state.filter fun m => m ≠ key with
      | some m =>
        rw [module] at places
        exact h.registers_of_places visited places
      | none =>
        rw [module] at places
        exact h.registers_of_places visited places
    | some parent =>
      intro own
      split
      next empty =>
        exact Walk.made_of_declared grown here leads own (tree.symm ▸ declared) empty
      next filled =>
        exact h.registers_of_places visited
          (Walk.places_of_declared grown here leads own (tree.symm ▸ declared) filled)

end Run

/-! ### A literal of variables -/

namespace LiteralOfVariables

open ExportedClass (identifier node)

def declaration (name : String) (value : Json.Value) : Json.Value :=
  node "VariableDeclaration" [("kind", .str "var"), ("declarations", .arr [
    node "VariableDeclarator" [("id", identifier name), ("init", value)]])]

def property (key value : String) : Json.Value :=
  node "Property" [("key", identifier key), ("value", identifier value), ("kind", .str "init")]

/-- `var x = a; var o = { x: x, y: x };` -/
def unit : Json.Value :=
  node "Program" [("body", .arr [
    declaration "x" (identifier "a"),
    declaration "o" (node "ObjectExpression" [("properties", .arr [
      property "x" "x", property "y" "x"])])])]

def tree : Tree :=
  match Estree.ofValue "o.js" unit with
  | .ok t => t
  | .error _ => ⟨"", 0, #[], none, #[]⟩

def run : Run (Option String) := .start .estree .documenting none

theorem documents : run.Documents "o.js" tree where
  asked := ⟨.estree, .documenting, none, [], rfl⟩
  watchers := rfl
  read := ⟨unit, tree, rfl, rfl⟩

/-- The walk of the unit when it comes to a node. -/
def walk (p : NodeIndex) : Walk (Option String) := run.walkTo "o.js" tree p

theorem tree_walk (p : NodeIndex) : (walk p).tree = tree := documents.tree_walkTo p

/-- A walk at one of the two properties. -/
theorem atProperty {p : NodeIndex} {key : String} (isProperty : tree.IsProperty p key)
    (inside : tree.parent (some p) = some 11) (plain : tree.docText p = "")
    (word : Longname.Word key) (other : key ≠ "this" ∧ key ≠ "exports") :
    (walk p).AtProperty 11 p key := by
  refine ⟨?_, ?_, ?_, word.segment, other.1, fun exports => absurd exports other.2, ?_⟩
  · rw [tree_walk]
    exact isProperty
  · rw [tree_walk]
    rfl
  · rw [tree_walk]
    exact inside
  · rw [tree_walk, plain]
    exact fun part listed origin => (ExportedClass.untagged part listed origin).1

theorem atProperty_x : (walk 7).AtProperty 11 7 "x" :=
  atProperty ⟨some 5, some 6, .init, false, false, rfl, rfl⟩ rfl (by decide +kernel)
    (by decide +kernel) (by decide)

theorem atProperty_y : (walk 10).AtProperty 11 10 "y" :=
  atProperty ⟨some 8, some 9, .init, false, false, rfl, rfl⟩ rfl (by decide +kernel)
    (by decide +kernel) (by decide)

theorem cached_literal {p : NodeIndex}
    (known : ((walk p).registry.ofNode? tree (some 11)).map Doclet.longname = some "o") :
    ∃ d, (walk p).registry.ofNode? tree (some 11) = some d ∧ d.longname = "o" ∧
      Longname.Words d.longname := by
  obtain ⟨d, cached, longname⟩ := Option.map_eq_some_iff.mp known
  exact ⟨d, cached, longname, longname ▸ .one (by decide +kernel)⟩

/-- A property that is called like a variable does not belong to its literal, and nothing else gets
the longname that it would have there. -/
theorem property_beside_literal : run.Documents "o.js" tree ∧ .node 7 ∈ tree.stops ∧
    (walk 7).AtProperty 11 7 "x" ∧
    (∃ d, (walk 7).registry.ofNode? tree (some 11) = some d ∧ d.longname = "o" ∧
      Longname.Words d.longname) ∧
    ¬ run.Registers "o.js" tree 7 "o.x" (some "o") ∧
    ¬ ∃ d ∈ (run.walk "o.js" tree).2.results, d.longname = "o.x" := by
  refine ⟨documents, by decide +kernel, atProperty_x, cached_literal (by decide +kernel), ?_, ?_⟩
  · rintro ⟨⟨_, all⟩, _⟩
    have made : ((walk 7).made "o.js" 7).map Doclet.longname = ["x"] := by decide +kernel
    obtain ⟨d, listed, text⟩ : ∃ d ∈ (walk 7).made "o.js" 7, d.longname = "x" :=
      List.mem_map.mp (made ▸ List.mem_cons_self)
    exact absurd (text.symm.trans (all d listed).1) (by decide)
  · rintro ⟨d, listed, text⟩
    have results : "o.x" ∉ (run.walk "o.js" tree).2.results.map Doclet.longname := by
      decide +kernel
    exact results (List.mem_map.mpr ⟨d, listed, text⟩)

/-- The one property is left to the module, and there is none; the other belongs to its literal. -/
theorem registers_property_variables : run.Registers "o.js" tree 7 "x" none ∧
    run.Registers "o.js" tree 10 "o.y" (some "o") := by
  constructor
  · obtain ⟨d, cached, _, words⟩ := cached_literal (p := 7) (by decide +kernel)
    have registers := Run.registers_property documents (by decide +kernel) atProperty_x cached
      words.whole (show Longname.basename? "x" = some "x" by decide)
    have declared :
        (run.walkTo "o.js" tree 7).registry.declared? tree (some 7) "x" = some none := by
      decide +kernel
    have outside : (run.walkTo "o.js" tree 7).state.filter (fun m => m ≠ "x") = none := by
      decide +kernel
    dsimp only at registers
    rw [declared] at registers
    dsimp only at registers
    rw [outside] at registers
    exact registers (by simp)
  · obtain ⟨d, cached, longname, words⟩ := cached_literal (p := 10) (by decide +kernel)
    have registers := Run.registers_property documents (by decide +kernel) atProperty_y cached
      words.whole (show Longname.basename? "y" = some "y" by decide)
    have declared : (run.walkTo "o.js" tree 10).registry.declared? tree (some 10) "y" = none := by
      decide +kernel
    dsimp only at registers
    rw [declared, longname] at registers
    exact registers

end LiteralOfVariables

end Doclets
