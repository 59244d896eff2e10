import Doclets.Proofs.Longname.Words
import Doclets.Proofs.Pipeline.Membership
import Doclets.Proofs.Tree.Declarations

/-!
Lexical nesting, as longnames spell it out, in every run that only documents. What a function
declares is an inner member of the doclet that the function has when a walk comes there, whatever
the module or the global scope would make of the name; so the longname of a declaration lists the
functions around it, to any depth.
-/

namespace Doclets

open Longname (Segments Whole member)

/-- A doclet of this name that is an inner member of this parent. -/
structure Doclet.IsInner (d : Doclet) (parent own : String) : Prop where
  name : d.name = some own
  memberof : d.memberof = some parent
  scope : d.scope = some .inner
  longname : d.longname = member parent '~' own

theorem Doclet.IsInner.of_same {d e : Doclet} {parent name : String} (inner : d.IsInner parent name)
    (same : e.SameIdentity d) : e.IsInner parent name where
  name := same.name.trans inner.name
  memberof := same.memberof.trans inner.memberof
  scope := same.scope.trans inner.scope
  longname := same.longname.trans inner.longname

namespace Tree

variable {t : Tree} {j x : NodeIndex}

/-- Once a walk has passed a node, no other symbol makes doclets for it. -/
theorem Grown.quiet_behind (h : t.Grown) (visited : .node x ∈ t.stops) (other : j ≠ x)
    (later : .node j ∉ t.stopsBefore x) (known : Prop) : Watchers.Quiet t x known (.node j) := by
  intro code symbol here
  rcases h.node_of_symbol symbol here with rfl | child
  · exact absurd rfl other
  · exact absurd (h.stopsBefore_of_child visited child).2.1 later

end Tree

namespace Walk

variable {walk : Walk (Option String)} {file name : String} {i s : NodeIndex} {d : Doclet}

/-- What is prepared for a symbol leaves all doclets as they are, and the symbol its name. -/
theorem exists_checkpoint {code : Symbol} (symbol : Symbol.ofNode? walk.tree (some i) = some code)
    (file : String) : ∃ (event : SymbolFound) (r : Registry),
      walk.made file i = Documenter.ofSymbol ⟨r, walk.tree⟩ walk.state event ∧
        walk.registry.Retains r ∧ event.comment = walk.tree.docText i ∧ event.node = i ∧
        event.code.name = code.name := by
  obtain ⟨event, _, r, found, text, here⟩ := Watchers.exists_symbolAt? symbol file walk.registry
  exact ⟨event, r, made_of_symbol found, Watchers.retains_symbolAt? found, text, here,
    (Watchers.code_symbolAt? symbol found).1⟩

/-- What is declared in a scope that has a doclet is an inner member of that. -/
theorem makes_inner (h : walk.tree.Grown) (anchored : walk.registry.Anchored)
    (declares : walk.tree.DeclaresPlainly i name) (scope : walk.tree.scope (some i) = some s)
    (cached : walk.registry.ofNode? walk.tree (some s) = some d) (whole : Whole d.longname) :
    walk.Makes file i fun e => e.IsInner d.longname name := by
  obtain ⟨kind, code, known, form, symbol, named, _⟩ := h.symbol_of_declares declares.declares
  obtain ⟨event, r, made, kept, text, rfl, same⟩ := exists_checkpoint symbol file
  obtain ⟨e, still, alike⟩ := kept.ofNode? anchored (by rw [kept.byNode]) cached
  have joins : Registry.joint? kind = some '~' := by
    rcases form with rfl | rfl <;> rfl
  have owner := r.owner_of_scoped known joins scope still
  rw [alike.longname] at owner
  let ctx : Context := ⟨r, walk.tree⟩
  have other : ctx.tree.isKind (some event.node) .methodDefinition = false := by
    rw [show ctx.tree = walk.tree from rfl, Tree.isKind, known]
    rcases form with rfl | rfl <;> rfl
  have called : event.code.name = name := same.trans named
  have free : Documenter.reserved? ctx walk.state (some event.node) event.code.name = none :=
    called ▸ Documenter.reserved?_of_segment declares.segment declares.not_this
      fun exports => absurd exports declares.not_exports
  unfold Makes
  rw [made]
  obtain ⟨some, all⟩ := Documenter.ofSymbol_member (text ▸ declares.unplaced) declares.segment
    (called ▸ declares.segment.ne_empty) free owner whole rfl (by rw [other]; exact called)
  refine ⟨some, fun e listed => ?_⟩
  have joined := all e listed
  exact ⟨joined.name, joined.memberof, joined.scope, joined.longname⟩

end Walk

namespace Run

variable {run : Run (Option String)} {file : String} {t : Tree} {i j s : NodeIndex} {d : Doclet}
  {above parent name : String}

/-- The doclets of the symbol at a node are all inner members of this parent, of this name, and the
walk of the unit ends with such a result. -/
structure RegistersInner (run : Run (Option String)) (file : String) (t : Tree) (i : NodeIndex)
    (parent name : String) : Prop where
  makes : (run.walkTo file t i).Makes file i fun e => e.IsInner parent name
  result : let done := (run.walk file t).2.registry
    ∃ id ∈ done.results, (done.doclet id).IsInner parent name

/-- One level of nesting. -/
theorem Documents.registersInner (h : run.Documents file t) (declares : t.DeclaresPlainly i name)
    (scope : t.scope (some i) = some s)
    (cached : (run.walkTo file t i).registry.ofNode? t (some s) = some d)
    (whole : Whole d.longname) : run.RegistersInner file t i d.longname name := by
  have tree := h.tree_walkTo i
  have makes : (run.walkTo file t i).Makes file i fun e => e.IsInner d.longname name :=
    Walk.makes_inner (tree.symm ▸ h.grown) (h.sound_walkTo i).toAnchored (tree.symm ▸ declares)
      (tree.symm ▸ scope) (tree.symm ▸ cached) whole
  obtain ⟨e, made⟩ := List.exists_mem_of_ne_nil _ makes.1
  obtain ⟨id, listed, alike⟩ := h.stored_of_made (h.visited declares.declares.lt_size) made
  exact ⟨makes, id, listed, (makes.2 e made).of_same alike⟩

/-- A walk that comes to what a function declares has passed the function, which still has a doclet
that was made there. -/
theorem Documents.cached_inner (h : run.Documents file t) (outer : t.Declares i parent)
    (makes : (run.walkTo file t i).Makes file i fun e => e.IsInner above parent)
    (inner : t.Declares j name) (scope : t.scope (some j) = some i) :
    ∃ d, (run.walkTo file t j).registry.ofNode? t (some i) = some d ∧ d.IsInner above parent := by
  obtain ⟨_, code, _, _, symbol, _, stands⟩ := h.grown.symbol_of_declares outer
  have nearest := (h.scoped.scope j i).mp scope
  have visited := h.visited outer.lt_size
  have reached := h.visited inner.lt_size
  have passed := h.grown.stopsBefore_of_around reached nearest.around
  obtain ⟨d, last⟩ : ∃ d, ((run.walkTo file t i).made file i).getLast? = some d :=
    ⟨_, List.getLast?_eq_some_getLast makes.1⟩
  obtain ⟨e, cached, alike⟩ := h.ofNode?_behind reached passed symbol (stands nearest.opens)
    (fun k other later known _ => h.grown.quiet_behind visited other later known) last
  exact ⟨e, cached, (makes.2 d (List.mem_of_getLast? last)).of_same alike⟩

/-- Every level of nesting below a declaration: the longname lists the declarations in between. -/
theorem Documents.registersInner_of_nests (h : run.Documents file t)
    {inner : List (NodeIndex × String)} (nests : t.Nests i inner) (outer : t.Declares i name)
    (makes : (run.walkTo file t i).Makes file i fun e => e.IsInner parent name)
    (whole : Whole (member parent '~' name)) {before after : List (NodeIndex × String)}
    {last : String} (split : inner = before ++ (j, last) :: after) :
    run.RegistersInner file t j
      (before.foldl (fun path f => member path '~' f.2) (member parent '~' name)) last := by
  induction nests generalizing before parent name with
  | nil => simp at split
  | @cons s i own inner scope declares deeper ih =>
    obtain ⟨d, cached, around⟩ := h.cached_inner outer makes declares.declares scope
    have registers := h.registersInner declares scope cached (around.longname ▸ whole)
    rw [around.longname] at registers
    cases before with
    | nil =>
      obtain ⟨⟨rfl, rfl⟩, rfl⟩ := by simpa using split
      exact registers
    | cons first before =>
      obtain ⟨rfl, deep⟩ := List.cons.inj split
      exact ih declares.declares registers.makes (whole.join rfl declares.segment.path) deep

/-- A declaration in a function that has a doclet with a plain longname is an inner member of that;
so the longname of what is nested deeper lists the declarations in between, to any depth. -/
theorem inner_of_function (h : run.Documents file t) (declares : t.DeclaresPlainly i name)
    (scope : t.scope (some i) = some s)
    (cached : (run.walkTo file t i).registry.ofNode? t (some s) = some d)
    (segments : Segments d.longname) :
    run.RegistersInner file t i d.longname name ∧
      ∀ inner, t.Nests i inner → ∀ before j last after, inner = before ++ (j, last) :: after →
        run.RegistersInner file t j
          (before.foldl (fun path f => member path '~' f.2) (member d.longname '~' name)) last := by
  have registers := h.registersInner declares scope cached segments.whole
  have whole := segments.whole.join (c := '~') rfl declares.segment.path
  exact ⟨registers, fun inner nests before j last after split =>
    h.registersInner_of_nests nests declares.declares registers.makes whole split⟩

end Run

/-! ### Functions in a module -/

namespace NestedFunctions

open ExportedClass (identifier node)

def block (body : List Json.Value) : Json.Value := node "BlockStatement" [("body", .arr body)]

def declaration (name : String) (body : List Json.Value) : Json.Value :=
  node "FunctionDeclaration" [("id", identifier name), ("params", .arr []), ("body", block body)]

/-- `function f() { function g() { function h() {} } } (function () { var x; });`, in the module
`m`. -/
def unit : Json.Value :=
  let inner := declaration "f" [declaration "g" [declaration "h" []]]
  let anonymous := node "FunctionExpression" [("params", .arr []),
    ("body", block [node "VariableDeclaration" [("kind", .str "var"),
      ("declarations", .arr [node "VariableDeclarator" [("id", identifier "x")]])]])]
  node "Program" [
    ("comments", .arr [node "Block" [("value", .str "* @module m ")]]),
    ("body", .arr [inner, node "ExpressionStatement" [("expression", anonymous)]])]

def tree : Tree :=
  match Estree.ofValue "nested.js" unit with
  | .ok t => t
  | .error _ => ⟨"", 0, #[], none, #[]⟩

def run : Run (Option String) := .start .estree .documenting none

theorem documents : run.Documents "nested.js" tree where
  asked := ⟨.estree, .documenting, none, [], rfl⟩
  watchers := rfl
  read := ⟨unit, tree, rfl, rfl⟩

theorem declaresPlainly {i : NodeIndex} {name : String} (declares : tree.Declares i name)
    (word : Longname.Word name) (other : name ≠ "this" ∧ name ≠ "exports")
    (plain : tree.docText i = "") : tree.DeclaresPlainly i name where
  declares := declares
  segment := word.segment
  not_this := other.1
  not_exports := other.2
  unplaced part listed origin :=
    (ExportedClass.untagged part (plain ▸ listed) origin).1.unplaced

theorem cached_of_longname (i s : NodeIndex) (longname : String)
    (known : ((run.walkTo "nested.js" tree i).registry.ofNode? tree (some s)).map
      Doclet.longname = some longname) : ∃ d,
      (run.walkTo "nested.js" tree i).registry.ofNode? tree (some s) = some d ∧
        d.longname = longname :=
  Option.map_eq_some_iff.mp known

/-- Two levels in a function of the module, and one in a function without a name. -/
theorem inner_of_function_nested :
    run.RegistersInner "nested.js" tree 6 "module:m~f" "g" ∧
    run.RegistersInner "nested.js" tree 4 "module:m~f~g" "h" ∧
    run.RegistersInner "nested.js" tree 10 "<anonymous>" "x" := by
  have g : tree.DeclaresPlainly 6 "g" := declaresPlainly (.function rfl rfl rfl)
    (by decide +kernel) (by decide) (by decide +kernel)
  have h : tree.DeclaresPlainly 4 "h" := declaresPlainly (.function rfl rfl rfl)
    (by decide +kernel) (by decide) (by decide +kernel)
  have x : tree.DeclaresPlainly 10 "x" := declaresPlainly (.declarator rfl rfl)
    (by decide +kernel) (by decide) (by decide +kernel)
  have word {name : String} (holds : Longname.Word name) : Longname.Segment name := holds.segment
  have inModule : Segments "module:m~f" := by
    rw [show "module:m~f" = member (Longname.moduleMark ++ "m") '~' "f" by decide]
    exact .join (.module (word (by decide +kernel))) rfl (word (by decide +kernel))
  have unnamed : Segments "<anonymous>" :=
    .one (ExportedClass.segment "<anonymous>" (by decide) (by decide) (by decide)) (by decide)
  obtain ⟨d, cached, longname⟩ := cached_of_longname 6 8 "module:m~f" (by decide +kernel)
  obtain ⟨e, known, anonymous⟩ := cached_of_longname 10 13 "<anonymous>" (by decide +kernel)
  obtain ⟨outer, deeper⟩ := Run.inner_of_function documents g rfl cached (longname ▸ inModule)
  have inner := deeper [(4, "h")] (.cons rfl h .nil) [] 4 "h" [] rfl
  obtain ⟨bound, _⟩ := Run.inner_of_function documents x rfl known (anonymous ▸ unnamed)
  rw [longname] at outer inner
  rw [anonymous] at bound
  rw [List.foldl_nil, show member "module:m~f" '~' "g" = "module:m~f~g" by decide] at inner
  exact ⟨outer, inner, bound⟩

end NestedFunctions

end Doclets
