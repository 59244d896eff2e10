import Doclets.Proofs.Pipeline.Documenting
import Doclets.Proofs.Pipeline.MethodPlaces
import Doclets.Proofs.Registry.Owners
import Doclets.Proofs.Tree.ClassBody
import Doclets.Proofs.Tree.Order

/-!
The members of a class in a run that only documents. Fields, methods, the constructor and what it
puts on `this` find their longnames in four ways; each is told here by the place that the code of
the class leads to.
-/

namespace Doclets

open Longname (EndsIn Segment Whole member)

namespace Tree

variable {t : Tree} {f i : NodeIndex}

/-- Only the method that a function is the value of makes doclets for it. -/
theorem Grown.quiet_of_anonymous (h : t.Grown) (anonymous : t.IsAnonymous f)
    (value : f ∈ t.childrenOf i) {j : NodeIndex} (other : j ≠ i) {known : Prop}
    (holds : known) : Watchers.Quiet t f known (.node j) := by
  intro code symbol here
  rcases h.node_of_symbol symbol here with rfl | child
  · exact ⟨symbol_of_anonymous anonymous symbol, holds⟩
  · exact absurd (h.unique j i f child value) other

end Tree

/-! ### Members -/

namespace Walk

open Documenter (constructorPlace? longnameAt methodPlace? parentAt placement? reserved?)

variable {walk : Walk (Option String)} {file : String} {c i f : NodeIndex} {d : Doclet}
  {key : String} {place : Option Placement}

/-- What handlers may ask for at a stop. -/
def context (walk : Walk (Option String)) : Context := ⟨walk.registry, walk.tree⟩

/-- A walk at a member of a documented class, where no tag says what the member is. -/
structure AtMember (walk : Walk (Option String)) (c i : NodeIndex) (d : Doclet) : Prop where
  inside : walk.tree.InClass c i
  cached : walk.registry.ofNode? walk.tree (some c) = some d
  isClass : d.kind = some .class
  whole : Whole d.longname
  untagged : ∀ part ∈ Comment.parts (walk.tree.docText i), ∀ origin,
    (Doclet.ofComment part origin).Untagged

/-- The doclets that are made of the symbol at a node: there are some, and all are so. -/
def Makes (walk : Walk (Option String)) (file : String) (i : NodeIndex) (P : Doclet → Prop) :
    Prop :=
  walk.made file i ≠ [] ∧ ∀ d ∈ walk.made file i, P d

theorem Makes.imp {P Q : Doclet → Prop} (made : walk.Makes file i P) (weaker : ∀ d, P d → Q d) :
    walk.Makes file i Q :=
  ⟨made.1, fun d listed => weaker d (made.2 d listed)⟩

/-- There are some doclets, so they agree on one value at most. -/
theorem Makes.eq_iff {α : Type} {value : Doclet → α} {u v : α}
    (made : walk.Makes file i fun d => value d = u) :
    (walk.Makes file i fun d => value d = v) ↔ u = v := by
  constructor
  · intro also
    obtain ⟨d, listed⟩ := List.exists_mem_of_ne_nil _ made.1
    exact (made.2 d listed).symm.trans (also.2 d listed)
  · rintro rfl
    exact made

/-- The checkpoint of a symbol that binds no name. -/
theorem exists_made {kind : NodeKind} {code : Symbol} (known : walk.tree.kind? (some i) = some kind)
    (unbound : kind.isAssignment = false)
    (symbol : Symbol.ofNode? walk.tree (some i) = some code) (file : String) :
    ∃ event : SymbolFound,
      walk.made file i = Documenter.ofSymbol walk.context walk.state event ∧
        event.comment = walk.tree.docText i ∧ event.node = i ∧ event.code = code := by
  obtain ⟨n, stored, rfl⟩ := Option.map_eq_some_iff.mp known
  have prepared : (Watchers.prepare walk.tree (some i) n.kind code walk.registry).1 = code ∧
      (Watchers.prepare walk.tree (some i) n.kind code walk.registry).2.2 = walk.registry := by
    unfold Watchers.prepare
    split
    next kind =>
      rw [kind] at unbound
      cases unbound
    next kind =>
      rw [kind] at unbound
      cases unbound
    all_goals exact ⟨rfl, rfl⟩
  refine ⟨⟨walk.tree.docText i, file, n.position.line, n.position.column, i, code, []⟩,
    ?_, rfl, rfl, rfl⟩
  rw [made_of_symbol (Watchers.symbolAt?_of_symbol stored symbol file walk.registry), prepared.1,
    prepared.2]
  rfl

/-- A class field is an instance member of its class, unless it is called like the exports. -/
theorem makes_of_field (h : walk.tree.Grown) (here : walk.AtMember c i d)
    (isField : walk.tree.IsField i key) (exported : key = "exports" → walk.state = none) :
    walk.Makes file i fun e =>
      e.longname = member d.longname '#' key ∧ e.memberof = some d.longname := by
  obtain ⟨⟨name, value, isStatic, computed, payload, rfl⟩, segment, outside⟩ := isField
  obtain ⟨⟨kind, known, field⟩, symbol⟩ := h.symbol_of_field payload
  have unbound : kind.isAssignment = false := by
    rcases field with rfl | rfl <;> rfl
  have other : walk.tree.isKind (some i) .methodDefinition = false := by
    rw [Tree.isKind, known]
    rcases field with rfl | rfl <;> rfl
  have joins : Registry.joint? kind = some '#' := by
    rcases field with rfl | rfl <;> rfl
  have owner := walk.registry.owner_of_scoped known joins (h.scope_of_inClass here.inside)
    here.cached
  obtain ⟨event, made, text, rfl, code⟩ := exists_made known unbound symbol file
  have named : event.code.name = walk.tree.name name := by
    rw [code]
    unfold Symbol.ofInit
    split <;> rfl
  unfold Makes
  rw [made]
  refine Documenter.ofSymbol_joined (text ▸ here.untagged) segment ?_ ?_ owner here.whole rfl ?_
  · rw [named]
    exact segment.ne_empty
  · rw [named]
    exact Documenter.reserved?_of_segment segment outside exported
  · rw [show walk.context.tree = walk.tree from rfl, other]
    exact named

/-- What stands in the body of a class is not exported on its own. -/
theorem isNamedExport_of_inClass (inside : walk.tree.InClass c i)
    (known : walk.tree.kind? (some i) = some .methodDefinition) :
    Documenter.isNamedExport walk.tree (some i) = false := by
  obtain ⟨b, body, up, _⟩ := inside.inBody
  unfold Documenter.isNamedExport Tree.isKind
  rw [up, body, known]
  rfl

/-- A method is a member of what its place leads to. -/
theorem makes_of_method (h : walk.tree.Grown) (here : walk.AtMember c i d) {isStatic : Bool}
    (isMethod : walk.tree.IsMethod i isStatic key)
    (unknown : walk.registry.ofNode? walk.tree (walk.tree.parent (some i)) = none)
    (found : methodPlace? walk.context walk.state i isStatic (walk.tree.name (some i)) = place)
    (fits : ∀ p ∈ place, p.Fits key) :
    walk.Makes file i fun e => e.memberof = some (parentAt place (walk.tree.name (some i))) := by
  obtain ⟨⟨name, value, form, computed, other, payload, _⟩, segment, ends, longer⟩ := isMethod
  obtain ⟨known, symbol⟩ := h.symbol_of_method payload
  obtain ⟨event, made, text, rfl, code⟩ := exists_made known rfl symbol file
  have inside := isNamedExport_of_inClass here.inside known
  have around := h.scope_of_inClass here.inside
  have owner := walk.registry.owner_of_method known payload other around
  have isMethod : walk.tree.isKind (some event.node) .methodDefinition = true := by
    rw [Tree.isKind, known]
    rfl
  have path : event.code.name = walk.tree.name (some event.node) := by
    rw [code]
    rfl
  have undeclared : event.code.funcscope = none := by
    rw [code]
    rfl
  rw [← around] at owner
  rw [← path] at ends longer found ⊢
  unfold Makes
  rw [made]
  exact Documenter.memberof_method (text ▸ here.untagged) segment ends undeclared isMethod inside
    longer path.symm owner unknown found fits

/-- A constructor is what its place leads to, and a class. -/
theorem makes_of_constructor (h : walk.tree.Grown) (here : walk.AtMember c i d) {value : NodeRef}
    {last : String} (constructs : walk.tree.Constructs i value last)
    (found : constructorPlace? walk.context walk.state i (walk.tree.name (some i)) = place)
    (whole : ∀ p ∈ place, Whole p.parent) (fits : ∀ p ∈ place, p.path ≠ "" → p.Fits last) :
    walk.Makes file i fun e =>
      e.longname = longnameAt place (walk.tree.name (some i)) ∧ e.kind = some .class ∧
        ((∀ part ∈ Comment.parts (walk.tree.docText i), ∀ origin,
          (Doclet.ofComment part origin).thisName = none) → e.thisName = none) := by
  obtain ⟨⟨name, isStatic, computed, payload⟩, segment, ends, other⟩ := constructs
  obtain ⟨known, symbol⟩ := h.symbol_of_method payload
  obtain ⟨event, made, text, rfl, code⟩ := exists_made known rfl symbol file
  have inside := isNamedExport_of_inClass here.inside known
  have around := h.scope_of_inClass here.inside
  have owner : walk.registry.owner walk.tree (some event.node) =
      ⟨((walk.registry.ofNode? walk.tree (walk.tree.scope (some event.node))).bind
        Doclet.memberof).map (· ++ "~"), none⟩ := by
    rw [around, here.cached, walk.registry.owner_of_constructor known payload around here.cached]
    rfl
  have isMethod : walk.tree.isKind (some event.node) .methodDefinition = true := by
    rw [Tree.isKind, known]
    rfl
  have path : event.code.name = walk.tree.name (some event.node) := by
    rw [code]
    rfl
  have undeclared : event.code.funcscope = none := by
    rw [code]
    rfl
  have untold : event.code.docletKind = none := by
    rw [code]
    rfl
  have implied : event.code.impliedKind walk.tree event.node = .class := by
    unfold Symbol.impliedKind
    rw [payload]
  have untagged := here.untagged
  rw [← text] at untagged ⊢
  rw [← path] at ends found other ⊢
  unfold Makes
  rw [made]
  obtain ⟨filled, all⟩ := Documenter.longname_constructor untagged segment ends undeclared isMethod
    inside other owner found whole fits
  refine ⟨filled, fun e listed => ⟨all e listed, ?_⟩⟩
  obtain ⟨kind, plain⟩ := Documenter.nature_of_mem_ofSymbol untagged untold listed
  exact ⟨kind.trans (congrArg some implied), plain⟩

/-- What a constructor puts on `this` is an instance member of what the constructor documents. -/
theorem makes_of_assignsThis (h : walk.tree.Grown) (stored : walk.registry.Anchored)
    {a : NodeIndex} {e : Doclet} (assigns : walk.tree.AssignsThis f a key)
    (anonymous : walk.tree.IsAnonymous f)
    (cached : walk.registry.ofNode? walk.tree (some f) = some e) (isClass : e.kind = some .class)
    (plain : e.thisName = none) (whole : Whole e.longname)
    (untagged : ∀ part ∈ Comment.parts (walk.tree.docText a), ∀ origin,
      (Doclet.ofComment part origin).Untagged) :
    walk.Makes file a fun d =>
      d.longname = member e.longname '#' key ∧ d.memberof = some e.longname := by
  obtain ⟨scope, outside⟩ := h.scope_of_assigns anonymous assigns
  obtain ⟨⟨operator, left, right, payload, name⟩, segment, _⟩ := assigns
  obtain ⟨same, symbol⟩ := h.symbol_of_assignment payload
  obtain ⟨n, known, _⟩ := Option.map_eq_some_iff.mp same
  have found := Watchers.symbolAt?_of_symbol known symbol file walk.registry
  obtain ⟨event, followUps, r, found, text, node⟩ : ∃ event followUps r,
      Watchers.symbolAt? walk.tree file a walk.registry = some (event, followUps, r) ∧
        event.comment = walk.tree.docText a ∧ event.node = a := ⟨_, _, _, found, rfl, rfl⟩
  have kept := Watchers.retains_symbolAt? found
  have path := (Watchers.code_symbolAt? symbol found).1.trans name
  have made := made_of_symbol found
  -- noting the name that is assigned leaves the doclet of the constructor as it was
  obtain ⟨e', still, alike⟩ := kept.toRemembers.ofNode? stored (by rw [kept.byNode]) cached
  have this : r.this walk.tree (some a) = e.longname :=
    (r.this_of_class same (by simp) scope outside still (alike.kind.trans isClass)
      (alike.thisName.trans plain)).trans alike.longname
  have place : reserved? ⟨r, walk.tree⟩ walk.state (some event.node) event.code.name =
      some ⟨e.longname, some .perInstance, key⟩ := by
    unfold reserved?
    rw [path, Documenter.below?_this, node]
    dsimp only
    rw [this]
  have filled : event.code.name ≠ "" := by
    rw [path]
    simp
  rw [← text] at untagged
  obtain ⟨some_, all⟩ := Documenter.ofSymbol_reserved untagged segment filled place
    segment.ne_empty ⟨whole, fun other => absurd rfl other, .alone⟩
  unfold Makes
  rw [made]
  refine ⟨some_, fun d listed => ?_⟩
  obtain ⟨longname, memberof⟩ := all d listed
  rw [longname, memberof, longnameAt, if_neg segment.ne_empty, parentAt]
  have joined : e.longname ++ Scope.perInstance.punctuation ++ key = member e.longname '#' key := rfl
  rw [joined, Longname.shorten_member whole.toPath rfl segment]
  exact ⟨joined, rfl⟩

end Walk

end Doclets
