import Doclets.Registry.Scopes

/-!
The owners of what a scope declares, of what stands in the body of a class and of what is named by a
path, and what `this` is in a function that documents a class.
-/

namespace Doclets

/-- A node of this kind, with its links. -/
theorem Tree.exists_node {t : Tree} {i : NodeIndex} {kind : NodeKind}
    (known : t.kind? (some i) = some kind) :
    ∃ n, t.node? (some i) = some n ∧ n.kind = kind ∧ n.scope = t.scope (some i) ∧
      n.parent = t.parent (some i) := by
  obtain ⟨n, stored, same⟩ := Option.map_eq_some_iff.mp known
  refine ⟨n, stored, same, ?_, ?_⟩
  · rw [scope, stored]
    rfl
  · rw [parent, stored]
    rfl

namespace Registry

variable {r : Registry} {t : Tree} {c i : NodeIndex} {d : Doclet}

/-- What is a member of the scope around it, whatever it is called, is joined to it by this. -/
def joint? : NodeKind → Option Char
  | .functionDeclaration | .functionExpression | .arrowFunctionExpression
  | .variableDeclarator => some '~'
  | .classProperty | .classPrivateProperty => some '#'
  | _ => none

/-- Functions, variables and fields are owned by the scope around them, where that has a doclet. -/
theorem owner_of_scoped {kind : NodeKind} {mark : Char} (known : t.kind? (some i) = some kind)
    (joins : joint? kind = some mark) (scope : t.scope (some i) = some c)
    (cached : r.ofNode? t (some c) = some d) :
    r.owner t (some i) = .parent (d.longname ++ String.singleton mark) := by
  obtain ⟨n, stored, rfl, around, _⟩ := Tree.exists_node known
  rw [scope] at around
  have member (punctuation : String) : r.memberOfScope t n.scope punctuation =
      .parent (d.longname ++ punctuation) := by
    rw [around, memberOfScope, cached]
  have inside : n.scope.isSome = true := by
    rw [around]
    rfl
  unfold owner
  rw [stored]
  dsimp only
  unfold joint? at joins
  split at joins <;> cases joins
  all_goals
    next same =>
      rw [same]
      exact (if_pos inside).trans (member _)

/-- A constructor is an inner member of what owns its class. -/
theorem owner_of_constructor {key value : NodeRef} {isStatic computed : Bool}
    (kind : t.kind? (some i) = some .methodDefinition)
    (payload : t.payload? (some i) =
      some (.methodDefinition key value .constructor isStatic computed))
    (scope : t.scope (some i) = some c) (cached : r.ofNode? t (some c) = some d) :
    r.owner t (some i) = ⟨d.memberof.map (· ++ "~"), none⟩ := by
  obtain ⟨n, stored, same, around, _⟩ := Tree.exists_node kind
  rw [scope] at around
  have constructor : t.isConstructor (some i) = true := by
    rw [Tree.isConstructor, payload]
  unfold owner
  rw [stored]
  dsimp only
  rw [same]
  dsimp only
  rw [if_pos constructor, around, ownerOfConstructor, cached]
  rfl

/-- Any other method is owned by what its path begins with, unless an arrow function returns its
class. -/
theorem owner_of_method {key value : NodeRef} {form : MethodKind} {isStatic computed : Bool}
    (kind : t.kind? (some i) = some .methodDefinition)
    (payload : t.payload? (some i) = some (.methodDefinition key value form isStatic computed))
    (other : form ≠ .constructor) (scope : t.scope (some i) = some c) :
    r.owner t (some i) = if t.isFactoryMethod (some i) then
        r.ownerOfFactoryMethod t (some c) isStatic
      else r.ownerByName t (some i) (t.parent (some i)) := by
  obtain ⟨n, stored, same, around, parent⟩ := Tree.exists_node kind
  rw [scope] at around
  have shape : n.payload = .methodDefinition key value form isStatic computed := by
    rw [Tree.payload?, stored] at payload
    exact Option.some.inj payload
  have constructor : t.isConstructor (some i) = false := by
    rw [Tree.isConstructor, payload]
    cases form <;> first | rfl | exact absurd rfl other
  unfold owner
  rw [stored]
  dsimp only
  rw [same]
  dsimp only
  rw [constructor, if_neg Bool.false_ne_true, around, parent, shape]

/-- Properties and assignments are owned by what their names begin with. -/
theorem owner_of_named {kind : NodeKind} (known : t.kind? (some i) = some kind)
    (named : kind = .property ∨ kind = .assignmentExpression) :
    r.owner t (some i) = r.ownerByName t (some i) (t.parent (some i)) := by
  obtain ⟨n, stored, same, _, parent⟩ := Tree.exists_node known
  unfold owner
  rw [stored]
  dsimp only
  rw [same, parent]
  rcases named with rfl | rfl <;> rfl

/-- Directly inside a function that is documented as a class, `this` is the class. -/
theorem this_of_class {f : NodeIndex} {kind : NodeKind} (known : t.kind? (some i) = some kind)
    (other : kind ≠ .property) (scope : t.scope (some i) = some f)
    (inside : t.isConstructor (t.parent (some i)) = false)
    (cached : r.ofNode? t (some f) = some d) (isClass : d.kind = some .class)
    (plain : d.thisName = none) : r.this t (some i) = d.longname := by
  obtain ⟨n, stored, rfl, around, parent⟩ := Tree.exists_node known
  rw [scope] at around
  have asked : thisNode t n = some f := by
    rw [thisNode, parent, inside, if_neg Bool.false_ne_true]
    exact around
  have answer : r.thisIn? t (some i) n.kind d = some d.longname := by
    unfold thisIn?
    rw [plain, isClass]
  unfold this
  rw [thisWithin, stored]
  dsimp only
  rw [if_neg other, around, if_neg (by simp), asked, cached]
  dsimp only
  rw [answer]

end Registry

end Doclets
