import Doclets.Pipeline.Walk

/-!
What is read off a tree is read off its nodes: names, values and symbols are the same for the same
nodes, whatever the comments. So nothing but the identities of its nodes depends on the number of a
unit: whatever is read off a tree is the same for the same tree in another place among the units.
-/

namespace Doclets

/-- The tree as the unit of another number. -/
def Tree.inUnit (t : Tree) (u : Nat) : Tree := { t with unit := u }

namespace Tree

/-! ### Trees of the same nodes -/

section

variable {s t : Tree} (same : s.nodes = t.nodes) (r : NodeRef)

include same

theorem nameWithin_of_nodes (fuel : Nat) : s.nameWithin fuel r = t.nameWithin fuel r := by
  obtain ⟨_, _, nodes, _, _⟩ := s
  obtain rfl : nodes = t.nodes := same
  induction fuel generalizing r with
  | zero => rfl
  | succ fuel ih =>
    unfold nameWithin
    simp only [ih]
    rfl

theorem name_of_nodes : s.name r = t.name r := by
  unfold name
  rw [same, nameWithin_of_nodes same]

theorem payload?_of_nodes : s.payload? r = t.payload? r := by
  unfold payload? node?
  rw [same]

theorem kind?_of_nodes : s.kind? r = t.kind? r := by
  unfold kind? node?
  rw [same]

theorem value?_of_nodes : s.value? r = t.value? r := by
  simp only [value?, name_of_nodes same, payload?_of_nodes same]

theorem paramNames_of_nodes : s.paramNames r = t.paramNames r := by
  have names : s.name = t.name := funext (name_of_nodes same)
  simp only [paramNames, names, payload?_of_nodes same]

theorem ofNode?_of_nodes : Symbol.ofNode? s r = Symbol.ofNode? t r := by
  have values : Symbol.ofValue s = Symbol.ofValue t := by
    funext name node
    simp only [Symbol.ofValue, value?_of_nodes same, paramNames_of_nodes same, kind?_of_nodes same]
  have constant : Symbol.isConstant s = Symbol.isConstant t := by
    funext declaration
    simp only [Symbol.isConstant, payload?_of_nodes same]
  have stored : s.node? r = t.node? r := by
    unfold node?
    rw [same]
  unfold Symbol.ofNode? Symbol.ofInit Symbol.ofSelf
  simp only [values, name_of_nodes same, constant, stored]

end

/-! ### The number of a unit -/

variable (t : Tree) (u : Nat) (r : NodeRef)

@[simp] theorem nodes_inUnit : (t.inUnit u).nodes = t.nodes := rfl

@[simp] theorem comments_inUnit : (t.inUnit u).comments = t.comments := rfl

@[simp] theorem nodeId_inUnit : (t.inUnit u).nodeId r = ⟨u, r⟩ := rfl

@[simp] theorem node?_inUnit : (t.inUnit u).node? r = t.node? r := rfl

@[simp] theorem kind?_inUnit : (t.inUnit u).kind? r = t.kind? r := rfl

@[simp] theorem isKind_inUnit (kind : NodeKind) : (t.inUnit u).isKind r kind = t.isKind r kind :=
  rfl

@[simp] theorem payload?_inUnit : (t.inUnit u).payload? r = t.payload? r := rfl

@[simp] theorem parent_inUnit : (t.inUnit u).parent r = t.parent r := rfl

@[simp] theorem scope_inUnit : (t.inUnit u).scope r = t.scope r := rfl

@[simp] theorem isConstructor_inUnit : (t.inUnit u).isConstructor r = t.isConstructor r := rfl

@[simp] theorem isFactoryMethod_inUnit : (t.inUnit u).isFactoryMethod r = t.isFactoryMethod r :=
  rfl

/-! ### Names -/

@[simp] theorem name_inUnit : (t.inUnit u).name r = t.name r :=
  name_of_nodes (t.nodes_inUnit u) r

/-! ### Scopes -/

@[simp] theorem scopesAround_inUnit (limit : Nat) :
    (t.inUnit u).scopesAround limit r = t.scopesAround limit r := by
  induction limit generalizing r with
  | zero => rfl
  | succ limit ih => simp only [scopesAround, ih, scope_inUnit]

@[simp] theorem scopesWithinDeclaration_inUnit (limit : Nat) :
    (t.inUnit u).scopesWithinDeclaration limit r = t.scopesWithinDeclaration limit r := by
  induction limit generalizing r with
  | zero => rfl
  | succ limit ih => simp only [scopesWithinDeclaration, ih, scope_inUnit, isKind_inUnit]

@[simp] theorem assignmentsAround_inUnit (limit : Nat) :
    (t.inUnit u).assignmentsAround limit r = t.assignmentsAround limit r := by
  induction limit generalizing r with
  | zero => rfl
  | succ limit ih =>
    cases r with
    | none => rfl
    | some i => simp only [assignmentsAround, ih, parent_inUnit, isKind_inUnit]

/-! ### Symbols and stops -/

@[simp] theorem doc?_inUnit : (t.inUnit u).doc? r = t.doc? r := rfl

@[simp] theorem ofNode?_inUnit : Symbol.ofNode? (t.inUnit u) r = Symbol.ofNode? t r :=
  ofNode?_of_nodes (t.nodes_inUnit u) r

@[simp] theorem visit_inUnit (levels : Nat) (i : NodeIndex) (rest : List NodeIndex) :
    (t.inUnit u).visit levels i rest = t.visit levels i rest := by
  induction levels generalizing i rest with
  | zero => rfl
  | succ levels ih =>
    have same : (t.inUnit u).visit levels = t.visit levels := by
      funext i rest
      exact ih i rest
    unfold visit
    rw [same]
    rfl

@[simp] theorem stops_inUnit : (t.inUnit u).stops = t.stops := by
  have order : (t.inUnit u).preorder = t.preorder := by
    simp only [preorder, visit_inUnit]
    rfl
  unfold stops
  rw [order]
  rfl

end Tree

end Doclets
