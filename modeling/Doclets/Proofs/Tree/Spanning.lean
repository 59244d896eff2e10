import Doclets.Proofs.Tree.Shape
import Mathlib.Logic.Function.Iterate

/-!
Linking any table. Whatever its nodes list, themselves, each other or nothing that is there, linking
comes to an end, and the links that it leaves span what can be reached from the root: each node is
linked to one that lists it, the parents lead up to the root, and its scope is the first function or
class that they pass.
-/

namespace Doclets.Tree

variable {t : Tree} {root i p s : NodeIndex} {found last : Links} {stack : List NodeIndex}

/-! ### Until the stack is empty -/

/-- The links and the stack after a node was taken off it and its children got theirs. -/
def linkBelow (t : Tree) (found : Links) (i : NodeIndex) (stack : List NodeIndex) :
    Links × List NodeIndex :=
  (t.childrenOf i).foldl
    (linkChild ⟨some i, t.scopeBelow i ((found.link? i).bind Link.scope)⟩) (found, stack)

/-- Linking that goes on from these links until the stack is empty comes to an end, with the links
`last`. Nothing bounds the number of its steps. -/
inductive Settles (t : Tree) : Links → List NodeIndex → Links → Prop
  | done (found : Links) : t.Settles found [] found
  | next {found last : Links} {i : NodeIndex} {stack : List NodeIndex}
    (rest : t.Settles (t.linkBelow found i stack).1 (t.linkBelow found i stack).2 last) :
    t.Settles found (i :: stack) last

theorem linkFrom_succ (fuel : Nat) (found : Links) (i : NodeIndex) (stack : List NodeIndex) :
    t.linkFrom (fuel + 1) found (i :: stack) =
      t.linkFrom fuel (t.linkBelow found i stack).1 (t.linkBelow found i stack).2 := by
  rw [linkFrom]
  unfold linkBelow Links.link?
  cases found[i]? with
  | none => rfl
  | some entry => cases entry <;> rfl

/-- With as much fuel as nodes wait for a link or for their children's, linking comes to an end. -/
theorem Linking.settles (fuel : Nat) (h : Linking t root found stack)
    (enough : found.waiting + stack.length ≤ fuel) :
    t.Settles found stack (t.linkFrom fuel found stack) := by
  induction fuel generalizing found stack with
  | zero =>
    obtain rfl : stack = [] := List.eq_nil_of_length_eq_zero (by omega)
    exact .done found
  | succ fuel ih =>
    cases stack with
    | nil => exact .done found
    | cons i stack =>
      obtain ⟨above, link⟩ := Option.isSome_iff_exists.mp (h.stacked i List.mem_cons_self)
      have linked := linksChildren_foldl
        ⟨some i, t.scopeBelow i ((found.link? i).bind Link.scope)⟩ (t.childrenOf i) (found, stack)
      have count := linked.waiting
      rw [linkFrom_succ]
      refine .next (ih ?_ ?_)
      · rw [link] at linked
        have stepped := h.step link linked
        unfold linkBelow
        rwa [link]
      · unfold linkBelow
        simp only [List.length_cons] at enough count
        omega

/-! ### What can be reached -/

/-- One node of the table lists another. -/
def Lists (t : Tree) (p child : NodeIndex) : Prop := child ∈ t.childrenOf p ∧ child < t.nodes.size

/-- The root, if it is in the table, and the nodes that can be reached from it. -/
def Reached (t : Tree) (i : NodeIndex) : Prop :=
  ∃ root, t.root = some root ∧ root < t.nodes.size ∧ Relation.ReflTransGen t.Lists root i

theorem reached_root (start : t.root = some root) (bound : root < t.nodes.size) : t.Reached root :=
  ⟨root, start, bound, .refl⟩

theorem Reached.below (h : t.Reached p) (listed : t.Lists p i) : t.Reached i := by
  obtain ⟨root, start, bound, path⟩ := h
  exact ⟨root, start, bound, path.tail listed⟩

theorem Linking.lt_size {link : Link} (h : Linking t root found stack)
    (linked : found.link? i = some link) : i < t.nodes.size := by
  have entry : found[i]? = some (some link) := Option.join_eq_some_iff.mp linked
  exact h.size ▸ (Array.getElem?_eq_some_iff.mp entry).1

/-- In the end the nodes that can be reached are linked. -/
theorem Linking.isSome_of_reached (h : Linking t root found []) (start : t.root = some root)
    (reached : t.Reached i) : (found.link? i).isSome := by
  obtain ⟨top, same, _, path⟩ := reached
  obtain rfl := Option.some.inj (start.symm.trans same)
  induction path with
  | refl => exact Option.isSome_of_eq_some h.begun
  | tail _ listed ih =>
    obtain ⟨link, linked⟩ := Option.isSome_iff_exists.mp ih
    exact h.closed _ link linked (by simp) _ listed.1 listed.2

/-- Only nodes that can be reached are linked: the parents lead up to the root, and each of them
lists the node that it is the parent of. -/
theorem Linking.reached_of_isSome (h : Linking t root found []) (start : t.root = some root)
    (bound : root < t.nodes.size) (linked : (found.link? i).isSome) : t.Reached i := by
  induction h.leads i linked with
  | top => exact reached_root start bound
  | @up i p link here above rest ih =>
    by_cases top : i = root
    · exact top ▸ reached_root start bound
    · obtain ⟨q, upper, there, listed, rfl⟩ := h.justified i link here top
      obtain rfl : q = p := Option.some.inj above
      exact (ih (Option.isSome_of_eq_some there)).below ⟨listed, h.lt_size here⟩

/-! ### Along the parents -/

/-- The node that so many steps from parent to parent lead to. -/
def ancestor (t : Tree) (steps : Nat) (i : NodeIndex) : NodeRef := t.parent^[steps] (some i)

/-- The first node above another that is a function or a class, from parent to parent. -/
def ScopeAbove (t : Tree) (s i : NodeIndex) : Prop :=
  ∃ steps, t.ancestor (steps + 1) i = some s ∧ t.OpensScope s ∧
    ∀ fewer < steps, ∀ a, t.ancestor (fewer + 1) i = some a → ¬ t.OpensScope a

theorem ancestor_succ (above : t.parent (some i) = some p) (steps : Nat) :
    t.ancestor (steps + 1) i = t.ancestor steps p := by
  rw [ancestor, Function.iterate_succ_apply, above, ancestor]

theorem ancestor_of_outermost (outermost : t.parent (some i) = none) (steps : Nat) :
    t.ancestor (steps + 1) i = none := by
  have stays : t.parent none = none := rfl
  rw [ancestor, Function.iterate_succ_apply, outermost, Function.iterate_fixed stays]

theorem scopeAbove_of_opens (above : t.parent (some i) = some p) (opens : t.OpensScope p) :
    t.ScopeAbove s i ↔ s = p := by
  have first : t.ancestor 1 i = some p := ancestor_succ above 0
  constructor
  · rintro ⟨steps, there, _, between⟩
    cases steps with
    | zero => exact Option.some.inj (there.symm.trans first)
    | succ steps => exact absurd opens (between 0 (Nat.succ_pos steps) p first)
  · rintro rfl
    exact ⟨0, first, opens, nofun⟩

theorem scopeAbove_of_not_opens (above : t.parent (some i) = some p) (plain : ¬ t.OpensScope p) :
    t.ScopeAbove s i ↔ t.ScopeAbove s p := by
  have first : t.ancestor 1 i = some p := ancestor_succ above 0
  constructor
  · rintro ⟨steps, there, opens, between⟩
    cases steps with
    | zero =>
      obtain rfl := Option.some.inj (there.symm.trans first)
      exact absurd opens plain
    | succ steps =>
      refine ⟨steps, (ancestor_succ above _).symm.trans there, opens, fun fewer less a here => ?_⟩
      exact between (fewer + 1) (Nat.succ_lt_succ less) a ((ancestor_succ above _).trans here)
  · rintro ⟨steps, there, opens, between⟩
    refine ⟨steps + 1, (ancestor_succ above _).trans there, opens, fun fewer less a here => ?_⟩
    cases fewer with
    | zero =>
      obtain rfl := Option.some.inj (here.symm.trans first)
      exact plain
    | succ fewer =>
      exact between fewer (Nat.lt_of_succ_lt_succ less) a ((ancestor_succ above _).symm.trans here)

/-! ### The links of a table -/

/-- The links of `u` span what can be reached in `t`, and `u` is `t` in all else. -/
structure Spans (t u : Tree) : Prop where
  /-- Linking comes to an end by itself, and leaves the links that it found. -/
  ends : ∀ root, t.root = some root → root < t.nodes.size → ∃ found,
    t.Settles (t.startLinks root) [root] found ∧
      ∀ i, u.nodes[i]? = (t.nodes[i]?).map (found.give i)
  top : ∀ root, t.root = some root → root < t.nodes.size →
    u.parent (some root) = none ∧ u.scope (some root) = none
  parent : ∀ i, t.Reached i → t.root ≠ some i →
    ∃ p, u.parent (some i) = some p ∧ i ∈ u.childrenOf p
  upward : ∀ i, t.Reached i → ∃ steps, u.ancestor steps i = u.root
  scope : ∀ i s, t.Reached i → (u.scope (some i) = some s ↔ u.ScopeAbove s i)
  unscoped : ∀ i, t.Reached i → (u.scope (some i) = none ↔ ∀ s, ¬ u.ScopeAbove s i)
  unreached : ∀ i, ¬ t.Reached i → u.nodes[i]? = t.nodes[i]?
  shape : SameShape t.nodes u.nodes
  rest : u = { t with nodes := u.nodes }

theorem link_of_rootless (t : Tree)
    (rootless : ∀ root, t.root = some root → ¬ root < t.nodes.size) : t.link = t := by
  unfold link
  split
  next => rfl
  next root start => rw [if_neg (rootless root start)]

section

variable (h : Linking t root found [])
  (nodes : ∀ i, t.link.nodes[i]? = (t.nodes[i]?).map (found.give i))

include h nodes

/-- A node that was linked has the link that was found for it. -/
theorem Linking.links {link : Link} (linked : found.link? i = some link) :
    t.link.parent (some i) = link.parent ∧ t.link.scope (some i) = link.scope := by
  have stored := Array.getElem?_eq_getElem (h.lt_size linked)
  rw [Tree.parent, Tree.scope, show t.link.node? (some i) = _ from nodes i, stored,
    Option.map_some, Links.give, linked]
  exact ⟨rfl, rfl⟩

/-- A node below the root has a parent that lists it and was linked before, and lies in the scope
that this one opens or lies in. -/
theorem Linking.linked_below (linked : (found.link? i).isSome) (other : i ≠ root) :
    ∃ p, (found.link? p).isSome ∧ i ∈ t.link.childrenOf p ∧ t.link.parent (some i) = some p ∧
      t.link.scope (some i) = t.link.scopeBelow p (t.link.scope (some p)) := by
  obtain ⟨link, here⟩ := Option.isSome_iff_exists.mp linked
  obtain ⟨p, above, there, listed, rfl⟩ := h.justified i link here other
  obtain ⟨parent, scope⟩ := h.links nodes here
  refine ⟨p, Option.isSome_of_eq_some there, ?_, parent, ?_⟩
  · rwa [t.sameShape_link.childrenOf]
  · rw [scope, t.sameShape_link.scopeBelow, (h.links nodes there).2]

theorem Linking.exists_ancestor (linked : (found.link? i).isSome) :
    ∃ steps, t.link.ancestor steps i = some root := by
  induction h.leads i linked with
  | top => exact ⟨0, rfl⟩
  | @up i p link here above rest ih =>
    by_cases top : i = root
    · exact ⟨0, congrArg some top⟩
    · obtain ⟨q, there, _, parent, _⟩ := h.linked_below nodes linked top
      obtain rfl : q = p := by
        rw [(h.links nodes here).1, above] at parent
        exact (Option.some.inj parent).symm
      obtain ⟨steps, leads⟩ := ih there
      exact ⟨steps + 1, (ancestor_succ parent steps).trans leads⟩

theorem Linking.scope_iff (linked : (found.link? i).isSome) (s : NodeIndex) :
    t.link.scope (some i) = some s ↔ t.link.ScopeAbove s i := by
  -- the parents lead up to the root in finitely many steps, and each step up is one case
  obtain ⟨steps, leads⟩ := h.exists_ancestor nodes linked
  induction steps generalizing i with
  | zero =>
    obtain rfl : i = root := Option.some.inj leads
    obtain ⟨parent, scope⟩ := h.links nodes h.begun
    refine iff_of_false (by rw [scope]; nofun) fun ⟨steps, there, _⟩ => ?_
    rw [ancestor_of_outermost parent] at there
    cases there
  | succ steps ih =>
    have inner : i ≠ root := by
      rintro rfl
      rw [ancestor_of_outermost (h.links nodes h.begun).1] at leads
      cases leads
    obtain ⟨p, there, _, parent, scope⟩ := h.linked_below nodes linked inner
    have above := ih there ((ancestor_succ parent steps).symm.trans leads)
    rw [scope, scopeBelow_eq]
    by_cases opens : t.link.OpensScope p
    · have ⟨kind, known, does⟩ := opens
      rw [scopeAbove_of_opens parent opens, known, Option.any_some, if_pos does,
        Option.some.injEq, eq_comm]
    · rw [scopeAbove_of_not_opens parent opens, if_neg, above]
      intro does
      exact opens ((Option.any_eq_true _ _).mp does)

end

/-- A linking from a root that has come to its end spans what can be reached from there. -/
theorem Linking.spans (h : Linking t root found []) (start : t.root = some root)
    (bound : root < t.nodes.size) (settles : t.Settles (t.startLinks root) [root] found)
    (nodes : ∀ i, t.link.nodes[i]? = (t.nodes[i]?).map (found.give i)) : t.Spans t.link where
  ends top same _ := by
    obtain rfl : top = root := Option.some.inj (same.symm.trans start)
    exact ⟨found, settles, nodes⟩
  top top same _ := by
    obtain rfl : top = root := Option.some.inj (same.symm.trans start)
    exact h.links nodes h.begun
  parent i reached other := by
    have inner : i ≠ root := fun same => other (start.trans (congrArg some same.symm))
    obtain ⟨p, _, listed, parent, _⟩ :=
      h.linked_below nodes (h.isSome_of_reached start reached) inner
    exact ⟨p, parent, listed⟩
  upward i reached := by
    rw [root_link, start]
    exact h.exists_ancestor nodes (h.isSome_of_reached start reached)
  scope i s reached := h.scope_iff nodes (h.isSome_of_reached start reached) s
  unscoped i reached := by
    rw [Option.eq_none_iff_forall_ne_some]
    exact forall_congr' fun s =>
      not_congr (h.scope_iff nodes (h.isSome_of_reached start reached) s)
  unreached i off := by
    have unlinked : found.link? i = none := by
      rw [← Option.not_isSome_iff_eq_none]
      exact fun linked => off (h.reached_of_isSome start bound linked)
    have same : found.give i = id := by
      funext n
      rw [Links.give, unlinked, id]
    rw [nodes, same, Option.map_id, id]
  shape := t.sameShape_link
  rest := t.link_eq

/-- Where there is no root in the table nothing can be reached, and a tree spans that as it is. -/
theorem spans_of_rootless (rootless : ∀ root, t.root = some root → ¬ root < t.nodes.size) :
    t.Spans t := by
  have unreached (i : NodeIndex) : ¬ t.Reached i := by
    rintro ⟨root, start, bound, _⟩
    exact rootless root start bound
  exact {
    ends := fun root start bound => absurd bound (rootless root start)
    top := fun root start bound => absurd bound (rootless root start)
    parent := fun i reached => absurd reached (unreached i)
    upward := fun i reached => absurd reached (unreached i)
    scope := fun i _ reached => absurd reached (unreached i)
    unscoped := fun i reached => absurd reached (unreached i)
    unreached := fun _ _ => rfl
    shape := fun _ => rfl
    rest := rfl }

/-- Whatever the nodes of a table list as children, linking ends and spans what can be reached
from the root. A number among the children that leads beyond the table, such as the one that stands
for no node, is passed over. -/
theorem spans_link (t : Tree) : t.Spans t.link := by
  by_cases present : ∃ root, t.root = some root ∧ root < t.nodes.size
  · obtain ⟨root, start, bound⟩ := present
    have enough := Nat.le_of_eq (waiting_startLinks bound)
    have begun := linking_start bound
    exact (begun.linkFrom t.nodes.size enough).spans start bound
      (begun.settles t.nodes.size enough) (getElem?_link bound start)
  · have rootless : ∀ root, t.root = some root → ¬ root < t.nodes.size :=
      fun root start bound => present ⟨root, start, bound⟩
    rw [t.link_of_rootless rootless]
    exact spans_of_rootless rootless

/-- Nodes that list each other, themselves, a number beyond the table and no node; nothing lists the
last one. -/
def tangled : Tree :=
  let listing (kind : NodeKind) (children : List Nat) : Node :=
    { Node.make kind .none [] with children }
  ⟨"a.js", 0, #[listing .functionExpression [1, 2, 9, NodeRef.number none, 1],
    listing .blockStatement [0, 2, 3], listing .classExpression [2], listing .identifier [],
    listing .unknown [3]], some 0, #[]⟩

example : tangled.link.nodes.toList.map (fun n => (n.parent, n.scope)) =
    [(none, none), (some 0, some 0), (some 0, some 0), (some 1, some 0), (none, none)] := by
  decide +kernel

end Doclets.Tree
