import Doclets.Proofs.Tree.ClassBody
import Doclets.Proofs.Tree.Order
import Mathlib.Logic.Relation

/-!
The shape of what is read. Every node but the root is the child of exactly one node, which it is
linked to; the walk in pre-order meets each node once, behind all that it lies below; and the scope
of a node is the nearest function or class around it.
-/

namespace Doclets

namespace Tree

/-! ### Around a node -/

/-- The node `a` lies around `i`: it lists it as a child, or lists a node around it. -/
def Around (t : Tree) : NodeIndex → NodeIndex → Prop :=
  Relation.TransGen fun p child => child ∈ t.childrenOf p

/-- A node is a function or a class. -/
def OpensScope (t : Tree) (i : NodeIndex) : Prop :=
  ∃ kind, t.kind? (some i) = some kind ∧ kind.opensScope = true

/-- The innermost of the functions and classes around a node. -/
structure NearestScope (t : Tree) (s i : NodeIndex) : Prop where
  around : t.Around s i
  opens : t.OpensScope s
  nearest : ∀ between, t.Around s between → t.Around between i → ¬ t.OpensScope between

/-- A table of nodes that is one tree, with its links. -/
structure IsTree (t : Tree) (root : NodeIndex) : Prop where
  below : ∀ p, ∀ child ∈ t.childrenOf p, child < p
  top : t.root = some root
  last : root + 1 = t.nodes.size
  once : ∀ i < t.nodes.size, ((List.range t.nodes.size).flatMap t.childrenOf).count i =
    if i = root then 0 else 1
  visited : t.preorder.Perm (List.range t.nodes.size)
  ahead : ∀ a i, t.Around a i → ∀ before after, t.preorder = before ++ i :: after → a ∈ before
  parent : ∀ i p : NodeIndex, t.parent (some i) = some p ↔ i ∈ t.childrenOf p
  outermost : t.parent (some root) = none
  scope : ∀ i s : NodeIndex, t.scope (some i) = some s ↔ t.NearestScope s i
  unscoped : ∀ i : NodeIndex, t.scope (some i) = none ↔ ∀ a, t.Around a i → ¬ t.OpensScope a

end Tree

/-! ### Every node is listed -/

namespace Estree

/-- Every node is a top, or the child of another. -/
def Covered (nodes : Array Node) (tops : List NodeIndex) : Prop :=
  ∀ i < nodes.size, i ∈ tops ∨ ∃ (p : NodeIndex) (n : Node), nodes[p]? = some n ∧ i ∈ n.children

theorem growing_covered : Growing Covered := by
  intro nodes tops n _ covered i bound
  rw [Array.size_push] at bound
  rcases Nat.lt_succ_iff_lt_or_eq.mp bound with old | rfl
  · rcases covered i old with top | ⟨p, m, stored, listed⟩
    · rcases List.mem_append.mp top with other | child
      · exact Or.inl (List.mem_append_left _ other)
      · exact Or.inr ⟨nodes.size, n, Array.getElem?_push_size, child⟩
    · have before := (Array.getElem?_eq_some_iff.mp stored).1
      refine Or.inr ⟨p, m, ?_, listed⟩
      rw [Array.getElem?_push, if_neg (Nat.ne_of_lt before), stored]
  · exact Or.inl (List.mem_append_right _ (List.mem_singleton_self _))

/-- What is read is the last node, or no node at all. -/
theorem last_readNode {levels : Nat} {v : Json.Value} {h s : Harvest} {r : NodeRef}
    (read : readNode levels v h = .ok (r, s)) :
    r = none ∧ s = h ∨ ∃ i, r = some i ∧ i + 1 = s.nodes.size := by
  cases nodeRead_of_readNode read with
  | null => exact Or.inl ⟨rfl, rfl⟩
  | obj =>
    refine Or.inr ⟨_, addNode_fst .., ?_⟩
    simp [Harvest.addNode]

end Estree

namespace Tree

variable {t : Tree} {root i a p s : NodeIndex}

/-- Linking comes to every node of a table whose only top is the root. -/
theorem Linking.link_of_covered {found : Links} (linking : Linking t root found [])
    (forest : Estree.Forest t.nodes [root]) (covered : Estree.Covered t.nodes [root]) :
    ∀ i < t.nodes.size, (found.link? i).isSome := by
  refine t.forall_of_behind fun i ih bound => ?_
  rcases covered i bound with top | ⟨p, n, stored, listed⟩
  · rw [List.mem_singleton.mp top, linking.begun]
    rfl
  · have inside := (Array.getElem?_eq_some_iff.mp stored).1
    have linked := ih p inside (forest.below p n stored i listed) inside
    obtain ⟨above, link⟩ := Option.isSome_iff_exists.mp linked
    refine linking.closed p above link (by simp) i ?_ bound
    rw [childrenOf, stored]
    exact listed

theorem isSome_parent_link (start : t.root = some root)
    (forest : Estree.Forest t.nodes [root]) (covered : Estree.Covered t.nodes [root])
    (bound : i < t.nodes.size) (other : i ≠ root) : (t.link.parent (some i)).isSome := by
  obtain ⟨found, linking, nodes⟩ := exists_linking start (forest.tops_lt root (by simp))
  obtain ⟨link, linked⟩ := Option.isSome_iff_exists.mp (linking.link_of_covered forest covered i bound)
  obtain ⟨p, _, _, _, rfl⟩ := linking.justified i link linked other
  obtain ⟨n, stored⟩ : ∃ n, t.nodes[i]? = some n := ⟨_, Array.getElem?_eq_getElem bound⟩
  rw [Tree.parent, show t.link.node? (some i) = _ from nodes i, stored, Option.map_some,
    Links.give, linked]
  rfl

/-! ### Every node is visited -/

theorem mem_visit_self (t : Tree) (levels : Nat) (i : NodeIndex) : i ∈ t.visit levels i [] := by
  cases levels <;> exact List.mem_cons_self

/-- The children of a node that is visited are visited, in their order. -/
theorem Grown.sublist_visit (h : t.Grown) {levels : Nat} (enough : a ≤ levels)
    (visited : p ∈ t.visit levels a []) : (t.childrenOf p).Sublist (t.visit levels a []) := by
  induction levels generalizing a with
  | zero =>
    obtain rfl : p = 0 := (List.mem_singleton.mp visited).trans (Nat.le_zero.mp enough)
    have leaf : t.childrenOf 0 = [] :=
      List.eq_nil_iff_forall_not_mem.mpr fun i listed => Nat.not_lt_zero i (h.below 0 i listed)
    rw [leaf]
    exact List.nil_sublist _
  | succ levels ih =>
    rw [visit_succ] at visited ⊢
    refine List.Sublist.cons a ?_
    rcases List.mem_cons.mp visited with rfl | below
    · -- each child comes first where it is visited itself
      generalize t.childrenOf p = children
      induction children with
      | nil => exact List.nil_sublist _
      | cons child others ih =>
        have first : [child].Sublist (t.visit levels child []) :=
          List.singleton_sublist.mpr (t.mem_visit_self levels child)
        exact first.append ih
    · obtain ⟨child, among, visited⟩ := List.mem_flatMap.mp below
      have less := Nat.lt_of_lt_of_le (h.below a child among) enough
      refine (ih (Nat.le_of_lt_succ less) visited).trans ?_
      rw [List.flatMap_def]
      exact List.sublist_flatten_of_mem (List.mem_map_of_mem among)

theorem Grown.sublist_preorder (h : t.Grown) (visited : p ∈ t.preorder) :
    (t.childrenOf p).Sublist t.preorder := by
  cases start : t.root with
  | none => simp [preorder, start] at visited
  | some root =>
    rw [preorder_of_root start] at visited ⊢
    split_ifs at visited ⊢ with bound
    · exact h.sublist_visit (Nat.le_of_lt bound) visited
    · cases visited

theorem Grown.lt_size_of_mem_preorder (h : t.Grown) (visited : i ∈ t.preorder) :
    i < t.nodes.size := by
  cases start : t.root with
  | none => simp [preorder, start] at visited
  | some root =>
    rw [preorder_of_root start] at visited
    split_ifs at visited with bound
    · obtain ⟨before, after, split⟩ := List.append_of_mem visited
      rcases exists_parent_of_visit split with ⟨_, rfl⟩ | ⟨p, _, listed⟩
      · exact bound
      · exact Nat.lt_trans (h.below p i listed) (lt_size_of_child listed)
    · cases visited

/-- What lies around a node is visited before it. -/
theorem Grown.mem_of_around (h : t.Grown) (around : t.Around a i) {before after : List NodeIndex}
    (split : t.preorder = before ++ i :: after) : a ∈ before := by
  induction around generalizing before after with
  | single listed => exact h.mem_of_child listed split
  | @tail p i _ listed ih =>
    have inside := h.mem_of_child listed split
    obtain ⟨front, back, rfl⟩ := List.append_of_mem inside
    have above : t.preorder = front ++ p :: (back ++ i :: after) := by
      rw [split, List.append_assoc, List.cons_append]
    have first := ih above
    exact List.mem_append_left _ first

/-- A walk stops at a node after it stopped at whatever lies around it. -/
theorem Grown.passed_of_around (h : t.Grown) (around : t.Around a i) {before after : List Stop}
    (split : t.stops = before ++ .node i :: after) : Stop.node a ∈ before :=
  mem_nodes.mp (h.mem_of_around around (preorder_of_stops split))

/-- Where children are stored before their parent, so is all that it lies around. -/
theorem Around.lt (around : t.Around a i) (below : ∀ p, ∀ child ∈ t.childrenOf p, child < p) :
    i < a := by
  induction around with
  | single listed => exact below _ _ listed
  | tail _ listed ih => exact Nat.lt_trans (below _ _ listed) ih

/-- A node that no other lists has nothing around it. -/
theorem Grown.scope_of_unlisted (h : t.Grown) (unlisted : ∀ p, i ∉ t.childrenOf p) :
    (∀ s, t.scope (some i) = some s ↔ t.NearestScope s i) ∧
      (t.scope (some i) = none ↔ ∀ a, t.Around a i → ¬ t.OpensScope a) := by
  have alone (a : NodeIndex) : ¬ t.Around a i := by
    intro around
    obtain ⟨p, _, listed⟩ := Relation.TransGen.tail'_iff.mp around
    exact unlisted p listed
  have unlinked : t.parent (some i) = none := by
    rw [Option.eq_none_iff_forall_ne_some]
    exact fun p linked => unlisted p (h.linked i p linked).1
  rw [h.outermost i unlinked]
  exact ⟨fun s => ⟨nofun, fun nearest => absurd nearest.around (alone s)⟩,
    fun _ a around => absurd around (alone a), fun _ => rfl⟩

/-! ### Trees that are linked throughout -/

/-- A grown tree whose root is the last node, and whose other nodes all have a parent. -/
structure Attached (t : Tree) (root : NodeIndex) : Prop extends t.Grown where
  top : t.root = some root
  last : root + 1 = t.nodes.size
  parents : ∀ i < t.nodes.size, i ≠ root → (t.parent (some i)).isSome

namespace Attached

variable (h : t.Attached root)

include h

theorem lt_size_of_listed (listed : i ∈ t.childrenOf p) : i < t.nodes.size :=
  Nat.lt_trans (h.below p i listed) (lt_size_of_child listed)

theorem parent_iff : t.parent (some i) = some p ↔ i ∈ t.childrenOf p := by
  constructor
  · exact fun linked => (h.linked i p linked).1
  · intro listed
    have other : i ≠ root := fun same => h.rooted root h.top p (same ▸ listed)
    obtain ⟨q, linked⟩ := Option.isSome_iff_exists.mp (h.parents i (h.lt_size_of_listed listed) other)
    rw [linked, h.unique q p i (h.linked i q linked).1 listed]

theorem exists_parent (bound : i < t.nodes.size) (other : i ≠ root) : ∃ p, i ∈ t.childrenOf p := by
  obtain ⟨p, linked⟩ := Option.isSome_iff_exists.mp (h.parents i bound other)
  exact ⟨p, h.parent_iff.mp linked⟩

theorem mem_preorder : ∀ i < t.nodes.size, i ∈ t.preorder := by
  refine t.forall_of_behind fun i ih bound => ?_
  by_cases top : i = root
  · rw [preorder_of_root h.top, if_pos (h.last ▸ Nat.lt_succ_self root), top]
    exact t.mem_visit_self _ root
  · obtain ⟨p, listed⟩ := h.exists_parent bound top
    have inside := lt_size_of_child listed
    have above := ih p inside (h.below p i listed) inside
    exact (h.sublist_preorder above).subset listed

theorem perm_preorder : t.preorder.Perm (List.range t.nodes.size) := by
  rw [List.perm_ext_iff_of_nodup h.nodup_preorder List.nodup_range]
  intro i
  rw [List.mem_range]
  exact ⟨h.lt_size_of_mem_preorder, h.mem_preorder i⟩

/-- Every node but the root is listed once. -/
theorem count_children (bound : i < t.nodes.size) :
    ((List.range t.nodes.size).flatMap t.childrenOf).count i = if i = root then 0 else 1 := by
  have nodup : ((List.range t.nodes.size).flatMap t.childrenOf).Nodup := by
    rw [List.nodup_flatMap]
    refine ⟨fun p _ => h.distinct p, List.nodup_range.pairwise_of_forall_ne ?_⟩
    intro p _ q _ apart child here there
    exact apart (h.unique p q child here there)
  split_ifs with top
  · rw [List.count_eq_zero, List.mem_flatMap]
    rintro ⟨p, _, listed⟩
    exact h.rooted root h.top p (top ▸ listed)
  · obtain ⟨p, listed⟩ := h.exists_parent bound top
    exact List.count_eq_one_of_mem nodup
      (List.mem_flatMap.mpr ⟨p, List.mem_range.mpr (lt_size_of_child listed), listed⟩)

theorem parent_root : t.parent (some root) = none := by
  rw [Option.eq_none_iff_forall_ne_some]
  exact fun p linked => h.rooted root h.top p (h.parent_iff.mp linked)

/-- What lies around a node is its parent, or lies around its parent. -/
theorem around_iff (listed : i ∈ t.childrenOf p) : t.Around a i ↔ a = p ∨ t.Around a p := by
  constructor
  · intro around
    obtain ⟨q, above, also⟩ := Relation.TransGen.tail'_iff.mp around
    obtain rfl := h.unique q p i also listed
    exact (Relation.reflTransGen_iff_eq_or_transGen.mp above).imp Eq.symm id
  · rintro (rfl | above)
    · exact .single listed
    · exact above.tail listed

theorem scope_of_child (listed : i ∈ t.childrenOf p) :
    t.OpensScope p ∧ t.scope (some i) = some p ∨
      ¬ t.OpensScope p ∧ t.scope (some i) = t.scope (some p) := by
  obtain ⟨_, linked⟩ := h.linked i p (h.parent_iff.mpr listed)
  obtain ⟨kind, known⟩ : ∃ kind, t.kind? (some p) = some kind := by
    have bound := lt_size_of_child listed
    refine ⟨t.nodes[p].kind, ?_⟩
    rw [kind?, show t.node? (some p) = some t.nodes[p] from Array.getElem?_eq_getElem bound]
    rfl
  rw [linked, scopeBelow_of_kind known]
  split_ifs with opens
  · exact Or.inl ⟨⟨kind, known, opens⟩, rfl⟩
  · refine Or.inr ⟨?_, rfl⟩
    rintro ⟨other, also, opened⟩
    obtain rfl := Option.some.inj (known.symm.trans also)
    exact opens opened

/-- The parent of a node, if it opens a scope, is the nearest that does. -/
theorem nearestScope_of_opens (listed : i ∈ t.childrenOf p) (opens : t.OpensScope p) :
    t.NearestScope s i ↔ s = p := by
  constructor
  · intro nearest
    rcases (h.around_iff listed).mp nearest.around with same | above
    · exact same
    · exact absurd opens (nearest.nearest p above (.single listed))
  · rintro rfl
    refine ⟨.single listed, opens, fun between below around => ?_⟩
    have less := below.lt h.below
    rcases (h.around_iff listed).mp around with rfl | above
    · exact absurd less (Nat.lt_irrefl _)
    · exact absurd less (Nat.lt_asymm (above.lt h.below))

theorem nearestScope_of_not_opens (listed : i ∈ t.childrenOf p) (plain : ¬ t.OpensScope p) :
    t.NearestScope s i ↔ t.NearestScope s p := by
  constructor
  · intro nearest
    rcases (h.around_iff listed).mp nearest.around with rfl | above
    · exact absurd nearest.opens plain
    · exact ⟨above, nearest.opens, fun between below around =>
        nearest.nearest between below (around.tail listed)⟩
  · intro nearest
    refine ⟨nearest.around.tail listed, nearest.opens, fun between below around => ?_⟩
    rcases (h.around_iff listed).mp around with rfl | above
    · exact plain
    · exact nearest.nearest between below above

/-- The scope of a node is the nearest function or class around it. -/
theorem scope_iff : ∀ i : NodeIndex, (∀ s, t.scope (some i) = some s ↔ t.NearestScope s i) ∧
    (t.scope (some i) = none ↔ ∀ a, t.Around a i → ¬ t.OpensScope a) := by
  refine t.forall_of_behind fun i ih => ?_
  by_cases child : ∃ p, i ∈ t.childrenOf p
  · obtain ⟨p, listed⟩ := child
    obtain ⟨nearest, unscoped⟩ := ih p (lt_size_of_child listed) (h.below p i listed)
    rcases h.scope_of_child listed with ⟨opens, scope⟩ | ⟨plain, scope⟩
    · rw [scope]
      constructor
      · intro s
        rw [h.nearestScope_of_opens listed opens, Option.some.injEq, eq_comm]
      · exact ⟨nofun, fun none => absurd opens (none p (.single listed))⟩
    · rw [scope, unscoped]
      constructor
      · intro s
        rw [nearest, h.nearestScope_of_not_opens listed plain]
      · constructor
        · intro none a around
          rcases (h.around_iff listed).mp around with rfl | above
          · exact plain
          · exact none a above
        · exact fun none a above => none a (above.tail listed)
  · exact h.scope_of_unlisted fun p listed => child ⟨p, listed⟩

theorem isTree : t.IsTree root where
  below := h.below
  top := h.top
  last := h.last
  once _ bound := h.count_children bound
  visited := h.perm_preorder
  ahead _ _ around _ _ split := h.mem_of_around around split
  parent _ _ := h.parent_iff
  outermost := h.parent_root
  scope _ := (h.scope_iff _).1
  unscoped _ := (h.scope_iff _).2

end Attached

end Tree

namespace Estree

open Json (Value)

variable {file : String} {v : Value} {t : Tree}

theorem exists_attached_ofValue (read : ofValue file v = .ok t) (filled : 0 < t.nodes.size) :
    ∃ root, t.Attached root := by
  have grown := grown_ofValue read
  obtain ⟨_, _, r, h, _, _, fresh, done, top, same⟩ := exists_read read
  have size : t.nodes.size = h.nodes.size :=
    ((Tree.sameShape_link ⟨file, 0, h.nodes, r, h.comments⟩).trans same.sameShape).size
  rcases last_readNode done with ⟨_, unread⟩ | ⟨root, rfl, last⟩
  · rw [size, unread, fresh] at filled
    cases filled
  · have forest := growing_forest.readNode _ _ _ _ _ done [] (fresh ▸ forest_empty)
    have covered := growing_covered.readNode _ _ _ _ _ done [] (by
      rw [fresh]
      nofun)
    refine ⟨root, grown, top, last.trans size.symm, fun i bound other => ?_⟩
    rw [same.parent]
    exact Tree.isSome_parent_link rfl forest covered (size ▸ bound) other

/-- Whatever is read is visited. -/
theorem visited_ofValue {i : NodeIndex} (read : ofValue file v = .ok t)
    (bound : i < t.nodes.size) : .node i ∈ t.stops := by
  obtain ⟨root, attached⟩ := exists_attached_ofValue read (Nat.zero_lt_of_lt bound)
  rw [← Tree.mem_nodes, Tree.nodes_stops]
  exact attached.mem_preorder i bound

/-- Whatever is read is a tree, with its nodes in the order in which they were finished. -/
theorem isTree_ofValue (read : ofValue file v = .ok t) (filled : 0 < t.nodes.size) :
    ∃ root, t.IsTree root := by
  obtain ⟨root, attached⟩ := exists_attached_ofValue read filled
  exact ⟨root, attached.isTree⟩

/-- The tree that a value stands for; an empty one if it stands for none. -/
def treeOf (file : String) (v : Value) : Tree :=
  match ofValue file v with
  | .ok t => t
  | .error _ => ⟨file, 0, #[], none, #[]⟩

/-- `class Cart { add() {} }`, behind a hole in the list of statements. -/
def cartUnit : Value :=
  .obj [("type", .str "Program"), ("body", .arr [.null, .obj [("type", .str "ClassDeclaration"),
    ("id", .obj [("type", .str "Identifier"), ("name", .str "Cart")]), ("superClass", .null),
    ("body", .obj [("type", .str "ClassBody"), ("body", .arr [.obj [
      ("type", .str "MethodDefinition"), ("kind", .str "method"),
      ("key", .obj [("type", .str "Identifier"), ("name", .str "add")]),
      ("value", .obj [("type", .str "FunctionExpression"), ("id", .null), ("params", .arr []),
        ("body", .obj [("type", .str "BlockStatement"), ("body", .arr [])])])]])])]])]

theorem isTree_cartUnit : 0 < (treeOf "cart.js" cartUnit).nodes.size ∧
    ∃ root, (treeOf "cart.js" cartUnit).IsTree root := by
  have read : ofValue "cart.js" cartUnit = .ok (treeOf "cart.js" cartUnit) := rfl
  have filled : 0 < (treeOf "cart.js" cartUnit).nodes.size := by decide +kernel
  exact ⟨filled, isTree_ofValue read filled⟩

end Estree

end Doclets
