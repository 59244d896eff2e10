import Doclets.Pipeline.Walk
import Doclets.Proofs.Tree.Growth
import Mathlib.Algebra.GroupWithZero.Nat
import Mathlib.Data.List.Nodup
import Mathlib.Tactic.SplitIfs

/-!
The order of a walk. Every node comes once, after the node that it is a child of, and the stops
of a walk pass the nodes in this order.
-/

namespace Doclets

namespace Tree

variable {t : Tree} {levels : Nat} {i a : NodeIndex} {done more rest : List NodeIndex}

theorem foldr_visit (t : Tree) (levels : Nat) (children rest : List NodeIndex)
    (ahead : ∀ i rest, t.visit levels i rest = t.visit levels i [] ++ rest) :
    children.foldr (t.visit levels) rest = children.flatMap (t.visit levels · []) ++ rest := by
  induction children with
  | nil => rfl
  | cons child others ih => rw [List.foldr_cons, ih, ahead, List.flatMap_cons, List.append_assoc]

theorem visit_append (t : Tree) (levels : Nat) (i : NodeIndex) (rest : List NodeIndex) :
    t.visit levels i rest = t.visit levels i [] ++ rest := by
  induction levels generalizing i rest with
  | zero => rfl
  | succ levels ih =>
    unfold visit
    rw [foldr_visit t levels _ rest ih, foldr_visit t levels _ [] ih]
    simp

theorem visit_succ (t : Tree) (levels : Nat) (i : NodeIndex) :
    t.visit (levels + 1) i [] = i :: (t.childrenOf i).flatMap (t.visit levels · []) := by
  rw [visit, foldr_visit t levels _ [] (t.visit_append levels), List.append_nil]

/-! ### Parents come first -/

/-- What is visited comes after the node that it is a child of. -/
theorem exists_parent_of_visit (split : t.visit levels i [] = done ++ a :: more) :
    done = [] ∧ a = i ∨ ∃ p ∈ done, a ∈ t.childrenOf p := by
  induction levels generalizing i done more with
  | zero =>
    rw [visit] at split
    cases done with
    | nil => exact Or.inl ⟨rfl, (List.cons.inj split).1.symm⟩
    | cons first done => simp at split
  | succ levels ih =>
    rw [visit_succ] at split
    cases done with
    | nil => exact Or.inl ⟨rfl, (List.cons.inj split).1.symm⟩
    | cons first done =>
      obtain ⟨rfl, below⟩ := List.cons.inj split
      right
      -- the children are visited one after the other; `a` is found in the visit of one of them
      have among (children : List NodeIndex) (done : List NodeIndex)
          (split : children.flatMap (t.visit levels · []) = done ++ a :: more) :
          a ∈ children ∨ ∃ p ∈ done, a ∈ t.childrenOf p := by
        induction children generalizing done with
        | nil => simp at split
        | cons child others step =>
          rw [List.flatMap_cons] at split
          rcases List.append_eq_append_iff.mp split with ⟨early, rfl, later⟩ | ⟨late, here, rest⟩
          · rcases step early later with listed | ⟨p, before, listed⟩
            · exact Or.inl (List.mem_cons_of_mem _ listed)
            · exact Or.inr ⟨p, List.mem_append_right _ before, listed⟩
          · cases late with
            | nil =>
              rcases step [] rest.symm with listed | ⟨p, before, _⟩
              · exact Or.inl (List.mem_cons_of_mem _ listed)
              · cases before
            | cons first late =>
              obtain ⟨rfl, _⟩ := List.cons.inj rest
              rcases ih here with ⟨_, rfl⟩ | above
              · exact Or.inl List.mem_cons_self
              · exact Or.inr above
      rcases among _ done below with listed | ⟨p, before, listed⟩
      · exact ⟨i, List.mem_cons_self, listed⟩
      · exact ⟨p, List.mem_cons_of_mem _ before, listed⟩

theorem preorder_of_root {root : NodeIndex} (start : t.root = some root) :
    t.preorder = if root < t.nodes.size then t.visit t.nodes.size root [] else [] := by
  unfold preorder
  rw [start]

/-- A node comes after the node that it is a child of. -/
theorem Grown.mem_of_child (h : t.Grown) {p : NodeIndex} (listed : a ∈ t.childrenOf p)
    (split : t.preorder = done ++ a :: more) : p ∈ done := by
  cases start : t.root with
  | none => simp [preorder, start] at split
  | some root =>
    rw [preorder_of_root start] at split
    split_ifs at split
    · rcases exists_parent_of_visit split with ⟨_, rfl⟩ | ⟨q, before, also⟩
      · exact absurd listed (h.rooted _ start p)
      · exact h.unique p q a listed also ▸ before
    · simp at split

/-! ### Every node comes once -/

/-- Parents are stored behind their children: what holds of a node if it holds of the nodes behind
it holds of all. -/
theorem forall_of_behind (t : Tree) {P : NodeIndex → Prop}
    (step : ∀ i, (∀ p < t.nodes.size, i < p → P p) → P i) (i : NodeIndex) : P i := by
  induction left : t.nodes.size - i using Nat.strongRecOn generalizing i with
  | ind rest ih =>
    refine step i fun p inside behind => ih (t.nodes.size - p) ?_ p rfl
    exact left ▸ Nat.sub_lt_sub_left (Nat.lt_trans behind inside) behind

theorem sum_map_le_count {nodes : List NodeIndex} {times : NodeIndex → Nat} {p : NodeIndex}
    (once : times p ≤ 1) (only : ∀ q, q ≠ p → times q = 0) :
    (nodes.map times).sum ≤ nodes.count p := by
  induction nodes with
  | nil => simp
  | cons q others ih =>
    rw [List.map_cons, List.sum_cons, List.count_cons]
    by_cases same : q = p
    · subst same
      simp
      omega
    · simp [only q same, same]
      exact ih

/-- A node is visited as often as the nodes that it is a child of. -/
theorem Grown.count_visit (h : t.Grown) (enough : i ≤ levels) :
    (t.visit levels i []).count a = (if i = a then 1 else 0) +
      ((t.visit levels i []).map fun p => (t.childrenOf p).count a).sum := by
  induction levels generalizing i with
  | zero =>
    have first : i = 0 := Nat.le_zero.mp enough
    subst first
    have leaf : t.childrenOf 0 = [] := by
      apply List.eq_nil_iff_forall_not_mem.mpr
      intro child listed
      exact Nat.not_lt_zero _ (h.below 0 child listed)
    simp [visit, leaf, List.count_cons]
  | succ levels ih =>
    have among (children : List NodeIndex) (early : ∀ child ∈ children, child ≤ levels) :
        (children.flatMap (t.visit levels · [])).count a = children.count a +
          ((children.flatMap (t.visit levels · [])).map fun p => (t.childrenOf p).count a).sum := by
      induction children with
      | nil => rfl
      | cons child others step =>
        have here := ih (early child List.mem_cons_self)
        have there := step fun other listed => early other (List.mem_cons_of_mem _ listed)
        rw [List.flatMap_cons, List.count_append, here, there, List.map_append, List.sum_append,
          List.count_cons]
        simp only [beq_iff_eq]
        omega
    rw [visit_succ, List.count_cons, among, List.map_cons, List.sum_cons]
    · simp only [beq_iff_eq]
      omega
    · intro child listed
      exact Nat.le_of_lt_succ (Nat.lt_of_lt_of_le (h.below i child listed) enough)

theorem Grown.count_preorder_le (h : t.Grown) : ∀ a : NodeIndex, t.preorder.count a ≤ 1 := by
  cases start : t.root with
  | none => simp [preorder, start]
  | some root =>
    rw [preorder_of_root start]
    split_ifs with bound
    · refine t.forall_of_behind fun a ih => ?_
      rw [h.count_visit (Nat.le_of_lt bound)]
      have unlisted (alone : ∀ p, a ∉ t.childrenOf p) :
          (t.visit t.nodes.size root []).map (fun p => (t.childrenOf p).count a) =
            (t.visit t.nodes.size root []).map fun _ => 0 :=
        List.map_congr_left fun p _ => List.count_eq_zero.mpr (alone p)
      by_cases top : root = a
      · rw [if_pos top, unlisted (h.rooted a (top ▸ start))]
        simp
      · rw [if_neg top, Nat.zero_add]
        by_cases child : ∃ p, a ∈ t.childrenOf p
        · obtain ⟨p, listed⟩ := child
          have only (q : NodeIndex) (other : q ≠ p) : (t.childrenOf q).count a = 0 :=
            List.count_eq_zero.mpr fun also => other (h.unique q p a also listed)
          have once : (t.childrenOf p).count a ≤ 1 :=
            List.nodup_iff_count_le_one.mp (h.distinct p) a
          calc ((t.visit t.nodes.size root []).map fun p => (t.childrenOf p).count a).sum
              ≤ (t.visit t.nodes.size root []).count p := sum_map_le_count once only
            _ ≤ 1 := ih p (lt_size_of_child listed) (h.below p a listed)
        · simp [unlisted fun p listed => child ⟨p, listed⟩]
    · simp

theorem Grown.nodup_preorder (h : t.Grown) : t.preorder.Nodup :=
  List.nodup_iff_count_le_one.mpr h.count_preorder_le

/-! ### Stops -/

end Tree

/-- The node that a stop is at. -/
def Stop.node? : Stop → Option NodeIndex
  | .comment _ => none
  | .node i => some i

namespace Tree

theorem nodes_passComments (waiting : Array Bool) (stops : Array Stop) (indices : List Nat) :
    (passComments waiting stops indices).2.toList.filterMap Stop.node? =
      stops.toList.filterMap Stop.node? := by
  unfold passComments
  induction indices generalizing waiting stops with
  | nil => rfl
  | cons c rest ih =>
    rw [List.foldl_cons]
    dsimp only
    split
    · rw [ih]
      simp [Stop.node?]
    · exact ih waiting stops

theorem nodes_passNode (t : Tree) (passed : Array Bool × Array Stop) (i : NodeIndex) :
    (t.passNode passed i).2.toList.filterMap Stop.node? =
      passed.2.toList.filterMap Stop.node? ++ [i] := by
  unfold passNode
  simp [nodes_passComments, Stop.node?]

/-- The nodes that a walk stops at. -/
theorem nodes_stops (t : Tree) : t.stops.filterMap Stop.node? = t.preorder := by
  unfold stops
  dsimp only
  have pass (nodes : List NodeIndex) (passed : Array Bool × Array Stop) :
      (nodes.foldl t.passNode passed).2.toList.filterMap Stop.node? =
        passed.2.toList.filterMap Stop.node? ++ nodes := by
    induction nodes generalizing passed with
    | nil => simp
    | cons i rest ih => rw [List.foldl_cons, ih, nodes_passNode, List.append_assoc, List.singleton_append]
  rw [pass]
  simp [Stop.node?, List.filterMap_map, Function.comp_def]

variable {t : Tree} {a : NodeIndex} {before after : List Stop}

theorem preorder_of_stops {rest : List Stop} (split : t.stops = before ++ .node a :: rest) :
    t.preorder = before.filterMap Stop.node? ++ a :: rest.filterMap Stop.node? := by
  rw [← nodes_stops, split, List.filterMap_append]
  rfl

theorem mem_nodes {stops : List Stop} : a ∈ stops.filterMap Stop.node? ↔ .node a ∈ stops := by
  rw [List.mem_filterMap]
  constructor
  · rintro ⟨stop, member, at_node⟩
    cases stop with
    | comment => cases at_node
    | node i => exact Option.some.inj at_node ▸ member
  · exact fun listed => ⟨_, listed, rfl⟩

/-- A walk stops at a node after it stopped at the node that it is a child of. -/
theorem Grown.passed_of_child (h : t.Grown) {p : NodeIndex} (listed : a ∈ t.childrenOf p)
    (split : t.stops = before ++ .node a :: after) : Stop.node p ∈ before :=
  mem_nodes.mp (h.mem_of_child listed (preorder_of_stops split))

/-- A walk does not stop at a node again. -/
theorem Grown.not_passed_again (h : t.Grown) (split : t.stops = before ++ .node a :: after) :
    Stop.node a ∉ after := by
  intro again
  have once := h.nodup_preorder
  rw [preorder_of_stops split] at once
  exact (List.nodup_cons.mp (List.nodup_append.mp once).2.1).1 (mem_nodes.mpr again)

end Tree

end Doclets
