import Doclets.Proofs.Tree.Shape

/-!
How deep trees are. Every level of nodes that is read takes one of the levels a program may have, so
that a walk from a node outwards, from each node to one that lies around it, has an end before there
are more levels than that.
-/

namespace Doclets

/-- At most so many levels of nodes stand at a node and below it. -/
inductive Levels (nodes : Array Node) : Nat → NodeIndex → Prop where
  | node {levels : Nat} {i : NodeIndex} {n : Node} (stored : nodes[i]? = some n)
    (below : ∀ child ∈ n.children, Levels nodes levels child) : Levels nodes (levels + 1) i

/-- A table with more nodes behind those it had. -/
def Extends (nodes more : Array Node) : Prop :=
  ∀ (i : NodeIndex) (n : Node), nodes[i]? = some n → more[i]? = some n

theorem Extends.trans {first second third : Array Node} (one : Extends first second)
    (two : Extends second third) : Extends first third :=
  fun i n stored => two i n (one i n stored)

theorem extends_push (nodes : Array Node) (n : Node) : Extends nodes (nodes.push n) := by
  intro i m stored
  have bound := (Array.getElem?_eq_some_iff.mp stored).1
  rw [Array.getElem?_push, if_neg (Nat.ne_of_lt bound), stored]

namespace Levels

variable {nodes more : Array Node} {levels : Nat} {i : NodeIndex}

theorem succ (h : Levels nodes levels i) : Levels nodes (levels + 1) i := by
  induction h with
  | node stored _ ih => exact .node stored ih

theorem grow (grown : Extends nodes more) (h : Levels nodes levels i) : Levels more levels i := by
  induction h with
  | node stored _ ih => exact .node (grown _ _ stored) ih

theorem sameShape (same : Tree.SameShape nodes more) (h : Levels nodes levels i) :
    Levels more levels i := by
  induction h with
  | @node levels i n stored _ ih =>
    have shape := same i
    rw [stored, Option.map_some] at shape
    obtain ⟨m, also, alike⟩ := Option.map_eq_some_iff.mp shape
    have children : m.children = n.children := congrArg (·.2.2) alike
    exact .node also (children ▸ ih)

/-- A level less stands at what a node lies around. -/
theorem of_around {t : Tree} {a : NodeIndex} (h : Levels t.nodes (levels + 1) a)
    (around : t.Around a i) : Levels t.nodes levels i := by
  have child {levels : Nat} {p c : NodeIndex} (h : Levels t.nodes (levels + 1) p)
      (listed : c ∈ t.childrenOf p) : Levels t.nodes levels c := by
    cases h with
    | node stored below =>
      obtain ⟨_, also, listed⟩ := Tree.exists_of_child listed
      cases stored.symm.trans also
      exact below c listed
  induction around with
  | single listed => exact child h listed
  | tail _ listed ih =>
    cases levels with
    | zero => cases ih
    | succ levels => exact (child ih listed).succ

end Levels

namespace Estree

open Json (Value)

/-! ### Reading -/

/-- What is read stands on the levels there are, and nothing that was read before is lost. -/
structure Deepens (levels : Nat) (nodes more : Array Node) (tops : List NodeIndex) : Prop where
  grown : Extends nodes more
  tops : ∀ top ∈ tops, Levels more levels top
  new : ∀ i, nodes.size ≤ i → i < more.size → Levels more levels i

theorem Deepens.nothing (levels : Nat) (nodes : Array Node) : Deepens levels nodes nodes [] where
  grown _ _ stored := stored
  tops := nofun
  new _ old bound := absurd bound (Nat.not_lt_of_le old)

theorem Deepens.append {levels : Nat} {nodes more most : Array Node} {tops others : List NodeIndex}
    (first : Deepens levels nodes more tops) (second : Deepens levels more most others) :
    Deepens levels nodes most (tops ++ others) where
  grown := first.grown.trans second.grown
  tops top among := by
    rcases List.mem_append.mp among with early | late
    · exact (first.tops top early).grow second.grown
    · exact second.tops top late
  new i old bound := by
    by_cases early : i < more.size
    · exact (first.new i old early).grow second.grown
    · exact second.new i (Nat.le_of_not_lt early) bound

/-- A node takes one level more than its children. -/
theorem Deepens.push {levels : Nat} {nodes more : Array Node} {n : Node}
    (h : Deepens levels nodes more n.children) :
    Deepens (levels + 1) nodes (more.push n) [more.size] := by
  have grown := extends_push more n
  have last : Levels (more.push n) (levels + 1) more.size :=
    .node Array.getElem?_push_size fun child listed => (h.tops child listed).grow grown
  refine ⟨h.grown.trans grown, fun top among => List.mem_singleton.mp among ▸ last, ?_⟩
  intro i old bound
  rw [Array.size_push] at bound
  rcases Nat.lt_succ_iff_lt_or_eq.mp bound with before | rfl
  · exact ((h.new i old before).grow grown).succ
  · exact last

variable {read : Value → Harvest → Except TreeError (NodeRef × Harvest)} {levels : Nat}
  {h s : Harvest} {children : Children}

theorem Deepens.addNode {nodes : Array Node}
    (deepens : Deepens levels nodes h.nodes (children.all.filterMap id)) (typeName : String)
    (members : Members) :
    Deepens (levels + 1) nodes (h.addNode typeName members children).2.nodes
      (h.addNode typeName members children).1.toList := by
  simp only [Harvest.addNode, nodes_leading, Option.toList_some]
  exact Deepens.push deepens

theorem deepens_readList
    (reads : ∀ v h r s, read v h = .ok (r, s) → Deepens levels h.nodes s.nodes r.toList)
    {values : List Value} {rs : List NodeRef} (done : readList read values h = .ok (rs, s)) :
    Deepens levels h.nodes s.nodes (rs.filterMap id) := by
  induction values generalizing h rs with
  | nil =>
    cases done
    exact .nothing levels _
  | cons v rest ih =>
    obtain ⟨r, between, others, first, later, rfl⟩ := exists_of_readList done
    have next := (reads v h r between first).append (ih later)
    cases r <;> simpa using next

theorem deepens_readChildren
    (reads : ∀ v h r s, read v h = .ok (r, s) → Deepens levels h.nodes s.nodes r.toList)
    {slots : List (String × List Value)}
    (done : readChildren read slots h = .ok (children, s)) :
    Deepens levels h.nodes s.nodes (children.all.filterMap id) := by
  induction slots generalizing h children with
  | nil =>
    cases done
    exact .nothing levels _
  | cons slot rest ih =>
    obtain ⟨refs, _, others, first, later, rfl⟩ := exists_of_readChildren done
    have next := (deepens_readList reads first).append (ih later)
    simpa [Children.all] using next

theorem deepens_readNode (levels : Nat) {v : Value} {r : NodeRef}
    (done : readNode levels v h = .ok (r, s)) : Deepens levels h.nodes s.nodes r.toList := by
  induction levels generalizing v h r s with
  | zero =>
    cases nodeRead_of_readNode done with
    | null => exact .nothing 0 _
  | succ levels ih =>
    cases nodeRead_of_readNode done with
    | null => exact .nothing _ _
    | obj _ below => exact (deepens_readChildren (fun _ _ _ _ => ih) below).addNode _ _

/-- The nodes of a tree stand on the levels below a program and the level of the program itself. -/
theorem levels_ofValue {file : String} {v : Value} {t : Tree} (read : ofValue file v = .ok t) :
    ∀ i < t.nodes.size, Levels t.nodes (maxTreeDepth + 1) i := by
  obtain ⟨_, _, r, h, _, _, fresh, done, _, same⟩ := exists_read read
  have shape :=
    (Tree.sameShape_link ⟨file, 0, h.nodes, r, h.comments⟩).trans same.sameShape
  have size : t.nodes.size = h.nodes.size := shape.size
  have deepens := deepens_readNode _ done
  intro i bound
  exact (deepens.new i (by simp [fresh]) (size ▸ bound)).sameShape shape

end Estree

/-! ### Walks outwards -/

namespace Tree

/-- Each of some nodes lies around the one before it. -/
def Outward (t : Tree) (nodes : List NodeIndex) : Prop :=
  nodes.IsChain fun inner outer => t.Around outer inner

theorem Outward.pairwise {t : Tree} {nodes : List NodeIndex} (h : t.Outward nodes) :
    nodes.Pairwise fun inner outer => t.Around outer inner := by
  have : Trans (fun inner outer => t.Around outer inner)
      (fun inner outer => t.Around outer inner) (fun inner outer => t.Around outer inner) :=
    ⟨fun inner outer => outer.trans inner⟩
  exact List.isChain_iff_pairwise.mp h

/-- There are no more nodes on a walk outwards than levels around the node it starts at. -/
theorem Outward.length_le {t : Tree} {levels : Nat} {i : NodeIndex} {rest : List NodeIndex}
    (outward : t.Outward (i :: rest))
    (bounded : ∀ i < t.nodes.size, Levels t.nodes (levels + 1) i) : rest.length ≤ levels := by
  have left : rest = [] ∨ ∃ left, Levels t.nodes left i ∧ rest.length + left ≤ levels + 1 := by
    induction rest generalizing i with
    | nil => exact Or.inl rfl
    | cons outer rest ih =>
      obtain ⟨around, further⟩ := List.isChain_cons_cons.mp outward
      obtain ⟨p, listed, _⟩ := Relation.TransGen.head'_iff.mp around
      obtain ⟨left, above, few⟩ :
          ∃ left, Levels t.nodes left outer ∧ rest.length + left ≤ levels + 1 := by
        rcases ih further with rfl | known
        · exact ⟨levels + 1, bounded outer (lt_size_of_child listed), Nat.le_of_eq (Nat.zero_add _)⟩
        · exact known
      obtain ⟨left, rfl⟩ : ∃ less, left = less + 1 := by
        cases above
        exact ⟨_, rfl⟩
      refine Or.inr ⟨left, above.of_around around, ?_⟩
      rw [List.length_cons]
      omega
  rcases left with rfl | ⟨left, here, few⟩
  · exact Nat.zero_le levels
  · cases here
    omega

end Tree

end Doclets
