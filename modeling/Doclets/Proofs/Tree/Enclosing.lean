import Doclets.Proofs.Tree.Depth
import Doclets.Proofs.Tree.Units
import Doclets.Tree.Scopes

/-!
Which scopes a walk outwards meets. In a tree that was read a walk with a limit above the number of
levels comes to an end by itself, and has then met all the scopes around the node, innermost first;
so what it finds first is what the innermost scope has that has any.
-/

namespace Doclets.Tree

/-- The function or class `s` lies around a node. -/
def Encloses (t : Tree) (s : NodeIndex) (node : NodeRef) : Prop :=
  ∃ i, node = some i ∧ t.Around s i ∧ t.OpensScope s

/-- The scope `s` around a node is met before a function declaration has to be left: that is neither
the node nor a scope inside `s`. -/
structure MetWithinDeclaration (t : Tree) (node : NodeRef) (s : NodeIndex) : Prop where
  encloses : t.Encloses s node
  start : t.isKind node .functionDeclaration = false
  between : ∀ inner, t.Encloses inner node → t.Around s inner →
    t.isKind (some inner) .functionDeclaration = false

/-- The node `s` is the innermost of those that `Q` holds of: all others lie around it. -/
structure Innermost (t : Tree) (Q : NodeIndex → Prop) (s : NodeIndex) : Prop where
  holds : Q s
  inside : ∀ other, Q other → other = s ∨ t.Around other s

/-- A tree whose links lead to the parent and to the nearest scope around each node, on no more
levels than trees may have. -/
structure Scoped (t : Tree) : Prop where
  below : ∀ p, ∀ child ∈ t.childrenOf p, child < p
  parent : ∀ i p : NodeIndex, t.parent (some i) = some p ↔ i ∈ t.childrenOf p
  scope : ∀ i s : NodeIndex, t.scope (some i) = some s ↔ t.NearestScope s i
  unscoped : ∀ i : NodeIndex, t.scope (some i) = none ↔ ∀ a, t.Around a i → ¬ t.OpensScope a
  levels : ∀ i < t.nodes.size, Levels t.nodes (maxTreeDepth + 1) i

theorem scoped_ofValue {file : String} {v : Json.Value} {t : Tree}
    (read : Estree.ofValue file v = .ok t) : t.Scoped := by
  have grown := Estree.grown_ofValue read
  by_cases filled : 0 < t.nodes.size
  · obtain ⟨_, attached⟩ := Estree.exists_attached_ofValue read filled
    exact ⟨grown.below, fun _ _ => attached.parent_iff, fun _ => (attached.scope_iff _).1,
      fun _ => (attached.scope_iff _).2, Estree.levels_ofValue read⟩
  · have empty (p i : NodeIndex) : i ∉ t.childrenOf p := fun listed =>
      filled (Nat.zero_lt_of_lt (lt_size_of_child listed))
    have unscoped (i : NodeIndex) := grown.scope_of_unlisted fun p => empty p i
    refine ⟨grown.below, fun i p => ?_, fun i => (unscoped i).1, fun i => (unscoped i).2,
      Estree.levels_ofValue read⟩
    exact iff_of_false (fun linked => empty p i (grown.linked i p linked).1) (empty p i)

variable {t : Tree} {node : NodeRef} {a b i s : NodeIndex} {limit : Nat}

/-- The number of a unit has no part in how its nodes lie around each other. -/
theorem Scoped.inUnit (h : t.Scoped) (unit : Nat) : (t.inUnit unit).Scoped where
  below := h.below
  parent := h.parent
  scope i s := (h.scope i s).trans
    ⟨fun ⟨around, opens, nearest⟩ => ⟨around, opens, nearest⟩,
      fun ⟨around, opens, nearest⟩ => ⟨around, opens, nearest⟩⟩
  unscoped := h.unscoped
  levels := h.levels

theorem encloses_some : t.Encloses s (some i) ↔ t.Around s i ∧ t.OpensScope s := by
  constructor
  · rintro ⟨j, same, around, opens⟩
    exact Option.some.inj same ▸ ⟨around, opens⟩
  · exact fun ⟨around, opens⟩ => ⟨i, rfl, around, opens⟩

namespace Scoped

variable (h : t.Scoped)

include h

theorem not_around_of_around (around : t.Around a b) : ¬ t.Around b a :=
  fun back => Nat.lt_asymm (around.lt h.below) (back.lt h.below)

theorem not_around_self : ¬ t.Around a a := fun around => h.not_around_of_around around around

/-- Of two nodes around a third, one lies around the other. -/
theorem around_total (one : t.Around a i) (other : t.Around b i) :
    a = b ∨ t.Around a b ∨ t.Around b a := by
  induction one with
  | @single i listed =>
    obtain ⟨q, above, also⟩ := Relation.TransGen.tail'_iff.mp other
    cases ((h.parent i a).mpr listed).symm.trans ((h.parent i q).mpr also)
    exact (Relation.reflTransGen_iff_eq_or_transGen.mp above).imp id Or.inr
  | @tail p i around listed ih =>
    obtain ⟨q, above, also⟩ := Relation.TransGen.tail'_iff.mp other
    cases ((h.parent i p).mpr listed).symm.trans ((h.parent i q).mpr also)
    rcases Relation.reflTransGen_iff_eq_or_transGen.mp above with rfl | above
    · exact Or.inr (Or.inl around)
    · exact ih above

/-- The nodes with one parent are visited in the order in which it lists them. -/
theorem filter_preorder {p : NodeIndex} (grown : t.Grown) (visited : p ∈ t.preorder) :
    t.preorder.filter (fun i => t.parent (some i) = some p) = t.childrenOf p := by
  have all : ∀ i ∈ t.childrenOf p, decide (t.parent (some i) = some p) = true := fun i listed =>
    decide_eq_true ((h.parent i p).mpr listed)
  have within := grown.sublist_preorder visited
  have sub := within.filter fun i => decide (t.parent (some i) = some p)
  rw [List.filter_eq_self.mpr all] at sub
  have same : (t.childrenOf p).Perm
      (t.preorder.filter fun i => decide (t.parent (some i) = some p)) := by
    rw [List.perm_ext_iff_of_nodup (grown.distinct p) (grown.nodup_preorder.filter _)]
    intro i
    rw [List.mem_filter, decide_eq_true_iff, h.parent]
    exact ⟨fun listed => ⟨within.subset listed, listed⟩, And.right⟩
  exact (sub.eq_of_length same.length_eq).symm

/-! ### One scope outwards -/

theorem nearest_of_scope (linked : t.scope node = some s) :
    ∃ i, node = some i ∧ t.NearestScope s i := by
  cases node with
  | none => cases linked
  | some i => exact ⟨i, rfl, (h.scope i s).mp linked⟩

theorem encloses_iff (linked : t.scope node = some s) :
    t.Encloses a node ↔ a = s ∨ t.Encloses a (some s) := by
  obtain ⟨i, rfl, nearest⟩ := h.nearest_of_scope linked
  rw [encloses_some, encloses_some]
  constructor
  · rintro ⟨around, opens⟩
    rcases h.around_total around nearest.around with same | outside | inside
    · exact Or.inl same
    · exact Or.inr ⟨outside, opens⟩
    · exact absurd opens (nearest.nearest a inside around)
  · rintro (rfl | ⟨outside, opens⟩)
    · exact ⟨nearest.around, nearest.opens⟩
    · exact ⟨outside.trans nearest.around, opens⟩

theorem not_encloses (unlinked : t.scope node = none) : ¬ t.Encloses a node := by
  rintro ⟨i, rfl, around, opens⟩
  exact (h.unscoped i).mp unlinked a around opens

/-- The parent of a node is its scope if it opens one. -/
theorem scope_of_listed {p : NodeIndex} (listed : i ∈ t.childrenOf p) (opens : t.OpensScope p) :
    t.scope (some i) = some p := by
  refine (h.scope i p).mpr ⟨.single listed, opens, fun between below around => ?_⟩
  obtain ⟨q, above, also⟩ := Relation.TransGen.tail'_iff.mp around
  cases ((h.parent i p).mpr listed).symm.trans ((h.parent i q).mpr also)
  rcases Relation.reflTransGen_iff_eq_or_transGen.mp above with rfl | above
  · exact absurd below h.not_around_self
  · exact absurd above (h.not_around_of_around below)

/-! ### Walks -/

theorem outward_scopesAround (limit : Nat) (i : NodeIndex) :
    t.Outward (i :: t.scopesAround limit (some i)) := by
  induction limit generalizing i with
  | zero => exact .singleton i
  | succ limit ih =>
    unfold scopesAround
    split
    next s linked => exact .cons_cons ((h.scope i s).mp linked).around (ih s)
    next => exact .singleton i

/-- No walk meets more scopes than there are levels. -/
theorem length_scopesAround_le (limit : Nat) (node : NodeRef) :
    (t.scopesAround limit node).length ≤ maxTreeDepth := by
  cases node with
  | none => cases limit <;> exact Nat.zero_le _
  | some i => exact (h.outward_scopesAround limit i).length_le h.levels

end Scoped

/-- A walk that keeps to a declaration meets the scopes that one across declarations meets first. -/
theorem scopesWithinDeclaration_prefix (t : Tree) (limit : Nat) (node : NodeRef) :
    t.scopesWithinDeclaration limit node <+: t.scopesAround limit node := by
  induction limit generalizing node with
  | zero => exact List.prefix_rfl
  | succ limit ih =>
    unfold scopesWithinDeclaration scopesAround
    split
    next => exact List.nil_prefix
    next =>
      split
      next s _ => exact (List.prefix_cons_inj s).mpr (ih (some s))
      next => exact List.prefix_rfl

/-- The nodes that `Q` holds of, from the innermost outwards. -/
structure ListsOutward (t : Tree) (Q : NodeIndex → Prop) (nodes : List NodeIndex) : Prop where
  mem : ∀ s, s ∈ nodes ↔ Q s
  outward : nodes.Pairwise fun inner outer => t.Around outer inner

namespace Scoped

variable (h : t.Scoped)

include h

theorem pairwise_scopesAround (limit : Nat) (node : NodeRef) :
    (t.scopesAround limit node).Pairwise fun inner outer => t.Around outer inner := by
  cases node with
  | none => cases limit <;> exact List.Pairwise.nil
  | some i => exact (h.outward_scopesAround limit i).pairwise.of_cons

theorem mem_scopesAround (enough : (t.scopesAround limit node).length < limit) :
    s ∈ t.scopesAround limit node ↔ t.Encloses s node := by
  induction limit generalizing node with
  | zero => cases enough
  | succ limit ih =>
    unfold scopesAround at enough ⊢
    split at enough
    next outer linked =>
      rw [List.mem_cons, h.encloses_iff linked, ih (Nat.lt_of_succ_lt_succ enough)]
    next unlinked => exact iff_of_false List.not_mem_nil (h.not_encloses unlinked)

theorem metWithinDeclaration_iff (linked : t.scope node = some a)
    (start : t.isKind node .functionDeclaration = false) :
    t.MetWithinDeclaration node s ↔ s = a ∨ t.MetWithinDeclaration (some a) s := by
  constructor
  · rintro ⟨encloses, _, between⟩
    refine ((h.encloses_iff linked).mp encloses).imp id fun outside => ⟨outside, ?_, ?_⟩
    · exact between a ((h.encloses_iff linked).mpr (Or.inl rfl)) (encloses_some.mp outside).1
    · exact fun inner also => between inner ((h.encloses_iff linked).mpr (Or.inr also))
  · rintro (rfl | ⟨outside, here, between⟩)
    · refine ⟨(h.encloses_iff linked).mpr (Or.inl rfl), start, fun inner also around => ?_⟩
      rcases (h.encloses_iff linked).mp also with rfl | further
      · exact absurd around h.not_around_self
      · exact absurd (encloses_some.mp further).1 (h.not_around_of_around around)
    · refine ⟨(h.encloses_iff linked).mpr (Or.inr outside), start, fun inner also around => ?_⟩
      rcases (h.encloses_iff linked).mp also with rfl | further
      · exact here
      · exact between inner further around

theorem mem_scopesWithinDeclaration
    (enough : (t.scopesWithinDeclaration limit node).length < limit) :
    s ∈ t.scopesWithinDeclaration limit node ↔ t.MetWithinDeclaration node s := by
  induction limit generalizing node with
  | zero => cases enough
  | succ limit ih =>
    unfold scopesWithinDeclaration at enough ⊢
    split at enough
    next declaration =>
      rw [if_pos declaration]
      refine iff_of_false List.not_mem_nil fun met => ?_
      rw [met.start] at declaration
      cases declaration
    next elsewhere =>
      rw [if_neg elsewhere]
      split at enough
      next outer linked =>
        rw [List.mem_cons, h.metWithinDeclaration_iff linked (Bool.eq_false_iff.mpr elsewhere),
          ih (Nat.lt_of_succ_lt_succ enough)]
      next unlinked =>
        exact iff_of_false List.not_mem_nil fun met => h.not_encloses unlinked met.encloses

/-- A limit above the number of levels lets a walk meet every scope around the node. -/
theorem listsOutward_scopesAround (enough : maxTreeDepth < limit) (node : NodeRef) :
    t.ListsOutward (t.Encloses · node) (t.scopesAround limit node) :=
  ⟨fun _ => h.mem_scopesAround (Nat.lt_of_le_of_lt (h.length_scopesAround_le limit node) enough),
    h.pairwise_scopesAround limit node⟩

theorem length_scopesWithinDeclaration_le (limit : Nat) (node : NodeRef) :
    (t.scopesWithinDeclaration limit node).length ≤ maxTreeDepth :=
  Nat.le_trans (t.scopesWithinDeclaration_prefix limit node).length_le
    (h.length_scopesAround_le limit node)

theorem listsOutward_scopesWithinDeclaration (enough : maxTreeDepth < limit) (node : NodeRef) :
    t.ListsOutward (t.MetWithinDeclaration node) (t.scopesWithinDeclaration limit node) :=
  ⟨fun _ => h.mem_scopesWithinDeclaration
      (Nat.lt_of_le_of_lt (h.length_scopesWithinDeclaration_le limit node) enough),
    (h.pairwise_scopesAround limit node).sublist
      (t.scopesWithinDeclaration_prefix limit node).sublist⟩

/-! ### What is found first -/

theorem innermost_unique {Q : NodeIndex → Prop} (one : t.Innermost Q a)
    (other : t.Innermost Q b) : a = b := by
  rcases one.inside b other.holds with same | around
  · exact same.symm
  · rcases other.inside a one.holds with same | back
    · exact same
    · exact absurd back (h.not_around_of_around around)

variable {α : Type} {f : NodeIndex → Option α} {Q : NodeIndex → Prop} {nodes : List NodeIndex}

/-- What is found first is what the innermost of the nodes has that has any. -/
theorem findSome?_eq_some_iff (lists : t.ListsOutward Q nodes) {x : α} :
    nodes.findSome? f = some x ↔
      ∃ s, t.Innermost (fun s => Q s ∧ (f s).isSome) s ∧ f s = some x := by
  have found {y : α} (first : nodes.findSome? f = some y) :
      ∃ s, t.Innermost (fun s => Q s ∧ (f s).isSome) s ∧ f s = some y := by
    obtain ⟨before, s, after, split, answers, silent⟩ := List.findSome?_eq_some_iff.mp first
    have member : s ∈ nodes := by simp [split]
    refine ⟨s, ⟨⟨(lists.mem s).mp member, by rw [answers]; rfl⟩, ?_⟩, answers⟩
    rintro other ⟨also, speaks⟩
    have listed := (lists.mem other).mpr also
    rw [split, List.mem_append, List.mem_cons] at listed
    rcases listed with earlier | same | later
    · rw [silent other earlier] at speaks
      cases speaks
    · exact Or.inl same
    · have outward := lists.outward
      rw [split, List.pairwise_append, List.pairwise_cons] at outward
      exact Or.inr (outward.2.1.1 other later)
  constructor
  · exact found
  · rintro ⟨s, innermost, answers⟩
    cases first : nodes.findSome? f with
    | none =>
      have silent := List.findSome?_eq_none_iff.mp first s ((lists.mem s).mpr innermost.holds.1)
      rw [answers] at silent
      cases silent
    | some y =>
      obtain ⟨other, also, speaks⟩ := found first
      rw [h.innermost_unique also innermost, answers] at speaks
      exact speaks.symm

omit h in
theorem findSome?_eq_none_iff (lists : t.ListsOutward Q nodes) :
    nodes.findSome? f = none ↔ ∀ s, Q s → f s = none := by
  rw [List.findSome?_eq_none_iff]
  exact forall_congr' fun s => imp_congr_left (lists.mem s)

end Scoped

end Doclets.Tree
