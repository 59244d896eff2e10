import Doclets.Proofs.Tree.Acceptance
import Doclets.Proofs.Tree.Bisection
import Doclets.Proofs.Tree.Comments
import Doclets.Proofs.Tree.Shape

/-!
Comments that come in a list of their own. Each belongs to the first node behind it, if that is a
child of the innermost node around it. It is looked for by bisection, which finds it where the nodes
in front of the comment come first in pre-order; and what it finds starts behind the comment anyway.
-/

namespace Doclets

open Json (Value)

namespace Tree

open Estree (rangeOf partitionPoint)

variable {t u : Tree} {c : Comment} {i j : NodeIndex} {k : Nat}

/-! ### Where a comment belongs -/

/-- The nodes below the root in pre-order. -/
def below (t : Tree) : List NodeIndex := t.preorder.filter fun i => some i ≠ t.root

/-- The first node that starts at the end of a range or later. -/
def next? (t : Tree) (r : Range) : Option NodeIndex :=
  t.below.find? fun i => r.last ≤ (rangeOf t i).first

/-- The last node that starts at the start of a range or earlier and contains it; the root if there
is none. -/
def innermost (t : Tree) (r : Range) : NodeRef :=
  (t.below.reverse.find? fun i =>
    decide ((rangeOf t i).first ≤ r.first) && (rangeOf t i).contains r).or t.root

/-- The node that a comment belongs to. -/
def placeFor? (t : Tree) (c : Comment) : Option NodeIndex :=
  if c.kind = .block ∧ c.range.isEmpty = false then
    (t.next? c.range).filter fun i => t.parent (some i) = t.innermost c.range
  else none

/-- In pre-order, the nodes that start in front of the end of a range come before all others, and so
do those that start at its start or earlier. -/
structure OrderedAt (t : Tree) (r : Range) : Prop where
  ending : t.below.Pairwise fun i j =>
    (rangeOf t j).first < r.last → (rangeOf t i).first < r.last
  starting : t.below.Pairwise fun i j =>
    (rangeOf t j).first ≤ r.first → (rangeOf t i).first ≤ r.first

theorem orderedAt_of_sorted
    (sorted : t.below.Pairwise fun i j => (rangeOf t i).first ≤ (rangeOf t j).first)
    (r : Range) : t.OrderedAt r :=
  ⟨sorted.imp Nat.lt_of_le_of_lt, sorted.imp Nat.le_trans⟩

/-! ### Nodes that lie in each other as they are listed -/

/-- Every node has a range that lies in that of its parent, behind those of the children listed
before it. -/
structure Nested (t : Tree) : Prop where
  proper : ∀ i, (rangeOf t i).first ≤ (rangeOf t i).last
  inside : ∀ p, ∀ i ∈ t.childrenOf p,
    (rangeOf t p).first ≤ (rangeOf t i).first ∧ (rangeOf t i).last ≤ (rangeOf t p).last
  behind : ∀ p, (t.childrenOf p).Pairwise fun i j => (rangeOf t i).last ≤ (rangeOf t j).first

theorem Nested.within (nested : t.Nested) {levels : Nat} (visited : j ∈ t.visit levels i []) :
    (rangeOf t i).first ≤ (rangeOf t j).first ∧ (rangeOf t j).last ≤ (rangeOf t i).last := by
  induction levels generalizing i with
  | zero =>
    rw [List.mem_singleton.mp visited]
    exact ⟨Nat.le_refl _, Nat.le_refl _⟩
  | succ levels ih =>
    rw [visit_succ, List.mem_cons, List.mem_flatMap] at visited
    rcases visited with rfl | ⟨child, listed, visited⟩
    · exact ⟨Nat.le_refl _, Nat.le_refl _⟩
    · have outer := nested.inside i child listed
      have inner := ih visited
      exact ⟨Nat.le_trans outer.1 inner.1, Nat.le_trans inner.2 outer.2⟩

theorem Nested.sorted (nested : t.Nested) (levels : Nat) (i : NodeIndex) :
    (t.visit levels i []).Pairwise fun i j => (rangeOf t i).first ≤ (rangeOf t j).first := by
  induction levels generalizing i with
  | zero => exact List.pairwise_singleton _ _
  | succ levels ih =>
    have within := fun (j : NodeIndex) (visited : j ∈ t.visit (levels + 1) i []) =>
      (nested.within visited).1
    rw [visit_succ] at within ⊢
    rw [List.pairwise_cons]
    refine ⟨fun j visited => within j (List.mem_cons_of_mem _ visited), ?_⟩
    rw [List.pairwise_flatMap]
    refine ⟨fun child _ => ih child, (nested.behind i).imp fun apart a inFirst b inNext => ?_⟩
    calc (rangeOf t a).first
        ≤ (rangeOf t a).last := nested.proper a
      _ ≤ _ := (nested.within inFirst).2
      _ ≤ _ := apart
      _ ≤ (rangeOf t b).first := (nested.within inNext).1

/-- Where the children of every node are listed as they stand, every comment has its place. -/
theorem Nested.orderedAt (nested : t.Nested) (r : Range) : t.OrderedAt r := by
  refine orderedAt_of_sorted (List.Pairwise.filter _ ?_) r
  unfold preorder
  split
  next => exact .nil
  next root _ =>
    split
    · exact nested.sorted _ root
    · exact .nil

/-! ### What the bisection finds -/

theorem innermost_eq (t : Tree) (r : Range) : t.innermost r =
    (t.below.reverse.find? fun i => (rangeOf t i).contains r).or t.root := by
  unfold innermost
  congr 2
  funext i
  simp [Range.contains]

/-- Only a block comment that has a range is attached. -/
theorem target?_of_block (block : c.kind = .block) (some : c.range.isEmpty = false)
    (order : List NodeIndex) : Estree.target? t order.toArray c =
      (order[partitionPoint (fun i => (rangeOf t i).first < c.range.last)
        order.toArray]?).filter fun i => t.parent (.some i) =
          ((order.take (partitionPoint
            (fun i => (rangeOf t i).first ≤ c.range.first) order.toArray)).reverse.find?
              fun i => (rangeOf t i).contains c.range).or t.root := by
  unfold Estree.target?
  rw [if_neg (by simp [block, some]), List.getElem?_toArray]
  split
  next none => rw [none, Option.filter_none]
  next target found =>
    rw [found, Option.filter_some]
    simp only [decide_eq_true_eq]

theorem target?_eq_none (unfit : ¬ (c.kind = .block ∧ c.range.isEmpty = false))
    (order : Array NodeIndex) : Estree.target? t order c = none := by
  rw [not_and_or] at unfit
  rw [Estree.target?, if_pos (by simpa using unfit)]

/-- It finds the node that a comment belongs to. -/
theorem OrderedAt.target?_eq (ordered : t.OrderedAt c.range) :
    Estree.target? t t.below.toArray c = t.placeFor? c := by
  have ending := Estree.getElem?_partitionPoint
    (p := fun i => decide ((rangeOf t i).first < c.range.last))
    (ordered.ending.imp (by simp))
  have starting := Estree.find?_take_partitionPoint
    (p := fun i => decide ((rangeOf t i).first ≤ c.range.first))
    (q := fun i => (rangeOf t i).contains c.range)
    (ordered.starting.imp (by simp)) (by simp [Range.contains]; omega)
  by_cases fits : c.kind = .block ∧ c.range.isEmpty = false
  · have next : t.next? c.range = t.below.find? fun i =>
        !decide ((rangeOf t i).first < c.range.last) := by
      simp only [next?, ← decide_not, Nat.not_lt]
    rw [target?_of_block fits.1 fits.2, placeFor?, if_pos fits, ending, starting, innermost_eq,
      next]
  · rw [placeFor?, if_neg fits, target?_eq_none fits]

/-- What it finds starts behind the comment, and its parent is the root or around the comment. -/
theorem boundary_of_target? {order : List NodeIndex}
    (found : Estree.target? t order.toArray c = some i) :
    c.kind = .block ∧ c.range.isEmpty = false ∧ i ∈ order ∧
      c.range.last ≤ (rangeOf t i).first ∧
      (t.parent (some i) = t.root ∨
        ∃ p, t.parent (some i) = some p ∧ (rangeOf t p).contains c.range = true) := by
  by_cases fits : c.kind = .block ∧ c.range.isEmpty = false
  · rw [target?_of_block fits.1 fits.2, Option.filter_eq_some_iff, decide_eq_true_eq] at found
    obtain ⟨next, linked⟩ := found
    have fails := (Estree.boundary_partitionPoint _ order.toArray).behind i
      (by rw [List.getElem?_toArray, next])
    refine ⟨fits.1, fits.2, List.mem_of_getElem? next, by simpa using fails, ?_⟩
    rw [linked]
    cases around : (order.take _).reverse.find? _ with
    | none => exact Or.inl Option.none_or
    | some p =>
      have contains := List.find?_some around
      exact Or.inr ⟨p, Option.some_or, contains⟩
  · rw [target?_eq_none fits] at found
    cases found

/-! ### Trees that differ in their comments -/

theorem SameShape.visit (same : SameShape t.nodes u.nodes) (levels : Nat) (i : NodeIndex)
    (rest : List NodeIndex) : u.visit levels i rest = t.visit levels i rest := by
  induction levels generalizing i rest with
  | zero => rfl
  | succ levels ih =>
    have below : u.visit levels = t.visit levels := funext fun i => funext fun rest => ih i rest
    unfold Tree.visit
    rw [same.childrenOf, below]

theorem SameShape.below (same : SameShape t.nodes u.nodes) (top : u.root = t.root) :
    u.below = t.below := by
  unfold Tree.below preorder
  rw [top]
  split
  · rfl
  · rw [same.size, same.visit]

theorem Recommented.rangeOf_eq (same : Recommented t.nodes u.nodes) (i : NodeIndex) :
    rangeOf u i = rangeOf t i := by
  obtain ⟨comments, entry⟩ := same i
  rw [rangeOf, entry, rangeOf]
  cases t.nodes[i]? <;> rfl

theorem Recommented.target? (same : Recommented t.nodes u.nodes) (top : u.root = t.root)
    (order : Array NodeIndex) (c : Comment) :
    Estree.target? u order c = Estree.target? t order c := by
  simp only [Estree.target?, same.rangeOf_eq, same.parent, top]

/-! ### What stands in front of the nodes -/

/-- A comment stands in front of a node. -/
def Fronts (t : Tree) (k : Nat) (i : NodeIndex) : Prop :=
  ∃ n, t.nodes[i]? = some n ∧ k ∈ n.comments

/-- Each node gets the comments that are meant for it, in their order. -/
theorem comments_attach (target? : Nat → Option NodeIndex) (indices : List Nat)
    (nodes : Array Node) (i : NodeIndex) :
    (indices.foldl (fun nodes index =>
      match target? index with
      | some target => nodes.modify target fun n => { n with comments := n.comments ++ [index] }
      | none => nodes) nodes)[i]?.map Node.comments = nodes[i]?.map fun n =>
        n.comments ++ indices.filter fun index => target? index = some i := by
  induction indices generalizing nodes with
  | nil => simp
  | cons index rest ih =>
    rw [List.foldl_cons, ih]
    cases goal : target? index with
    | none => simp [goal]
    | some target =>
      dsimp only
      rw [Array.getElem?_modify]
      split
      next same => simp [goal, same, Function.comp_def]
      next other => simp [goal, other]

variable (silent : ∀ (i : NodeIndex) n, t.nodes[i]? = some n → n.comments = [])
include silent

theorem comments_attachByRange {n : Node}
    (stored : (Estree.attachByRange t).nodes[i]? = some n) :
    n.comments = (List.range t.comments.size).filter fun k =>
      (t.comments[k]?).bind (Estree.target? t t.below.toArray) = some i := by
  have attached : (Estree.attachByRange t).nodes[i]?.map Node.comments = _ :=
    comments_attach _ _ _ _
  rw [stored, Option.map_some] at attached
  obtain ⟨m, before, same⟩ := Option.map_eq_some_iff.mp attached.symm
  rw [← same, silent i m before]
  rfl

/-- Where nothing stood in front of the nodes before, a comment stands in front of the node that
the bisection finds for it. -/
theorem fronts_attachByRange : (Estree.attachByRange t).Fronts k i ↔ i < t.nodes.size ∧
    ∃ c, t.comments[k]? = some c ∧ Estree.target? t t.below.toArray c = some i := by
  have size := (recommented_attachByRange t).sameShape.size
  constructor
  · rintro ⟨n, stored, listed⟩
    rw [comments_attachByRange silent stored, List.mem_filter, decide_eq_true_eq] at listed
    exact ⟨size ▸ (Array.getElem?_eq_some_iff.mp stored).1, Option.bind_eq_some_iff.mp listed.2⟩
  · rintro ⟨bound, c, kept, found⟩
    have stored : (Estree.attachByRange t).nodes[i]? = _ :=
      Array.getElem?_eq_getElem (size ▸ bound)
    refine ⟨_, stored, ?_⟩
    rw [comments_attachByRange silent stored, List.mem_filter, List.mem_range, decide_eq_true_eq]
    exact ⟨(Array.getElem?_eq_some_iff.mp kept).1, Option.bind_eq_some_iff.mpr ⟨c, kept, found⟩⟩

end Tree

/-- What stands in front of the nodes of a tree stands there by its range: a block comment in front
of one node at most, which starts behind it, in a node around it or at the top. Where the nodes come
in the order that the bisection expects, it is the node that the comment belongs to, if there is
one. -/
structure Tree.FrontsByRange (t : Tree) : Prop where
  sound : ∀ k i, t.Fronts k i → ∃ c, t.comments[k]? = some c ∧ c.kind = .block ∧
    c.range.isEmpty = false ∧ c.range.last ≤ (Estree.rangeOf t i).first ∧
    (t.parent (some i) = t.root ∨
      ∃ p, t.parent (some i) = some p ∧ (Estree.rangeOf t p).contains c.range = true)
  once : ∀ k i j, t.Fronts k i → t.Fronts k j → i = j
  sorted : ∀ (i : NodeIndex) n, t.nodes[i]? = some n → n.comments.Pairwise (· < ·)
  exact : ∀ k c, t.comments[k]? = some c → t.OrderedAt c.range →
    ∀ i, t.Fronts k i ↔ t.placeFor? c = some i

namespace Estree

variable {h s : Harvest} {t : Tree} {v p : Value} {file : String}

section

variable (silent : ∀ (i : NodeIndex) n, t.nodes[i]? = some n → n.comments = [])

include silent

/-- The bisection goes over the tree with its comments as over the one without. -/
theorem fronts_attachByRange_iff {k : Nat} {i : NodeIndex} :
    (attachByRange t).Fronts k i ↔ i < t.nodes.size ∧ ∃ c, t.comments[k]? = some c ∧
      target? (attachByRange t) (attachByRange t).below.toArray c = some i := by
  have same := Tree.recommented_attachByRange t
  simp only [same.target? rfl, same.sameShape.below rfl]
  exact Tree.fronts_attachByRange silent

theorem frontsByRange_attachByRange (grown : (attachByRange t).Grown) :
    (attachByRange t).FrontsByRange where
  sound k i front := by
    obtain ⟨_, c, kept, found⟩ := (fronts_attachByRange_iff silent).mp front
    obtain ⟨block, some, -, behind, linked⟩ := Tree.boundary_of_target? found
    exact ⟨c, kept, block, some, behind, linked⟩
  once k i j front other := by
    obtain ⟨_, c, kept, found⟩ := (fronts_attachByRange_iff silent).mp front
    obtain ⟨_, d, also, again⟩ := (fronts_attachByRange_iff silent).mp other
    cases kept.symm.trans also
    exact Option.some.inj (found.symm.trans again)
  sorted i n stored := by
    rw [Tree.comments_attachByRange silent stored]
    exact List.pairwise_lt_range.filter _
  exact k c kept ordered i := by
    rw [fronts_attachByRange_iff silent, ← ordered.target?_eq]
    constructor
    · rintro ⟨_, d, also, found⟩
      cases kept.symm.trans also
      exact found
    · intro found
      obtain ⟨-, -, listed, -, -⟩ := Tree.boundary_of_target? found
      have visited := grown.lt_size_of_mem_preorder (List.mem_filter.mp listed).1
      have same := (Tree.recommented_attachByRange t).sameShape
      exact ⟨same.size ▸ visited, c, kept, found⟩

end

/-! ### Units whose nodes list no comments -/

/-- A node lists no comments that stand in front of it. -/
def ListsNone (members : Members) : Prop :=
  (Ledger.get? "leadingComments" members).bind Value.items? = none

/-- No value that reading comes to lists comments. -/
def Silent (p : Value) : Prop :=
  ∀ depth members, ReadBelow p depth (.obj members) → ListsNone members

/-- A check for that, of a value with less than `levels` levels. -/
def isSilent : Nat → Value → Bool
  | levels + 1, .obj members =>
    ((Ledger.get? "leadingComments" members).bind Value.items?).isNone &&
      (typeOf? (.obj members)).all fun typeName =>
        (childValues (NodeKind.ofType typeName) members).all fun slot =>
          slot.2.all (isSilent levels)
  | 0, .obj _ => false
  | _, _ => true

theorem silent_of_isSilent {levels : Nat} (check : isSilent levels p = true) : Silent p := by
  intro depth members below
  generalize inner : Value.obj members = w at below
  induction below generalizing levels with
  | here =>
    subst inner
    cases levels with
    | zero => cases check
    | succ levels =>
      rw [isSilent, Bool.and_eq_true, Option.isNone_iff_eq_none] at check
      exact check.1
  | @child others typeName key values v w depth typed slot listed below ih =>
    cases levels with
    | zero => cases check
    | succ levels =>
      rw [isSilent, Bool.and_eq_true, typed, Option.all_some, List.all_eq_true] at check
      exact ih (List.all_eq_true.mp (check.2 _ slot) v listed) inner

/-- Where no node lists comments, none are attached while reading. -/
theorem Adds.silent (adds : Adds ListsNone h s) (fresh : h.attached = false)
    (empty : ∀ n ∈ h.nodes, n.comments = []) :
    s.attached = false ∧ ∀ n ∈ s.nodes, n.comments = [] := by
  induction adds with
  | done => exact ⟨fresh, empty⟩
  | @node _ _ members bare typeName children ih =>
    have none (h : Harvest) : h.leading members = ([], h) := by
      unfold Harvest.leading
      rw [show (Ledger.get? "leadingComments" members).bind Value.items? = .none from bare]
    unfold Harvest.addNode
    simp only [none]
    refine ⟨ih.1, fun n listed => ?_⟩
    rcases Array.mem_push.mp listed with old | rfl
    · exact ih.2 n old
    · rfl

theorem attachByRange_of_comments_eq (none : t.comments = #[]) : attachByRange t = t := by
  obtain ⟨file, unit, nodes, root, comments⟩ := t
  obtain rfl : comments = #[] := none
  rfl

/-- A unit whose nodes list no comments is the tree of its nodes with the comments attached. -/
theorem exists_attachByRange (read : ofValue file v = .ok t) (holds : HoldsProgram v p)
    (silent : Silent p) :
    ∃ u, t = attachByRange u ∧ ∀ (i : NodeIndex) n, u.nodes[i]? = some n → n.comments = [] := by
  obtain ⟨members, found⟩ := program?_eq_ok_iff.mpr holds
  obtain ⟨_, _, root, h, also, done, rfl⟩ := exists_harvest read
  cases found.symm.trans also
  have begun := congrArg Prod.snd (keepAll_eq #[] false .empty (commentList members p))
  obtain ⟨fresh, empty⟩ := (adds_readNode silent done).silent (congrArg Harvest.attached begun)
    (by simp [nodes_keepAll, Harvest.empty])
  refine ⟨Tree.link ⟨file, 0, h.nodes, root, h.comments⟩, ?_, fun i n stored => ?_⟩
  · rw [fresh, Bool.false_or]
    split
    next none =>
      exact (attachByRange_of_comments_eq
        ((Tree.comments_link _).trans (Array.isEmpty_iff.mp none))).symm
    next => rfl
  · have kept := Tree.getElem?_link_comments ⟨file, 0, h.nodes, root, h.comments⟩ i
    rw [stored, Option.map_some] at kept
    obtain ⟨m, before, same⟩ := Option.map_eq_some_iff.mp kept.symm
    exact same ▸ empty m (Array.mem_of_getElem? before)

/-- In a unit whose nodes list no comments, the comments stand in front of nodes by their ranges. -/
theorem frontsByRange_ofValue (read : ofValue file v = .ok t) (holds : HoldsProgram v p)
    (silent : Silent p) : t.FrontsByRange := by
  have grown := grown_ofValue read
  obtain ⟨u, rfl, empty⟩ := exists_attachByRange read holds silent
  exact frontsByRange_attachByRange empty grown

def spanned (typeName : String) (members : Members) (first last : Nat) : Value :=
  .obj (("type", .str typeName) :: members ++ [("range", .arr [.int first, .int last])])

/-- `/** Here. */ ;` -/
def statementUnit : Value :=
  spanned "Program" [("body", .arr [spanned "EmptyStatement" [] 15 16]),
    ("comments", .arr [blockValue "* Here. " 0 14])] 0 16

theorem frontsByRange_statementUnit :
    ofValue "here.js" statementUnit = .ok (treeOf "here.js" statementUnit) ∧
      HoldsProgram statementUnit statementUnit ∧ Silent statementUnit ∧
      (treeOf "here.js" statementUnit).FrontsByRange := by
  have read : ofValue "here.js" statementUnit = .ok (treeOf "here.js" statementUnit) := rfl
  have holds : HoldsProgram statementUnit statementUnit := .program rfl
  have silent : Silent statementUnit := silent_of_isSilent (show isSilent 2 _ = true from rfl)
  exact ⟨read, holds, silent, frontsByRange_ofValue read holds silent⟩

/-- A name of one letter. -/
def letter (name : String) (first : Nat) : Value :=
  spanned "Identifier" [("name", .str name)] first (first + 1)

/-- A member of `object`, which ends where its name, of one letter, does. -/
def memberOf (object : Value) (name : String) (first : Nat) : Value :=
  spanned "MemberExpression" [("object", object), ("property", letter name first),
    ("computed", .bool false)] 18 (first + 1)

/-- `switch (x) { case a.b.c.d: /** Does it. */ function f() {} }`, with the statements of the case
listed before its test. -/
def switchUnit : Value :=
  spanned "Program" [("body", .arr [spanned "SwitchStatement" [("discriminant", letter "x" 8),
    ("cases", .arr [spanned "SwitchCase" [
      ("consequent", .arr [spanned "FunctionDeclaration" [("id", letter "f" 52),
        ("params", .arr []), ("body", spanned "BlockStatement" [("body", .arr [])] 56 58)] 43 58]),
      ("test", memberOf (memberOf (memberOf (letter "a" 18) "b" 20) "c" 22) "d" 24)]
      13 58])] 0 60]), ("comments", .arr [blockValue "* Does it. " 27 42])] 0 60

/-- The comment belongs to the function, but it stands in front of no node. -/
theorem switchUnit_loses_comment :
    ofValue "switch.js" switchUnit = .ok (treeOf "switch.js" switchUnit) ∧
      HoldsProgram switchUnit switchUnit ∧ Silent switchUnit ∧
      ((treeOf "switch.js" switchUnit).comments[0]?).bind
        (treeOf "switch.js" switchUnit).placeFor? = some 3 ∧
      ∀ i, ¬ (treeOf "switch.js" switchUnit).Fronts 0 i := by
  refine ⟨rfl, .program rfl, silent_of_isSilent (show isSilent 8 _ = true from rfl),
    by decide +kernel, ?_⟩
  have none : ∀ n ∈ (treeOf "switch.js" switchUnit).nodes.toList, n.comments = [] := by
    decide +kernel
  rintro i ⟨n, stored, listed⟩
  rw [none n (Array.mem_of_getElem? stored).val] at listed
  cases listed

end Estree

end Doclets
