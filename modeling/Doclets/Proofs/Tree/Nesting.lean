import Doclets.Proofs.Tree.Enclosing

/-!
Nodes inside nodes. A value that wraps another again and again is read to a column of nodes, each
the only child of the next, on as many levels as it has wrappings.
-/

namespace Doclets

namespace Estree

open Json (Value)

/-- A value of a type that holds another value in one member. -/
def wrap (typeName key : String) (inner : Value) : Value :=
  .obj [("type", .str typeName), (key, inner)]

def wrapAgain (typeName key : String) : Nat → Value → Value
  | 0, inner => inner
  | times + 1, inner => wrap typeName key (wrapAgain typeName key times inner)

/-- A program of one statement. -/
def programOf (statement : Value) : Value := wrap "Program" "body" (.arr [statement])

/-- Of a value that wraps another, the other alone is read. -/
structure Wraps (kind : NodeKind) (typeName key : String) : Prop where
  typed : NodeKind.ofType typeName = kind
  plain : kind ≠ .classProperty
  child : ∀ {read : Value → Harvest → Except TreeError (NodeRef × Harvest)} {inner : Value}
    {h s : Harvest} {r : NodeRef}, read inner h = .ok (r, s) →
      ∃ children, readChildren read (childValues kind [("type", .str typeName), (key, inner)]) h =
        .ok (children, s) ∧ children.all = [r]

theorem wraps_arrow : Wraps .arrowFunctionExpression "ArrowFunctionExpression" "body" where
  typed := rfl
  plain := by decide
  child {read inner h s r} done := by
    refine ⟨[("id", []), ("params", []), ("body", [r])], ?_, rfl⟩
    rw [show childValues .arrowFunctionExpression
        [("type", .str "ArrowFunctionExpression"), ("body", inner)] =
          [("id", []), ("params", []), ("body", [inner])] from rfl]
    simp only [readChildren, readList, done]

theorem wraps_assignment : Wraps .assignmentExpression "AssignmentExpression" "right" where
  typed := rfl
  plain := by decide
  child {read inner h s r} done := by
    refine ⟨[("left", []), ("right", [r])], ?_, rfl⟩
    rw [show childValues .assignmentExpression
        [("type", .str "AssignmentExpression"), ("right", inner)] =
          [("left", []), ("right", [inner])] from rfl]
    simp only [readChildren, readList, done]

/-- The node `p` of a table is of a kind, and has one child. -/
def Wrapping (nodes : Array Node) (kind : NodeKind) (p child : NodeIndex) : Prop :=
  ∃ n, nodes[p]? = some n ∧ n.kind = kind ∧ n.children = [child]

variable {kind : NodeKind} {typeName key : String} {levels : Nat} {inner : Value} {h s : Harvest}
  {first : Nat}

/-- A node with one child is stored as the last. -/
theorem addNode_wrapping (h : Harvest) (members : Members) {children : Children}
    (plain : NodeKind.ofType typeName ≠ .classProperty) (only : children.all = [some first]) :
    (h.addNode typeName members children).2.nodes.size = h.nodes.size + 1 ∧
      Extends h.nodes (h.addNode typeName members children).2.nodes ∧
      Wrapping (h.addNode typeName members children).2.nodes (NodeKind.ofType typeName)
        h.nodes.size first := by
  simp only [Harvest.addNode, nodes_leading]
  refine ⟨Array.size_push _, extends_push _ _, _, Array.getElem?_push_size, ?_, ?_⟩
  · simp [Node.make, finalKind, plain]
  · simp [Node.make, only]

/-- What wraps a value is read as the next node, around that of the value. -/
theorem readNode_wrap (wraps : Wraps kind typeName key)
    (done : readNode levels inner h = .ok (some first, s)) :
    ∃ top, readNode (levels + 1) (wrap typeName key inner) h = .ok (some s.nodes.size, top) ∧
      top.nodes.size = s.nodes.size + 1 ∧ Extends s.nodes top.nodes ∧
      Wrapping top.nodes kind s.nodes.size first := by
  obtain ⟨children, below, only⟩ := wraps.child done
  have typed : str? "type" [("type", .str typeName), (key, inner)] = some typeName := rfl
  obtain ⟨size, kept, stored⟩ := addNode_wrapping s [("type", .str typeName), (key, inner)]
    (wraps.typed ▸ wraps.plain) only
  refine ⟨_, ?_, size, kept, wraps.typed ▸ stored⟩
  unfold wrap readNode
  rw [typed]
  dsimp only
  rw [wraps.typed, below]
  exact congrArg Except.ok (Prod.ext (addNode_fst ..) rfl)

/-- A column of wrappings is read around what they wrap. -/
theorem readNode_wrapAgain (wraps : Wraps kind typeName key)
    (done : readNode levels inner h = .ok (some first, s)) (last : first + 1 = s.nodes.size)
    (times : Nat) :
    ∃ top, readNode (levels + times) (wrapAgain typeName key times inner) h =
        .ok (some (first + times), top) ∧
      first + times + 1 = top.nodes.size ∧ Extends s.nodes top.nodes ∧
      ∀ i : Nat, first ≤ i → i < first + times → Wrapping top.nodes kind (i + 1) i := by
  induction times with
  | zero => exact ⟨s, done, last, fun _ _ stored => stored, fun i low high => by omega⟩
  | succ times ih =>
    obtain ⟨below, read, size, kept, column⟩ := ih
    obtain ⟨top, around, one, grown, wrapping⟩ := readNode_wrap wraps read
    refine ⟨top, ?_, by omega, kept.trans grown, fun i low high => ?_⟩
    · rw [← size] at around
      exact around
    · rcases Nat.lt_succ_iff_lt_or_eq.mp (show i < first + times + 1 from high) with old | rfl
      · obtain ⟨n, stored, same⟩ := column i low old
        exact ⟨n, grown _ _ stored, same⟩
      · exact size ▸ wrapping

/-- A unit without comments is the tree of what is read of its program. -/
theorem exists_ofValue_of_readNode {v p : Value} {members : Members} {root : NodeRef}
    (found : program? v = .ok (members, p)) (silent : commentList members p = [])
    (read : readNode (maxTreeDepth + 1) p .empty = .ok (root, h)) (file : String) :
    ∃ t, ofValue file v = .ok t ∧ Tree.SameShape h.nodes t.nodes := by
  have linked := Tree.sameShape_link ⟨file, 0, h.nodes, root, h.comments⟩
  unfold ofValue
  rw [found]
  dsimp only
  rw [silent]
  unfold Harvest.keepAll
  rw [read]
  dsimp only
  split
  · exact ⟨_, rfl, linked⟩
  · exact ⟨_, rfl, linked.trans (Tree.recommented_attachByRange _).sameShape⟩

/-- What the nodes of a tree are and list, if they have the shape of those in a table. -/
theorem stored_of_sameShape {nodes : Array Node} {t : Tree} (same : Tree.SameShape nodes t.nodes)
    {i : NodeIndex} {n : Node} (stored : nodes[i]? = some n) :
    t.kind? (some i) = some n.kind ∧ t.childrenOf i = n.children := by
  have shape := same i
  rw [stored, Option.map_some] at shape
  obtain ⟨m, also, alike⟩ := Option.map_eq_some_iff.mp shape
  have found : t.node? (some i) = some m := also
  rw [Tree.kind?, found, Tree.childrenOf_eq, also]
  exact ⟨congrArg some (congrArg (·.1) alike), congrArg (·.2.2) alike⟩

theorem Wrapping.stored {nodes : Array Node} {t : Tree} {p child : NodeIndex}
    (wrapping : Wrapping nodes kind p child) (same : Tree.SameShape nodes t.nodes) :
    t.kind? (some p) = some kind ∧ child ∈ t.childrenOf p := by
  obtain ⟨n, stored, rfl, only⟩ := wrapping
  obtain ⟨known, listed⟩ := stored_of_sameShape same stored
  exact ⟨known, by rw [listed, only]; exact List.mem_singleton_self child⟩

/-- A program of one such statement is a tree with the column below its root. -/
theorem exists_ofValue_wrapAgain (wraps : Wraps kind typeName key)
    {times : Nat} (enough : levels + times = maxTreeDepth)
    (done : readNode levels inner .empty = .ok (some first, s)) (last : first + 1 = s.nodes.size)
    (file : String) :
    ∃ t, ofValue file (programOf (wrapAgain typeName key times inner)) = .ok t ∧
      (∀ i : Nat, first ≤ i → i < first + times →
        t.kind? (some (i + 1)) = some kind ∧ i ∈ t.childrenOf (i + 1)) ∧
      (t.kind? (some (first + times + 1)) = some .program ∧
        first + times ∈ t.childrenOf (first + times + 1)) ∧
      ∀ i n, s.nodes[i]? = some n →
        t.kind? (some i) = some n.kind ∧ t.childrenOf i = n.children := by
  obtain ⟨column, read, size, kept, wrapping⟩ := readNode_wrapAgain wraps done last times
  let members : Members :=
    [("type", .str "Program"), ("body", .arr [wrapAgain typeName key times inner])]
  let children : Children := [("body", [some (first + times)])]
  have plain : NodeKind.ofType "Program" ≠ .classProperty := by decide
  obtain ⟨_, grown, root⟩ := addNode_wrapping column members plain (show children.all = _ from rfl)
  have whole : readNode (maxTreeDepth + 1) (.obj members) .empty =
      .ok (column.addNode "Program" members children) := by
    have below : childValues .program members =
        [("body", [wrapAgain typeName key times inner])] := rfl
    rw [← enough, readNode, show str? "type" members = some "Program" from rfl]
    dsimp only
    rw [show NodeKind.ofType "Program" = .program from rfl, below]
    simp only [readChildren, readList, read]
    rfl
  obtain ⟨t, accepted, same⟩ := exists_ofValue_of_readNode (v := .obj members) rfl rfl whole file
  refine ⟨t, accepted, fun i low high => ?_, ?_, fun i n stored => ?_⟩
  · obtain ⟨n, stored, shape⟩ := wrapping i low high
    exact Wrapping.stored ⟨n, grown _ _ stored, shape⟩ same
  · exact size ▸ root.stored same
  · exact stored_of_sameShape same (grown _ _ (kept _ _ stored))

end Estree

end Doclets
