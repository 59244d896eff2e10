import Doclets.Proofs.Tree.Links
import Doclets.Tree.Estree

/-!
What reading a unit grows. Children are stored before their parent and become the children of no
other node, and linking leads each of them back to the node that lists it.
-/

namespace Doclets

/-- The kinds of node that say something in this shape. -/
def Payload.kinds : Payload → List NodeKind
  | .none => [.program, .blockStatement, .classBody, .objectExpression, .thisExpression,
    .returnStatement, .callExpression, .newExpression]
  | .identifier _ => [.identifier, .privateName]
  | .literal _ => [.literal]
  | .function .. => [.functionDeclaration, .functionExpression, .arrowFunctionExpression]
  | .class .. => [.classDeclaration, .classExpression]
  | .variableDeclaration .. => [.variableDeclaration]
  | .variableDeclarator .. => [.variableDeclarator]
  | .methodDefinition .. => [.methodDefinition]
  | .classProperty .. => [.classProperty, .classPrivateProperty]
  | .property .. => [.property]
  | .assignment .. => [.assignmentExpression]
  | .member .. => [.memberExpression]
  | .expressionStatement _ => [.expressionStatement]
  | .assignmentPattern .. => [.assignmentPattern]
  | .restElement _ => [.restElement]
  | .export _ => [.exportNamedDeclaration, .exportDefaultDeclaration]
  | .other _ => [.unknown]

/-- What a payload refers to. -/
def Payload.refs : Payload → List NodeRef
  | .none | .identifier _ | .literal _ | .other _ => []
  | .function id params body _ _ => id :: body :: params
  | .class id superClass body => [id, superClass, body]
  | .variableDeclaration _ declarations => declarations
  | .variableDeclarator id init => [id, init]
  | .methodDefinition key value .. | .classProperty key value .. | .property key value .. =>
    [key, value]
  | .assignment _ left right | .assignmentPattern left right => [left, right]
  | .member object name _ => [object, name]
  | .expressionStatement child | .restElement child | .export child => [child]

/-- A node whose payload suits its kind and refers to children only. -/
structure Node.Shaped (n : Node) : Prop where
  kind : n.kind ∈ n.payload.kinds
  refs : ∀ v, some v ∈ n.payload.refs → v ∈ n.children
  parent : n.parent = none
  scope : n.scope = none

namespace Estree

open Json (Value)

/-! ### Payloads -/

theorem Children.mem_all_of_one {children : Children} {key : String} {v : NodeIndex}
    (found : children.one key = some v) : some v ∈ children.all := by
  unfold Children.one at found
  obtain ⟨r, head, rfl⟩ := Option.bind_eq_some_iff.mp found
  obtain ⟨refs, entry, first⟩ := Option.bind_eq_some_iff.mp head
  exact List.mem_flatMap.mpr ⟨(key, refs), Ledger.mem_of_get? entry, List.mem_of_head? first⟩

theorem Children.mem_all_of_many {children : Children} {key : String} {r : NodeRef}
    (listed : r ∈ children.many key) : r ∈ children.all := by
  unfold Children.many at listed
  cases found : Ledger.get? key children with
  | none => simp [found] at listed
  | some refs =>
    rw [found] at listed
    exact List.mem_flatMap.mpr ⟨(key, refs), Ledger.mem_of_get? found, (List.mem_filter.mp listed).1⟩

theorem mem_all_of_mem_refs_payload {kind : NodeKind} {typeName : String} {members : Members}
    {children : Children} {v : NodeIndex}
    (listed : some v ∈ (payload kind typeName members children).refs) : some v ∈ children.all := by
  have one {key : String} (same : some v = children.one key) : some v ∈ children.all :=
    children.mem_all_of_one same.symm
  cases kind <;> simp only [payload, Payload.refs, List.mem_cons, List.not_mem_nil, or_false] at listed
  case functionDeclaration | functionExpression | arrowFunctionExpression =>
    rcases listed with id | body | param
    · exact one id
    · exact one body
    · exact children.mem_all_of_many param
  case classDeclaration | classExpression =>
    rcases listed with id | superClass | body
    · exact one id
    · exact one superClass
    · exact one body
  case variableDeclaration => exact children.mem_all_of_many listed
  case variableDeclarator | methodDefinition | classProperty | classPrivateProperty | property
      | assignmentExpression | memberExpression | assignmentPattern =>
    rcases listed with first | second
    · exact one first
    · exact one second
  case expressionStatement | restElement | exportNamedDeclaration | exportDefaultDeclaration =>
    exact one listed

theorem finalKind_mem_kinds (h : Harvest) (kind : NodeKind) (typeName : String)
    (members : Members) (children : Children) :
    finalKind h kind children ∈ (payload kind typeName members children).kinds := by
  by_cases field : kind = .classProperty
  · subst field
    unfold finalKind
    simp only [if_true, payload, Payload.kinds]
    split
    · split <;> simp
    · simp
  · rw [finalKind, if_neg field]
    cases kind <;> simp [payload, Payload.kinds] at field ⊢

/-! ### Comments -/

@[simp] theorem nodes_keep (h : Harvest) (c : Comment) : (h.keep c).2.nodes = h.nodes := by
  unfold Harvest.keep
  split
  · rfl
  · split
    · split <;> rfl
    · rfl

@[simp] theorem nodes_keepAll (h : Harvest) (list : List Value) :
    (h.keepAll list).2.nodes = h.nodes := by
  induction list generalizing h with
  | nil => rfl
  | cons v rest ih =>
    unfold Harvest.keepAll
    split
    next c _ => exact (ih _).trans (nodes_keep h c)
    next => exact ih h

@[simp] theorem nodes_leading (h : Harvest) (members : Members) :
    (h.leading members).2.nodes = h.nodes := by
  unfold Harvest.leading
  split
  · exact nodes_keepAll _ _
  · rfl

/-! ### Nodes -/

/-- A table whose nodes are the children of one node each, but for the `tops`, which are children
of none yet. -/
structure Forest (nodes : Array Node) (tops : List NodeIndex) : Prop where
  shaped : ∀ (i : NodeIndex) (n : Node), nodes[i]? = some n → n.Shaped
  below : ∀ (i : NodeIndex) (n : Node), nodes[i]? = some n → ∀ child ∈ n.children, child < i
  distinct : ∀ (i : NodeIndex) (n : Node), nodes[i]? = some n → n.children.Nodup
  unique : ∀ (i j : NodeIndex) (n m : Node), nodes[i]? = some n → nodes[j]? = some m →
    ∀ child ∈ n.children, child ∈ m.children → i = j
  tops_lt : ∀ top ∈ tops, top < nodes.size
  tops_nodup : tops.Nodup
  free : ∀ top ∈ tops, ∀ (i : NodeIndex) (n : Node), nodes[i]? = some n → top ∉ n.children

theorem forest_empty : Forest #[] [] := by
  constructor <;> simp

theorem eq_or_of_getElem?_push {nodes : Array Node} {n m : Node} {i : NodeIndex}
    (found : (nodes.push n)[i]? = some m) : nodes[i]? = some m ∨ i = nodes.size ∧ m = n := by
  rw [Array.getElem?_push] at found
  split at found
  next last => exact Or.inr ⟨last, (Option.some.inj found).symm⟩
  next => exact Or.inl found

section

variable {nodes : Array Node} {tops : List NodeIndex} {n : Node}
  (h : Forest nodes (tops ++ n.children))

include h

theorem Forest.lt_size_of_mem_children {child : NodeIndex} (listed : child ∈ n.children) :
    child < nodes.size :=
  h.tops_lt child (List.mem_append_right _ listed)

/-- What the node lists is free: no node of the table lists it too. -/
theorem Forest.notMem_children {child i : NodeIndex} {m : Node} (listed : child ∈ n.children)
    (stored : nodes[i]? = some m) : child ∉ m.children :=
  h.free child (List.mem_append_right _ listed) i m stored

/-- A node whose children are the last tops takes their place. -/
theorem Forest.push (shaped : n.Shaped) : Forest (nodes.push n) (tops ++ [nodes.size]) where
  shaped i m found := by
    rcases eq_or_of_getElem?_push found with old | ⟨_, rfl⟩
    · exact h.shaped i m old
    · exact shaped
  below i m found child listed := by
    rcases eq_or_of_getElem?_push found with old | ⟨rfl, rfl⟩
    · exact h.below i m old child listed
    · exact h.lt_size_of_mem_children listed
  distinct i m found := by
    rcases eq_or_of_getElem?_push found with old | ⟨_, rfl⟩
    · exact h.distinct i m old
    · exact (List.nodup_append.mp h.tops_nodup).2.1
  unique i j m k first second child here there := by
    rcases eq_or_of_getElem?_push first with old | ⟨rfl, rfl⟩
    · rcases eq_or_of_getElem?_push second with also | ⟨rfl, rfl⟩
      · exact h.unique i j m k old also child here there
      · exact absurd here (h.notMem_children there old)
    · rcases eq_or_of_getElem?_push second with also | ⟨rfl, _⟩
      · exact absurd there (h.notMem_children here also)
      · rfl
  tops_lt top listed := by
    rw [Array.size_push]
    rcases List.mem_append.mp listed with other | last
    · exact Nat.lt_succ_of_lt (h.tops_lt top (List.mem_append_left _ other))
    · exact List.mem_singleton.mp last ▸ Nat.lt_succ_self _
  tops_nodup := by
    refine List.nodup_append.mpr ⟨(List.nodup_append.mp h.tops_nodup).1, by simp, ?_⟩
    intro top other last new same
    have old := h.tops_lt top (List.mem_append_left _ other)
    exact absurd (same.trans (List.mem_singleton.mp new)) (Nat.ne_of_lt old)
  free top listed i m found here := by
    rcases List.mem_append.mp listed with other | last
    · rcases eq_or_of_getElem?_push found with old | ⟨_, rfl⟩
      · exact h.free top (List.mem_append_left _ other) i m old here
      · exact (List.nodup_append.mp h.tops_nodup).2.2 top other top here rfl
    · -- the new node is no child yet: all children are numbers within the table
      rw [List.mem_singleton.mp last] at here
      rcases eq_or_of_getElem?_push found with old | ⟨_, rfl⟩
      · exact Nat.lt_asymm (h.below i m old _ here) (Array.getElem?_eq_some_iff.mp old).1
      · exact Nat.lt_irrefl _ (h.lt_size_of_mem_children here)

end

/-- What a table keeps to, with its tops, when a node whose children are the last tops takes their
place. -/
def Growing (Keeps : Array Node → List NodeIndex → Prop) : Prop :=
  ∀ nodes tops n, Node.Shaped n → Keeps nodes (tops ++ n.children) →
    Keeps (nodes.push n) (tops ++ [nodes.size])

theorem growing_forest : Growing Forest := fun _ _ _ shaped forest => forest.push shaped

theorem addNode_fst (h : Harvest) (typeName : String) (members : Members) (children : Children) :
    (h.addNode typeName members children).1 = some h.nodes.size := by
  simp [Harvest.addNode]

/-! ### What was read -/

section

variable {read : Value → Harvest → Except TreeError (NodeRef × Harvest)} {h s : Harvest}

theorem exists_of_readList {v : Value} {rest : List Value} {rs : List NodeRef}
    (done : readList read (v :: rest) h = .ok (rs, s)) :
    ∃ r between others, read v h = .ok (r, between) ∧
      readList read rest between = .ok (others, s) ∧ rs = r :: others := by
  unfold readList at done
  split at done
  next => cases done
  next r between first =>
    split at done
    next => cases done
    next others _ later =>
      cases done
      exact ⟨r, between, others, first, later, rfl⟩

theorem exists_of_readChildren {slot : String × List Value} {rest : List (String × List Value)}
    {children : Children} (done : readChildren read (slot :: rest) h = .ok (children, s)) :
    ∃ refs between others, readList read slot.2 h = .ok (refs, between) ∧
      readChildren read rest between = .ok (others, s) ∧
      children = (slot.1, refs) :: others := by
  unfold readChildren at done
  split at done
  next => cases done
  next refs between first =>
    split at done
    next => cases done
    next others _ later =>
      cases done
      exact ⟨refs, between, others, first, later, rfl⟩

end

/-- What a node is read of: of `null` there is none, and of an object it is added behind its
children, which are read with one level less. -/
inductive NodeRead : Nat → Value → Harvest → NodeRef → Harvest → Prop where
  | null (levels : Nat) (h : Harvest) : NodeRead levels .null h none h
  | obj {levels : Nat} {members : Members} {typeName : String} {h between : Harvest}
    {children : Children} (typed : str? "type" members = some typeName)
    (below : readChildren (readNode levels) (childValues (NodeKind.ofType typeName) members) h =
      .ok (children, between)) :
    NodeRead (levels + 1) (.obj members) h (between.addNode typeName members children).1
      (between.addNode typeName members children).2

theorem nodeRead_of_readNode {levels : Nat} {v : Value} {h s : Harvest} {r : NodeRef}
    (done : readNode levels v h = .ok (r, s)) : NodeRead levels v h r s := by
  unfold readNode at done
  split at done
  next =>
    cases done
    exact .null levels h
  next => cases done
  next =>
    split at done
    next => cases done
    next typed =>
      split at done
      next => cases done
      next below =>
        cases done
        exact .obj typed below
  next => cases done

/-! ### What reading keeps -/

variable {Keeps : Array Node → List NodeIndex → Prop}

/-- Reading adds one top, or nothing. -/
def Grows (Keeps : Array Node → List NodeIndex → Prop)
    (read : Value → Harvest → Except TreeError (NodeRef × Harvest)) : Prop :=
  ∀ v h r s, read v h = .ok (r, s) → ∀ tops, Keeps h.nodes tops →
    Keeps s.nodes (tops ++ r.toList)

theorem Growing.addNode (growing : Growing Keeps) {h : Harvest} {typeName : String}
    {members : Members} {children : Children} {tops : List NodeIndex}
    (keeps : Keeps h.nodes (tops ++ children.all.filterMap id)) :
    Keeps (h.addNode typeName members children).2.nodes
      (tops ++ (h.addNode typeName members children).1.toList) := by
  simp only [Harvest.addNode, nodes_leading, Option.toList_some]
  refine growing _ _ _ ⟨?_, ?_, rfl, rfl⟩ keeps
  · exact finalKind_mem_kinds h _ typeName members children
  · intro v listed
    exact List.mem_filterMap.mpr ⟨some v, mem_all_of_mem_refs_payload listed, rfl⟩

variable {read : Value → Harvest → Except TreeError (NodeRef × Harvest)}

theorem Grows.readList (grows : Grows Keeps read) {values : List Value} {h s : Harvest}
    {rs : List NodeRef} (done : readList read values h = .ok (rs, s)) {tops : List NodeIndex}
    (keeps : Keeps h.nodes tops) : Keeps s.nodes (tops ++ rs.filterMap id) := by
  induction values generalizing h rs tops with
  | nil =>
    cases done
    simpa using keeps
  | cons v rest ih =>
    obtain ⟨r, between, others, first, later, rfl⟩ := exists_of_readList done
    have next := ih later (grows v h r between first tops keeps)
    cases r <;> simpa using next

theorem Grows.readChildren (grows : Grows Keeps read) {slots : List (String × List Value)}
    {h s : Harvest} {children : Children} (done : readChildren read slots h = .ok (children, s))
    {tops : List NodeIndex} (keeps : Keeps h.nodes tops) :
    Keeps s.nodes (tops ++ children.all.filterMap id) := by
  induction slots generalizing h children tops with
  | nil =>
    cases done
    simpa [Children.all] using keeps
  | cons slot rest ih =>
    obtain ⟨refs, _, others, first, later, rfl⟩ := exists_of_readChildren done
    have next := ih later (grows.readList first keeps)
    simpa [Children.all, List.append_assoc] using next

theorem Growing.readNode (growing : Growing Keeps) (levels : Nat) :
    Grows Keeps (readNode levels) := by
  induction levels with
  | zero =>
    intro v h r s done tops keeps
    cases nodeRead_of_readNode done with
    | null => simpa using keeps
  | succ levels ih =>
    intro v h r s done tops keeps
    cases nodeRead_of_readNode done with
    | null => simpa using keeps
    | obj _ below => exact growing.addNode (ih.readChildren below keeps)

end Estree

/-! ### Trees -/

/-- A tree that was grown from its leaves: every node is the child of one node at most, which it is
linked to, and its payload suits its kind and refers to children only. -/
structure Tree.Grown (t : Tree) : Prop where
  shaped : ∀ (i : NodeIndex) (payload : Payload), t.payload? (some i) = some payload →
    (∃ kind ∈ payload.kinds, t.kind? (some i) = some kind) ∧
      ∀ v, some v ∈ payload.refs → v ∈ t.childrenOf i
  below : ∀ p, ∀ child ∈ t.childrenOf p, child < p
  distinct : ∀ p, (t.childrenOf p).Nodup
  unique : ∀ p q, ∀ child ∈ t.childrenOf p, child ∈ t.childrenOf q → p = q
  rooted : ∀ root, t.root = some root → ∀ p, root ∉ t.childrenOf p
  linked : ∀ (i p : NodeIndex), t.parent (some i) = some p →
    i ∈ t.childrenOf p ∧ t.scope (some i) = t.scopeBelow p (t.scope (some p))
  outermost : ∀ i : NodeIndex, t.parent (some i) = none → t.scope (some i) = none

namespace Tree

/-- The same nodes, with other comments in front of them. -/
def Recommented (nodes others : Array Node) : Prop :=
  ∀ i : NodeIndex, ∃ comments, others[i]? = (nodes[i]?).map fun n => { n with comments }

theorem Recommented.sameShape {nodes others : Array Node} (same : Recommented nodes others) :
    SameShape nodes others := by
  intro i
  obtain ⟨comments, entry⟩ := same i
  rw [entry, Option.map_map]
  rfl

section

variable {t u : Tree} (same : Recommented t.nodes u.nodes)

include same

theorem Recommented.parent (r : NodeRef) : u.parent r = t.parent r := by
  cases r with
  | none => rfl
  | some i =>
    obtain ⟨comments, entry⟩ := same i
    simp only [Tree.parent, Tree.node?, Option.bind_some, entry, Option.bind_map]
    rfl

theorem Recommented.scope (r : NodeRef) : u.scope r = t.scope r := by
  cases r with
  | none => rfl
  | some i =>
    obtain ⟨comments, entry⟩ := same i
    simp only [Tree.scope, Tree.node?, Option.bind_some, entry, Option.bind_map]
    rfl

/-- What stands in front of the nodes has no part in how they grow. -/
theorem Recommented.grown (top : u.root = t.root) (h : t.Grown) : u.Grown where
  shaped := by
    simpa only [same.sameShape.payload?, same.sameShape.kind?, same.sameShape.childrenOf] using
      h.shaped
  below := by simpa only [same.sameShape.childrenOf] using h.below
  distinct := by simpa only [same.sameShape.childrenOf] using h.distinct
  unique := by simpa only [same.sameShape.childrenOf] using h.unique
  rooted := by simpa only [same.sameShape.childrenOf, top] using h.rooted
  linked := by
    simpa only [same.parent, same.sameShape.childrenOf, same.scope, same.sameShape.scopeBelow] using
      h.linked
  outermost := by simpa only [same.parent, same.scope] using h.outermost

end

theorem recommented_modify {nodes others : Array Node} (h : Recommented nodes others)
    (i : NodeIndex) (index : Nat) : Recommented nodes
      (others.modify i fun n => { n with comments := n.comments ++ [index] }) := by
  intro j
  obtain ⟨comments, same⟩ := h j
  rw [Array.getElem?_modify, same]
  split
  next => exact ⟨comments ++ [index], by cases nodes[j]? <;> rfl⟩
  next => exact ⟨comments, rfl⟩

theorem Recommented.refl (nodes : Array Node) : Recommented nodes nodes := by
  intro i
  cases nodes[i]? with
  | none => exact ⟨[], rfl⟩
  | some n => exact ⟨n.comments, rfl⟩

/-- Comments may be attached to one target after the other. -/
theorem Recommented.attach {nodes others : Array Node} (target? : Nat → Option NodeIndex)
    (indices : List Nat) (h : Recommented nodes others) :
    Recommented nodes (indices.foldl (fun nodes index =>
      match target? index with
      | some target => nodes.modify target fun n => { n with comments := n.comments ++ [index] }
      | none => nodes) others) := by
  induction indices generalizing others with
  | nil => exact h
  | cons index rest ih =>
    rw [List.foldl_cons]
    apply ih
    split
    · exact recommented_modify h _ index
    · exact h

theorem recommented_attachByRange (t : Tree) :
    Recommented t.nodes (Estree.attachByRange t).nodes :=
  Recommented.attach _ (List.range t.comments.size) (.refl t.nodes)

theorem lt_size_of_parent {t : Tree} {i p : NodeIndex} (linked : t.parent (some i) = some p) :
    i < t.nodes.size := by
  obtain ⟨n, stored, _⟩ := Option.bind_eq_some_iff.mp linked
  exact (Array.getElem?_eq_some_iff.mp stored).1

section

variable {t u : Tree} {found : NodeIndex → Option Link} (shape : SameShape t.nodes u.nodes)
  (links : ∀ i < t.nodes.size, u.parent (some i) = (found i).bind Link.parent ∧
    u.scope (some i) = (found i).bind Link.scope)
  (justified : ∀ i link, found i = some link → link = ⟨none, none⟩ ∨ ∃ p above,
    found p = some above ∧ i ∈ t.childrenOf p ∧ link = ⟨some p, t.scopeBelow p above.scope⟩)

include shape links justified

/-- A node whose links were found at a parent is listed by it, and lies in the scope below it. -/
theorem linked_of_links {i p : NodeIndex} (linked : u.parent (some i) = some p) :
    i ∈ u.childrenOf p ∧ u.scope (some i) = u.scopeBelow p (u.scope (some p)) := by
  have bound := shape.size ▸ lt_size_of_parent linked
  rw [(links i bound).1] at linked
  obtain ⟨link, known, linked⟩ := Option.bind_eq_some_iff.mp linked
  rcases justified i link known with rfl | ⟨q, above, outer, child, rfl⟩
  · cases linked
  · cases linked
    rw [shape.childrenOf, shape.scopeBelow, (links i bound).2, known,
      (links p (lt_size_of_child child)).2, outer]
    exact ⟨child, rfl⟩

theorem outermost_of_links {i : NodeIndex} (free : u.parent (some i) = none) :
    u.scope (some i) = none := by
  by_cases bound : i < t.nodes.size
  · rw [(links i bound).1] at free
    rw [(links i bound).2]
    cases known : found i with
    | none => rfl
    | some link =>
      rw [known] at free
      rcases justified i link known with rfl | ⟨p, _, _, _, rfl⟩
      · rfl
      · cases free
  · have outside : u.nodes[i]? = none :=
      Array.getElem?_eq_none (shape.size ▸ Nat.le_of_not_lt bound)
    rw [Tree.scope, show u.node? (some i) = none from outside, Option.bind_none]

/-- The links that are found make a grown tree of a table with one top. -/
theorem grown_of_links (forest : Estree.Forest t.nodes t.root.toList) (top : u.root = t.root) :
    u.Grown where
  shaped i payload known := by
    rw [shape.payload?] at known
    obtain ⟨n, stored, rfl⟩ := Option.map_eq_some_iff.mp known
    have shaped := forest.shaped i n stored
    refine ⟨⟨n.kind, shaped.kind, ?_⟩, fun v refers => ?_⟩
    · rw [shape.kind?, kind?, stored, Option.map_some]
    · rw [shape.childrenOf, childrenOf_eq, show t.nodes[i]? = some n from stored]
      exact shaped.refs v refers
  below p child here := by
    obtain ⟨n, stored, listed⟩ := exists_of_child (shape.childrenOf p ▸ here)
    exact forest.below p n stored _ listed
  distinct p := by
    rw [shape.childrenOf, childrenOf]
    split
    next n stored => exact forest.distinct p n stored
    next => exact List.nodup_nil
  unique p q child here there := by
    obtain ⟨n, first, here⟩ := exists_of_child (shape.childrenOf p ▸ here)
    obtain ⟨m, second, there⟩ := exists_of_child (shape.childrenOf q ▸ there)
    exact forest.unique p q n m first second child here there
  rooted root start p here := by
    obtain ⟨n, stored, listed⟩ := exists_of_child (shape.childrenOf p ▸ here)
    have isTop : root ∈ t.root.toList := by simp [← top, start]
    exact forest.free root isTop p n stored listed
  linked _ _ := linked_of_links shape links justified
  outermost _ := outermost_of_links shape links justified

end

theorem grown_link {t : Tree} (forest : Estree.Forest t.nodes t.root.toList) : t.link.Grown := by
  have shaped {i : NodeIndex} (bound : i < t.nodes.size) :
      ∃ n, t.nodes[i]? = some n ∧ n.Shaped :=
    ⟨_, Array.getElem?_eq_getElem bound, forest.shaped i _ (Array.getElem?_eq_getElem bound)⟩
  cases top : t.root with
  | none =>
    have same : t.link = t := by rw [link, top]
    rw [same]
    refine @grown_of_links t t (fun _ => none) (fun _ => rfl) ?_ nofun forest rfl
    intro i bound
    obtain ⟨n, stored, shape⟩ := shaped bound
    rw [Tree.parent, Tree.scope, show t.node? (some i) = some n from stored]
    exact ⟨shape.parent, shape.scope⟩
  | some root =>
    have bound : root < t.nodes.size := forest.tops_lt root (by simp [top])
    obtain ⟨found, linking, nodes⟩ := exists_linking top bound
    refine @grown_of_links t t.link found.link? t.sameShape_link ?_ ?_ forest t.root_link
    · intro i bound
      obtain ⟨n, stored, shape⟩ := shaped bound
      rw [Tree.parent, Tree.scope, show t.link.node? (some i) = _ from nodes i, stored,
        Option.map_some, Links.give]
      cases found.link? i with
      | none => exact ⟨shape.parent, shape.scope⟩
      | some link => exact ⟨rfl, rfl⟩
    · intro i link linked
      by_cases start : i = root
      · subst start
        exact Or.inl (Option.some.inj (linked.symm.trans linking.begun))
      · exact Or.inr (linking.justified i link linked start)

end Tree

/-- What reading a unit does: its comments are kept, its program is read behind them, and the
comments are attached by their ranges unless nodes list their own. -/
theorem Estree.exists_harvest {file : String} {v : Json.Value} {t : Tree}
    (read : Estree.ofValue file v = .ok t) :
    ∃ members program root h, program? v = .ok (members, program) ∧
      readNode (maxTreeDepth + 1) program
        (Harvest.empty.keepAll (commentList members program)).2 = .ok (root, h) ∧
      t = if h.attached || h.comments.isEmpty then
          Tree.link ⟨file, 0, h.nodes, root, h.comments⟩
        else attachByRange (Tree.link ⟨file, 0, h.nodes, root, h.comments⟩) := by
  unfold Estree.ofValue at read
  split at read
  next => cases read
  next members program found =>
    dsimp only at read
    split at read
    next => cases read
    next root h grown => exact ⟨members, program, root, h, found, grown, (Except.ok.inj read).symm⟩

/-- What is read is the root of a table that was empty before, with its links; comments may have
been attached to its nodes. -/
theorem Estree.exists_read {file : String} {v : Json.Value} {t : Tree}
    (read : Estree.ofValue file v = .ok t) :
    ∃ members program root, ∃ h s : Harvest,
      program? v = .ok (members, program) ∧ s.nodes = #[] ∧
        readNode (maxTreeDepth + 1) program s = .ok (root, h) ∧ t.root = root ∧
        Tree.Recommented (Tree.link ⟨file, 0, h.nodes, root, h.comments⟩).nodes t.nodes := by
  obtain ⟨members, program, root, h, found, grown, rfl⟩ := exists_harvest read
  have fresh := nodes_keepAll Harvest.empty (commentList members program)
  refine ⟨members, program, root, h, (Harvest.empty.keepAll (commentList members program)).2,
    found, fresh, grown, ?_⟩
  split
  · exact ⟨Tree.root_link _, .refl _⟩
  · exact ⟨Tree.root_link _, Tree.recommented_attachByRange _⟩

/-- Every tree that is read is grown. -/
theorem Estree.grown_ofValue {file : String} {v : Json.Value} {t : Tree}
    (read : Estree.ofValue file v = .ok t) : t.Grown := by
  obtain ⟨_, _, _, _, _, _, fresh, done, top, same⟩ := exists_read read
  have forest := growing_forest.readNode _ _ _ _ _ done [] (fresh ▸ forest_empty)
  exact same.grown (by rw [top, Tree.root_link]) (Tree.grown_link forest)

end Doclets
