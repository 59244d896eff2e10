import Doclets.Proofs.Registry.Lexical
import Doclets.Proofs.Tree.Nesting

/-!
Where limits cut an answer short. The question what `this` is may be handed on from scope to scope,
and the search for the owners of a property climb from assignment to assignment, as often as there
are levels in a tree; but both come to their limits before that. So the limits decide the answer in
trees that are deep enough, and not only in those whose links are wrong.
-/

namespace Doclets

namespace Tree

/-- The nodes that are searched for the owners of a property if there is no limit: a node and, as
long as the node around it is an assignment, that one, and so on. -/
inductive ClimbsAssignments (t : Tree) : NodeRef → List NodeIndex → Prop where
  | outside : ClimbsAssignments t none []
  | last {i : NodeIndex} (ends : t.isKind (t.parent (some i)) .assignmentExpression = false) :
    ClimbsAssignments t (some i) [i]
  | further {i : NodeIndex} {rest : List NodeIndex}
      (assigned : t.isKind (t.parent (some i)) .assignmentExpression = true)
      (climbs : ClimbsAssignments t (t.parent (some i)) rest) :
    ClimbsAssignments t (some i) (i :: rest)

variable {t : Tree} {node : NodeRef} {nodes : List NodeIndex} {i : NodeIndex}

/-- With a limit no more is climbed than without one. -/
theorem ClimbsAssignments.assignmentsAround (climbs : t.ClimbsAssignments node nodes)
    (limit : Nat) :
    t.assignmentsAround limit node = nodes.take limit := by
  induction climbs generalizing limit with
  | outside => cases limit <;> rfl
  | last ends =>
    cases limit with
    | zero => rfl
    | succ limit =>
      unfold Tree.assignmentsAround
      dsimp only
      rw [if_neg (Bool.eq_false_iff.mp ends), List.take_succ_cons, List.take_nil]
  | further assigned _ ih =>
    cases limit with
    | zero => rfl
    | succ limit =>
      unfold Tree.assignmentsAround
      dsimp only
      rw [if_pos assigned, ih, List.take_succ_cons]

theorem Scoped.around_of_parent (h : t.Scoped) {p : NodeIndex}
    (linked : t.parent (some i) = some p) :
    t.Around p i := .single ((h.parent i p).mp linked)

theorem Scoped.exists_climbsAssignments (h : t.Scoped) (node : NodeRef) :
    ∃ nodes, t.ClimbsAssignments node nodes := by
  have climbs : ∀ i : NodeIndex, ∃ nodes, t.ClimbsAssignments (some i) nodes := by
    refine t.forall_of_behind fun i ih => ?_
    cases assigned : t.isKind (t.parent (some i)) .assignmentExpression with
    | false => exact ⟨[i], .last assigned⟩
    | true =>
      cases linked : t.parent (some i) with
      | none =>
        rw [linked] at assigned
        cases assigned
      | some p =>
        have listed := (h.parent i p).mp linked
        obtain ⟨rest, further⟩ := ih p (lt_size_of_child listed) (h.below p i listed)
        exact ⟨i :: rest, .further assigned (linked ▸ further)⟩
  cases node with
  | none => exact ⟨[], .outside⟩
  | some i => exact climbs i

theorem Scoped.outward_of_climbs (h : t.Scoped) (climbs : t.ClimbsAssignments node nodes)
    (linked : t.parent (some i) = node) : t.Outward (i :: nodes) := by
  induction climbs generalizing i with
  | outside => exact .singleton i
  | last _ => exact .cons_cons (h.around_of_parent linked) (.singleton _)
  | further _ _ ih => exact .cons_cons (h.around_of_parent linked) (ih rfl)

end Tree

namespace Registry

variable {r : Registry} {t : Tree} {node : NodeRef} {count limit : Nat} {answer : String}

/-! ### Handing the question on -/

/-- What `this` is as far as the scope around a node knows; nothing if the scope around that one has
to be asked. -/
def thisAt? (r : Registry) (t : Tree) (node : NodeRef) : Option String :=
  match t.node? node with
  | none => some Longname.anonymous
  | some n =>
    if n.kind = .property then some (((r.ofNode? t n.parent).map Doclet.longname).getD "")
    else if n.scope.isNone then some Longname.anonymous
    else
      match r.ofNode? t (thisNode t n) with
      | none => some Longname.anonymous
      | some d => r.thisIn? t node n.kind d

/-- What `this` is at a node if there is no limit, after the question has been handed on so many
times. -/
inductive ThisAfter (r : Registry) (t : Tree) : NodeRef → Nat → String → Prop where
  | told {node : NodeRef} {answer : String} (tells : r.thisAt? t node = some answer) :
    ThisAfter r t node 0 answer
  | handedOn {node : NodeRef} {count : Nat} {answer : String} (silent : r.thisAt? t node = none)
      (after : ThisAfter r t (t.scope node) count answer) : ThisAfter r t node (count + 1) answer

theorem thisWithin_succ (r : Registry) (t : Tree) (limit : Nat) (node : NodeRef) :
    r.thisWithin t (limit + 1) node =
      (r.thisAt? t node).getD (r.thisWithin t limit (t.scope node)) := by
  unfold thisAt?
  rw [thisWithin, Tree.scope]
  cases t.node? node with
  | none => rfl
  | some n =>
    dsimp only
    split_ifs
    · rfl
    · rfl
    · cases r.ofNode? t (thisNode t n) with
      | none => rfl
      | some d =>
        dsimp only
        cases r.thisIn? t node n.kind d <;> rfl

/-- A node that hands the question on has a scope around it. -/
theorem exists_scope_of_silent (silent : r.thisAt? t node = none) : ∃ s, t.scope node = some s := by
  unfold thisAt? at silent
  split at silent
  next => cases silent
  next n found =>
    split_ifs at silent with _ inner
    rw [Tree.scope, found]
    exact Option.ne_none_iff_exists'.mp (mt Option.isNone_iff_eq_none.mpr inner)

/-- With a limit the answer is the same until the question has been handed on too often. -/
theorem ThisAfter.thisWithin (after : r.ThisAfter t node count answer) (limit : Nat) :
    r.thisWithin t limit node = if count < limit then answer else Longname.anonymous := by
  induction after generalizing limit with
  | told tells =>
    cases limit with
    | zero => rfl
    | succ limit => rw [thisWithin_succ, tells, if_pos (Nat.succ_pos limit), Option.getD_some]
  | @handedOn _ count _ silent _ ih =>
    cases limit with
    | zero => rfl
    | succ limit =>
      rw [thisWithin_succ, silent, Option.getD_none, ih]
      simp only [Nat.add_lt_add_iff_right]

theorem ThisAfter.count_le (after : r.ThisAfter t node count answer) :
    count ≤ (t.scopesAround count node).length := by
  induction after with
  | told _ => exact Nat.zero_le _
  | handedOn silent _ ih =>
    obtain ⟨s, linked⟩ := exists_scope_of_silent silent
    rw [Tree.scopesAround, linked]
    rw [linked] at ih
    exact Nat.succ_le_succ ih

theorem exists_thisAfter (h : t.Scoped) (r : Registry) (node : NodeRef) :
    ∃ count answer, r.ThisAfter t node count answer := by
  have told_or (node : NodeRef)
      (ih : ∀ s, t.scope node = some s → ∃ count answer, r.ThisAfter t (some s) count answer) :
      ∃ count answer, r.ThisAfter t node count answer := by
    cases tells : r.thisAt? t node with
    | some answer => exact ⟨0, answer, .told tells⟩
    | none =>
      obtain ⟨s, linked⟩ := exists_scope_of_silent tells
      obtain ⟨count, answer, after⟩ := ih s linked
      exact ⟨count + 1, answer, .handedOn tells (linked ▸ after)⟩
  have everywhere : ∀ i : NodeIndex, ∃ count answer, r.ThisAfter t (some i) count answer := by
    refine t.forall_of_behind fun i ih => told_or (some i) fun s linked => ?_
    have around := ((h.scope i s).mp linked).around
    obtain ⟨p, listed, _⟩ := Relation.TransGen.head'_iff.mp around
    exact ih s (Tree.lt_size_of_child listed) (around.lt h.below)
  cases node with
  | none => exact told_or none nofun
  | some i => exact everywhere i

/-! ### Trees that were read -/

/-- What the limits let through of a tree that was read. The longname for `this` is the one that
there is without a limit exactly if the question need not be handed on more often than the limit
allows, or has no answer anyway; the owners of a property are all that there are exactly if no node
beyond the limit has a doclet. -/
theorem limits_ofValue {file : String} {v : Json.Value} {parsed : Tree}
    (read : Estree.ofValue file v = .ok parsed) (unit : Nat) (r : Registry) (node : NodeRef) :
    let t := parsed.inUnit unit
    (∃ count answer, r.ThisAfter t node count answer) ∧
    (∀ count answer, r.ThisAfter t node count answer → count ≤ maxTreeDepth ∧
      (r.this t node = answer ↔ count ≤ maxThisDepth ∨ answer = Longname.anonymous)) ∧
    (∃ nodes, t.ClimbsAssignments (t.parent node) nodes) ∧
    ∀ nodes, t.ClimbsAssignments (t.parent node) nodes → nodes.length ≤ maxTreeDepth ∧
      (r.propertyOwners t node = nodes.filterMap (fun i => r.idOfNode? t (some i)) ↔
        ∀ i ∈ nodes.drop maxOwnerWalk, r.idOfNode? t (some i) = none) := by
  intro t
  have h : t.Scoped := (Tree.scoped_ofValue read).inUnit unit
  refine ⟨exists_thisAfter h r node, fun count answer after => ⟨?_, ?_⟩,
    h.exists_climbsAssignments _, fun nodes climbs => ⟨?_, ?_⟩⟩
  · exact Nat.le_trans after.count_le (h.length_scopesAround_le count node)
  · rw [Registry.this, after.thisWithin]
    split_ifs with few
    · exact iff_of_true rfl (Or.inl (Nat.le_of_lt_succ few))
    · exact eq_comm.trans (or_iff_right (mt Nat.lt_succ_of_le few)).symm
  · cases node with
    | none =>
      cases climbs
      exact Nat.zero_le _
    | some i => exact (h.outward_of_climbs climbs rfl).length_le h.levels
  · rw [propertyOwners, climbs.assignmentsAround]
    conv => lhs; rhs; rw [← List.take_append_drop maxOwnerWalk nodes, List.filterMap_append]
    rw [List.self_eq_append_right, List.filterMap_eq_nil_iff]

/-- The class of `Estree.cartUnit` and the function of its method, which has no name. -/
def withMethod : Registry :=
  let unnamed : Doclet := { Doclet.empty with longname := Longname.anonymous }
  (withCart.insert unnamed).2.register (.node ⟨0, some 3⟩) 2

/-- The function hands the question on to the class. -/
theorem limits_cartUnit :
    Estree.ofValue "cart.js" Estree.cartUnit = .ok (Estree.treeOf "cart.js" Estree.cartUnit) ∧
    let t := (Estree.treeOf "cart.js" Estree.cartUnit).inUnit 0
    withMethod.ThisAfter t (some 2) 1 "Cart" ∧ withMethod.this t (some 2) = "Cart" := by
  have read : Estree.ofValue "cart.js" Estree.cartUnit =
      .ok (Estree.treeOf "cart.js" Estree.cartUnit) := rfl
  have after : withMethod.ThisAfter ((Estree.treeOf "cart.js" Estree.cartUnit).inUnit 0) (some 2) 1
      "Cart" := .handedOn (by decide +kernel) (.told (by decide +kernel))
  have few : 1 ≤ maxThisDepth := by decide
  exact ⟨read, after, ((limits_ofValue read 0 withMethod (some 2)).2.1 1 "Cart" after).2.mpr
    (Or.inl few)⟩

end Registry

/-! ### Trees that are deep enough -/

namespace Tree

/-- Nodes each of which is the child of the next, and the next an assignment, are all climbed. -/
theorem climbsAssignments_of_column {t : Tree} {top : Nat}
    (column : ∀ i < top, t.parent (some i) = some (i + 1))
    (assigned : ∀ i < top, 0 < i → t.isKind (some (i + 1)) .assignmentExpression = true)
    (ends : t.isKind (t.parent (some top)) .assignmentExpression = false) {count : Nat}
    (few : count < top) :
    t.ClimbsAssignments (some (top - count)) (List.range' (top - count) (count + 1)) := by
  induction count with
  | zero => exact .last ends
  | succ count ih =>
    have linked := column (top - (count + 1)) (by omega)
    have outer := assigned (top - (count + 1)) (by omega) (by omega)
    have next : top - (count + 1) + 1 = top - count := by omega
    rw [next] at linked outer
    rw [List.range'_succ, next]
    exact .further (linked ▸ outer) (linked ▸ ih (by omega))

end Tree

namespace Registry

/-- Nodes that each hand the question on to the next hand it on to the last of them. -/
theorem thisAfter_of_column {r : Registry} {t : Tree} {top : Nat} {answer : String}
    (column : ∀ i < top, t.scope (some i) = some (i + 1))
    (silent : ∀ i < top, r.thisAt? t (some i) = none)
    (tells : r.thisAt? t (some top) = some answer) {count : Nat} (few : count ≤ top) :
    r.ThisAfter t (some (top - count)) count answer := by
  induction count with
  | zero => exact .told tells
  | succ count ih =>
    have linked := column (top - (count + 1)) (by omega)
    rw [show top - (count + 1) + 1 = top - count by omega] at linked
    exact .handedOn (silent _ (by omega)) (linked ▸ ih (by omega))

/-- A node in a column of arrow functions asks the next one. -/
theorem thisAt?_of_arrow {r : Registry} {t : Tree} {i s : NodeIndex} {kind : NodeKind} {d : Doclet}
    (shaped : t.Grown) (known : t.kind? (some i) = some kind) (other : kind ≠ .property)
    (parent : t.parent (some i) = some s) (scope : t.scope (some i) = some s)
    (arrow : t.kind? (some s) = some .arrowFunctionExpression)
    (documented : r.ofNode? t (some s) = some d) :
    r.thisAt? t (some i) = r.thisIn? t (some i) kind d := by
  have plain : t.isConstructor (some s) = false := by
    unfold Tree.isConstructor
    split
    next found =>
      obtain ⟨⟨kind, suits, also⟩, _⟩ := shaped.shaped s _ found
      rw [arrow] at also
      cases also
      simp [Payload.kinds] at suits
    next => rfl
  obtain ⟨n, found, rfl⟩ := Option.map_eq_some_iff.mp known
  rw [Tree.parent, found] at parent
  rw [Tree.scope, found] at scope
  have asked : thisNode t n = some s := by
    unfold thisNode
    rw [show n.parent = some s from parent, plain]
    exact scope
  have inside : ¬n.scope.isNone := by
    rw [show n.scope = some s from scope]
    exact Bool.false_ne_true
  unfold thisAt?
  rw [found]
  dsimp only
  rw [if_neg other, if_neg inside, asked, documented]

/-- A doclet is registered for each of the first nodes but the very first. -/
def registerFirst (r : Registry) (id : DocletId) : Nat → Registry
  | 0 => r
  | last + 1 => (r.registerFirst id last).register (.node ⟨0, some (last + 1)⟩) id

theorem doclets_registerFirst (r : Registry) (id : DocletId) (last : Nat) :
    (r.registerFirst id last).doclets = r.doclets := by
  induction last with
  | zero => rfl
  | succ last ih => exact ih

theorem latest?_register_self (r : Registry) (key : ScopeKey) (id : DocletId) :
    (r.register key id).byNode.latest? key = some id := by
  rw [History.latest?_eq_getLast?, register, History.all_put_self, List.getLast?_concat]

theorem latest?_register_of_ne (r : Registry) {key other : ScopeKey} (ne : key ≠ other)
    (id : DocletId) : (r.register key id).byNode.latest? other = r.byNode.latest? other := by
  rw [History.latest?_eq_getLast?, register, History.all_put_of_ne _ ne,
    ← History.latest?_eq_getLast?]

theorem latest?_registerFirst (r : Registry) (id : DocletId) {i last : Nat} (low : 0 < i)
    (high : i ≤ last) :
    (r.registerFirst id last).byNode.latest? (.node ⟨0, some i⟩) = some id := by
  induction last with
  | zero => omega
  | succ last ih =>
    by_cases same : i = last + 1
    · rw [same]
      exact latest?_register_self _ _ id
    · have ne : ScopeKey.node ⟨0, some (last + 1)⟩ ≠ .node ⟨0, some i⟩ := by
        simpa using Ne.symm same
      exact (latest?_register_of_ne _ ne id).trans (ih (by omega))

end Registry

/-! ### Deep units -/

namespace DeepUnits

open Estree (programOf wrapAgain)

/-- `() => () => ... => this`, with so many functions and one more. -/
def arrows (depth : Nat) : Json.Value :=
  programOf (wrapAgain "ArrowFunctionExpression" "body" (depth + 1)
    (.obj [("type", .str "ThisExpression")]))

def unnamed : Doclet := { Doclet.empty with longname := Longname.anonymous, undocumented := true }

def namespaced : Doclet := { Doclet.empty with thisName := some "ns" }

/-- The functions are registered without a name, but for the outermost, which says what `this`
is. -/
def arrowDoclets (depth : Nat) : Registry :=
  (((Registry.empty.insert unnamed).2.insert namespaced).2.registerFirst 1 depth).register
    (.node ⟨0, some (depth + 1)⟩) 2

variable {depth : Nat} {t : Tree}

theorem doclets_arrowDoclets (depth : Nat) : (arrowDoclets depth).doclets =
    ((Registry.empty.insert unnamed).2.insert namespaced).2.doclets :=
  Registry.doclets_registerFirst _ 1 depth

theorem ofNode?_unnamed {i : Nat} (low : 0 < i) (high : i ≤ depth) :
    (arrowDoclets depth).ofNode? (t.inUnit 0) (some i) = some unnamed := by
  have ne : ScopeKey.node ⟨0, some (depth + 1)⟩ ≠ .node ⟨0, some i⟩ := by
    intro same
    cases same
    exact Nat.lt_irrefl depth high
  have found : (arrowDoclets depth).idOfNode? (t.inUnit 0) (some i) = some 1 :=
    (Registry.latest?_register_of_ne _ ne 2).trans (Registry.latest?_registerFirst _ 1 low high)
  rw [Registry.ofNode?, if_neg (by simp), found, Option.map_some, Registry.doclet,
    doclets_arrowDoclets]
  rfl

theorem ofNode?_outermost (depth : Nat) : (arrowDoclets depth).ofNode? (t.inUnit 0)
    (some (depth + 1)) = some namespaced := by
  have found : (arrowDoclets depth).idOfNode? (t.inUnit 0) (some (depth + 1)) = some 2 :=
    Registry.latest?_register_self _ _ 2
  rw [Registry.ofNode?, if_neg (by simp), found, Option.map_some, Registry.doclet,
    doclets_arrowDoclets]
  rfl

/-- The functions hand the question what `this` is on to the outermost. -/
theorem thisAfter_arrows (fits : depth + 2 ≤ maxTreeDepth) :
    ∃ t, Estree.ofValue "arrows.js" (arrows depth) = .ok t ∧
      (arrowDoclets depth).ThisAfter (t.inUnit 0) (some 0) depth "ns" := by
  obtain ⟨levels, enough⟩ := Nat.exists_eq_add_of_le' fits
  have leaf : Estree.readNode (levels + 1) (.obj [("type", .str "ThisExpression")]) .empty =
      .ok (some 0, (Estree.Harvest.addNode .empty "ThisExpression"
        [("type", .str "ThisExpression")] []).2) := rfl
  obtain ⟨t, read, column, _, first⟩ := Estree.exists_ofValue_wrapAgain Estree.wraps_arrow
    (show levels + 1 + (depth + 1) = maxTreeDepth by omega) leaf rfl "arrows.js"
  have h := Tree.scoped_ofValue read
  have arrow (i : Nat) (high : i ≤ depth) : t.kind? (some (i + 1)) = some .arrowFunctionExpression ∧
      i ∈ t.childrenOf (i + 1) := column i (Nat.zero_le i) (by omega)
  have scope (i : Nat) (high : i ≤ depth) : t.scope (some i) = some (i + 1) :=
    h.scope_of_listed (arrow i high).2 ⟨_, (arrow i high).1, rfl⟩
  have known (i : Nat) (high : i ≤ depth) :
      ∃ kind, t.kind? (some i) = some kind ∧ kind ≠ .property := by
    cases i with
    | zero => exact ⟨_, (first 0 _ rfl).1, by decide⟩
    | succ i => exact ⟨_, (arrow i (by omega)).1, by decide⟩
  have asks (i : Nat) (high : i ≤ depth) (d : Doclet)
      (documented : (arrowDoclets depth).ofNode? (t.inUnit 0) (some (i + 1)) = some d) :
      ∃ kind, (arrowDoclets depth).thisAt? (t.inUnit 0) (some i) =
        (arrowDoclets depth).thisIn? (t.inUnit 0) (some i) kind d := by
    obtain ⟨kind, known, other⟩ := known i high
    refine ⟨kind, Registry.thisAt?_of_arrow (t := t.inUnit 0) ?_ known other ?_ (scope i high)
      (arrow i high).1 documented⟩
    · exact @Tree.Recommented.grown t (t.inUnit 0) (.refl t.nodes) rfl (Estree.grown_ofValue read)
    · exact (h.parent i (i + 1)).mpr (arrow i high).2
  have tells : (arrowDoclets depth).thisAt? (t.inUnit 0) (some depth) = some "ns" := by
    obtain ⟨kind, same⟩ := asks depth (Nat.le_refl _) _ (ofNode?_outermost depth)
    exact same
  have silent (i : Nat) (high : i < depth) :
      (arrowDoclets depth).thisAt? (t.inUnit 0) (some i) = none := by
    obtain ⟨kind, same⟩ := asks i (Nat.le_of_lt high) _ (ofNode?_unnamed (Nat.succ_pos i) high)
    exact same
  have after := Registry.thisAfter_of_column (t := t.inUnit 0)
    (fun i high => scope i (Nat.le_of_lt high)) silent tells (Nat.le_refl depth)
  rw [Nat.sub_self] at after
  exact ⟨t, read, after⟩

/-- `a = a = ... = { p }`, with so many assignments. -/
def aliases (depth : Nat) : Json.Value :=
  programOf (wrapAgain "AssignmentExpression" "right" depth (.obj
    [("type", .str "ObjectExpression"),
    ("properties", .arr [.obj [("type", .str "Property")]])]))

/-- The outermost assignment is registered. -/
def aliasDoclets (depth : Nat) : Registry :=
  (Registry.empty.insert unnamed).2.register (.node ⟨0, some (depth + 1)⟩) 1

/-- The search for the owners of the property climbs through all the assignments. -/
theorem climbs_aliases (fits : depth + 2 ≤ maxTreeDepth) :
    ∃ t, Estree.ofValue "aliases.js" (aliases depth) = .ok t ∧
      (t.inUnit 0).ClimbsAssignments ((t.inUnit 0).parent (some 0))
        (List.range' 1 (depth + 1)) := by
  obtain ⟨levels, enough⟩ := Nat.exists_eq_add_of_le' fits
  obtain ⟨s, literal, size, n, stored, only⟩ : ∃ s, Estree.readNode (levels + 2)
      (.obj [("type", .str "ObjectExpression"),
        ("properties", .arr [.obj [("type", .str "Property")]])]) .empty = .ok (some 1, s) ∧
      s.nodes.size = 2 ∧ ∃ n, s.nodes[1]? = some n ∧ n.children = [0] := ⟨_, rfl, rfl, _, rfl, rfl⟩
  obtain ⟨t, read, column, ⟨program, last⟩, first⟩ := Estree.exists_ofValue_wrapAgain
    Estree.wraps_assignment (show levels + 2 + depth = maxTreeDepth by omega) literal
    (show 1 + 1 = s.nodes.size from size.symm) "aliases.js"
  have h := Tree.scoped_ofValue read
  have parent (i : Nat) (high : i ≤ depth) : t.parent (some i) = some (i + 1) := by
    refine (h.parent i (i + 1)).mpr ?_
    cases i with
    | zero =>
      rw [(first 1 n stored).2, only]
      exact List.mem_singleton_self 0
    | succ i => exact (column (i + 1) (by omega) (by omega)).2
  have assigned (i : Nat) (low : 0 < i) (high : i ≤ depth) :
      t.isKind (some (i + 1)) .assignmentExpression = true :=
    decide_eq_true (column i low (by omega)).1
  have top : t.parent (some (depth + 1)) = some (depth + 2) := by
    rw [Nat.add_comm 1 depth] at last
    exact (h.parent _ _).mpr last
  have ends : t.isKind (t.parent (some (depth + 1))) .assignmentExpression = false := by
    rw [Nat.add_comm 1 depth] at program
    rw [top, Tree.isKind, program]
    rfl
  have climbs := Tree.climbsAssignments_of_column (t := t.inUnit 0)
    (fun i high => parent i (Nat.le_of_lt_succ high))
    (fun i high low => assigned i low (Nat.le_of_lt_succ high)) ends (Nat.lt_succ_self depth)
  refine ⟨t, read, ?_⟩
  rw [show (t.inUnit 0).parent (some 0) = some 1 from parent 0 (Nat.zero_le _)]
  simpa using climbs

/-- What the limits are the end of. -/
theorem limits_decide :
    (∃ t, Estree.ofValue "arrows.js" (arrows (maxThisDepth + 1)) = .ok t ∧
      ∃ r : Registry, ∃ count answer, r.ThisAfter (t.inUnit 0) (some 0) count answer ∧
        r.this (t.inUnit 0) (some 0) ≠ answer) ∧
    ∃ t, Estree.ofValue "aliases.js" (aliases maxOwnerWalk) = .ok t ∧
      ∃ r : Registry, ∃ nodes,
        (t.inUnit 0).ClimbsAssignments ((t.inUnit 0).parent (some 0)) nodes ∧
        r.propertyOwners (t.inUnit 0) (some 0) ≠
          nodes.filterMap fun i => r.idOfNode? (t.inUnit 0) (some i) := by
  constructor
  · obtain ⟨t, read, after⟩ := thisAfter_arrows (show maxThisDepth + 1 + 2 ≤ maxTreeDepth by decide)
    refine ⟨t, read, _, _, _, after, fun same => ?_⟩
    have cut := ((Registry.limits_ofValue read 0 _ (some 0)).2.1 _ _ after).2.mp same
    exact absurd cut (by decide)
  · obtain ⟨t, read, climbs⟩ := climbs_aliases (show maxOwnerWalk + 2 ≤ maxTreeDepth by decide)
    refine ⟨t, read, aliasDoclets maxOwnerWalk, _, climbs, fun same => ?_⟩
    have cut := ((Registry.limits_ofValue read 0 _ (some 0)).2.2.2 _ climbs).2.mp same
    have missed := cut (maxOwnerWalk + 1) (by
      rw [List.drop_range', List.mem_range'_1]
      decide)
    have found : (aliasDoclets maxOwnerWalk).idOfNode? (t.inUnit 0) (some (maxOwnerWalk + 1)) =
        some 1 := Registry.latest?_register_self _ _ 1
    rw [found] at missed
    cases missed

end DeepUnits

end Doclets
