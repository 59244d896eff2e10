import Doclets.Proofs.Pipeline.Joining
import Doclets.Proofs.Pipeline.PrototypeMembers

/-!
What enumerations have collected when the walk of a unit ends. The doclet of a literal, or of an
assignment around it, is registered by the one symbol that stands for that node, without members;
from then on each stop of the walk adds at most one copy. So an enumeration has one copy for each
property with doclets that looks for its owners at its node, in the order of the walk.

A property looks for them wherever it stands. Those of a pattern that is assigned to climb to the
same assignments as those of the literal on the other side, and become members as well.
-/

namespace Doclets

namespace Tree

variable {t : Tree} {a o x : NodeIndex} {nodes : List NodeIndex} {rest : List Stop}

/-- A literal and the assignments around it are no functions, and no symbols of their own. -/
theorem Grown.plain_of_climbs (h : t.Grown) (literal : t.isKind (some o) .objectExpression = true)
    (climbs : t.ClimbsAssignments (some o) nodes) (listed : x ∈ nodes) :
    (∀ code, Symbol.ofNode? t (some x) = some code → code.node ≠ some x) ∧
      ∃ kind, t.kind? (some x) = some kind ∧ kind.isFunction = false := by
  rcases climbs.cases listed with same | assigned
  · obtain rfl : o = x := Option.some.inj same
    have kind : t.kind? (some o) = some .objectExpression := of_decide_eq_true literal
    refine ⟨fun code symbol => ?_, _, kind, rfl⟩
    rw [symbol_of_plain kind rfl] at symbol
    cases symbol
  · have kind : t.kind? (some x) = some .assignmentExpression := of_decide_eq_true assigned
    refine ⟨fun code symbol here => ?_, _, kind, rfl⟩
    obtain ⟨n, stored, own⟩ := Option.map_eq_some_iff.mp kind
    have payload : t.payload? (some x) = some n.payload := congrArg (Option.map Node.payload) stored
    obtain ⟨⟨kind', suits, also⟩, _⟩ := h.shaped x n.payload payload
    obtain rfl := Option.some.inj (kind.symm.trans also)
    obtain ⟨operator, left, right, shape⟩ :
        ∃ operator left right, n.payload = .assignment operator left right := by
      cases shape : n.payload <;> rw [shape] at suits <;> simp [Payload.kinds] at suits ⊢
    rw [shape] at payload
    obtain ⟨_, known⟩ := h.symbol_of_assignment payload
    obtain rfl := Option.some.inj (known.symm.trans symbol)
    have child := (h.shaped x _ payload).2 x (by
      rw [show right = some x from here]
      simp [Payload.refs])
    exact absurd (h.below x x child) (Nat.lt_irrefl x)

/-- Only the node that lists it stands for a node that is no symbol of its own. -/
theorem Grown.only_symbol (h : t.Grown) {code : Symbol}
    (apart : ∀ code, Symbol.ofNode? t (some x) = some code → code.node ≠ some x)
    (symbol : Symbol.ofNode? t (some a) = some code) (here : code.node = some x) :
    x ∈ t.childrenOf a ∧
      ∀ j other, Symbol.ofNode? t (some j) = some other → other.node = some x → j = a := by
  have child {j : NodeIndex} {other : Symbol} (symbol : Symbol.ofNode? t (some j) = some other)
      (here : other.node = some x) : x ∈ t.childrenOf j := by
    rcases h.node_of_symbol symbol here with rfl | child
    · exact absurd here (apart other symbol)
    · exact child
  refine ⟨child symbol here, fun j other known also => ?_⟩
  exact h.unique j a x (child known also) (child symbol here)

/-- What only one symbol stands for, no other symbol stands for behind it. -/
theorem Grown.apart_behind (h : t.Grown)
    (only : ∀ j code, Symbol.ofNode? t (some j) = some code → code.node = some x → j = a)
    (split : t.stops = t.stopsBefore a ++ .node a :: rest) (j : NodeIndex)
    (listed : .node j ∈ rest) (code : Symbol) (symbol : Symbol.ofNode? t (some j) = some code) :
    code.node ≠ some x := by
  intro here
  obtain rfl := only j code symbol here
  exact h.not_passed_again split listed

end Tree

/-! ### What a symbol registers -/

namespace Walk

open Watchers (documenting)

variable {walk : Walk (Option String)} {file : String} {i x : NodeIndex} {code : Symbol}

/-- A symbol with doclets registers the last one of them, which is new and has no members. -/
theorem exists_registered (anchored : walk.registry.Anchored)
    (symbol : Symbol.ofNode? walk.tree (some i) = some code) (makes : walk.made file i ≠ []) :
    ∃ followed id noted, walk.registry.Retains followed ∧ walk.registry.doclets.size ≤ id ∧
      id < followed.doclets.size ∧ (followed.doclet id).properties = [] ∧
      (documenting.passNode file i walk).2.registry =
        followed.registerNode walk.tree code.node (some id) noted := by
  cases found : Watchers.symbolAt? walk.tree file i walk.registry with
  | none => exact absurd (Walk.made_of_plain found) makes
  | some symbolFound =>
    obtain ⟨event, followUps, r⟩ := symbolFound
    have made := Walk.made_of_symbol found
    have prepared := Watchers.retains_symbolAt? found
    obtain ⟨more, last⟩ := Watchers.stored_documenting (walk.made file i) r walk.state
    have kept := documenting.retains_register (walk.made file i) r walk.state
    have node := (Watchers.code_symbolAt? symbol found).2
    rw [Watchers.passNode_documenting found]
    dsimp only
    rw [last makes, node]
    generalize (documenting.register (walk.made file i) r walk.state).2.2.1 = stored at more kept
    obtain ⟨new, bound, newest⟩ := Registry.doclet_newest more makes
    have begun : (stored.doclet stored.newest).properties = [] :=
      Documenter.properties_of_mem_ofSymbol (made ▸ List.mem_of_getLast? newest)
    have follows := Watchers.retains_follow_all walk.tree (some event.node) event.code.name
      stored.newest followUps stored
    refine ⟨_, stored.newest, event.code, (prepared.trans kept).trans follows,
      Nat.le_trans prepared.size_le new, Nat.lt_of_lt_of_le bound follows.size_le, ?_, rfl⟩
    cases property : walk.tree.isKind (some i) .property with
    | false =>
      have plain := (Watchers.keepsEnums_symbolAt? found).2 property
      have same := (Watchers.keepsEnums_follow_all walk.tree (some event.node) event.code.name
        stored.newest plain stored).same stored.newest bound
      rw [same.properties, begun]
    | true =>
      obtain ⟨_, rfl, rfl⟩ := Watchers.symbolAt?_property property found
      have apart : stored.newest ∉ stored.propertyOwners walk.tree (some event.node) := by
        unfold Registry.propertyOwners Registry.idOfNode?
        rw [kept.byNode]
        exact newest_notMem_owners anchored new _
      have becomes := (Registry.member_foldl_joinEnumOf bound apart).1
      rcases becomes with same | ⟨types, joined⟩
      · exact (congrArg Doclet.properties same).trans begun
      · exact (congrArg Doclet.properties joined).trans begun

theorem exists_caches (anchored : walk.registry.Anchored)
    (symbol : Symbol.ofNode? walk.tree (some i) = some code) (makes : walk.made file i ≠ [])
    (here : code.node = some x) (fresh : walk.registered x = []) :
    ∃ e, (documenting.passNode file i walk).2.Caches x e ∧
      ((documenting.passNode file i walk).2.registry.doclet e).properties = [] := by
  obtain ⟨followed, id, noted, kept, new, bound, properties, done⟩ :=
    exists_registered anchored symbol makes
  have tree : (documenting.passNode file i walk).2.tree = walk.tree :=
    (Watchers.pass_documenting file walk (.node i)).2
  have same (y : NodeIndex) : followed.registered walk.tree (some y) = walk.registered y := by
    unfold Registry.registered Walk.registered
    rw [kept.byNode]
  refine ⟨id, ⟨?_, ?_, fun y listed => ?_⟩, ?_⟩
  · rw [done]
    exact Nat.lt_of_lt_of_le bound (followed.remembers_registerNode _ _ _ _).1.size_le
  · unfold Walk.registered at fresh ⊢
    rw [tree, done, here]
    have put : (followed.registerNode walk.tree (some x) (some id) noted).registered walk.tree
        (some x) = followed.registered walk.tree (some x) ++ [id] := History.all_put_self _ _ _
    rw [same, Walk.registered, fresh] at put
    exact put
  · unfold Walk.registered at listed
    rw [tree, done] at listed
    rcases Registry.mem_registered_registerNode listed with before | ⟨there, _⟩
    · rw [same] at before
      exact absurd (anchored.stored _ id before) (Nat.not_lt_of_le new)
    · exact Option.some.inj (there.symm.trans here)
  · rw [done]
    exact properties

end Walk

/-! ### Properties that look for their owners -/

namespace Run

variable {run : Run (Option String)} {file : String} {t : Tree} {a o p x : NodeIndex}
  {e : DocletId} {nodes : List NodeIndex} {passed rest : List Stop} {properties : List Doclet}
  {types : Option (List String)}

/-- The registry behind the symbol at a node. -/
def past (run : Run (Option String)) (file : String) (t : Tree) (p : NodeIndex) : Registry :=
  (Watchers.documenting.passNode file p (run.walkTo file t p)).2.registry

/-- The last doclet that was made of the symbol at a node, as the symbol left it. -/
def lastMade (run : Run (Option String)) (file : String) (t : Tree) (p : NodeIndex) : Doclet :=
  (run.past file t p).doclet (run.past file t p).newest

/-- Whether doclets are made of the symbol at a node. -/
def makes (run : Run (Option String)) (file : String) (t : Tree) (p : NodeIndex) : Bool :=
  !((run.walkTo file t p).made file p).isEmpty

/-- Whether a property has doclets and looks for its owners at `x`. -/
def seeks (run : Run (Option String)) (file : String) (t : Tree) (x p : NodeIndex) : Bool :=
  t.seeksOwnerAt x p && run.makes file t p

/-- The properties that have doclets and look for their owners at `x`, as the walk comes to them. -/
def seekers (run : Run (Option String)) (file : String) (t : Tree) (x : NodeIndex) :
    List NodeIndex :=
  t.preorder.filter (run.seeks file t x)

/-- The properties of a literal that have doclets. -/
def members (run : Run (Option String)) (file : String) (t : Tree) (o : NodeIndex) :
    List NodeIndex :=
  (t.childrenOf o).filter fun p => t.isKind (some p) .property && run.makes file t p

/-- One copy for each of some properties, of the last doclet that was made of it. -/
def Copies (run : Run (Option String)) (file : String) (t : Tree) (types : Option (List String))
    (properties : List NodeIndex) (copies : List Doclet) : Prop :=
  List.Forall₂ (fun p copy => Doclet.CopiedFor types copy (run.lastMade file t p)) properties copies

theorem made_of_makes (makes : run.makes file t p = true) :
    (run.walkTo file t p).made file p ≠ [] := by
  simpa [Run.makes] using makes

theorem Documents.mem_preorder (h : run.Documents file t) {kind : NodeKind}
    (known : t.isKind (some p) kind = true) : p ∈ t.preorder := by
  obtain ⟨n, stored, _⟩ := Option.map_eq_some_iff.mp
    (show t.kind? (some p) = some kind from of_decide_eq_true known)
  rw [← Tree.nodes_stops]
  exact Tree.mem_nodes.mpr (h.visited (Array.getElem?_eq_some_iff.mp stored).1)

theorem Documents.mem_seekers (h : run.Documents file t) (seeks : run.seeks file t x p = true) :
    p ∈ run.seekers file t x := by
  have looks := (Bool.and_eq_true_iff.mp seeks).1
  exact List.mem_filter.mpr ⟨h.mem_preorder (Bool.and_eq_true_iff.mp looks).1, seeks⟩

/-- The properties of a literal, among all that look for their owners there or at an assignment
around it. -/
theorem Documents.filter_seekers (h : run.Documents file t)
    (literal : t.isKind (some o) .objectExpression = true)
    (climbs : t.ClimbsAssignments (some o) nodes) (near : x ∈ nodes.take maxOwnerWalk) :
    (run.seekers file t x).filter (fun p => t.parent (some p) = some o) =
      run.members file t o := by
  unfold seekers members
  rw [← h.scoped.filter_preorder h.grown (h.mem_preorder literal), List.filter_filter,
    List.filter_filter]
  refine List.filter_congr fun p _ => ?_
  by_cases inside : t.parent (some p) = some o
  · cases property : t.isKind (some p) .property with
    | true => simp [seeks, climbs.seeksOwnerAt near property inside, inside]
    | false => simp [seeks, Tree.seeksOwnerAt, property, inside]
  · simp [inside]

/-- Copies for all that look for their owners at a node are copies for the properties of a literal
exactly if no others look for them there. -/
theorem Documents.copies_members_iff (h : run.Documents file t)
    (literal : t.isKind (some o) .objectExpression = true)
    (climbs : t.ClimbsAssignments (some o) nodes) (near : x ∈ nodes.take maxOwnerWalk)
    (copies : run.Copies file t types (run.seekers file t x) properties) :
    run.Copies file t types (run.members file t o) properties ↔
      ∀ p, run.seeks file t x p = true → t.parent (some p) = some o := by
  have direct := h.filter_seekers literal climbs near
  constructor
  · intro members p seeks
    have length := (List.Forall₂.length_eq members).trans (List.Forall₂.length_eq copies).symm
    rw [← direct, List.length_filter_eq_length_iff] at length
    exact of_decide_eq_true (length p (h.mem_seekers seeks))
  · intro all
    have whole : run.members file t o = run.seekers file t x := by
      rw [← direct, List.filter_eq_self]
      intro p listed
      exact decide_eq_true (all p (List.mem_filter.mp listed).2)
    exact whole ▸ copies

/-! ### The walk behind a node -/

/-- The walk of a tree when it has passed a node and then some more stops. -/
def walkPast (run : Run (Option String)) (file : String) (t : Tree) (a : NodeIndex)
    (passed : List Stop) : Walk (Option String) :=
  (Watchers.documenting.passAll file passed
    (Watchers.documenting.passNode file a (run.walkTo file t a)).2).2

theorem walkPast_concat (run : Run (Option String)) (file : String) (t : Tree) (a : NodeIndex)
    (passed : List Stop) (stop : Stop) : run.walkPast file t a (passed ++ [stop]) =
      (Watchers.documenting.pass file (run.walkPast file t a passed) stop).2 := by
  unfold walkPast
  rw [Watchers.passAll_append, Watchers.passAll_cons]
  rfl

theorem Documents.tree_walkPast (h : run.Documents file t) (a : NodeIndex) (passed : List Stop) :
    (run.walkPast file t a passed).tree = t := by
  have first := (Watchers.pass_documenting file (run.walkTo file t a) (.node a)).2
  unfold walkPast
  rw [Watchers.tree_passAll]
  exact first.trans (h.tree_walkTo a)

theorem Documents.walkTo_eq (h : run.Documents file t)
    (split : t.stops = t.stopsBefore a ++ .node a :: (passed ++ .node p :: rest)) :
    run.walkTo file t p = run.walkPast file t a passed := by
  have before : t.stopsBefore p = t.stopsBefore a ++ .node a :: passed :=
    h.grown.stopsBefore_eq (by rw [split, List.append_assoc, List.cons_append])
  unfold walkPast walkTo
  rw [before, h.watchers, Watchers.passAll_append, Watchers.passAll_cons]
  rfl

/-- The symbol at `a` registers a doclet without members for a child, and no other symbol does. -/
structure RegistersAt (run : Run (Option String)) (file : String) (t : Tree) (a x : NodeIndex)
    (e : DocletId) : Prop where
  child : x ∈ t.childrenOf a
  visited : .node a ∈ t.stops
  only : ∀ j code, Symbol.ofNode? t (some j) = some code → code.node = some x → j = a
  caches : (run.walkPast file t a []).Caches x e
  properties : ((run.past file t a).doclet e).properties = []

/-- What is the doclet of a node in the end was registered by a symbol. -/
theorem Documents.exists_symbol_of_cached (h : run.Documents file t)
    (cached : (run.walk file t).2.registry.idOfNode? t (some x) = some e) :
    ∃ a code, Symbol.ofNode? t (some a) = some code ∧ code.node = some x := by
  by_contra none
  have apart (j : NodeIndex) (_ : .node j ∈ t.stops) (code : Symbol)
      (symbol : Symbol.ofNode? t (some j) = some code) : code.node ≠ some x :=
    fun here => none ⟨j, code, symbol, here⟩
  let begun : Walk (Option String) := ⟨t, run.registry.nextUnit.2, run.state⟩
  let ended := (Watchers.documenting.passAll file t.stops begun).2
  have still : ended.registered x = [] :=
    (Watchers.registered_passAll_of_apart file apart).trans (h.registered_start x)
  have answer := ended.idOfNode?_eq x
  rw [Watchers.tree_passAll, ← h.registry_walk, still] at answer
  exact absurd (cached.symm.trans answer) (by simp)

theorem Documents.exists_registersAt (h : run.Documents file t)
    (apart : ∀ code, Symbol.ofNode? t (some x) = some code → code.node ≠ some x)
    {kind : NodeKind} (known : t.kind? (some x) = some kind) (plain : kind.isFunction = false)
    (cached : (run.walk file t).2.registry.idOfNode? t (some x) = some e) :
    ∃ a, run.RegistersAt file t a x e := by
  obtain ⟨a, code, symbol, here⟩ := h.exists_symbol_of_cached cached
  obtain ⟨child, only⟩ := h.grown.only_symbol apart symbol here
  have visited := h.visited (Tree.lt_size_of_child child)
  obtain ⟨rest, split⟩ := Tree.exists_stops visited
  have first : (run.walkTo file t a).registered x = [] := by
    refine h.registered_walkTo_of_apart fun j before other known stands => ?_
    obtain rfl := only j other known stands
    exact t.not_mem_stopsBefore j before
  have still : (run.walkPast file t a rest).registered x =
      (run.walkPast file t a []).registered x := by
    refine Watchers.registered_passAll_of_apart file ?_
    rw [show (Watchers.documenting.passNode file a (run.walkTo file t a)).2.tree = t from
      h.tree_walkPast a []]
    exact h.grown.apart_behind only split
  have last : ((run.walkPast file t a []).registered x).getLast? = some e := by
    rw [← still, ← (run.walkPast file t a rest).idOfNode?_eq, h.tree_walkPast, ← cached,
      h.registry_walk_of_split split]
    rfl
  have walk := h.tree_walkTo a
  by_cases makes : (run.walkTo file t a).made file a = []
  · have same : (run.walkPast file t a []).registered x = (run.walkTo file t a).registered x :=
      Watchers.registered_of_unmade (walk.symm ▸ symbol) here (walk.symm ▸ known) plain makes
    rw [same, first] at last
    cases last
  · obtain ⟨e', caches, properties⟩ := Walk.exists_caches (h.sound_walkTo a).toAnchored
      (walk.symm ▸ symbol) makes here first
    rw [show (run.walkPast file t a []).registered x = [e'] from caches.cached] at last
    obtain rfl := Option.some.inj last
    exact ⟨a, child, visited, only, caches, properties⟩

/-! ### What an enumeration collects -/

/-- What an enumeration has collected when the walk has passed some more stops. -/
theorem RegistersAt.collects (here : run.RegistersAt file t a x e) (h : run.Documents file t)
    (passed rest : List Stop)
    (split : t.stops = t.stopsBefore a ++ .node a :: (passed ++ rest)) :
    let walk := run.walkPast file t a passed
    let begun := (run.past file t a).doclet e
    walk.Caches x e ∧ (walk.registry.doclet e).isEnum = begun.isEnum ∧ (begun.isEnum = true →
      (walk.registry.doclet e).typeNames = begun.typeNames ∧
      run.Copies file t begun.typeNames
        ((passed.filterMap Stop.node?).filter (run.seeks file t x))
        (walk.registry.doclet e).properties) := by
  induction passed using List.reverseRecOn generalizing rest with
  | nil =>
    refine ⟨here.caches, rfl, fun _ => ⟨rfl, ?_⟩⟩
    rw [show ((run.walkPast file t a []).registry.doclet e).properties = [] from here.properties]
    exact .nil
  | append_singleton passed stop ih =>
    rw [List.append_assoc, List.singleton_append] at split
    obtain ⟨caches, isEnum, collected⟩ := ih (stop :: rest) split
    have tree := h.tree_walkPast a passed
    have quiet (known : Prop) : Watchers.Quiet t x known stop :=
      Watchers.quiet_of_apart (fun j same => h.grown.apart_behind here.only split j
        (same ▸ List.mem_append_right passed List.mem_cons_self)) known
    rw [run.walkPast_concat]
    have still := Walk.isEnum_pass file stop caches.stored
    refine ⟨caches.pass file (tree.symm ▸ quiet _), still.trans isEnum, fun enumeration => ?_⟩
    obtain ⟨types, copies⟩ := collected enumeration
    rw [List.filterMap_append, List.filter_append]
    by_cases joins : ∃ p, stop = .node p ∧ run.seeks file t x p = true
    · -- a property that looks for its owners here: one copy more
      obtain ⟨p, rfl, seeks⟩ := joins
      obtain ⟨looks, makes⟩ := Bool.and_eq_true_iff.mp seeks
      have walk := h.walkTo_eq split
      obtain ⟨⟨copy, copied, collects⟩, _⟩ := caches.collects (tree.symm ▸ h.scoped)
        (walk ▸ (h.sound_walkTo p).toAnchored) (isEnum.trans enumeration) (tree.symm ▸ looks)
        (walk ▸ made_of_makes makes)
      rw [show (Watchers.documenting.pass file (run.walkPast file t a passed)
        (.node p)).2.registry.doclet e = _ from collects]
      refine ⟨types, ?_⟩
      have last : [Stop.node p].filterMap Stop.node? = [p] := rfl
      rw [last, List.filter_cons_of_pos seeks, List.filter_nil]
      rw [types, ← walk] at copied
      exact List.rel_append copies (.cons copied .nil)
    · -- any other stop: no copy
      have idle : ∀ p, stop = .node p → run.seeks file t x p = false := fun p here => by
        by_contra seeks
        exact joins ⟨p, here, by simpa using seeks⟩
      have same := caches.spares file stop fun p here looks => by
        rw [tree] at looks
        have unmade := idle p here
        subst here
        rw [seeks, looks, Bool.true_and, Run.makes, h.walkTo_eq split] at unmade
        simpa using unmade
      have none : ([stop].filterMap Stop.node?).filter (run.seeks file t x) = [] := by
        cases stop with
        | comment => rfl
        | node p => simp [Stop.node?, idle p rfl]
      rw [none, List.append_nil, same.typeNames, same.properties]
      exact ⟨types, copies⟩

/-- A property looks for its owners at nodes whose doclets were registered before. -/
theorem RegistersAt.before (here : run.RegistersAt file t a x e) (h : run.Documents file t)
    (seeks : t.seeksOwnerAt x p = true) : .node a ∈ t.stopsBefore p := by
  have visited := h.mem_preorder (Bool.and_eq_true_iff.mp seeks).1
  rw [← Tree.nodes_stops, Tree.mem_nodes] at visited
  exact h.grown.stopsBefore_of_around visited
    (.head here.child (h.scoped.around_of_seeksOwnerAt seeks))

theorem RegistersAt.seekers_eq (here : run.RegistersAt file t a x e) (h : run.Documents file t)
    (split : t.stops = t.stopsBefore a ++ .node a :: rest) :
    (rest.filterMap Stop.node?).filter (run.seeks file t x) = run.seekers file t x := by
  have early : ∀ p, .node p ∈ t.stopsBefore a → run.seeks file t x p = false := by
    intro p before
    rw [Bool.eq_false_iff]
    intro seeks
    have passed := here.before h (Bool.and_eq_true_iff.mp seeks).1
    obtain ⟨between, longer⟩ := Tree.exists_stopsBefore before
    exact t.not_mem_stopsBefore a (longer ▸ List.mem_append_left _ passed)
  have own : run.seeks file t x a = false := by
    rw [Bool.eq_false_iff]
    intro seeks
    exact t.not_mem_stopsBefore a (here.before h (Bool.and_eq_true_iff.mp seeks).1)
  have none : ((t.stopsBefore a).filterMap Stop.node?).filter (run.seeks file t x) = [] := by
    rw [List.filter_eq_nil_iff]
    intro p listed
    simp [early p (Tree.mem_nodes.mp listed)]
  unfold seekers
  rw [Tree.preorder_of_stops split, List.filter_append, List.filter_cons_of_neg (by simp [own]),
    none, List.nil_append]

/-- In the end an enumeration has a copy for each property that looks for its owners at its node. -/
theorem RegistersAt.copies (here : run.RegistersAt file t a x e) (h : run.Documents file t)
    (enumeration : ((run.walk file t).2.registry.doclet e).isEnum = true) :
    let ended := (run.walk file t).2.registry.doclet e
    let begun := (run.past file t a).doclet e
    begun.isEnum = true ∧ begun.typeNames = ended.typeNames ∧
      run.Copies file t ended.typeNames (run.seekers file t x) ended.properties := by
  obtain ⟨rest, split⟩ := Tree.exists_stops here.visited
  have done : (run.walk file t).2.registry = (run.walkPast file t a rest).registry :=
    h.registry_walk_of_split split
  obtain ⟨_, isEnum, collected⟩ := here.collects h rest [] (by rw [List.append_nil, split])
  rw [here.seekers_eq h split, ← done] at collected
  rw [← done] at isEnum
  have begun := isEnum.symm.trans enumeration
  obtain ⟨types, copies⟩ := collected begun
  exact ⟨begun, types.symm, types.symm ▸ copies⟩

/-- What a property becomes that an enumeration owns. -/
theorem RegistersAt.enrolled (here : run.RegistersAt file t a x e) (h : run.Documents file t)
    (enumeration : ((run.walk file t).2.registry.doclet e).isEnum = true)
    (listed : p ∈ run.seekers file t x) :
    let after := run.past file t p
    after.Enrolled after.newest ∧
    (∃ types, ((run.walkTo file t p).made file p).getLast?.map (Doclet.joined · types) =
      some (run.lastMade file t p)) ∧
    (((run.walk file t).2.registry.doclet e).typeNames.isSome = true →
      (run.lastMade file t p).typeNames.isSome = true) := by
  obtain ⟨begun, types, _⟩ := here.copies h enumeration
  obtain ⟨looks, makes⟩ := Bool.and_eq_true_iff.mp (List.mem_filter.mp listed).2
  obtain ⟨rest, split⟩ := Tree.exists_stops here.visited
  rw [← here.seekers_eq h split] at listed
  obtain ⟨passed, more, rfl⟩ := List.append_of_mem (Tree.mem_nodes.mp (List.mem_filter.mp listed).1)
  obtain ⟨caches, isEnum, collected⟩ := here.collects h passed (.node p :: more) split
  have walk := h.walkTo_eq split
  have tree := h.tree_walkTo p
  rw [← walk] at caches isEnum collected
  obtain ⟨_, enrolled, joined, typed⟩ := caches.collects (tree.symm ▸ h.scoped)
    (h.sound_walkTo p).toAnchored (isEnum.trans begun) (tree.symm ▸ looks) (made_of_makes makes)
  refine ⟨enrolled, joined, fun some => typed ?_⟩
  rw [(collected begun).1, types, some]

/-- What enumerations collect. When the walk of a unit ends, an enumeration that is the doclet of a
literal or of an assignment around it has one copy for each property with doclets that looks for its
owners there, in the order of the walk. Those of the literal are among them in their order; they are
all that there are exactly if no property elsewhere looks for its owners at that node, which holds
if that is the literal itself. Each of the literal's is then documented, for those too who look
its longname up, has a type if the enumeration has one, and has its value in the code as default
value. What no enumeration owns is left as it was made. -/
theorem enumerations_collect (h : run.Documents file t) :
    let done := (run.walk file t).2.registry
    (∀ o nodes x e, t.isKind (some o) .objectExpression = true →
      t.ClimbsAssignments (some o) nodes → x ∈ nodes.take maxOwnerWalk →
      done.idOfNode? t (some x) = some e → (done.doclet e).isEnum = true →
      let enumeration := done.doclet e
      let collected := fun properties =>
        run.Copies file t enumeration.typeNames properties enumeration.properties
      collected (run.seekers file t x) ∧
      (run.seekers file t x).filter (fun p => t.parent (some p) = some o) = run.members file t o ∧
      (collected (run.members file t o) ↔
        ∀ p, run.seeks file t x p = true → t.parent (some p) = some o) ∧
      (x = o → collected (run.members file t o)) ∧
      ∀ p ∈ run.members file t o,
        let after := run.past file t p
        after.Enrolled after.newest ∧
        (∃ types, ((run.walkTo file t p).made file p).getLast?.map (Doclet.joined · types) =
          some (run.lastMade file t p)) ∧
        (enumeration.typeNames.isSome = true → (run.lastMade file t p).typeNames.isSome = true)) ∧
    ∀ p, t.isKind (some p) .property = true → run.makes file t p = true →
      (∀ owner ∈ (run.walkTo file t p).registry.propertyOwners t (some p),
        ((run.walkTo file t p).registry.doclet owner).isEnum = false) →
      ((run.walkTo file t p).made file p).getLast? = some (run.lastMade file t p) := by
  refine ⟨?_, fun p property makes unowned => ?_⟩
  · intro o nodes x e literal climbs near cached enumeration
    obtain ⟨apart, kind, known, plain⟩ :=
      h.grown.plain_of_climbs literal climbs (List.mem_of_mem_take near)
    obtain ⟨a, here⟩ := h.exists_registersAt apart known plain cached
    have copies := (here.copies h enumeration).2.2
    have direct := h.filter_seekers literal climbs near
    have alone := h.copies_members_iff literal climbs near copies
    refine ⟨copies, direct, alone, ?_, fun p listed => ?_⟩
    · rintro rfl
      refine alone.mpr fun p seeks => ?_
      have kind : t.kind? (some x) = some .objectExpression := of_decide_eq_true literal
      refine h.scoped.parent_of_seeksOwnerAt (Bool.and_eq_true_iff.mp seeks).1 ?_
      rw [Tree.isKind, kind]
      rfl
    · rw [← direct] at listed
      exact here.enrolled h enumeration (List.mem_filter.mp listed).1
  · have tree := h.tree_walkTo p
    exact Walk.getLast?_made_of_unowned (tree.symm ▸ property) (made_of_makes makes)
      (h.sound_walkTo p).toAnchored (tree.symm ▸ unowned)

end Run

/-! ### An enumeration with a pattern -/

namespace EnumOfPattern

open ExportedClass (identifier node)
open LiteralOfVariables (declaration property)

/-- `/** @enum {string} */ var E = { x: a } = { y: "one" }; var o = { z: b };` -/
def unit : Json.Value :=
  let pattern := node "ObjectPattern" [("properties", .arr [property "x" "a"])]
  let member := node "Property" [("key", identifier "y"),
    ("value", node "Literal" [("value", .str "one")]), ("kind", .str "init")]
  let assignment := node "AssignmentExpression" [("operator", .str "="), ("left", pattern),
    ("right", node "ObjectExpression" [("properties", .arr [member])])]
  node "Program" [("body", .arr [
    node "VariableDeclaration" [("kind", .str "var"), ("declarations", .arr [
      node "VariableDeclarator" [("id", identifier "E"), ("init", assignment)]]),
      ("leadingComments", .arr [node "Block" [("value", .str "* @enum {string} ")]])],
    declaration "o" (node "ObjectExpression" [("properties", .arr [property "z" "b"])])])]

def tree : Tree :=
  match Estree.ofValue "e.js" unit with
  | .ok t => t
  | .error _ => ⟨"", 0, #[], none, #[]⟩

def run : Run (Option String) := .start .estree .documenting none

/-- What the walk of the unit leaves behind. -/
def done : Registry := (run.walk "e.js" tree).2.registry

theorem documents : run.Documents "e.js" tree where
  asked := ⟨.estree, .documenting, none, [], rfl⟩
  watchers := rfl
  read := ⟨unit, tree, rfl, rfl⟩

theorem literal : tree.isKind (some 8) .objectExpression = true := by decide +kernel

theorem climbs : tree.ClimbsAssignments (some 8) [8, 9] :=
  .further (by decide +kernel) (.last (by decide +kernel))

theorem cached : done.idOfNode? tree (some 9) = some 1 := by decide +kernel

theorem enumeration : (done.doclet 1).isEnum = true := by decide +kernel

theorem members : run.members "e.js" tree 8 = [7] := by decide +kernel

/-- The enumeration has copies of the properties of the pattern and of the literal. The property of
the other literal is no member of anything. -/
theorem enumerations_collect_pattern : run.Documents "e.js" tree ∧
    run.Copies "e.js" tree (some ["string"]) [3, 7] (done.doclet 1).properties ∧
    (run.past "e.js" tree 7).Enrolled (run.past "e.js" tree 7).newest ∧
    (run.lastMade "e.js" tree 7).typeNames.isSome = true ∧
    ((run.walkTo "e.js" tree 15).made "e.js" 15).getLast? =
      some (run.lastMade "e.js" tree 15) := by
  obtain ⟨owned, unowned⟩ := Run.enumerations_collect documents
  obtain ⟨copies, _, _, _, each⟩ :=
    owned 8 [8, 9] 9 1 literal climbs (by decide) cached enumeration
  obtain ⟨enrolled, _, typed⟩ := each 7 (by simp [members])
  have seekers : run.seekers "e.js" tree 9 = [3, 7] := by decide +kernel
  have types : (done.doclet 1).typeNames = some ["string"] := by decide +kernel
  rw [seekers] at copies
  refine ⟨documents, types ▸ copies, enrolled, typed ?_, ?_⟩
  · exact (congrArg Option.isSome types).trans rfl
  · exact unowned 15 (by decide +kernel) (by decide +kernel) (by decide +kernel)

/-- The property of the pattern is collected, though it stands in no literal: the enumeration has
more than one copy for each property of its literal. -/
theorem pattern_collected : run.Documents "e.js" tree ∧
    tree.isKind (some 8) .objectExpression = true ∧
    tree.ClimbsAssignments (some 8) [8, 9] ∧ 9 ∈ [8, 9].take maxOwnerWalk ∧
    done.idOfNode? tree (some 9) = some 1 ∧ (done.doclet 1).isEnum = true ∧
    run.members "e.js" tree 8 = [7] ∧
    (done.doclet 1).properties.map Doclet.longname = ["x", "y"] ∧
    ¬ run.Copies "e.js" tree (done.doclet 1).typeNames (run.members "e.js" tree 8)
      (done.doclet 1).properties := by
  have names : (done.doclet 1).properties.map Doclet.longname = ["x", "y"] := by decide +kernel
  refine ⟨documents, literal, climbs, by decide, cached, enumeration, members, names, ?_⟩
  intro copies
  have count := List.Forall₂.length_eq copies
  rw [members, ← List.length_map Doclet.longname, names] at count
  cases count

end EnumOfPattern

end Doclets
