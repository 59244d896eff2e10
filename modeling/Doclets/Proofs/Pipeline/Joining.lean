import Doclets.Proofs.Pipeline.ScopesFirst
import Doclets.Proofs.Registry.Enumerations

/-!
What one stop of a walk does to enumerations. An enumeration is registered for the literal, or for
an assignment around it, that its symbol stands for. Only a property that has doclets, and that
looks for its owners there, changes it: the last of these doclets is copied onto it.
-/

namespace Doclets

/-! ### Doclets that are new -/

namespace Registry

variable {r s : Registry} {id member : DocletId}

/-- The doclet that was stored last. -/
def newest (r : Registry) : DocletId := r.doclets.size - 1

theorem doclet_of_stored {more : Array Doclet} (stored : s.doclets = r.doclets ++ more)
    (bound : id < r.doclets.size) : s.doclet id = r.doclet id := by
  unfold doclet
  rw [stored, Array.getD_eq_getD_getElem?, Array.getD_eq_getD_getElem?,
    Array.getElem?_append_left bound]

theorem doclet_newest {made : List Doclet} (stored : s.doclets = r.doclets ++ made.toArray)
    (filled : made ≠ []) : r.doclets.size ≤ s.newest ∧ s.newest < s.doclets.size ∧
      made.getLast? = some (s.doclet s.newest) := by
  obtain ⟨front, last, rfl⟩ := (List.eq_nil_or_concat' made).resolve_left filled
  have size : s.newest = r.doclets.size + front.length := by
    unfold newest
    rw [stored]
    simp
  refine ⟨Nat.le_trans (Nat.le_add_right _ _) (Nat.le_of_eq size.symm), ?_, ?_⟩
  · rw [stored, size]
    simp
  · unfold doclet
    rw [List.getLast?_concat, size, stored]
    simp

theorem Enrolled.of_same (h : r.Enrolled member) (doclets : s.doclets = r.doclets)
    (index : s.index = r.index) : s.Enrolled member := by
  have same := doclet_of_doclets doclets member
  refine ⟨?_, ?_, ?_⟩
  · rw [same, h.documented]
  · rw [same, index]
    exact h.filed
  · rw [same, h.value]

end Registry

/-! ### One stop -/

namespace Watchers

variable {file : String} {walk : Walk (Option String)} {stop : Stop} {i x : NodeIndex}

theorem keepsEnums_register {σ : Type} (w : Watchers σ) (doclets : List Doclet) (r : Registry)
    (s : σ) : r.KeepsEnums (w.register doclets r s).2.2.1 := by
  induction doclets generalizing r s with
  | nil => exact .refl r
  | cons d rest ih =>
    rw [register_cons]
    exact (r.keepsEnums_addDoclet _).trans (ih _ _)

/-- Nothing is copied onto an enumeration for a symbol other than a property. -/
theorem keepsEnums_prepare (t : Tree) (node : NodeRef) (kind : NodeKind) (code : Symbol)
    (r : Registry) : let prepared := prepare t node kind code r
    r.KeepsEnums prepared.2.2 ∧ (kind ≠ .property → .joinEnum ∉ prepared.2.1) := by
  have declared : let prepared := declareName t node kind code r
      r.KeepsEnums prepared.2.2 ∧ .joinEnum ∉ prepared.2.1 := by
    unfold declareName
    dsimp only
    split
    · exact ⟨.refl r, List.not_mem_nil⟩
    · split
      · exact ⟨r.keepsEnums_declare _ _ _, by simp⟩
      · exact ⟨.refl r, List.not_mem_nil⟩
  unfold prepare
  split
  · exact ⟨declared.1, fun _ => declared.2⟩
  · exact ⟨declared.1, fun _ => declared.2⟩
  · exact ⟨.refl r, fun other => absurd rfl other⟩
  · dsimp only
    refine ⟨.refl r, fun _ => ?_⟩
    split <;> simp
  · exact ⟨.refl r, fun _ => List.not_mem_nil⟩

theorem keepsEnums_follow_all (t : Tree) (node : NodeRef) (name : String) (id : DocletId)
    {followUps : List FollowUp} (plain : .joinEnum ∉ followUps) (r : Registry) :
    r.KeepsEnums (followUps.foldl (Registry.follow t node name id) r) := by
  induction followUps generalizing r with
  | nil => exact .refl r
  | cons followUp rest ih =>
    obtain ⟨first, later⟩ := List.ne_and_not_mem_of_not_mem_cons plain
    exact (Registry.keepsEnums_follow t node name id r first.symm).trans (ih later _)

theorem keepsEnums_symbolAt? {event : SymbolFound} {followUps : List FollowUp} {r : Registry}
    (found : symbolAt? walk.tree file i walk.registry = some (event, followUps, r)) :
    walk.registry.KeepsEnums r ∧
      (walk.tree.isKind (some i) .property = false → .joinEnum ∉ followUps) := by
  obtain ⟨n, code, stored, _, prepared, _⟩ := prepared_of_symbolAt? found
  obtain ⟨kept, other⟩ := keepsEnums_prepare walk.tree (some i) n.kind code walk.registry
  rw [prepared] at kept other
  refine ⟨kept, fun plain => other fun kind => ?_⟩
  simp [Tree.isKind, Tree.kind?, Tree.node?, stored, kind] at plain

/-- The checkpoint of a property. -/
theorem symbolAt?_property {event : SymbolFound} {followUps : List FollowUp} {r : Registry}
    (property : walk.tree.isKind (some i) .property = true)
    (found : symbolAt? walk.tree file i walk.registry = some (event, followUps, r)) :
    event.node = i ∧ followUps = [.joinEnum] ∧ r = walk.registry := by
  obtain ⟨n, code, stored, _, prepared, shown⟩ := prepared_of_symbolAt? found
  have kind : n.kind = .property := by
    simpa [Tree.isKind, Tree.kind?, Tree.node?, stored] using property
  rw [kind] at prepared
  simp only [prepare, Prod.mk.injEq] at prepared
  exact ⟨congrArg SymbolFound.node shown, prepared.2.1.symm, prepared.2.2.symm⟩

/-- What is stored of new doclets. -/
theorem stored_documenting (doclets : List Doclet) (r : Registry) (s : Option String) :
    let done := documenting.register doclets r s
    done.2.2.1.doclets = r.doclets ++ doclets.toArray ∧
      (doclets ≠ [] → done.2.1 = some done.2.2.1.newest) := by
  induction doclets generalizing r s with
  | nil => exact ⟨by simp [register], fun some => absurd rfl some⟩
  | cons d rest ih =>
    obtain ⟨stored, last⟩ := ih (r.addDoclet d).2 s
    rw [register_cons, show Handler.relay Handler.newDoclet documenting.handlers d s =
      (.continue, d, s) from rfl]
    refine ⟨?_, fun _ => ?_⟩
    · rw [stored]
      simp [Registry.addDoclet, Registry.insert, Registry.addResult]
    · cases rest with
      | nil => simp [register, Registry.newest]
      | cons second others =>
        dsimp only
        rw [last (List.cons_ne_nil _ _), Option.some_or]

theorem keepsEnums_passComment (file : String) (index : Nat) (walk : Walk (Option String)) :
    walk.registry.KeepsEnums (documenting.passComment file index walk).2.registry := by
  unfold passComment
  cases walk.tree.comments[index]? with
  | none => exact .refl _
  | some comment =>
    dsimp only
    split
    · exact documenting.keepsEnums_register _ _ _
    · exact .refl _

/-- A stop where no property makes a doclet. -/
theorem keepsEnums_pass (plain : ∀ p, stop = .node p →
    walk.tree.isKind (some p) .property = true → walk.made file p = []) :
    walk.registry.KeepsEnums (documenting.pass file walk stop).2.registry := by
  cases stop with
  | comment index => exact keepsEnums_passComment file index walk
  | node i =>
    unfold pass
    dsimp only
    cases found : symbolAt? walk.tree file i walk.registry with
    | none =>
      rw [passNode_plain found]
      exact .refl _
    | some symbol =>
      obtain ⟨event, followUps, r⟩ := symbol
      rw [passNode_documenting found]
      obtain ⟨prepared, other⟩ := keepsEnums_symbolAt? found
      have stored := prepared.trans
        (documenting.keepsEnums_register (walk.made file i) r walk.state)
      refine (stored.trans ?_).trans (Registry.keepsEnums_registerNode _ _ _ _ _)
      have none := (register_documenting (walk.made file i) r walk.state).2.2.1
      generalize documenting.register (walk.made file i) r walk.state = done at none
      cases property : walk.tree.isKind (some i) .property with
      | true =>
        rw [none (plain i rfl property)]
        exact .refl _
      | false =>
        cases done.2.1 with
        | none => exact .refl _
        | some id => exact keepsEnums_follow_all _ _ _ _ (other property) _

theorem keepsEnums_pass_or (file : String) (walk : Walk (Option String)) (stop : Stop) :
    walk.registry.KeepsEnums (documenting.pass file walk stop).2.registry ∨
      ∃ p, stop = .node p ∧ walk.tree.isKind (some p) .property = true ∧
        walk.made file p ≠ [] := by
  by_cases joins : ∃ p, stop = .node p ∧ walk.tree.isKind (some p) .property = true ∧
      walk.made file p ≠ []
  · exact Or.inr joins
  · refine Or.inl (keepsEnums_pass fun p here property => ?_)
    by_contra makes
    exact joins ⟨p, here, property, makes⟩

/-- A property that makes a doclet: the last one is copied onto the enumerations that own it. -/
theorem passNode_property (property : walk.tree.isKind (some i) .property = true)
    (makes : walk.made file i ≠ []) : ∃ stored : Registry,
      stored.doclets = walk.registry.doclets ++ (walk.made file i).toArray ∧
      let next := (documenting.passNode file i walk).2.registry
      let joined := (walk.registry.propertyOwners walk.tree (some i)).foldl
        (Registry.joinEnumOf stored.newest) stored
      next.doclets = joined.doclets ∧ next.index = joined.index := by
  cases found : symbolAt? walk.tree file i walk.registry with
  | none => exact absurd (Walk.made_of_plain found) makes
  | some symbol =>
    obtain ⟨event, followUps, r⟩ := symbol
    obtain ⟨here, follows, same⟩ := symbolAt?_property property found
    subst here follows same
    obtain ⟨stored, last⟩ := stored_documenting (walk.made file event.node) walk.registry walk.state
    have kept := documenting.retains_register (walk.made file event.node) walk.registry walk.state
    rw [passNode_documenting found]
    dsimp only
    rw [last makes]
    generalize (documenting.register (walk.made file event.node) walk.registry
      walk.state).2.2.1 = after at stored kept
    have owners : after.propertyOwners walk.tree (some event.node) =
        walk.registry.propertyOwners walk.tree (some event.node) := by
      unfold Registry.propertyOwners Registry.idOfNode?
      rw [kept.byNode]
    refine ⟨after, stored, ?_⟩
    rw [← owners]
    exact ⟨rfl, rfl⟩

end Watchers

/-! ### Enumerations and their owners -/

namespace Walk

open Watchers (documenting)

variable {walk : Walk (Option String)} {file : String} {stop : Stop} {id e : DocletId}
  {p x y : NodeIndex} {nodes : List NodeIndex}

theorem idOfNode?_eq (walk : Walk (Option String)) (x : NodeIndex) :
    walk.registry.idOfNode? walk.tree (some x) = (walk.registered x).getLast? := by
  unfold Registry.idOfNode? registered
  rw [if_neg (by simp), History.latest?_eq_getLast?]

/-- What a stop registers is new. -/
theorem mem_registered_pass (listed : id ∈ (documenting.pass file walk stop).2.registered y) :
    id ∈ walk.registered y ∨ walk.registry.doclets.size ≤ id := by
  have tree := (Watchers.pass_documenting file walk stop).2
  unfold registered at listed ⊢
  rw [tree] at listed
  cases stop with
  | comment index =>
    obtain ⟨_, kept⟩ := documenting.passComment_retains file index walk
    rw [show (documenting.pass file walk (.comment index)).2.registry.byNode = _ from kept.byNode]
      at listed
    exact Or.inl listed
  | node i =>
    unfold Watchers.pass at listed
    dsimp only at listed
    cases found : Watchers.symbolAt? walk.tree file i walk.registry with
    | none =>
      rw [Watchers.passNode_plain found] at listed
      exact Or.inl listed
    | some symbol =>
      obtain ⟨event, followUps, r⟩ := symbol
      have keeps : ∀ h ∈ documenting.handlers, h.KeepsNode := by
        rintro h listed
        obtain rfl : h = Documenter.handler .whole := List.mem_singleton.mp listed
        exact fun _ _ _ => rfl
      obtain ⟨s, last, code, kept, told, done⟩ := Watchers.passNode_keepsNode rfl keeps found
      rw [done] at listed
      rcases Registry.mem_registered_registerNode listed with before | ⟨_, new | rfl⟩
      · rw [Registry.registered, kept.byNode] at before
        exact Or.inl before
      · exact Or.inr (told id new).1
      · exact Or.inr kept.size_le

/-- A doclet that is registered for one node, and is the only one there. -/
structure Caches (walk : Walk (Option String)) (x : NodeIndex) (e : DocletId) : Prop where
  stored : e < walk.registry.doclets.size
  cached : walk.registered x = [e]
  only : ∀ y, e ∈ walk.registered y → y = x

/-- It stays there until another symbol is passed that stands for the node. -/
theorem Caches.pass (h : walk.Caches x e) (file : String)
    (quiet : Watchers.Quiet walk.tree x (walk.registered x ≠ []) stop) :
    (documenting.pass file walk stop).2.Caches x e where
  stored := by
    refine Nat.lt_of_lt_of_le h.stored ?_
    cases stop with
    | comment index => exact (documenting.passComment_retains file index walk).2.size_le
    | node i => exact (Watchers.remembers_passNode file i walk).size_le
  cached := (Watchers.pass_quiet file quiet).trans h.cached
  only y listed := by
    rcases mem_registered_pass listed with before | new
    · exact h.only y before
    · exact absurd h.stored (Nat.not_lt_of_le new)

theorem Caches.notMem_owners (h : walk.Caches x e) (other : x ∉ nodes) :
    e ∉ nodes.filterMap fun y => walk.registry.idOfNode? walk.tree (some y) := by
  intro among
  obtain ⟨y, member, known⟩ := List.mem_filterMap.mp among
  rw [walk.idOfNode?_eq] at known
  exact other (h.only y (List.mem_of_getLast? known) ▸ member)

/-- The node is searched once for owners, and the doclet is found there and nowhere else. -/
theorem Caches.exists_owners (h : walk.Caches x e) (listed : x ∈ nodes) (once : nodes.Nodup) :
    ∃ before after, nodes.filterMap (fun y => walk.registry.idOfNode? walk.tree (some y)) =
      before ++ e :: after ∧ e ∉ before ∧ e ∉ after := by
  obtain ⟨before, after, rfl⟩ := List.append_of_mem listed
  obtain ⟨_, further, apart⟩ := List.nodup_append.mp once
  have here : walk.registry.idOfNode? walk.tree (some x) = some e := by
    rw [walk.idOfNode?_eq, h.cached]
    rfl
  refine ⟨_, _, ?_, h.notMem_owners fun before => apart x before x List.mem_cons_self rfl,
    h.notMem_owners (List.nodup_cons.mp further).1⟩
  rw [List.filterMap_append, List.filterMap_cons, here]

/-- Owners were stored before the member. -/
theorem newest_notMem_owners (anchored : walk.registry.Anchored) {member : DocletId}
    (new : walk.registry.doclets.size ≤ member) (nodes : List NodeIndex) :
    member ∉ nodes.filterMap fun y => walk.registry.idOfNode? walk.tree (some y) := by
  intro among
  obtain ⟨y, _, known⟩ := List.mem_filterMap.mp among
  rw [walk.idOfNode?_eq] at known
  exact absurd (anchored.stored _ member (List.mem_of_getLast? known)) (Nat.not_lt_of_le new)

/-- An enumeration gets a copy of what a property makes that looks for its owners there. -/
theorem Caches.collects (h : walk.Caches x e) {file : String} (tree : walk.tree.Scoped)
    (anchored : walk.registry.Anchored) (enumeration : (walk.registry.doclet e).isEnum = true)
    (seeks : walk.tree.seeksOwnerAt x p = true) (makes : walk.made file p ≠ []) :
    let next := (documenting.passNode file p walk).2.registry
    (∃ copy, Doclet.CopiedFor (walk.registry.doclet e).typeNames copy (next.doclet next.newest) ∧
      next.doclet e = { walk.registry.doclet e with
        properties := (walk.registry.doclet e).properties ++ [copy] }) ∧
    next.Enrolled next.newest ∧
    (∃ types, (walk.made file p).getLast?.map (Doclet.joined · types) =
      some (next.doclet next.newest)) ∧
    ((walk.registry.doclet e).typeNames.isSome = true →
      (next.doclet next.newest).typeNames.isSome = true) := by
  have property := (Bool.and_eq_true_iff.mp seeks).1
  obtain ⟨stored, more, doclets, index⟩ := Watchers.passNode_property property makes
  obtain ⟨new, bound, newest⟩ := Registry.doclet_newest more makes
  obtain ⟨before, after, owners, first, last⟩ := h.exists_owners (Tree.mem_of_seeksOwnerAt seeks)
    (tree.nodup_assignmentsAround maxOwnerWalk p)
  have apart := newest_notMem_owners anchored new
    (walk.tree.assignmentsAround maxOwnerWalk (walk.tree.parent (some p)))
  rw [Registry.propertyOwners, owners] at doclets index
  rw [owners] at apart
  have still := Registry.doclet_of_stored more h.stored
  rw [← still] at enumeration ⊢
  obtain ⟨copied, enrolled, ⟨types, becomes⟩, typed⟩ :=
    Registry.foldl_joinEnumOf_of_isEnum enumeration bound apart first last
  have size : (documenting.passNode file p walk).2.registry.newest = stored.newest := by
    unfold Registry.newest
    rw [doclets, Registry.doclets_size_foldl_joinEnumOf]
  dsimp only
  rw [size, Registry.doclet_of_doclets doclets, Registry.doclet_of_doclets doclets]
  refine ⟨copied, enrolled.of_same doclets index, ⟨types, ?_⟩, typed⟩
  rw [newest, Option.map_some, becomes]

/-- A stop leaves an enumeration alone at which no property makes a doclet that looks for its owners
there. -/
theorem Caches.spares (h : walk.Caches x e) (file : String) (stop : Stop)
    (apart : ∀ p, stop = .node p → walk.tree.seeksOwnerAt x p = true → walk.made file p = []) :
    (walk.registry.doclet e).SameEnum
      ((documenting.pass file walk stop).2.registry.doclet e) := by
  rcases Watchers.keepsEnums_pass_or file walk stop with kept | ⟨p, rfl, property, makes⟩
  · exact kept.same e h.stored
  · obtain ⟨stored, more, doclets, _⟩ := Watchers.passNode_property property makes
    obtain ⟨new, _, _⟩ := Registry.doclet_newest more makes
    have elsewhere : x ∉ walk.tree.assignmentsAround maxOwnerWalk (walk.tree.parent (some p)) := by
      intro listed
      exact makes (apart p rfl (by simp [Tree.seeksOwnerAt, property, listed]))
    have other : e ≠ stored.newest := Nat.ne_of_lt (Nat.lt_of_lt_of_le h.stored new)
    have same := (Registry.doclet_foldl_joinEnumOf_of_notMem (r := stored) other
      (h.notMem_owners elsewhere)).trans (Registry.doclet_of_stored more h.stored)
    rw [show (documenting.pass file walk (.node p)).2.registry.doclet e = _ from
      (Registry.doclet_of_doclets doclets e).trans same]
    exact .refl _

/-- A doclet stays an enumeration, or none. -/
theorem isEnum_pass (file : String) (stop : Stop) (bound : id < walk.registry.doclets.size) :
    ((documenting.pass file walk stop).2.registry.doclet id).isEnum =
      (walk.registry.doclet id).isEnum := by
  rcases Watchers.keepsEnums_pass_or file walk stop with kept | ⟨p, rfl, property, makes⟩
  · exact (kept.same id bound).isEnum
  · obtain ⟨stored, more, doclets, _⟩ := Watchers.passNode_property property makes
    rw [show (documenting.pass file walk (.node p)).2.registry.doclet id = _ from
      Registry.doclet_of_doclets doclets id, Registry.isEnum_foldl_joinEnumOf,
      Registry.doclet_of_stored more bound]

/-- What a property makes that no enumeration owns stays as it was made. -/
theorem getLast?_made_of_unowned (property : walk.tree.isKind (some p) .property = true)
    (makes : walk.made file p ≠ []) (anchored : walk.registry.Anchored)
    (unowned : ∀ owner ∈ walk.registry.propertyOwners walk.tree (some p),
      (walk.registry.doclet owner).isEnum = false) :
    let next := (documenting.passNode file p walk).2.registry
    (walk.made file p).getLast? = some (next.doclet next.newest) := by
  obtain ⟨stored, more, doclets, _⟩ := Watchers.passNode_property property makes
  obtain ⟨new, bound, last⟩ := Registry.doclet_newest more makes
  have plain : ∀ owner ∈ walk.registry.propertyOwners walk.tree (some p),
      (stored.doclet owner).isEnum = false := by
    intro owner among
    obtain ⟨y, _, known⟩ := List.mem_filterMap.mp among
    rw [walk.idOfNode?_eq] at known
    rw [Registry.doclet_of_stored more (anchored.stored _ owner (List.mem_of_getLast? known))]
    exact unowned owner among
  rw [Registry.foldl_joinEnumOf_of_plain plain] at doclets
  have size : (documenting.passNode file p walk).2.registry.newest = stored.newest := by
    unfold Registry.newest
    rw [doclets]
  dsimp only
  rw [last, size, Registry.doclet_of_doclets doclets]

end Walk

end Doclets
