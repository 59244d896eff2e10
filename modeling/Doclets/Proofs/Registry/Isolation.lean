import Doclets.Proofs.Registry.Stacking
import Doclets.Registry.FollowUp

/-!
What scopes are resolved to in a unit does not depend on the doclets that were there before, but for
two questions that a unit may leave open: what a name stands for that nothing in the unit declares,
and whether a longname is that of a class where the unit has not registered it.
-/

namespace Doclets

/-- Whether the owner of a symbol is looked up by the path that names it. -/
def Tree.ownedByName (t : Tree) (node : NodeRef) : Bool :=
  match t.node? node with
  | none => false
  | some n =>
    match n.kind with
    | .functionDeclaration | .functionExpression | .arrowFunctionExpression
    | .variableDeclarator | .classProperty | .classPrivateProperty => n.scope.isNone
    | .methodDefinition => !t.isConstructor node && !t.isFactoryMethod node
    | _ => true

/-- The longname that the longname of a doclet makes it an instance member of. -/
def Doclet.instanceOf? (d : Doclet) : Option String :=
  if (Longname.shorten d.longname).scope = some '#' then
    some (Longname.shorten d.longname).memberof
  else none

namespace Registry

/-- A name that the owner of a symbol is looked up by, and that nothing declares. -/
structure AsksName (r : Registry) (t : Tree) (node : NodeRef) (base : String) : Prop where
  named : t.ownedByName node = true
  leads : Longname.basename? (t.name node) = some base
  undeclared : r.declared? t node base = none

/-- A longname that a doclet of the unit is an instance member of, and that nothing was registered
under. -/
structure AsksClass (r : Registry) (t : Tree) (parent : String) : Prop where
  member : ∃ x d, r.ofNode? t (some x) = some d ∧ d.instanceOf? = some parent
  unknown : r.byLongname.all parent = empty.byLongname.all parent

/-- Whether the doclet that was registered last under a longname is a class. -/
def HasClass (r : Registry) (longname : String) : Prop :=
  ∃ id, r.idOfLongname? longname = some id ∧ (r.doclet id).isClass = true

namespace Stacked

variable {old r s : Registry} {u v : Nat} {d e : Doclet} {id : Nat}
variable (t : Tree) (node : NodeRef)

/-! ### Owners -/

theorem memberOfScope (h : Stacked old u v r s) (scope : NodeRef) (punctuation : String) :
    r.memberOfScope (t.inUnit u) scope punctuation =
      s.memberOfScope (t.inUnit v) scope punctuation := by
  have both := h.ofNode? t scope
  unfold Registry.memberOfScope
  generalize r.ofNode? (t.inUnit u) scope = x at both
  generalize s.ofNode? (t.inUnit v) scope = y at both
  cases both with
  | none => rfl
  | some alike =>
    dsimp only
    rw [alike.longname]

theorem ownerOfConstructor (h : Stacked old u v r s) (scope : NodeRef) :
    r.ownerOfConstructor (t.inUnit u) scope = s.ownerOfConstructor (t.inUnit v) scope := by
  unfold Registry.ownerOfConstructor
  rw [h.bind_ofNode? t scope fun d e alike => alike.memberof]

theorem ownerOfFactoryMethod (h : Stacked old u v r s) (scope : NodeRef) (isStatic : Bool) :
    r.ownerOfFactoryMethod (t.inUnit u) scope isStatic =
      s.ownerOfFactoryMethod (t.inUnit v) scope isStatic := by
  have both := h.ofNode? t (t.parent scope)
  unfold Registry.ownerOfFactoryMethod
  rw [Tree.parent_inUnit, Tree.parent_inUnit]
  generalize r.ofNode? (t.inUnit u) (t.parent scope) = x at both
  generalize s.ofNode? (t.inUnit v) (t.parent scope) = y at both
  cases both with
  | none => rfl
  | some alike => rw [Option.map_some, Option.map_some, alike.longname]

theorem ownerByName (h : Stacked old u v r s) (parent : NodeRef)
    (free : ∀ base ∈ Longname.basename? (t.name node),
      s.declared? (t.inUnit v) node base = none →
        Ledger.get? base (old.doclet 0).origin.vars = none) :
    r.ownerByName (t.inUnit u) node parent = s.ownerByName (t.inUnit v) node parent := by
  unfold Registry.ownerByName
  rw [Tree.name_inUnit, Tree.name_inUnit]
  cases leads : Longname.basename? (t.name node) with
  | none => rfl
  | some base =>
    dsimp only
    rw [h.declared?]
    cases declared : s.declared? (t.inUnit v) node base with
    | some longname => rfl
    | none =>
      rw [free base leads declared, Option.none_or]
      have both := h.ofNode? t parent
      generalize r.ofNode? (t.inUnit u) parent = x at both
      generalize s.ofNode? (t.inUnit v) parent = y at both
      cases both with
      | none => rfl
      | some alike =>
        dsimp only
        rw [alike.longname]

/-- A symbol has the owner that it has in the unit on its own, unless it asks for a name that was
declared before. -/
theorem owner (h : Stacked old u v r s)
    (free : ∀ base, s.AsksName (t.inUnit v) node base →
      Ledger.get? base (old.doclet 0).origin.vars = none) :
    r.owner (t.inUnit u) node = s.owner (t.inUnit v) node := by
  unfold Registry.owner
  rw [Tree.node?_inUnit, Tree.node?_inUnit]
  cases stored : t.node? node with
  | none => rfl
  | some n =>
    have byName (named : t.ownedByName node = true) :
        r.ownerByName (t.inUnit u) node n.parent = s.ownerByName (t.inUnit v) node n.parent :=
      h.ownerByName t node n.parent fun base leads undeclared => free base
        ⟨named, by rw [Tree.name_inUnit]; exact leads, undeclared⟩
    unfold Tree.ownedByName at byName
    rw [stored] at byName
    dsimp only at byName ⊢
    simp only [h.memberOfScope t, h.ownerOfConstructor t, h.ownerOfFactoryMethod t]
    have inScope (other : Owner) (named : n.scope.isNone = true →
        r.ownerByName (t.inUnit u) node n.parent = s.ownerByName (t.inUnit v) node n.parent) :
        (if n.scope.isSome = true then other else r.ownerByName (t.inUnit u) node n.parent) =
          if n.scope.isSome = true then other else s.ownerByName (t.inUnit v) node n.parent := by
      split
      · rfl
      next outside => exact named (by simpa using outside)
    generalize n.kind = kind at byName ⊢
    split
    case h_7 =>
      change (if t.isConstructor node = true then _ else if t.isFactoryMethod node = true then _
          else r.ownerByName (t.inUnit u) node n.parent) =
        if t.isConstructor node = true then _ else if t.isFactoryMethod node = true then _
          else s.ownerByName (t.inUnit v) node n.parent
      split
      · rfl
      next other =>
        split
        · rfl
        next plain => exact byName (by simp [other, plain])
    case h_8 =>
      apply byName
      split <;> first | rfl | contradiction
    all_goals exact inScope _ byName

theorem declaringScope (h : Stacked old u v r s) (name : String) :
    r.declaringScope (t.inUnit u) node name = s.declaringScope (t.inUnit v) node name := by
  have scopes : (fun x => (r.ofNode? (t.inUnit u) (some x)).bind fun d =>
      if Ledger.contains name d.origin.vars then some d.longname else none) =
      fun x => (s.ofNode? (t.inUnit v) (some x)).bind fun d =>
        if Ledger.contains name d.origin.vars then some d.longname else none := by
    funext x
    exact h.bind_ofNode? t (some x) fun d e alike => by rw [alike.vars, alike.longname]
  unfold Registry.declaringScope
  rw [Tree.scopesWithinDeclaration_inUnit, Tree.scopesWithinDeclaration_inUnit, scopes]

theorem propertyOwners (h : Stacked old u v r s) : r.propertyOwners (t.inUnit u) node =
    (s.propertyOwners (t.inUnit v) node).map (above old.doclets.size) := by
  have owners : (fun x : NodeIndex => r.idOfNode? (t.inUnit u) (some x)) =
      fun x => (s.idOfNode? (t.inUnit v) (some x)).map (above old.doclets.size) := by
    funext x
    exact h.idOfNode? t (some x)
  unfold Registry.propertyOwners
  rw [Tree.parent_inUnit, Tree.parent_inUnit, Tree.assignmentsAround_inUnit,
    Tree.assignmentsAround_inUnit, owners, List.map_filterMap]

theorem pos_of_propertyOwners (h : Stacked old u v r s)
    (listed : id ∈ s.propertyOwners (t.inUnit v) node) : 0 < id ∧ id < s.doclets.size := by
  obtain ⟨x, _, found⟩ := List.mem_filterMap.mp listed
  exact h.pos_of_idOfNode? t found

/-! ### What `this` is -/

/-- A longname is that of a class on both sides, or on neither, unless the unit has registered
nothing under it. -/
theorem isSome_classOf (h : Stacked old u v r s) (sound : old.Sound) (parent : String)
    (free : s.byLongname.all parent = empty.byLongname.all parent → ¬ old.HasClass parent) :
    ((r.idOfLongname? parent).filter fun id => (r.doclet id).isClass).isSome =
      ((s.idOfLongname? parent).filter fun id => (s.doclet id).isClass).isSome := by
  obtain ⟨new, inside, first, second⟩ := h.byLongname parent
  unfold Registry.idOfLongname?
  rw [History.latest?_eq_getLast?, History.latest?_eq_getLast?, first, second]
  rw [List.getLast?_append, List.getLast?_append, List.getLast?_map]
  cases last : new.getLast? with
  | some id =>
    obtain ⟨pos, bound⟩ := inside id (List.mem_of_getLast? last)
    have alike := (h.alike id pos bound).isClass
    rw [Option.map_some, Option.some_or, Option.some_or, Option.filter_some, Option.filter_some,
      alike]
    split <;> rfl
  | none =>
    rw [List.getLast?_eq_none_iff] at last
    rw [last, List.append_nil] at second
    have unknown (before after : Registry) (sound : before.Sound) (kept : before.Remembers after)
        (none : ¬ before.HasClass parent) :
        ((before.byLongname.all parent).getLast?.filter
          fun id => (after.doclet id).isClass) = Option.none := by
      rw [Option.filter_eq_none_iff]
      intro id last isClass
      obtain ⟨bound, _⟩ := sound.named parent id (List.mem_of_getLast? last)
      refine none ⟨id, ?_, ?_⟩
      · rw [Registry.idOfLongname?, History.latest?_eq_getLast?]
        exact last
      · unfold Doclet.isClass at isClass ⊢
        rw [← (kept.doclet id bound).kind]
        exact isClass
    have outermost : ¬ empty.HasClass parent := by
      rintro ⟨id, _, isClass⟩
      have plain : (empty.doclet id).kind = Option.none := by
        cases id <;> rfl
      rw [Doclet.isClass, plain] at isClass
      cases isClass
    rw [Option.map_none, Option.none_or, Option.none_or,
      unknown old r sound h.remembers.1 (free second),
      unknown empty s sound_empty h.remembers.2 outermost]

theorem isSome_classAt? (h : Stacked old u v r s) (sound : old.Sound)
    (free : ∀ parent, s.AsksClass (t.inUnit v) parent → ¬ old.HasClass parent) (x : NodeIndex) :
    (r.classAt? (t.inUnit u) x).isSome = (s.classAt? (t.inUnit v) x).isSome := by
  unfold Registry.classAt?
  rw [h.idOfNode?]
  cases found : s.idOfNode? (t.inUnit v) (some x) with
  | none => rfl
  | some id =>
    obtain ⟨pos, bound⟩ := h.pos_of_idOfNode? t found
    have alike := h.alike id pos bound
    rw [Option.map_some]
    dsimp only
    rw [alike.isClass, alike.longname]
    split
    · rfl
    · split
      next member =>
        refine h.isSome_classOf sound _ fun unknown => free _ ⟨⟨x, s.doclet id, ?_, ?_⟩, unknown⟩
        · rw [Registry.ofNode?, if_neg (by simp), found]
          rfl
        · rw [Doclet.instanceOf?, if_pos member]
      next => rfl

theorem isSome_classAround? (h : Stacked old u v r s) (sound : old.Sound)
    (free : ∀ parent, s.AsksClass (t.inUnit v) parent → ¬ old.HasClass parent) :
    (r.classAround? (t.inUnit u) node).isSome = (s.classAround? (t.inUnit v) node).isSome := by
  unfold Registry.classAround?
  rw [Tree.scopesAround_inUnit, Tree.scopesAround_inUnit]
  induction t.scopesAround maxScopeWalk node with
  | nil => rfl
  | cons x rest ih =>
    have here := h.isSome_classAt? t sound free x
    rw [List.findSome?_cons, List.findSome?_cons]
    cases first : r.classAt? (t.inUnit u) x with
    | some id =>
      rw [first] at here
      obtain ⟨other, same⟩ := Option.isSome_iff_exists.mp here.symm
      rw [same]
      rfl
    | none =>
      rw [first] at here
      rw [Option.isSome_eq_false_iff.mp here.symm |> Option.isNone_iff_eq_none.mp]
      exact ih

theorem thisIn? (h : Stacked old u v r s) (sound : old.Sound)
    (free : ∀ parent, s.AsksClass (t.inUnit v) parent → ¬ old.HasClass parent) (kind : NodeKind)
    (alike : d.Alike e) :
    r.thisIn? (t.inUnit u) node kind d = s.thisIn? (t.inUnit v) node kind e := by
  unfold Registry.thisIn?
  rw [alike.thisName, alike.kind, alike.memberof, alike.longname,
    h.isSome_classAround? t node sound free]

theorem thisWithin (h : Stacked old u v r s) (sound : old.Sound)
    (free : ∀ parent, s.AsksClass (t.inUnit v) parent → ¬ old.HasClass parent) (limit : Nat) :
    r.thisWithin (t.inUnit u) limit node = s.thisWithin (t.inUnit v) limit node := by
  induction limit generalizing node with
  | zero => rfl
  | succ limit ih =>
    unfold Registry.thisWithin
    rw [Tree.node?_inUnit, Tree.node?_inUnit]
    cases t.node? node with
    | none => rfl
    | some n =>
      dsimp only
      split
      · have both := h.ofNode? t n.parent
        generalize r.ofNode? (t.inUnit u) n.parent = x at both
        generalize s.ofNode? (t.inUnit v) n.parent = y at both
        cases both with
        | none => rfl
        | some alike => rw [Option.map_some, Option.map_some, alike.longname]
      · split
        · rfl
        · rw [show thisNode (t.inUnit u) n = thisNode t n from rfl,
            show thisNode (t.inUnit v) n = thisNode t n from rfl]
          have both := h.ofNode? t (thisNode t n)
          generalize r.ofNode? (t.inUnit u) (thisNode t n) = x at both
          generalize s.ofNode? (t.inUnit v) (thisNode t n) = y at both
          cases both with
          | none => rfl
          | some alike =>
            dsimp only
            rw [h.thisIn? t node sound free n.kind alike, ih]

/-- `this` is what it is in the unit on its own, unless a doclet of the unit is an instance member
of a class from before. -/
theorem this (h : Stacked old u v r s) (sound : old.Sound)
    (free : ∀ parent, s.AsksClass (t.inUnit v) parent → ¬ old.HasClass parent) :
    r.this (t.inUnit u) node = s.this (t.inUnit v) node :=
  h.thisWithin t node sound free _

end Stacked

/-! ### What remains to be done -/

namespace Stacked

variable {old r s : Registry} {u v : Nat} {d e : Doclet} {id : Nat}

theorem joinEnumOf (h : Stacked old u v r s) {owner : Nat} (member : 0 < id) (pos : 0 < owner)
    (bound : owner < s.doclets.size) : Stacked old u v
      (Registry.joinEnumOf (above old.doclets.size id) r (above old.doclets.size owner))
      (Registry.joinEnumOf id s owner) := by
  unfold Registry.joinEnumOf
  rw [(h.alike owner pos bound).isEnum]
  split
  · refine modify (setUndocumented (modify h member ?_ ?_ ?_) member false) pos ?_ ?_ ?_
    · exact fun _ _ alike => { alike with }
    · exact fun _ => ⟨rfl, rfl, rfl, rfl, rfl, rfl⟩
    · exact fun _ => ⟨rfl, rfl, rfl, rfl, rfl, rfl⟩
    · exact fun _ _ alike => { alike with }
    · exact fun _ => ⟨rfl, rfl, rfl, rfl, rfl, rfl⟩
    · exact fun _ => ⟨rfl, rfl, rfl, rfl, rfl, rfl⟩
  · exact h

theorem joinEnum (h : Stacked old u v r s) (t : Tree) (property : NodeRef) (member : 0 < id) :
    Stacked old u v (r.joinEnum (t.inUnit u) property (above old.doclets.size id))
      (s.joinEnum (t.inUnit v) property id) := by
  have inside (owner : Nat) (listed : owner ∈ s.propertyOwners (t.inUnit v) property) :=
    h.pos_of_propertyOwners t property listed
  unfold Registry.joinEnum
  rw [h.propertyOwners]
  generalize s.propertyOwners (t.inUnit v) property = owners at inside
  induction owners generalizing r s with
  | nil => exact h
  | cons owner rest ih =>
    obtain ⟨pos, bound⟩ := inside owner List.mem_cons_self
    refine ih (h.joinEnumOf member pos bound) fun other listed => ?_
    obtain ⟨some, stored⟩ := inside other (List.mem_cons_of_mem _ listed)
    exact ⟨some, Nat.lt_of_lt_of_le stored (retains_joinEnumOf id s owner).size_le⟩

theorem joinClass (h : Stacked old u v r s) (t : Tree) (method : NodeRef) (pos : 0 < id)
    (bound : id < s.doclets.size) : Stacked old u v
      (r.joinClass (t.inUnit u) method (above old.doclets.size id))
      (s.joinClass (t.inUnit v) method id) := by
  unfold Registry.joinClass
  rw [Tree.parent_inUnit, Tree.parent_inUnit, Tree.parent_inUnit, Tree.parent_inUnit,
    h.idOfNode?]
  cases t.parent (t.parent method) with
  | none =>
    have outermost : s.idOfNode? (t.inUnit v) none = some 0 := by
      rw [Registry.idOfNode?, History.latest?_eq_getLast?]
      exact congrArg List.getLast? h.rooted.2.outermost
    rw [outermost, Option.map_some]
    dsimp only
    rw [show above old.doclets.size 0 = 0 from rfl, h.hidden.1, h.hidden.2, Bool.or_true,
      Bool.or_true]
    exact h
  | some x =>
    cases found : s.idOfNode? (t.inUnit v) (some x) with
    | none => exact h
    | some owner =>
      obtain ⟨positive, stored⟩ := h.pos_of_idOfNode? t found
      have alike := h.alike owner positive stored
      have same : decide (above old.doclets.size owner = above old.doclets.size id) =
          decide (owner = id) := decide_eq_decide.mpr (above_inj h.inhabited)
      have this : (mergedClass (r.doclet (above old.doclets.size owner))
          (r.doclet (above old.doclets.size id))).thisName =
          (mergedClass (s.doclet owner) (s.doclet id)).thisName := by
        unfold mergedClass
        dsimp only
        rw [alike.thisName, (h.alike id pos bound).thisName]
      rw [Option.map_some]
      dsimp only
      rw [alike.undocumented, same]
      split
      · exact h
      · exact ((h.setUndocumented positive true).setUndocumented pos true).addDoclet
          { alike with thisName := this }

/-- What remains to be done for a doclet, where a scope lies on top of `n` others. -/
def shift (n : Nat) : FollowUp → FollowUp
  | .trackName scope => .trackName (above n scope)
  | .joinEnum => .joinEnum
  | .joinClass => .joinClass

theorem follow (h : Stacked old u v r s) (t : Tree) (node : NodeRef) (name : String) (pos : 0 < id)
    (bound : id < s.doclets.size) (followUp : FollowUp) : Stacked old u v
      (Registry.follow (t.inUnit u) node name (above old.doclets.size id) r
        (shift old.doclets.size followUp))
      (Registry.follow (t.inUnit v) node name id s followUp) := by
  cases followUp with
  | trackName scope =>
    have alike := h.alike id pos bound
    unfold Registry.follow shift
    dsimp only
    rw [alike.memberof, alike.longname]
    split
    · exact h.declare scope name _
    · exact h
  | joinEnum => exact h.joinEnum t node pos
  | joinClass => exact h.joinClass t node pos bound

theorem follow_all (h : Stacked old u v r s) (t : Tree) (node : NodeRef) (name : String)
    (pos : 0 < id) (bound : id < s.doclets.size) (followUps : List FollowUp) : Stacked old u v
      ((followUps.map (shift old.doclets.size)).foldl
        (Registry.follow (t.inUnit u) node name (above old.doclets.size id)) r)
      (followUps.foldl (Registry.follow (t.inUnit v) node name id) s) := by
  induction followUps generalizing r s with
  | nil => exact h
  | cons first rest ih =>
    exact ih (h.follow t node name pos bound first)
      (Nat.lt_of_lt_of_le bound (retains_follow (t.inUnit v) node name id s first).size_le)

end Stacked

end Registry

end Doclets
