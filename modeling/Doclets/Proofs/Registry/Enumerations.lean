import Doclets.Proofs.Registry.Limits
import Doclets.Proofs.Registry.Retention

/-!
What enumerations collect. A property looks for its owners at the literal that it stands in and at
the assignments around it. A new member is copied onto each of its owners that is an enumeration,
one after the other; a copy that was taken before another enumeration gave the member a type has
none. Nothing else that is done for a symbol changes an enumeration.
-/

namespace Doclets

/-! ### Where a property looks for its owners -/

namespace Tree

variable {t : Tree} {o p x : NodeIndex} {nodes : List NodeIndex} {node : NodeRef}

/-- Whatever is climbed to is an assignment. -/
theorem ClimbsAssignments.cases (climbs : t.ClimbsAssignments node nodes) (listed : x ∈ nodes) :
    node = some x ∨ t.isKind (some x) .assignmentExpression = true := by
  induction climbs with
  | outside => cases listed
  | last _ => exact Or.inl (congrArg some (List.mem_singleton.mp listed).symm)
  | @further i rest assigned _ ih =>
    rcases List.mem_cons.mp listed with rfl | later
    · exact Or.inl rfl
    · rcases ih later with same | above
      · exact Or.inr (same ▸ assigned)
      · exact Or.inr above

/-- A property that looks for its owners at `x`. -/
def seeksOwnerAt (t : Tree) (x p : NodeIndex) : Bool :=
  t.isKind (some p) .property && (t.assignmentsAround maxOwnerWalk (t.parent (some p))).contains x

theorem Scoped.nodup_assignmentsAround (h : t.Scoped) (limit : Nat) (p : NodeIndex) :
    (t.assignmentsAround limit (t.parent (some p))).Nodup := by
  obtain ⟨nodes, climbs⟩ := h.exists_climbsAssignments (t.parent (some p))
  have outward := (h.outward_of_climbs climbs rfl).pairwise.of_cons
  rw [climbs.assignmentsAround]
  refine ((outward.imp ?_).sublist (List.take_sublist limit nodes) : List.Nodup _)
  rintro inner outer around rfl
  exact h.not_around_self around

theorem mem_of_seeksOwnerAt (seeks : t.seeksOwnerAt x p = true) :
    x ∈ t.assignmentsAround maxOwnerWalk (t.parent (some p)) := by
  simpa using (Bool.and_eq_true_iff.mp seeks).2

theorem Scoped.around_of_seeksOwnerAt (h : t.Scoped) (seeks : t.seeksOwnerAt x p = true) :
    t.Around x p := by
  obtain ⟨nodes, climbs⟩ := h.exists_climbsAssignments (t.parent (some p))
  have listed := mem_of_seeksOwnerAt seeks
  rw [climbs.assignmentsAround] at listed
  have outward := (h.outward_of_climbs climbs rfl).pairwise
  exact List.rel_of_pairwise_cons outward (List.mem_of_mem_take listed)

/-- At a node that is no assignment only those properties look for their owners that it lists. -/
theorem Scoped.parent_of_seeksOwnerAt (h : t.Scoped) (seeks : t.seeksOwnerAt x p = true)
    (plain : t.isKind (some x) .assignmentExpression = false) : t.parent (some p) = some x := by
  obtain ⟨nodes, climbs⟩ := h.exists_climbsAssignments (t.parent (some p))
  have listed := mem_of_seeksOwnerAt seeks
  rw [climbs.assignmentsAround] at listed
  rcases climbs.cases (List.mem_of_mem_take listed) with same | assigned
  · exact same
  · rw [plain] at assigned
    cases assigned

/-- The properties of a literal look for their owners there, and at the assignments around it. -/
theorem ClimbsAssignments.seeksOwnerAt (climbs : t.ClimbsAssignments (some o) nodes)
    (near : x ∈ nodes.take maxOwnerWalk) (property : t.isKind (some p) .property = true)
    (parent : t.parent (some p) = some o) : t.seeksOwnerAt x p = true := by
  unfold Tree.seeksOwnerAt
  rw [property, parent, climbs.assignmentsAround, Bool.true_and]
  simpa using near

end Tree

/-! ### Members and copies -/

namespace Doclet

/-- A doclet as the member of an enumeration of these types. -/
def joined (d : Doclet) (types : Option (List String)) : Doclet :=
  { d with
    typeNames := d.typeNames.or types
    defaultValue := d.origin.code.bind CodeOrigin.value
    undocumented := false }

/-- The copy that an enumeration of these types has of a member: the member, without its type where
only another enumeration gave it one. -/
def CopiedFor (types : Option (List String)) (copy member : Doclet) : Prop :=
  copy = member ∨ types = none ∧ copy = { member with typeNames := none }

/-- The same enumeration, with the same types and the same members, or none. -/
structure SameEnum (d e : Doclet) : Prop where
  isEnum : e.isEnum = d.isEnum
  typeNames : e.typeNames = d.typeNames
  properties : e.properties = d.properties

theorem SameEnum.refl (d : Doclet) : d.SameEnum d := ⟨rfl, rfl, rfl⟩

theorem SameEnum.trans {c d e : Doclet} (first : c.SameEnum d) (second : d.SameEnum e) :
    c.SameEnum e where
  isEnum := second.isEnum.trans first.isEnum
  typeNames := second.typeNames.trans first.typeNames
  properties := second.properties.trans first.properties

variable (d : Doclet) (types more : Option (List String))

theorem joined_joined : (d.joined types).joined more = d.joined (types.or more) := by
  unfold joined
  dsimp only
  rw [Option.or_assoc]

/-- A copy is taken before the member joins more enumerations. -/
theorem copiedFor_joined : CopiedFor types (d.joined types) ((d.joined types).joined more) := by
  unfold CopiedFor joined
  dsimp only
  cases typed : d.typeNames.or types with
  | some names => exact Or.inl rfl
  | none => exact Or.inr ⟨(Option.or_eq_none_iff.mp typed).2, rfl⟩

end Doclet

namespace Registry

variable {r : Registry} {member owner id : DocletId} {owners before after : List DocletId}

/-! ### One owner -/

theorem lt_size_of_isEnum (enumeration : (r.doclet id).isEnum = true) : id < r.doclets.size := by
  rcases Nat.lt_or_ge id r.doclets.size with inside | outside
  · exact inside
  · rw [doclet, Array.getD_eq_getD_getElem?, Array.getElem?_eq_none outside] at enumeration
    cases enumeration

/-- A member of an enumeration: it is documented, also for those who look its longname up, and has
its value in the code as default value. -/
structure Enrolled (r : Registry) (member : DocletId) : Prop where
  documented : (r.doclet member).undocumented = false
  filed : member ∈ r.index.documentedAt (r.doclet member).longname
  value : (r.doclet member).defaultValue = (r.doclet member).origin.code.bind CodeOrigin.value

theorem joinEnumOf_of_plain (plain : (r.doclet owner).isEnum = false) :
    joinEnumOf member r owner = r := by
  unfold joinEnumOf
  rw [if_neg (by simp [plain])]

/-- Nothing but the member and the enumeration that it joins is changed. -/
theorem doclet_joinEnumOf_of_ne (other : id ≠ member) (apart : id ≠ owner) :
    (joinEnumOf member r owner).doclet id = r.doclet id := by
  unfold joinEnumOf
  split
  · dsimp only
    rw [doclet_modify_of_ne _ _ apart.symm, doclet_setUndocumented_of_ne _ _ other.symm,
      doclet_modify_of_ne _ _ other.symm]
  · rfl

/-- What a member and an enumeration that it joins become. -/
theorem joinEnumOf_of_isEnum (enumeration : (r.doclet owner).isEnum = true)
    (stored : member < r.doclets.size) (apart : owner ≠ member) :
    let s := joinEnumOf member r owner
    s.doclet member = (r.doclet member).joined (r.doclet owner).typeNames ∧
      s.doclet owner = { r.doclet owner with
        properties := (r.doclet owner).properties ++ [s.doclet member] } ∧ s.Enrolled member := by
  have inside := lt_size_of_isEnum enumeration
  let joined := r.modify member fun d => { d with
    typeNames := d.typeNames.or (r.doclet owner).typeNames
    defaultValue := d.origin.code.bind CodeOrigin.value }
  let shown := joined.setUndocumented member false
  have same : joinEnumOf member r owner = shown.modify owner fun d =>
      { d with properties := d.properties ++ [shown.doclet member] } := by
    unfold joinEnumOf
    rw [if_pos enumeration]
  have still : shown.doclet owner = r.doclet owner := by
    rw [doclet_setUndocumented_of_ne _ _ apart.symm, doclet_modify_of_ne _ _ apart.symm]
  have enters : shown.doclet member = (r.doclet member).joined (r.doclet owner).typeNames := by
    have bound : member < joined.doclets.size := by simpa [joined] using stored
    rw [doclet_setUndocumented_self _ _ bound, doclet_modify_self _ _ stored]
    rfl
  have left : (joinEnumOf member r owner).doclet member = shown.doclet member := by
    rw [same, doclet_modify_of_ne _ _ apart]
  have more : owner < shown.doclets.size :=
    Nat.lt_of_lt_of_eq inside (by simp [shown, joined, setUndocumented])
  refine ⟨left.trans enters, ?_, ?_⟩
  · rw [left, same, doclet_modify_self _ _ more, still]
  · refine ⟨?_, ?_, ?_⟩
    · rw [left, enters]
      rfl
    · rw [left, same, index_modify]
      have filed := joined.index.documentedAt_refile_self member (shown.doclet member)
      rw [show (shown.doclet member).undocumented = false by rw [enters]; rfl] at filed
      have index : shown.index = joined.index.refile member (shown.doclet member) := rfl
      rw [index, filed]
      exact List.mem_append_right _ (List.mem_singleton.mpr rfl)
    · rw [left, enters]
      rfl

/-! ### All owners -/

theorem foldl_joinEnumOf_of_plain (plain : ∀ owner ∈ owners, (r.doclet owner).isEnum = false) :
    owners.foldl (joinEnumOf member) r = r := by
  induction owners with
  | nil => rfl
  | cons owner rest ih =>
    rw [List.foldl_cons, joinEnumOf_of_plain (plain owner List.mem_cons_self)]
    exact ih fun other later => plain other (List.mem_cons_of_mem owner later)

theorem doclet_foldl_joinEnumOf_of_notMem (other : id ≠ member) (apart : id ∉ owners) :
    (owners.foldl (joinEnumOf member) r).doclet id = r.doclet id := by
  induction owners generalizing r with
  | nil => rfl
  | cons owner rest ih =>
    obtain ⟨first, later⟩ := List.ne_and_not_mem_of_not_mem_cons apart
    rw [List.foldl_cons, ih later, doclet_joinEnumOf_of_ne other first]

/-- Joining enumerations makes none. -/
theorem isEnum_joinEnumOf (member : DocletId) (r : Registry) (owner id : DocletId) :
    ((joinEnumOf member r owner).doclet id).isEnum = (r.doclet id).isEnum := by
  unfold joinEnumOf
  split
  · dsimp only
    simp only [doclet_modify, doclet_setUndocumented]
    split_ifs <;> rfl
  · rfl

theorem isEnum_foldl_joinEnumOf (r : Registry) (member : DocletId) (owners : List DocletId)
    (id : DocletId) :
    ((owners.foldl (joinEnumOf member) r).doclet id).isEnum = (r.doclet id).isEnum := by
  induction owners generalizing r with
  | nil => rfl
  | cons owner rest ih => rw [List.foldl_cons, ih, isEnum_joinEnumOf]

theorem doclets_size_joinEnumOf (member : DocletId) (r : Registry) (owner : DocletId) :
    (joinEnumOf member r owner).doclets.size = r.doclets.size := by
  unfold joinEnumOf
  split
  · simp [setUndocumented]
  · rfl

theorem doclets_size_foldl_joinEnumOf (r : Registry) (member : DocletId)
    (owners : List DocletId) :
    (owners.foldl (joinEnumOf member) r).doclets.size = r.doclets.size := by
  induction owners generalizing r with
  | nil => rfl
  | cons owner rest ih => rw [List.foldl_cons, ih, doclets_size_joinEnumOf]

/-- What a new member becomes, which was none or is one already. -/
theorem member_foldl_joinEnumOf (stored : member < r.doclets.size) (apart : member ∉ owners) :
    let s := owners.foldl (joinEnumOf member) r
    (s.doclet member = r.doclet member ∨
      ∃ types, s.doclet member = (r.doclet member).joined types) ∧
    (r.Enrolled member → s.Enrolled member) := by
  induction owners generalizing r with
  | nil => exact ⟨Or.inl rfl, id⟩
  | cons owner rest ih =>
    obtain ⟨first, later⟩ := List.ne_and_not_mem_of_not_mem_cons apart
    rw [List.foldl_cons]
    cases kind : (r.doclet owner).isEnum with
    | false =>
      rw [joinEnumOf_of_plain kind]
      exact ih stored later
    | true =>
      obtain ⟨enters, _, enrolled⟩ := joinEnumOf_of_isEnum kind stored first.symm
      have bound := Nat.lt_of_lt_of_eq stored (doclets_size_joinEnumOf member r owner).symm
      obtain ⟨becomes, stays⟩ := ih bound later
      refine ⟨Or.inr ?_, fun _ => stays enrolled⟩
      rcases becomes with same | ⟨types, more⟩
      · exact ⟨_, same.trans enters⟩
      · exact ⟨_, by rw [more, enters, Doclet.joined_joined]⟩

/-- An enumeration that owns a new member gets one copy of it. -/
theorem foldl_joinEnumOf_of_isEnum (enumeration : (r.doclet owner).isEnum = true)
    (stored : member < r.doclets.size) (apart : member ∉ before ++ owner :: after)
    (first : owner ∉ before) (last : owner ∉ after) :
    let s := (before ++ owner :: after).foldl (joinEnumOf member) r
    (∃ copy, Doclet.CopiedFor (r.doclet owner).typeNames copy (s.doclet member) ∧
      s.doclet owner = { r.doclet owner with
        properties := (r.doclet owner).properties ++ [copy] }) ∧
    s.Enrolled member ∧ (∃ types, s.doclet member = (r.doclet member).joined types) ∧
    ((r.doclet owner).typeNames.isSome = true → (s.doclet member).typeNames.isSome = true) := by
  simp only [List.mem_append, List.mem_cons, not_or] at apart
  obtain ⟨notBefore, other, notAfter⟩ := apart
  rw [List.foldl_append, List.foldl_cons]
  have still := doclet_foldl_joinEnumOf_of_notMem (r := r) (Ne.symm other) first
  have bound := Nat.lt_of_lt_of_eq stored (doclets_size_foldl_joinEnumOf r member before).symm
  have early := (member_foldl_joinEnumOf stored notBefore).1
  generalize before.foldl (joinEnumOf member) r = s at still bound early
  rw [← still] at enumeration ⊢
  obtain ⟨enters, collects, enrolled⟩ := joinEnumOf_of_isEnum enumeration bound (Ne.symm other)
  have inside := Nat.lt_of_lt_of_eq bound (doclets_size_joinEnumOf member s owner).symm
  generalize joinEnumOf member s owner = joined at enters collects enrolled inside
  obtain ⟨late, stays⟩ := member_foldl_joinEnumOf inside notAfter
  have kept := doclet_foldl_joinEnumOf_of_notMem (r := joined) (Ne.symm other) last
  have copied : Doclet.CopiedFor (s.doclet owner).typeNames (joined.doclet member)
      ((after.foldl (joinEnumOf member) joined).doclet member) := by
    rcases late with same | ⟨types, more⟩
    · exact Or.inl same.symm
    · rw [more, enters]
      exact Doclet.copiedFor_joined _ _ _
  refine ⟨⟨_, copied, kept.trans collects⟩, stays enrolled, ?_, fun typed => ?_⟩
  · obtain ⟨types, begun⟩ : ∃ types, joined.doclet member = (r.doclet member).joined types := by
      rcases early with same | ⟨types, more⟩
      · exact ⟨_, same ▸ enters⟩
      · exact ⟨_, by rw [enters, more, Doclet.joined_joined]⟩
    rcases late with same | ⟨more, further⟩
    · exact ⟨types, same.trans begun⟩
    · exact ⟨_, by rw [further, begun, Doclet.joined_joined]⟩
  · rcases copied with same | ⟨none, _⟩
    · rw [← same, enters, Doclet.joined, Option.isSome_or, typed, Bool.or_true]
    · rw [none] at typed
      cases typed

/-! ### Steps that change no enumeration -/

/-- A registry that lost no doclet, and in which those that there were are the same enumerations. -/
structure KeepsEnums (r s : Registry) : Prop where
  size_le : r.doclets.size ≤ s.doclets.size
  same : ∀ id < r.doclets.size, (r.doclet id).SameEnum (s.doclet id)

theorem doclet_of_doclets {r s : Registry} (same : s.doclets = r.doclets) (id : DocletId) :
    s.doclet id = r.doclet id := by
  unfold doclet
  rw [same]

namespace KeepsEnums

theorem refl (r : Registry) : r.KeepsEnums r := ⟨Nat.le_refl _, fun _ _ => .refl _⟩

theorem of_doclets {r s : Registry} (same : s.doclets = r.doclets) : r.KeepsEnums s :=
  ⟨Nat.le_of_eq (congrArg Array.size same.symm), fun id _ => doclet_of_doclets same id ▸ .refl _⟩

theorem trans {r s t : Registry} (first : r.KeepsEnums s) (second : s.KeepsEnums t) :
    r.KeepsEnums t where
  size_le := Nat.le_trans first.size_le second.size_le
  same id bound :=
    (first.same id bound).trans (second.same id (Nat.lt_of_lt_of_le bound first.size_le))

end KeepsEnums

theorem keepsEnums_insert (r : Registry) (d : Doclet) : r.KeepsEnums (r.insert d).2 where
  size_le := by simp
  same id bound := by
    rw [r.doclet_insert_of_lt d bound]
    exact .refl _

theorem keepsEnums_addDoclet (r : Registry) (d : Doclet) : r.KeepsEnums (r.addDoclet d).2 :=
  (r.keepsEnums_insert d).trans (.of_doclets rfl)

theorem keepsEnums_modify (r : Registry) (id : DocletId) {f : Doclet → Doclet}
    (alike : ∀ d : Doclet, d.SameEnum (f d)) : r.KeepsEnums (r.modify id f) where
  size_le := by simp
  same other _ := by
    rw [doclet_modify]
    split
    · exact alike _
    · exact .refl _

theorem keepsEnums_setUndocumented (r : Registry) (id : DocletId) (hidden : Bool) :
    r.KeepsEnums (r.setUndocumented id hidden) := by
  have kept : r.KeepsEnums (r.modify id fun d => { d with undocumented := hidden }) :=
    r.keepsEnums_modify id fun _ => ⟨rfl, rfl, rfl⟩
  exact ⟨kept.size_le, kept.same⟩

theorem keepsEnums_declare (r : Registry) (scope : DocletId) (name : String)
    (longname : Option String) : r.KeepsEnums (r.declare scope name longname) :=
  r.keepsEnums_modify scope fun _ => ⟨rfl, rfl, rfl⟩

theorem keepsEnums_joinClass (r : Registry) (t : Tree) (method : NodeRef)
    (constructor : DocletId) : r.KeepsEnums (r.joinClass t method constructor) := by
  unfold joinClass
  split
  · exact .refl r
  · dsimp only
    split
    · exact .refl r
    · exact ((r.keepsEnums_setUndocumented _ true).trans
        (keepsEnums_setUndocumented _ _ true)).trans (keepsEnums_addDoclet _ _)

theorem keepsEnums_follow (t : Tree) (node : NodeRef) (name : String) (id : DocletId)
    (r : Registry) {followUp : FollowUp} (other : followUp ≠ .joinEnum) :
    r.KeepsEnums (follow t node name id r followUp) := by
  cases followUp with
  | trackName scope =>
    unfold follow
    dsimp only
    split
    · exact r.keepsEnums_declare scope name _
    · exact .refl r
  | joinEnum => exact absurd rfl other
  | joinClass => exact r.keepsEnums_joinClass t node id

theorem keepsEnums_registerNode (r : Registry) (t : Tree) (node : NodeRef)
    (last : Option DocletId) (code : Symbol) : r.KeepsEnums (r.registerNode t node last code) := by
  unfold registerNode
  dsimp only
  cases last with
  | some id => exact .of_doclets rfl
  | none =>
    dsimp only
    split
    · exact .refl r
    · exact (r.keepsEnums_insert _).trans (.of_doclets rfl)

end Registry

end Doclets
