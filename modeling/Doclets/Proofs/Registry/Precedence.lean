import Doclets.Proofs.Registry.Inheritance

/-!
What is documented already wins over what is received. A pass adds results behind the old ones, it
documents no longname that was documented before and no other one twice, and every result it adds
is the copy of a documented member of a parent that its owner names.
-/

namespace Doclets

/-- A copy that `owner` has of a member in its own scope. -/
structure Doclet.CopyOf (copy original : Doclet) (owner : String) : Prop where
  documented : copy.undocumented = false
  shared : copy.scope = some .static ∨ copy.scope = some .perInstance
  memberof : copy.memberof = some owner
  longname : ∃ scope, copy.scope = some scope ∧
    copy.longname = owner ++ scope.punctuation ++ original.ownName
  description : copy.description = original.description
  comment : copy.comment = original.comment
  kind : copy.kind = original.kind
  typeNames : copy.typeNames = original.typeNames
  defaultValue : copy.defaultValue = original.defaultValue
  tags : copy.tags = original.tags
  origin : copy.origin = original.origin

theorem Doclet.copyOf_copyFor {original : Doclet} {scope : Scope}
    (shared : original.sharedScope? = some scope) (relation : Relation) (owner : String) :
    (original.copyFor relation owner (owner ++ scope.punctuation ++ original.ownName)).CopyOf
      original owner := by
  obtain ⟨shown, same, kind⟩ := sharedScope?_eq_some shared
  have passed : original.scope = some .static ∨ original.scope = some .perInstance := by
    rw [same]
    exact kind.imp (congrArg some) (congrArg some)
  cases relation <;>
    exact ⟨shown, passed, rfl, ⟨scope, same, rfl⟩, rfl, rfl, rfl, rfl, rfl, rfl, rfl⟩

theorem Doclet.CopyOf.succeeds {copy later original source : Doclet} {owner : String}
    (h : copy.CopyOf original owner) (copies : later.Succeeds copy)
    (sources : source.Succeeds original) : later.CopyOf source owner := by
  obtain ⟨_, _, _, rfl⟩ := copies
  obtain ⟨_, _, _, rfl⟩ := sources
  exact { h with }

namespace Registry

/-- A result that was received: some documented result names a parent other than itself, and has
the copy of a documented member of this parent. -/
def Received (r : Registry) (id : DocletId) : Prop :=
  ∃ receiver ∈ r.results, (r.doclet receiver).undocumented = false ∧
    ∃ parent, parent ≠ (r.doclet receiver).longname ∧
      (parent ∈ (r.doclet receiver).mixes ∨ parent ∈ (r.doclet receiver).implements ∨
        parent ∈ (r.doclet receiver).augments) ∧
      ∃ source ∈ r.results, (r.doclet source).undocumented = false ∧
        (r.doclet source).memberof = some parent ∧
        (r.doclet id).CopyOf (r.doclet source) (r.doclet receiver).longname

/-- How far a pass over the registry `before` may have come. -/
structure Completes (before r : Registry) : Prop where
  consistent : r.Consistent
  onward : before.Onward r
  kept : ∀ l, before.index.documentedAt l ≠ [] →
    r.index.documentedAt l = before.index.documentedAt l
  single : ∀ l, before.index.documentedAt l = [] → (r.index.documentedAt l).length ≤ 1
  received : ∀ id ∈ r.results, id ∉ before.results → r.Received id

variable {before r s : Registry} {relation : Relation} {receiver member id : DocletId}
  {parent : String}

theorem Completes.start (h : r.Consistent) : r.Completes r where
  consistent := h
  onward := .refl r
  kept _ _ := rfl
  single l empty := by simp [empty]
  received _ member fresh := absurd member fresh

theorem Received.onward (h : r.Received id) (valid : r.Filed) (bound : id < r.doclets.size)
    (later : r.Onward s) : s.Received id := by
  obtain ⟨receiver, present, shown, parent, other, named, source, stored, documented, child, copy⟩ := h
  have owner := later.doclet receiver (valid.valid receiver present)
  have original := later.doclet source (valid.valid source stored)
  have copies := copy.succeeds (later.doclet id bound) original
  rw [← owner.filedAlike.longname] at other copies
  refine ⟨receiver, later.mem_results present, ?_, parent, other, ?_, source,
    later.mem_results stored, ?_, ?_, copies⟩
  · rw [owner.filedAlike.undocumented]
    exact shown
  · obtain ⟨implements, overrides, more, same⟩ := owner
    rw [same]
    exact named.imp_right (Or.imp_left fun listed => more listed)
  · rw [original.filedAlike.undocumented]
    exact documented
  · rw [original.filedAlike.memberof]
    exact child

theorem Entitled.names (h : r.Entitled relation receiver parent member) :
    parent ∈ (r.doclet receiver).mixes ∨ parent ∈ (r.doclet receiver).implements ∨
      parent ∈ (r.doclet receiver).augments := by
  have named := h.named
  have shown := Doclet.undocumented_of_mem_related named
  simp only [Doclet.related, shown, Bool.false_eq_true, if_false] at named
  cases relation
  · exact Or.inl named
  · exact Or.inr (Or.inl named)
  · exact Or.inr (Or.inr named)

/-- The copy that an entitled receiver is given is a received result. -/
theorem Entitled.received {scope : Scope} (h : r.Entitled relation receiver parent member)
    (valid : r.Filed) (shared : (r.doclet member).sharedScope? = some scope) :
    (r.addDoclet ((r.doclet member).copyFor relation (r.doclet receiver).longname
      ((r.doclet receiver).longname ++ scope.punctuation ++ (r.doclet member).ownName))).2.Received
        r.doclets.size := by
  have owner := valid.valid receiver h.receiver_mem
  have original := valid.valid member h.member_mem
  refine ⟨receiver, mem_results_addDoclet.mpr (Or.inl h.receiver_mem), ?_, parent, ?_, ?_, member,
    mem_results_addDoclet.mpr (Or.inl h.member_mem), ?_, ?_, ?_⟩
  · rw [doclet_addDoclet_of_lt owner]
    exact Doclet.undocumented_of_mem_related h.named
  · rw [doclet_addDoclet_of_lt owner]
    exact h.other.symm
  · rw [doclet_addDoclet_of_lt owner]
    exact h.names
  · rw [doclet_addDoclet_of_lt original]
    exact (Doclet.sharedScope?_eq_some shared).1
  · rw [doclet_addDoclet_of_lt original]
    exact h.child
  · rw [doclet_addDoclet_of_lt owner, doclet_addDoclet_of_lt original, doclet_addDoclet_self]
    exact Doclet.copyOf_copyFor shared relation _

theorem Completes.passOn (h : before.Completes r)
    (entitled : r.Entitled relation receiver parent member) :
    before.Completes (passOn relation (r.doclet receiver).longname r member) := by
  have step := passedOn_passOn relation (r.doclet receiver).longname r member
  have later := step.onward
  have sound := step.consistent h.consistent
  have old {id : DocletId} (listed : id ∈ r.results) (fresh : id ∉ before.results) :=
    (h.received id listed fresh).onward h.consistent.toFiled (h.consistent.valid id listed) later
  generalize Registry.passOn relation (r.doclet receiver).longname r member = s
    at step later sound old
  cases step with
  | withheld => exact h
  | kept _ _ =>
    exact ⟨sound, h.onward.trans later, h.kept, h.single, fun id listed => old listed⟩
  | copied shared absent =>
    refine ⟨sound, h.onward.trans later, ?_, ?_, ?_⟩
    · intro l present
      rw [documentedAt_copied shared, h.kept l present]
      split
      next own =>
        -- a longname that was documented before still is, so no copy is made under it
        rw [own, h.kept l present] at absent
        exact absurd absent present
      next => exact List.append_nil _
    · intro l fresh
      rw [documentedAt_copied shared]
      split
      next own =>
        rw [← own, absent]
        exact Nat.le_refl 1
      next =>
        rw [List.append_nil]
        exact h.single l fresh
    · intro id listed fresh
      rcases mem_results_addDoclet.mp listed with before | new
      · exact old before fresh
      · subst new
        exact entitled.received h.consistent.toFiled shared

theorem passInvariant_completes (before : Registry) : PassInvariant before.Completes where
  consistent h := h.consistent
  step h entitled := h.passOn entitled

theorem completes_resolveAugments (h : r.Consistent) : r.Completes r.resolveAugments :=
  ((passInvariant_completes r).resolveAugments (Completes.start h)).1

/-- Existing documentation wins whenever members are received, and all that is added was received. -/
theorem resolveAugments_keeps_documentation (h : r.Consistent) :
    r.results.toList <+: r.resolveAugments.results.toList ∧
    (∀ l, r.index.documentedAt l ≠ [] →
      r.resolveAugments.index.documentedAt l = r.index.documentedAt l) ∧
    (∀ l, r.index.documentedAt l = [] →
      (r.resolveAugments.index.documentedAt l).length ≤ 1) ∧
    (∀ id < r.doclets.size, (r.resolveAugments.doclet id).Succeeds (r.doclet id)) ∧
    ∀ id ∈ r.resolveAugments.results, id ∉ r.results → r.resolveAugments.Received id := by
  have complete := completes_resolveAugments h
  exact ⟨complete.onward.results, complete.kept, complete.single, complete.onward.doclet,
    complete.received⟩

/-- A class with a method, and a class that augments it. -/
def heirs : Registry :=
  ofDoclets [
    { Doclet.empty with longname := "A", kind := some .class },
    { Doclet.empty with
      name := some "run", longname := "A#run", memberof := some "A", scope := some .perInstance },
    { Doclet.empty with longname := "B", kind := some .class, augments := ["A"] }]

theorem resolveAugments_keeps_documentation_heirs :
    heirs.Consistent ∧ heirs.resolveAugments.results = #[1, 2, 3, 4] ∧
    heirs.results.toList <+: heirs.resolveAugments.results.toList ∧
    (heirs.resolveAugments.doclet 4).longname = "B#run" ∧
    heirs.resolveAugments.Received 4 := by
  have sound : heirs.Consistent := consistent_ofDoclets _
  have all : heirs.resolveAugments.results = #[1, 2, 3, 4] := by decide +kernel
  obtain ⟨extended, _, _, _, received⟩ := resolveAugments_keeps_documentation sound
  refine ⟨sound, all, extended, by decide +kernel, received 4 ?_ ?_⟩
  · simp [all]
  · decide +kernel

end Registry

end Doclets
