import Doclets.Proofs.Registry.Borrowing
import Doclets.Proofs.Registry.Inheritance
import Doclets.Registry.FollowUp

/-!
What every operation on a registry keeps: its look-ups agree with the results, and what registrations
lead to is there.
-/

namespace Doclets.Registry

structure Sound (r : Registry) : Prop extends Consistent r, Anchored r

variable {r : Registry} {id member owner : DocletId} {d : Doclet} {f : Doclet → Doclet}

theorem sound_empty : empty.Sound := ⟨consistent_empty, anchored_empty⟩

namespace Sound

theorem nextUnit (h : r.Sound) : r.nextUnit.2.Sound :=
  ⟨⟨{ h.toFiled with }, h.borrowed⟩, { h.toAnchored with }⟩

theorem addDoclet (h : r.Sound) (d : Doclet) : (r.addDoclet d).2.Sound :=
  ⟨h.toConsistent.addDoclet d, h.toAnchored.addDoclet d⟩

theorem modify (h : r.Sound) (alike : ∀ d, (f d).FiledAlike d)
    (requests : ∀ d, (f d).borrowed = d.borrowed) : (r.modify id f).Sound :=
  ⟨h.toConsistent.modify alike requests, h.toAnchored.modify alike⟩

theorem setUndocumented (h : r.Sound) (listed : id ∈ r.results) (hidden : Bool) :
    (r.setUndocumented id hidden).Sound :=
  ⟨h.toConsistent.setUndocumented listed hidden, h.toAnchored.setUndocumented listed hidden⟩

theorem declare (h : r.Sound) (scope : DocletId) (name : String) (longname : Option String) :
    (r.declare scope name longname).Sound :=
  h.modify (fun _ => ⟨rfl, rfl, rfl⟩) fun _ => rfl

theorem register (h : r.Sound) (bound : id < r.doclets.size) (key : ScopeKey) :
    (r.register key id).Sound :=
  ⟨h.toConsistent.register bound key, h.toAnchored.register bound key⟩

/-- A doclet is registered once it is a result, or as the placeholder of a function. -/
theorem registerNode (h : r.Sound) (t : Tree) (node : NodeRef) (last : Option DocletId)
    (code : Symbol) (listed : ∀ id ∈ last, id ∈ r.results) :
    (r.registerNode t node last code).Sound := by
  unfold Registry.registerNode
  dsimp only
  cases last with
  | some id => exact h.register (h.valid id (listed id rfl)) _
  | none =>
    dsimp only
    split
    · exact h
    · refine register ⟨h.toConsistent.insert _, h.toAnchored.insert rfl⟩ ?_ _
      rw [doclets_size_insert]
      exact Nat.lt_succ_self _

/-! ### Passes -/

theorem resolveAugments (h : r.Sound) : r.resolveAugments.Sound := by
  have kept : PassInvariant Sound :=
    ⟨fun sound => sound.toConsistent, fun sound _ =>
      ⟨(passedOn_passOn ..).consistent sound.toConsistent,
        (passedOn_passOn ..).anchored sound.toAnchored⟩⟩
  exact (kept.resolveAugments h).1

theorem resolveBorrows (h : r.Sound) : r.resolveBorrows.Sound := by
  have done := lending_resolveBorrows h.toConsistent h.toAnchored
  exact ⟨done.consistent, done.toAnchored⟩

end Sound

/-! ### Follow-ups -/

theorem results_joinEnumOf (member : DocletId) (r : Registry) (owner : DocletId) :
    (joinEnumOf member r owner).results = r.results := by
  unfold joinEnumOf
  split <;> rfl

/-- A member that joins its enumeration is a result, so it is filed anew as documented. -/
theorem Sound.joinEnumOf (h : r.Sound) (listed : member ∈ r.results) (owner : DocletId) :
    (joinEnumOf member r owner).Sound := by
  unfold Registry.joinEnumOf
  split
  · dsimp only
    refine modify (setUndocumented (modify h ?_ ?_) listed false) ?_ ?_
    · exact fun _ => ⟨rfl, rfl, rfl⟩
    · exact fun _ => rfl
    · exact fun _ => ⟨rfl, rfl, rfl⟩
    · exact fun _ => rfl
  · exact h

theorem Sound.joinEnum (h : r.Sound) (listed : member ∈ r.results) (t : Tree)
    (property : NodeRef) : (r.joinEnum t property member).Sound ∧
      (r.joinEnum t property member).results = r.results := by
  unfold Registry.joinEnum
  generalize r.propertyOwners t property = owners
  induction owners generalizing r with
  | nil => exact ⟨h, rfl⟩
  | cons owner rest ih =>
    have same := results_joinEnumOf member r owner
    obtain ⟨sound, results⟩ := ih (h.joinEnumOf listed owner) (same ▸ listed)
    exact ⟨sound, results.trans same⟩

/-- The doclet that a constructor is merged with has documentation, so it is a result. -/
theorem Sound.joinClass (h : r.Sound) (listed : id ∈ r.results) (t : Tree) (method : NodeRef) :
    (r.joinClass t method id).Sound ∧
      r.results.toList <+: (r.joinClass t method id).results.toList := by
  unfold Registry.joinClass
  cases found : r.idOfNode? t (t.parent (t.parent method)) with
  | none => exact ⟨h, List.prefix_refl _⟩
  | some owner =>
    dsimp only
    split
    · exact ⟨h, List.prefix_refl _⟩
    next other =>
      simp only [Bool.or_eq_true, not_or, Bool.not_eq_true] at other
      have stored : owner < r.doclets.size := by
        rw [idOfNode?, History.latest?_eq_getLast?] at found
        exact h.stored _ owner (List.mem_of_getLast? found)
      have documented : owner ∈ r.results := h.documented owner stored other.2
      have hidden := h.setUndocumented documented true
      have result : id ∈ (r.setUndocumented owner true).results := listed
      refine ⟨(hidden.setUndocumented result true).addDoclet _, ?_⟩
      rw [results_addDoclet]
      exact List.prefix_append _ _

theorem Sound.follow (h : r.Sound) (listed : id ∈ r.results) (t : Tree) (node : NodeRef)
    (name : String) (followUp : FollowUp) :
    (follow t node name id r followUp).Sound ∧
      r.results.toList <+: (follow t node name id r followUp).results.toList := by
  cases followUp with
  | trackName scope =>
    unfold Registry.follow
    dsimp only
    split
    · exact ⟨h.declare _ _ _, List.prefix_refl _⟩
    · exact ⟨h, List.prefix_refl _⟩
  | joinEnum =>
    obtain ⟨sound, same⟩ := h.joinEnum listed t node
    exact ⟨sound, same ▸ List.prefix_refl _⟩
  | joinClass => exact h.joinClass listed t node

theorem Sound.follow_all (h : r.Sound) (listed : id ∈ r.results) (t : Tree) (node : NodeRef)
    (name : String) (followUps : List FollowUp) :
    (followUps.foldl (Registry.follow t node name id) r).Sound ∧
      id ∈ (followUps.foldl (Registry.follow t node name id) r).results := by
  induction followUps generalizing r with
  | nil => exact ⟨h, listed⟩
  | cons first rest ih =>
    obtain ⟨sound, more⟩ := h.follow listed t node name first
    have still := more.subset (Array.mem_toList_iff.mpr listed)
    exact ih sound (Array.mem_toList_iff.mp still)

end Doclets.Registry
