import Doclets.Proofs.Registry.Checked
import Doclets.Proofs.Registry.Inheritance

/-!
Why no id is ever asked for in vain. Every operation on a registry is followed through: that it only
asks for ids that are kept, that those it goes on to keep are those of stored doclets, and that it
takes no doclet out, so that ids which were read before it are still good.
-/

namespace Doclets.Checked

variable {r s : Registry} {id : DocletId} {done : Checked Registry}

/-- From `r`, a checked operation does not fail: it makes `s`, where ids that were those of stored
doclets still are, and all that are kept are. -/
structure Safely (r : Registry) (done : Checked Registry) (s : Registry) : Prop where
  ok : done = .ok s
  bounded : s.Bounded
  size : r.doclets.size ≤ s.doclets.size

namespace Safely

theorem refl (h : r.Bounded) : Safely r (.ok r) r := ⟨rfl, h, Nat.le_refl _⟩

theorem bind {next : Registry → Checked Registry} {u : Registry} (first : Safely r done s)
    (second : Safely s (next s) u) : Safely r (done >>= next) u where
  ok := by
    rw [first.ok]
    exact second.ok
  bounded := second.bounded
  size := Nat.le_trans first.size second.size

/-- A loop over ids may go on with a list that was read before it: no doclet is taken out. -/
theorem foldl {α : Type} {list : List α} {f : Registry → α → Checked Registry}
    {g : Registry → α → Registry} (h : r.Bounded)
    (step : ∀ a ∈ list, ∀ s : Registry, s.Bounded → r.doclets.size ≤ s.doclets.size →
      Safely s (f s a) (g s a)) : Safely r (list.foldlM f r) (list.foldl g r) := by
  induction list generalizing r with
  | nil => exact refl h
  | cons a rest ih =>
    have first := step a List.mem_cons_self r h (Nat.le_refl _)
    exact first.bind (ih first.bounded fun b later s sound grown =>
      step b (List.mem_cons_of_mem _ later) s sound (Nat.le_trans first.size grown))

variable (h : r.Bounded)

include h

theorem modify (bound : id < r.doclets.size) (f : Doclet → Doclet) :
    Safely r (modify r id f) (r.modify id f) where
  ok := by
    unfold Checked.modify
    rw [bind_eq (doclet_eq bound)]
    rfl
  bounded := h.modify id f
  size := Nat.le_of_eq (r.doclets_size_modify id f).symm

theorem setUndocumented (bound : id < r.doclets.size) (undocumented : Bool) :
    Safely r (setUndocumented r id undocumented) (r.setUndocumented id undocumented) where
  ok := by
    have first := modify h bound fun d => { d with undocumented := undocumented }
    unfold Checked.setUndocumented
    rw [bind_eq first.ok, bind_eq (doclet_eq (Nat.lt_of_lt_of_le bound first.size))]
    rfl
  bounded := h.setUndocumented bound undocumented
  size := Nat.le_of_eq (r.doclets_size_modify id _).symm

theorem register (bound : id < r.doclets.size) (key : ScopeKey) :
    Safely r (register r key id) (r.register key id) where
  ok := by
    unfold Checked.register
    rw [bind_eq (doclet_eq bound)]
    rfl
  bounded := h.register bound key
  size := Nat.le_refl _

end Safely

theorem fst_insert_lt (d : Doclet) : (r.insert d).1 < (r.insert d).2.doclets.size := by
  rw [Registry.doclets_size_insert]
  exact Nat.lt_succ_self _

theorem Safely.of_insert {d : Doclet} (second : Safely (r.insert d).2 done s) :
    Safely r done s := by
  refine { second with size := Nat.le_trans ?_ second.size }
  rw [Registry.doclets_size_insert]
  exact Nat.le_succ _

theorem addDoclet_eq (d : Doclet) : addDoclet r d = .ok (r.addDoclet d) := by
  unfold addDoclet addResult
  dsimp only
  rw [doclet_eq (fst_insert_lt d)]
  rfl

theorem Safely.addDoclet (h : r.Bounded) (d : Doclet) :
    Safely r (do return (← addDoclet r d).2) (r.addDoclet d).2 where
  ok := by
    rw [addDoclet_eq]
    rfl
  bounded := h.addDoclet d
  size := by
    rw [Registry.doclets_size_addDoclet]
    exact Nat.le_succ _

/-! ### Registrations and follow-ups -/

namespace Safely

variable {owner member : DocletId} (h : r.Bounded)

include h

theorem registerNode (t : Tree) (node : NodeRef) (last : Option DocletId)
    (bound : ∀ id ∈ last, id < r.doclets.size) (code : Symbol) :
    Safely r (registerNode r t node last code) (r.registerNode t node last code) := by
  unfold Checked.registerNode Registry.registerNode
  cases last with
  | some id => exact register h (bound id rfl) _
  | none =>
    dsimp only
    split
    · exact refl h
    · exact of_insert (register (h.insert _) (fst_insert_lt _) _)

theorem declare (bound : id < r.doclets.size) (name : String) (longname : Option String) :
    Safely r (declare r id name longname) (r.declare id name longname) := modify h bound _

theorem joinEnumOf (known : member < r.doclets.size) (bound : owner < r.doclets.size) :
    Safely r (joinEnumOf member r owner) (Registry.joinEnumOf member r owner) := by
  unfold Checked.joinEnumOf Registry.joinEnumOf
  rw [bind_eq (doclet_eq bound)]
  split
  · have first := modify h known fun d =>
      { d with
        typeNames := d.typeNames.or (r.doclet owner).typeNames
        defaultValue := d.origin.code.bind CodeOrigin.value }
    have second := setUndocumented first.bounded (Nat.lt_of_lt_of_le known first.size) false
    have grown := Nat.le_trans first.size second.size
    rw [bind_eq (doclet_eq bound)]
    refine first.bind (second.bind ?_)
    rw [bind_eq (doclet_eq (Nat.lt_of_lt_of_le known grown))]
    exact modify second.bounded (Nat.lt_of_lt_of_le bound grown) _
  · exact refl h

theorem joinEnum (known : member < r.doclets.size) (t : Tree) (property : NodeRef) :
    Safely r (joinEnum r t property member) (r.joinEnum t property member) := by
  refine foldl h fun owner listed s sound grown =>
    joinEnumOf sound (Nat.lt_of_lt_of_le known grown) ?_
  obtain ⟨i, _, found⟩ := List.mem_filterMap.mp listed
  exact Nat.lt_of_lt_of_le (h.ofNode found) grown

theorem joinClass (known : id < r.doclets.size) (t : Tree) (method : NodeRef) :
    Safely r (joinClass r t method id) (r.joinClass t method id) := by
  unfold Checked.joinClass Registry.joinClass
  cases found : r.idOfNode? t (t.parent (t.parent method)) with
  | none => exact refl h
  | some owner =>
    dsimp only
    have around := h.ofNode found
    rw [bind_eq (doclet_eq around)]
    split
    · exact refl h
    · rw [bind_eq (doclet_eq around), bind_eq (doclet_eq known)]
      have first := setUndocumented h around true
      have second := setUndocumented first.bounded (Nat.lt_of_lt_of_le known first.size) true
      exact first.bind (second.bind (addDoclet second.bounded _))

theorem follow (known : id < r.doclets.size) (t : Tree) (node : NodeRef) (name : String)
    {followUp : FollowUp} (bound : ∀ i ∈ followUp.held, i < r.doclets.size) :
    Safely r (follow t node name id r followUp) (Registry.follow t node name id r followUp) := by
  cases followUp with
  | trackName scope =>
    unfold Checked.follow Registry.follow
    dsimp only
    rw [bind_eq (doclet_eq known)]
    split
    · exact declare h (bound scope List.mem_cons_self) _ _
    · exact refl h
  | joinEnum => exact joinEnum h known t node
  | joinClass => exact joinClass h known t node

end Safely

/-! ### Members received from others, and borrowed documentation -/

namespace Safely

variable {receiver member borrower : DocletId} (h : r.Bounded)

include h

theorem passOn (relation : Relation) (longname : String) (bound : member < r.doclets.size) :
    Safely r (passOn relation longname r member) (Registry.passOn relation longname r member) := by
  unfold Checked.passOn Registry.passOn
  rw [bind_eq (doclet_eq bound)]
  dsimp only
  cases (r.doclet member).sharedScope? with
  | none => exact refl h
  | some scope =>
    dsimp only
    cases last : (r.index.documentedAt
        (longname ++ scope.punctuation ++ (r.doclet member).ownName)).getLast? with
    | some own => exact modify h (h.documented (List.mem_of_getLast? last)) _
    | none => exact addDoclet h _

theorem copyMembers (relation : Relation) (bound : receiver < r.doclets.size) (parent : String) :
    Safely r (copyMembers relation receiver r parent)
      (Registry.copyMembers relation receiver r parent) := by
  unfold Checked.copyMembers Registry.copyMembers
  rw [bind_eq (doclet_eq bound)]
  dsimp only
  split
  · exact refl h
  · exact foldl h fun member listed s sound grown =>
      passOn sound relation _ (Nat.lt_of_lt_of_le (h.member listed) grown)

theorem receive (relation : Relation) (bound : receiver < r.doclets.size) :
    Safely r (receive relation r receiver) (Registry.receive relation r receiver) := by
  unfold Checked.receive Registry.receive
  rw [bind_eq (doclet_eq bound)]
  exact foldl h fun parent _ s sound grown =>
    copyMembers sound relation (Nat.lt_of_lt_of_le bound grown) parent

theorem meet (longname : String) (b : Borrow) :
    Safely r (meet longname r b) (Registry.meet longname r b) :=
  foldl h fun source listed s sound grown => by
    rw [bind_eq (doclet_eq (Nat.lt_of_lt_of_le (h.longname listed) grown))]
    exact addDoclet sound _

theorem meetAll (bound : borrower < r.doclets.size) :
    Safely r (meetAll r borrower) (r.meetAll borrower) := by
  unfold Checked.meetAll Registry.meetAll
  rw [bind_eq (doclet_eq bound)]
  cases (r.doclet borrower).borrowed with
  | none => exact refl h
  | some requests =>
    have first := modify h bound fun d => { d with borrowed := none }
    refine first.bind ?_
    rw [bind_eq (doclet_eq (Nat.lt_of_lt_of_le bound first.size))]
    exact foldl first.bounded fun b _ s sound _ => meet sound _ b

theorem resolveBorrows : Safely r (resolveBorrows r) r.resolveBorrows := by
  have met := foldl h.withoutRequests fun borrower listed s sound grown =>
    meetAll sound (Nat.lt_of_lt_of_le (h.borrowed listed) grown)
  exact ⟨met.ok, met.bounded, met.size⟩

theorem inheritFrom (fuel : Nat) {pending : List DocletId}
    (bound : ∀ id ∈ pending, id < r.doclets.size) :
    Safely r (inheritFrom fuel pending r) (Registry.inheritFrom fuel pending r) := by
  induction fuel generalizing r pending with
  | zero => exact refl h
  | succ fuel ih =>
    unfold Checked.inheritFrom Registry.inheritFrom
    split
    · exact refl h
    · rw [bind_eq (nextBatch_eq bound)]
      have received : Safely r ((r.nextBatch pending).foldlM (Checked.receive .inherited) r)
          ((r.nextBatch pending).foldl (Registry.receive .inherited) r) :=
        foldl h fun receiver listed s sound grown => receive sound .inherited
          (Nat.lt_of_lt_of_le (bound receiver (r.nextBatch_subset pending listed)) grown)
      exact received.bind (ih received.bounded fun id waiting =>
        Nat.lt_of_lt_of_le (bound id (List.mem_filter.mp waiting).1) received.size)

theorem receiveAll (relation : Relation) : Safely r (receiveAll relation r)
    ((r.receivers relation).foldl (Registry.receive relation) r) := by
  unfold Checked.receiveAll
  rw [bind_eq (receivers_eq h _)]
  exact foldl h fun receiver listed s sound grown => receive sound relation
    (Nat.lt_of_lt_of_le (h.result (Array.mem_toList_iff.mp (List.mem_filter.mp listed).1)) grown)

theorem inherit : Safely r (inherit r) r.inherit := by
  unfold Checked.inherit
  rw [bind_eq (receivers_eq h _)]
  refine inheritFrom h _ fun id waiting => ?_
  have listed := (List.mem_filter.mp (List.mem_eraseDups.mp waiting)).1
  exact h.result (Array.mem_toList_iff.mp listed)

theorem resolveAugments : Safely r (resolveAugments r) r.resolveAugments := by
  have mixed := receiveAll h .mixed
  refine mixed.bind ?_
  have implemented := receiveAll mixed.bounded .implemented
  exact implemented.bind (inherit implemented.bounded)

end Safely

end Doclets.Checked
