import Doclets.Proofs.Registry.Consistency
import Doclets.Registry.Inheritance

/-!
What passing members on may do. One step either leaves a registry alone, or notes with a member of
the receiver's own that it takes the place of another, or adds a copy under a longname that nothing
documents. All that is said of whole passes is derived from this.
-/

namespace Doclets

/-- A later version of a doclet: only the members that it stands for may have become more. -/
def Doclet.Succeeds (e d : Doclet) : Prop :=
  ∃ implements overrides, d.implements ⊆ implements ∧
    e = { d with implements := implements, overrides := overrides }

theorem Doclet.Succeeds.refl (d : Doclet) : d.Succeeds d := by
  refine ⟨d.implements, d.overrides, List.Subset.refl _, ?_⟩
  cases d
  rfl

theorem Doclet.Succeeds.trans {a b c : Doclet} (first : b.Succeeds a) (second : c.Succeeds b) :
    c.Succeeds a := by
  obtain ⟨_, _, early, rfl⟩ := first
  obtain ⟨implements, overrides, late, rfl⟩ := second
  exact ⟨implements, overrides, List.Subset.trans early late, rfl⟩

theorem Doclet.succeeds_inPlaceOf (d : Doclet) (relation : Relation) (source : String) :
    (d.inPlaceOf relation source).Succeeds d := by
  unfold Doclet.inPlaceOf
  cases relation with
  | mixed => exact .refl d
  | implemented =>
    dsimp only
    split
    · exact .refl d
    · exact ⟨_, d.overrides, List.subset_append_left _ _, rfl⟩
  | inherited =>
    dsimp only
    split
    · exact .refl d
    · exact ⟨d.implements, _, List.Subset.refl _, rfl⟩

theorem Doclet.Succeeds.filedAlike {d e : Doclet} (h : e.Succeeds d) : e.FiledAlike d := by
  obtain ⟨_, _, _, rfl⟩ := h
  exact ⟨rfl, rfl, rfl⟩

theorem Doclet.Succeeds.borrowed {d e : Doclet} (h : e.Succeeds d) : e.borrowed = d.borrowed := by
  obtain ⟨_, _, _, rfl⟩ := h
  rfl

/-- What a doclet names in a relation, its later versions name as well. -/
theorem Doclet.Succeeds.related {d e : Doclet} (h : e.Succeeds d) (relation : Relation) :
    d.related relation ⊆ e.related relation := by
  obtain ⟨_, _, more, rfl⟩ := h
  unfold Doclet.related
  dsimp only
  split
  · exact List.Subset.refl _
  · cases relation
    · exact List.Subset.refl _
    · exact more
    · exact List.Subset.refl _

theorem Doclet.sharedScope?_eq_some {d : Doclet} {scope : Scope}
    (h : d.sharedScope? = some scope) : d.undocumented = false ∧ d.scope = some scope ∧
      (scope = .static ∨ scope = .perInstance) := by
  unfold Doclet.sharedScope? at h
  split at h
  · cases h
  next shown =>
    simpa [Option.filter_eq_some_iff, shown] using h

theorem Doclet.undocumented_of_mem_related {d : Doclet} {relation : Relation} {parent : String}
    (h : parent ∈ d.related relation) : d.undocumented = false := by
  unfold Doclet.related at h
  split at h
  · cases h
  next shown => simpa using shown

namespace Registry

/-- What became of a registry when one member was passed on to a receiver. -/
inductive PassedOn (relation : Relation) (receiver : String) (r : Registry) (member : DocletId) :
    Registry → Prop where
  | withheld (private_ : (r.doclet member).sharedScope? = none) :
    PassedOn relation receiver r member r
  | kept {scope : Scope} {own : DocletId}
    (shared : (r.doclet member).sharedScope? = some scope)
    (present : (r.index.documentedAt
      (receiver ++ scope.punctuation ++ (r.doclet member).ownName)).getLast? = some own) :
    PassedOn relation receiver r member
      (r.modify own fun existing => existing.inPlaceOf relation (r.doclet member).longname)
  | copied {scope : Scope}
    (shared : (r.doclet member).sharedScope? = some scope)
    (absent : r.index.documentedAt
      (receiver ++ scope.punctuation ++ (r.doclet member).ownName) = []) :
    PassedOn relation receiver r member
      (r.addDoclet ((r.doclet member).copyFor relation receiver
        (receiver ++ scope.punctuation ++ (r.doclet member).ownName))).2

theorem passedOn_passOn (relation : Relation) (receiver : String) (r : Registry)
    (member : DocletId) : r.PassedOn relation receiver member (passOn relation receiver r member) := by
  unfold passOn
  dsimp only
  cases shared : (r.doclet member).sharedScope? with
  | none => exact .withheld shared
  | some scope =>
    dsimp only
    cases present : (r.index.documentedAt
        (receiver ++ scope.punctuation ++ (r.doclet member).ownName)).getLast? with
    | some own => exact .kept shared present
    | none => exact .copied shared (List.getLast?_eq_none_iff.mp present)

/-- A registry after members were received: nothing is lost, and what was there stays but for the
notes of what it stands for. -/
structure Onward (r s : Registry) : Prop where
  size_le : r.doclets.size ≤ s.doclets.size
  results : r.results.toList <+: s.results.toList
  doclet : ∀ id < r.doclets.size, (s.doclet id).Succeeds (r.doclet id)

theorem Onward.refl (r : Registry) : r.Onward r :=
  ⟨Nat.le_refl _, List.prefix_refl _, fun _ _ => .refl _⟩

theorem Onward.trans {r s t : Registry} (first : r.Onward s) (second : s.Onward t) : r.Onward t where
  size_le := Nat.le_trans first.size_le second.size_le
  results := first.results.trans second.results
  doclet id bound :=
    (first.doclet id bound).trans (second.doclet id (Nat.lt_of_lt_of_le bound first.size_le))

theorem Onward.mem_results {r s : Registry} (h : r.Onward s) {id : DocletId}
    (member : id ∈ r.results) : id ∈ s.results :=
  Array.mem_toList_iff.mp (h.results.subset (Array.mem_toList_iff.mpr member))

variable {r s : Registry} {relation : Relation} {receiver member : DocletId}
  {parent longname : String}

theorem PassedOn.onward (h : r.PassedOn relation longname member s) : r.Onward s := by
  cases h with
  | withheld => exact .refl r
  | kept _ _ =>
    refine ⟨Nat.le_of_eq (doclets_size_modify ..).symm, List.prefix_refl _, ?_⟩
    intro id _
    rw [doclet_modify]
    split
    · exact Doclet.succeeds_inPlaceOf _ _ _
    · exact .refl _
  | copied _ _ =>
    refine ⟨?_, ?_, ?_⟩
    · rw [doclets_size_addDoclet]
      exact Nat.le_succ _
    · rw [results_addDoclet]
      exact List.prefix_append _ _
    · intro id bound
      rw [doclet_addDoclet_of_lt bound]
      exact .refl _

theorem PassedOn.consistent (h : r.PassedOn relation longname member s) (sound : r.Consistent) :
    s.Consistent := by
  cases h with
  | withheld => exact sound
  | kept _ _ =>
    exact sound.modify (fun d => (d.succeeds_inPlaceOf _ _).filedAlike)
      fun d => (d.succeeds_inPlaceOf _ _).borrowed
  | copied _ _ => exact sound.addDoclet _

theorem PassedOn.anchored (h : r.PassedOn relation longname member s) (sound : r.Anchored) :
    s.Anchored := by
  cases h with
  | withheld => exact sound
  | kept _ _ => exact sound.modify fun d => (d.succeeds_inPlaceOf _ _).filedAlike
  | copied _ _ => exact sound.addDoclet _

/-- Goes on, and leaves the answer of a look-up as it is. -/
structure Spares (look : Index → List DocletId) (r s : Registry) : Prop where
  onward : r.Onward s
  same : look s.index = look r.index

theorem Spares.foldl {α : Type} {f : Registry → α → Registry} {look : Index → List DocletId}
    {items : List α} (step : ∀ a ∈ items, ∀ s, r.Spares look s → s.Spares look (f s a)) :
    r.Spares look (items.foldl f r) := by
  induction items generalizing r with
  | nil => exact ⟨.refl r, rfl⟩
  | cons a rest ih =>
    have first := step a List.mem_cons_self r ⟨.refl r, rfl⟩
    have later := ih fun b listed s spares => step b (List.mem_cons_of_mem _ listed) s
      ⟨first.onward.trans spares.onward, spares.same.trans first.same⟩
    exact ⟨first.onward.trans later.onward, later.same.trans first.same⟩

/-- A copy is filed under its own longname, and nothing else is filed anew. -/
theorem documentedAt_copied {scope : Scope}
    (shared : (r.doclet member).sharedScope? = some scope) (owner l : String) :
    (r.addDoclet ((r.doclet member).copyFor relation owner longname)).2.index.documentedAt l =
      r.index.documentedAt l ++ if longname = l then [r.doclets.size] else [] := by
  rw [index_addDoclet, Index.documentedAt_add, Doclet.longname_copyFor,
    Doclet.undocumented_copyFor, (Doclet.sharedScope?_eq_some shared).1]
  simp

/-! ### Whole passes -/

/-- What entitles a receiver to a member: it names the parent that the member belongs to. -/
structure Entitled (r : Registry) (relation : Relation) (receiver : DocletId) (parent : String)
    (member : DocletId) : Prop where
  receiver_mem : receiver ∈ r.results
  named : parent ∈ (r.doclet receiver).related relation
  other : (r.doclet receiver).longname ≠ parent
  member_mem : member ∈ r.results
  child : (r.doclet member).memberof = some parent

theorem Entitled.onward (h : r.Entitled relation receiver parent member) (valid : r.Filed)
    (later : r.Onward s) : s.Entitled relation receiver parent member := by
  have receiverLater := later.doclet receiver (valid.valid receiver h.receiver_mem)
  have memberLater := later.doclet member (valid.valid member h.member_mem)
  refine ⟨later.mem_results h.receiver_mem, receiverLater.related relation h.named, ?_,
    later.mem_results h.member_mem, ?_⟩
  · rw [receiverLater.filedAlike.longname]
    exact h.other
  · rw [memberLater.filedAlike.memberof]
    exact h.child

/-- What is kept whenever an entitled receiver is passed a member. -/
structure PassInvariant (P : Registry → Prop) : Prop where
  consistent : ∀ {r}, P r → r.Consistent
  step : ∀ {r relation receiver parent member}, P r → r.Entitled relation receiver parent member →
    P (passOn relation (r.doclet receiver).longname r member)

variable {P : Registry → Prop}

/-- A loop over items whose claims `Q` outlast what is done for the items before them. -/
structure Loop {α : Type} (P : Registry → Prop) (f : Registry → α → Registry)
    (Q : Registry → α → Prop) : Prop where
  outlasts : ∀ {r s : Registry} {a : α}, P r → r.Onward s → Q r a → Q s a
  step : ∀ {r : Registry} {a : α}, P r → Q r a → P (f r a) ∧ r.Onward (f r a)

theorem Loop.run {α : Type} {f : Registry → α → Registry} {Q : Registry → α → Prop}
    (loop : Loop P f Q) (items : List α) (start : P r) (claims : ∀ a ∈ items, Q r a) :
    P (items.foldl f r) ∧ r.Onward (items.foldl f r) := by
  induction items generalizing r with
  | nil => exact ⟨start, .refl r⟩
  | cons a rest ih =>
    obtain ⟨kept, later⟩ := loop.step start (claims a List.mem_cons_self)
    have remaining : ∀ b ∈ rest, Q (f r a) b := fun b member =>
      loop.outlasts start later (claims b (List.mem_cons_of_mem _ member))
    obtain ⟨final, end_⟩ := ih kept remaining
    exact ⟨final, later.trans end_⟩

/-- What is reached at one item, and lasts, is reached by the loop. -/
theorem Loop.reaches {α : Type} {f : Registry → α → Registry} {Q : Registry → α → Prop}
    {G : Registry → Prop} (loop : Loop P f Q)
    (lasts : ∀ {r s : Registry}, P r → P s → r.Onward s → G r → G s)
    {items : List α} (start : P r) (claims : ∀ a ∈ items, Q r a) {a : α} (listed : a ∈ items)
    (reach : ∀ s, P s → r.Onward s → Q s a → G (f s a)) : G (items.foldl f r) := by
  obtain ⟨front, back, split⟩ := List.append_of_mem listed
  rw [split] at claims ⊢
  rw [List.foldl_append, List.foldl_cons]
  obtain ⟨kept, before⟩ := loop.run front start fun b member =>
    claims b (List.mem_append_left _ member)
  have claim : Q (front.foldl f r) a := loop.outlasts start before (claims a (by simp))
  obtain ⟨next, this⟩ := loop.step kept claim
  obtain ⟨final, after⟩ := loop.run back next fun b member =>
    loop.outlasts start (before.trans this) (claims b (by simp [member]))
  exact lasts next final after (reach _ kept before claim)

namespace PassInvariant

theorem loop_passOn (inv : PassInvariant P) (relation : Relation) (owner : String)
    (receiver : DocletId) (parent : String) :
    Loop P (passOn relation owner) fun s member =>
      s.Entitled relation receiver parent member ∧ (s.doclet receiver).longname = owner where
  outlasts {s t member} valid later claim := by
    have bound := (inv.consistent valid).valid receiver claim.1.receiver_mem
    exact ⟨claim.1.onward (inv.consistent valid).toFiled later,
      (later.doclet receiver bound).filedAlike.longname.trans claim.2⟩
  step {s member} valid claim := by
    obtain ⟨entitled, same⟩ := claim
    rw [← same]
    exact ⟨inv.step valid entitled, (passedOn_passOn _ _ _ _).onward⟩

/-- The members of a parent are what a receiver that names it is entitled to. -/
theorem entitled_membersOf (inv : PassInvariant P) (start : P r) (present : receiver ∈ r.results)
    (named : parent ∈ (r.doclet receiver).related relation)
    (other : (r.doclet receiver).longname ≠ parent) :
    ∀ member ∈ r.index.membersOf parent, r.Entitled relation receiver parent member := by
  intro member listed
  rw [(inv.consistent start).memberof, List.mem_filter, decide_eq_true_eq] at listed
  exact ⟨present, named, other, Array.mem_toList_iff.mp listed.1, listed.2⟩

theorem loop_copyMembers (inv : PassInvariant P) (relation : Relation) (receiver : DocletId) :
    Loop P (copyMembers relation receiver) fun s parent =>
      receiver ∈ s.results ∧ parent ∈ (s.doclet receiver).related relation where
  outlasts {s t parent} valid later claim := by
    have bound := (inv.consistent valid).valid receiver claim.1
    exact ⟨later.mem_results claim.1, (later.doclet receiver bound).related relation claim.2⟩
  step {s parent} valid claim := by
    unfold Registry.copyMembers
    dsimp only
    split
    · exact ⟨valid, .refl s⟩
    next other =>
      have entitled := inv.entitled_membersOf valid claim.1 claim.2 other
      exact (inv.loop_passOn relation _ receiver parent).run _ valid fun member listed =>
        ⟨entitled member listed, rfl⟩

theorem loop_receive (inv : PassInvariant P) (relation : Relation) :
    Loop P (receive relation) fun s receiver => receiver ∈ s.results where
  outlasts _ later present := later.mem_results present
  step {_ receiver} valid present :=
    (inv.loop_copyMembers relation receiver).run _ valid fun _ named => ⟨present, named⟩

end PassInvariant

theorem mem_results_of_mem_receivers (h : receiver ∈ r.receivers relation) :
    receiver ∈ r.results := Array.mem_toList_iff.mp (List.mem_filter.mp h).1

theorem nextBatch_subset (r : Registry) (pending : List DocletId) :
    r.nextBatch pending ⊆ pending := by
  unfold nextBatch
  dsimp only
  split
  · exact List.Subset.refl _
  · exact fun _ member => (List.mem_filter.mp member).1

theorem nextBatch_ne_nil (r : Registry) {pending : List DocletId} (some : pending ≠ []) :
    r.nextBatch pending ≠ [] := by
  unfold nextBatch
  dsimp only
  split
  · exact some
  next ready => simpa using ready

theorem nextBatch_eq_filter (r : Registry) (pending : List DocletId) :
    pending.filter (fun id => (r.nextBatch pending).contains id) = r.nextBatch pending := by
  unfold nextBatch
  dsimp only
  split
  · exact List.filter_eq_self.mpr fun id member => by simpa using member
  next =>
    apply List.filter_congr
    intro id member
    rw [Bool.eq_iff_iff, List.contains_iff_mem, List.mem_filter, and_iff_right member]

/-- The rounds in which pending receivers inherit, without a limit on their number. `order` lists
the receivers as they are handled. -/
inductive Rounds : Registry → List DocletId → List DocletId → Registry → Prop where
  | done {r : Registry} : Rounds r [] [] r
  | round {r s : Registry} {pending order : List DocletId} (waiting : pending ≠ [])
      (rest : Rounds ((r.nextBatch pending).foldl (receive .inherited) r)
        (pending.filter fun id => !(r.nextBatch pending).contains id) order s) :
      Rounds r pending (r.nextBatch pending ++ order) s

variable {pending order : List DocletId}

theorem Rounds.run (h : r.Rounds pending order s) : s = order.foldl (receive .inherited) r := by
  induction h with
  | done => rfl
  | round _ _ ih => rw [ih, List.foldl_append]

/-- Every pending receiver is handled, as often as it is listed. -/
theorem Rounds.perm (h : r.Rounds pending order s) : order.Perm pending := by
  induction h with
  | done => exact .refl _
  | @round r _ pending _ _ _ ih =>
    have split := List.filter_append_perm (fun id => (r.nextBatch pending).contains id) pending
    rw [r.nextBatch_eq_filter] at split
    exact (ih.append_left _).trans split

/-- As many rounds as there are pending receivers are enough, since each handles one at least. -/
theorem exists_rounds (fuel : Nat) (pending : List DocletId) (r : Registry)
    (enough : pending.length ≤ fuel) :
    ∃ order, r.Rounds pending order (inheritFrom fuel pending r) := by
  induction fuel generalizing pending r with
  | zero =>
    rw [List.eq_nil_of_length_eq_zero (Nat.le_zero.mp enough)]
    exact ⟨[], .done⟩
  | succ fuel ih =>
    unfold inheritFrom
    dsimp only
    split
    next none =>
      rw [List.isEmpty_iff.mp none]
      exact ⟨[], .done⟩
    next some =>
      have waiting : pending ≠ [] := by simpa using some
      obtain ⟨first, member⟩ := List.exists_mem_of_ne_nil _ (r.nextBatch_ne_nil waiting)
      have fewer : (pending.filter fun id => !(r.nextBatch pending).contains id).length <
          pending.length := by
        rw [List.length_filter_lt_length_iff_exists]
        exact ⟨first, r.nextBatch_subset pending member, by simpa using member⟩
      obtain ⟨rest, rounds⟩ := ih (pending.filter fun id => !(r.nextBatch pending).contains id)
        ((r.nextBatch pending).foldl (receive .inherited) r) (by omega)
      exact ⟨_, .round waiting rounds⟩

theorem exists_order_inherit (r : Registry) : ∃ order : List DocletId,
    (∀ id, id ∈ order ↔ id ∈ r.receivers .inherited) ∧
      r.inherit = order.foldl (receive .inherited) r := by
  obtain ⟨order, rounds⟩ := exists_rounds _ (r.receivers .inherited).eraseDups r (Nat.le_refl _)
  exact ⟨order, fun id => rounds.perm.mem_iff.trans List.mem_eraseDups, rounds.run⟩

namespace PassInvariant

theorem inherit (inv : PassInvariant P) (start : P r) : P r.inherit ∧ r.Onward r.inherit := by
  obtain ⟨order, same, run⟩ := r.exists_order_inherit
  rw [run]
  exact (inv.loop_receive .inherited).run order start fun receiver member =>
    mem_results_of_mem_receivers ((same receiver).mp member)

theorem resolveAugments (inv : PassInvariant P) (start : P r) :
    P r.resolveAugments ∧ r.Onward r.resolveAugments := by
  obtain ⟨mixed, first⟩ := (inv.loop_receive .mixed).run (r.receivers .mixed) start
    fun _ => mem_results_of_mem_receivers
  obtain ⟨implemented, second⟩ := (inv.loop_receive .implemented).run _ mixed
    fun _ => mem_results_of_mem_receivers
  obtain ⟨inherited, third⟩ := inv.inherit implemented
  exact ⟨inherited, (first.trans second).trans third⟩

end PassInvariant

theorem passInvariant_consistent : PassInvariant Consistent where
  consistent := id
  step sound _ := (passedOn_passOn _ _ _ _).consistent sound

end Registry

end Doclets
