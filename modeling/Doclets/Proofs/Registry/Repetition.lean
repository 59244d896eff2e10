import Doclets.Proofs.Registry.Inheritance

/-!
Passing members on a second time. A pass adds nothing exactly if no receiver lacks a member of a
parent that it reads. A receiver reads the parents it names, and those it comes to name while it
waits: a member that implements another one is a receiver itself, and may be told so by a receiver
in front of it.
-/

namespace Doclets

/-- The longname that a member is passed on to `owner` under. -/
def Doclet.passedName? (d : Doclet) (owner : String) : Option String :=
  d.sharedScope?.map fun scope => owner ++ scope.punctuation ++ d.ownName

theorem Doclet.Succeeds.passedName? {d e : Doclet} (h : e.Succeeds d) (owner : String) :
    e.passedName? owner = d.passedName? owner := by
  obtain ⟨_, _, _, rfl⟩ := h
  rfl

theorem Doclet.Succeeds.related_eq {d e : Doclet} {relation : Relation} (h : e.Succeeds d)
    (other : relation ≠ .implemented) : e.related relation = d.related relation := by
  obtain ⟨_, _, _, rfl⟩ := h
  cases relation with
  | implemented => exact absurd rfl other
  | mixed | inherited => rfl

theorem Doclet.mem_related_implemented {d : Doclet} {name : String} :
    name ∈ d.related .implemented ↔ d.undocumented = false ∧ name ∈ d.implements := by
  unfold Doclet.related
  split <;> simp_all

theorem Doclet.mem_implements_inPlaceOf {d : Doclet} {relation : Relation} {source name : String} :
    name ∈ (d.inPlaceOf relation source).implements ↔
      name ∈ d.implements ∨ relation = .implemented ∧ name = source := by
  unfold Doclet.inPlaceOf
  cases relation with
  | mixed => simp
  | implemented =>
    dsimp only
    split
    next noted =>
      have present : source ∈ d.implements := by simpa using noted
      constructor
      · exact Or.inl
      · rintro (old | ⟨_, same⟩)
        · exact old
        · exact same ▸ present
    · simp
  | inherited =>
    dsimp only
    split <;> simp

namespace Registry

/-- Nothing documents the longname that a member is passed on under. -/
def Missing (r : Registry) (owner : String) (member : DocletId) : Prop :=
  ∃ l, (r.doclet member).passedName? owner = some l ∧ r.index.documentedAt l = []

/-- `own` documents the longname that a member is passed on under, and the member is `name`. -/
def Held (r : Registry) (owner : String) (member own : DocletId) (name : String) : Prop :=
  ∃ l, (r.doclet member).passedName? owner = some l ∧
    (r.index.documentedAt l).getLast? = some own ∧ name = (r.doclet member).longname

/-- A receiver lacks a member of a parent other than itself. -/
def Lacks (r : Registry) (receiver : DocletId) (parent : String) : Prop :=
  (r.doclet receiver).longname ≠ parent ∧
    ∃ member ∈ r.index.membersOf parent, r.Missing (r.doclet receiver).longname member

/-- With `own` a receiver has a member of a parent already, the one called `name`. -/
def Serves (r : Registry) (receiver : DocletId) (parent : String) (own : DocletId)
    (name : String) : Prop :=
  (r.doclet receiver).longname ≠ parent ∧
    ∃ member ∈ r.index.membersOf parent, r.Held (r.doclet receiver).longname member own name

/-- The parents that a receiver reads in a pass that adds nothing. -/
inductive Reads (r : Registry) : Relation → DocletId → String → Prop where
  | named {relation : Relation} {receiver : DocletId} {parent : String}
    (present : receiver ∈ r.results)
    (named : parent ∈ (r.doclet receiver).related relation) : Reads r relation receiver parent
  | gained {earlier receiver : DocletId} {parent name : String}
    (later : [earlier, receiver].Sublist (r.receivers .implemented))
    (read : Reads r .implemented earlier parent)
    (serves : r.Serves earlier parent receiver name) : Reads r .implemented receiver name

/-- No receiver lacks a member of a parent it reads. -/
def Closed (r : Registry) : Prop :=
  ∀ relation receiver parent, r.Reads relation receiver parent → ¬ r.Lacks receiver parent

/-! ### Steps that add nothing -/

/-- Nothing is added, and doclets come to implement just what `gained` says. -/
structure Notes (gained : DocletId → String → Prop) (r s : Registry) : Prop where
  size : s.doclets.size = r.doclets.size
  results : s.results = r.results
  index : s.index = r.index
  doclet : ∀ id, (s.doclet id).Succeeds (r.doclet id)
  implements : ∀ id name, name ∈ (s.doclet id).implements ↔
    name ∈ (r.doclet id).implements ∨ gained id name

/-- Either nothing was lacking and nothing is added, or something was and is. -/
def Settles (lacking : Prop) (gained : DocletId → String → Prop) (r s : Registry) : Prop :=
  ¬ lacking ∧ r.Notes gained s ∨ lacking ∧ r.results.size < s.results.size

variable {r s t : Registry} {relation : Relation} {receiver member own : DocletId}
  {parent name : String} {gained more : DocletId → String → Prop} {lacking lacking' : Prop}

theorem Notes.nothing (none : ∀ id name, ¬ gained id name) (r : Registry) : r.Notes gained r :=
  ⟨rfl, rfl, rfl, fun _ => .refl _, fun id name => by simp [none id name]⟩

theorem Notes.trans (first : r.Notes gained s) (second : s.Notes more t) :
    r.Notes (fun id name => gained id name ∨ more id name) t where
  size := second.size.trans first.size
  results := second.results.trans first.results
  index := second.index.trans first.index
  doclet id := (first.doclet id).trans (second.doclet id)
  implements id name := by rw [second.implements, first.implements, or_assoc]

theorem Notes.congr (h : r.Notes gained s) (same : ∀ id name, gained id name ↔ more id name) :
    r.Notes more s :=
  { h with implements := fun id name => (h.implements id name).trans (or_congr_right (same id name)) }

theorem Settles.congr (h : Settles lacking gained r s) (same : lacking ↔ lacking')
    (gains : ∀ id name, gained id name ↔ more id name) : Settles lacking' more r s := by
  rcases h with ⟨fine, notes⟩ | ⟨lacks, grown⟩
  · exact Or.inl ⟨fun lacks => fine (same.mpr lacks), notes.congr gains⟩
  · exact Or.inr ⟨same.mp lacks, grown⟩

theorem Notes.longname (h : r.Notes gained s) (id : DocletId) :
    (s.doclet id).longname = (r.doclet id).longname := (h.doclet id).filedAlike.longname

theorem Notes.missing_iff (h : r.Notes gained s) (owner : String) :
    s.Missing owner member ↔ r.Missing owner member := by
  simp only [Missing, h.index, (h.doclet _).passedName?]

theorem Notes.held_iff (h : r.Notes gained s) (owner : String) :
    s.Held owner member own name ↔ r.Held owner member own name := by
  simp only [Held, h.index, h.longname, (h.doclet _).passedName?]

theorem Notes.lacks_iff (h : r.Notes gained s) :
    s.Lacks receiver parent ↔ r.Lacks receiver parent := by
  simp only [Lacks, h.index, h.longname, h.missing_iff]

theorem Notes.serves_iff (h : r.Notes gained s) :
    s.Serves receiver parent own name ↔ r.Serves receiver parent own name := by
  simp only [Serves, h.index, h.longname, h.held_iff]

theorem results_size_foldl {α : Type} {f : Registry → α → Registry}
    (grows : ∀ s a, s.results.size ≤ (f s a).results.size) (items : List α) (s : Registry) :
    s.results.size ≤ (items.foldl f s).results.size := by
  induction items generalizing s with
  | nil => exact Nat.le_refl _
  | cons a rest ih => exact Nat.le_trans (grows s a) (ih (f s a))

/-- A loop settles what its steps settle, each as if nothing had been lacking before it. What was
gained before a step is known to it. -/
theorem foldl_settles {α : Type} {f : Registry → α → Registry} {lacks : α → Prop}
    {gains : α → DocletId → String → Prop} {items : List α}
    (grows : ∀ s a, s.results.size ≤ (f s a).results.size)
    (step : ∀ done a rest, items = done ++ a :: rest → ∀ s,
      r.Notes (fun id name => ∃ b ∈ done, gains b id name) s →
        Settles (lacks a) (gains a) s (f s a)) :
    Settles (∃ a ∈ items, lacks a) (fun id name => ∃ a ∈ items, gains a id name) r
      (items.foldl f r) := by
  -- the loop from any point on that was reached without anything lacking
  have from_ (done rest : List α) (split : items = done ++ rest) (s : Registry)
      (fine : ¬ ∃ a ∈ done, lacks a)
      (notes : r.Notes (fun id name => ∃ b ∈ done, gains b id name) s) :
      Settles (∃ a ∈ items, lacks a) (fun id name => ∃ a ∈ items, gains a id name) r
        (rest.foldl f s) := by
    induction rest generalizing done s with
    | nil =>
      rw [List.append_nil] at split
      exact Or.inl ⟨split ▸ fine, split ▸ notes⟩
    | cons a rest ih =>
      rcases step done a rest split s notes with ⟨here, more⟩ | ⟨here, grown⟩
      · apply ih (done ++ [a]) (by rw [split, List.append_assoc]; rfl)
        · rintro ⟨b, listed, lacking⟩
          rcases List.mem_append.mp listed with before | this
          · exact fine ⟨b, before, lacking⟩
          · exact here (List.mem_singleton.mp this ▸ lacking)
        · exact (notes.trans more).congr fun id name => by simp [or_and_right, exists_or]
      · refine Or.inr ⟨⟨a, by simp [split], here⟩, ?_⟩
        rw [← notes.results]
        exact Nat.lt_of_lt_of_le grown (results_size_foldl grows rest _)
  exact from_ [] items rfl r (by simp) (.nothing (by simp) r)

/-! ### One receiver -/

theorem results_size_passOn (owner : String) (s : Registry) (member : DocletId) :
    s.results.size ≤ (passOn relation owner s member).results.size := by
  simpa using (passedOn_passOn relation owner s member).onward.results.length_le

theorem results_size_copyMembers (receiver : DocletId) (s : Registry) (parent : String) :
    s.results.size ≤ (copyMembers relation receiver s parent).results.size := by
  unfold copyMembers
  dsimp only
  split
  · exact Nat.le_refl _
  · exact results_size_foldl (results_size_passOn _) _ s

theorem results_size_receive (s : Registry) (receiver : DocletId) :
    s.results.size ≤ (receive relation s receiver).results.size :=
  results_size_foldl (results_size_copyMembers receiver) _ s

/-- Every look-up of documentation leads to a stored doclet. -/
def Stored (r : Registry) : Prop := ∀ l, ∀ id ∈ r.index.documentedAt l, id < r.doclets.size

theorem Notes.stored (h : r.Notes gained s) (stored : r.Stored) : s.Stored := by
  unfold Stored
  rw [h.index, h.size]
  exact stored

theorem settles_passOn (stored : r.Stored) (relation : Relation) (owner : String)
    (member : DocletId) :
    Settles (r.Missing owner member)
      (fun own name => relation = .implemented ∧ r.Held owner member own name)
      r (passOn relation owner r member) := by
  have step := passedOn_passOn relation owner r member
  generalize Registry.passOn relation owner r member = s at step
  unfold Missing Held Doclet.passedName?
  cases step with
  | withheld private_ =>
    rw [private_]
    exact Or.inl ⟨by simp, .nothing (by simp) r⟩
  | @kept scope existing shared present =>
    rw [shared, Option.map_some]
    refine Or.inl ⟨?_, ⟨doclets_size_modify .., rfl, rfl, ?_, ?_⟩⟩
    · rintro ⟨l, same, absent⟩
      rw [Option.some.injEq] at same
      rw [same, absent] at present
      cases present
    · intro id
      rw [doclet_modify]
      split
      · exact Doclet.succeeds_inPlaceOf _ _ _
      · exact .refl _
    · intro id other
      have bound := stored _ existing (List.mem_of_getLast? present)
      rw [doclet_modify]
      split
      next this =>
        rw [Doclet.mem_implements_inPlaceOf]
        simp [present, this.1]
      next this =>
        have apart : existing ≠ id := fun same => this ⟨same, same ▸ bound⟩
        simp [present, apart]
  | @copied scope shared absent =>
    rw [shared, Option.map_some]
    refine Or.inr ⟨⟨_, rfl, absent⟩, ?_⟩
    have more := congrArg List.length (results_addDoclet r ((r.doclet member).copyFor relation owner
      (owner ++ scope.punctuation ++ (r.doclet member).ownName)))
    rw [List.length_append, Array.length_toList, Array.length_toList] at more
    rw [more]
    exact Nat.lt_succ_self _

theorem settles_copyMembers (stored : r.Stored) (relation : Relation) (receiver : DocletId)
    (parent : String) :
    Settles (r.Lacks receiver parent)
      (fun own name => relation = .implemented ∧ r.Serves receiver parent own name)
      r (copyMembers relation receiver r parent) := by
  unfold Registry.copyMembers
  dsimp only
  split
  next same => exact Or.inl ⟨fun lacks => lacks.1 same, .nothing (fun _ _ gain => gain.2.1 same) r⟩
  next other =>
    have members : Settles
        (∃ member ∈ r.index.membersOf parent, r.Missing (r.doclet receiver).longname member)
        (fun own name => ∃ member ∈ r.index.membersOf parent, relation = .implemented ∧
          r.Held (r.doclet receiver).longname member own name)
        r ((r.index.membersOf parent).foldl (passOn relation (r.doclet receiver).longname) r) := by
      apply foldl_settles (results_size_passOn _)
      intro done member rest _ s notes
      have step := settles_passOn (notes.stored stored) relation (r.doclet receiver).longname member
      exact step.congr (notes.missing_iff _) fun _ _ => and_congr_right fun _ => notes.held_iff _
    refine members.congr (by simp [Lacks, other]) fun own name => ?_
    constructor
    · rintro ⟨member, listed, implemented, held⟩
      exact ⟨implemented, other, member, listed, held⟩
    · rintro ⟨implemented, _, member, listed, held⟩
      exact ⟨member, listed, implemented, held⟩

theorem settles_receive (stored : r.Stored) (relation : Relation) (receiver : DocletId) :
    Settles (∃ parent ∈ (r.doclet receiver).related relation, r.Lacks receiver parent)
      (fun own name => ∃ parent ∈ (r.doclet receiver).related relation,
        relation = .implemented ∧ r.Serves receiver parent own name)
      r (receive relation r receiver) := by
  apply foldl_settles (results_size_copyMembers receiver)
  intro done parent rest _ s notes
  have step := settles_copyMembers (notes.stored stored) relation receiver parent
  exact step.congr notes.lacks_iff fun own name => and_congr_right fun _ => notes.serves_iff

/-! ### Whole passes -/

theorem Settles.trans (first : Settles lacking gained r s)
    (second : r.Notes gained s → Settles lacking' more s t)
    (grows : s.results.size ≤ t.results.size) :
    Settles (lacking ∨ lacking') (fun id name => gained id name ∨ more id name) r t := by
  rcases first with ⟨fine, notes⟩ | ⟨lacks, grown⟩
  · rcases second notes with ⟨still, further⟩ | ⟨lacks, grown⟩
    · exact Or.inl ⟨not_or.mpr ⟨fine, still⟩, notes.trans further⟩
    · exact Or.inr ⟨Or.inr lacks, notes.results ▸ grown⟩
  · exact Or.inr ⟨Or.inl lacks, Nat.lt_of_lt_of_le grown grows⟩

theorem settles_receiveAll (stored : r.Stored) (other : relation ≠ .implemented)
    (receivers : List DocletId) :
    Settles (∃ receiver ∈ receivers, ∃ parent ∈ (r.doclet receiver).related relation,
        r.Lacks receiver parent)
      (fun _ _ => False) r (receivers.foldl (receive relation) r) := by
  have all : Settles
      (∃ receiver ∈ receivers, ∃ parent ∈ (r.doclet receiver).related relation,
        r.Lacks receiver parent)
      (fun _ _ => ∃ receiver ∈ receivers, False) r (receivers.foldl (receive relation) r) := by
    apply foldl_settles results_size_receive
    intro done receiver rest _ s notes
    refine (settles_receive (notes.stored stored) relation receiver).congr ?_ ?_
    · rw [(notes.doclet receiver).related_eq other]
      simp only [notes.lacks_iff]
    · intro own name
      simp [other]
  exact all.congr Iff.rfl (by simp)

/-- Who stands in front of an item in a list without duplicates. -/
theorem mem_of_sublist_append_cons {α : Type} {done rest : List α} {a b : α}
    (nodup : (done ++ a :: rest).Nodup) (later : [b, a].Sublist (done ++ a :: rest)) :
    b ∈ done := by
  obtain ⟨front, back, split, first, last⟩ := List.sublist_append_iff.mp later
  rw [List.nodup_append, List.nodup_cons] at nodup
  match front, back, split with
  | [], _, rfl =>
    -- both would stand from `a` on, so `a` would stand there twice
    have twice : a ∈ rest := by
      cases last with
      | cons _ inner => exact inner.subset (by simp)
      | cons_cons _ inner => exact inner.subset (by simp)
    exact absurd twice nodup.2.1.1
  | [_], _, rfl => exact first.subset (by simp)
  | _ :: _ :: _, _, split =>
    simp only [List.cons_append, List.cons.injEq] at split
    exact split.1 ▸ first.subset (by simp)

/-- What a receiver names when its turn comes is what it reads. -/
theorem mem_related_iff_reads {done rest : List DocletId} (nodup : r.results.toList.Nodup)
    (split : r.receivers .implemented = done ++ receiver :: rest)
    (notes : r.Notes (fun id name => ∃ earlier ∈ done, ∃ parent,
      r.Reads .implemented earlier parent ∧ r.Serves earlier parent id name) s) :
    name ∈ (s.doclet receiver).related .implemented ↔ r.Reads .implemented receiver name := by
  have listed : receiver ∈ r.receivers .implemented := by simp [split]
  have present := mem_results_of_mem_receivers listed
  have shown : (r.doclet receiver).undocumented = false := by
    obtain ⟨_, some⟩ := List.mem_filter.mp listed
    obtain ⟨first, named⟩ := List.exists_mem_of_ne_nil _ (by simpa using some)
    exact Doclet.undocumented_of_mem_related named
  rw [Doclet.mem_related_implemented, (notes.doclet receiver).filedAlike.undocumented,
    notes.implements]
  constructor
  · rintro ⟨_, old | ⟨earlier, before, parent, read, serves⟩⟩
    · exact .named present (Doclet.mem_related_implemented.mpr ⟨shown, old⟩)
    · refine .gained ?_ read serves
      rw [split]
      exact (List.singleton_sublist.mpr before).append (List.singleton_sublist.mpr (by simp))
  · intro read
    refine ⟨shown, ?_⟩
    cases read with
    | named _ named => exact Or.inl (Doclet.mem_related_implemented.mp named).2
    | gained later read serves =>
      rw [split] at later
      have distinct : (done ++ receiver :: rest).Nodup := split ▸ nodup.filter _
      exact Or.inr ⟨_, mem_of_sublist_append_cons distinct later, _, read, serves⟩

theorem settles_implement (stored : r.Stored) (nodup : r.results.toList.Nodup) :
    Settles (∃ receiver ∈ r.receivers .implemented, ∃ parent,
        r.Reads .implemented receiver parent ∧ r.Lacks receiver parent)
      (fun own name => ∃ receiver ∈ r.receivers .implemented, ∃ parent,
        r.Reads .implemented receiver parent ∧ r.Serves receiver parent own name)
      r ((r.receivers .implemented).foldl (receive .implemented) r) := by
  apply foldl_settles results_size_receive
  intro done receiver rest split s notes
  have reads (name : String) : name ∈ (s.doclet receiver).related .implemented ↔
      r.Reads .implemented receiver name := mem_related_iff_reads nodup split notes
  refine (settles_receive (notes.stored stored) .implemented receiver).congr ?_ ?_
  · simp only [reads, notes.lacks_iff]
  · intro own name
    simp only [reads, notes.serves_iff, true_and]

theorem Notes.receivers_eq (h : r.Notes gained s)
    (same : ∀ id name, name ∈ (s.doclet id).related relation ↔
      name ∈ (r.doclet id).related relation) : s.receivers relation = r.receivers relation := by
  have empty (id : DocletId) :
      (s.doclet id).related relation = [] ↔ (r.doclet id).related relation = [] := by
    simp only [List.eq_nil_iff_forall_not_mem, same]
  unfold receivers
  rw [h.results]
  apply List.filter_congr
  intro id _
  rw [Bool.eq_iff_iff]
  simp [empty id]

theorem Notes.mem_related_iff (h : r.Notes (fun _ _ => False) s) (relation : Relation)
    (id : DocletId) (name : String) :
    name ∈ (s.doclet id).related relation ↔ name ∈ (r.doclet id).related relation := by
  by_cases implemented : relation = .implemented
  · subst implemented
    rw [Doclet.mem_related_implemented, Doclet.mem_related_implemented, h.implements,
      (h.doclet id).filedAlike.undocumented, or_false]
  · rw [(h.doclet id).related_eq implemented]

theorem Notes.reads_iff (h : r.Notes (fun _ _ => False) s) :
    s.Reads relation receiver parent ↔ r.Reads relation receiver parent := by
  have receivers := h.receivers_eq (h.mem_related_iff .implemented)
  constructor <;> intro read
  · induction read with
    | named present named =>
      exact .named (h.results ▸ present) ((h.mem_related_iff ..).mp named)
    | gained later _ serves ih => exact .gained (receivers ▸ later) ih (h.serves_iff.mp serves)
  · induction read with
    | named present named =>
      exact .named (h.results ▸ present) ((h.mem_related_iff ..).mpr named)
    | gained later _ serves ih => exact .gained (receivers ▸ later) ih (h.serves_iff.mpr serves)

theorem mem_receivers : receiver ∈ r.receivers relation ↔
    receiver ∈ r.results ∧ ∃ parent, parent ∈ (r.doclet receiver).related relation := by
  unfold receivers
  rw [List.mem_filter, Array.mem_toList_iff]
  refine and_congr_right fun _ => ?_
  constructor
  · intro some
    exact List.exists_mem_of_ne_nil _ (by simpa using some)
  · rintro ⟨parent, named⟩
    simpa using List.ne_nil_of_mem named

theorem settles_mix (stored : r.Stored) :
    Settles (∃ receiver parent, r.Reads .mixed receiver parent ∧ r.Lacks receiver parent)
      (fun _ _ => False) r ((r.receivers .mixed).foldl (receive .mixed) r) := by
  refine (settles_receiveAll stored (by decide) _).congr ?_ fun _ _ => Iff.rfl
  constructor
  · rintro ⟨receiver, listed, parent, named, lacks⟩
    exact ⟨receiver, parent, .named (mem_results_of_mem_receivers listed) named, lacks⟩
  · rintro ⟨receiver, parent, ⟨present, named⟩, lacks⟩
    exact ⟨receiver, mem_receivers.mpr ⟨present, parent, named⟩, parent, named, lacks⟩

theorem settles_implement_after (stored : r.Stored) (nodup : r.results.toList.Nodup)
    (notes : r.Notes (fun _ _ => False) s) :
    Settles (∃ receiver parent, r.Reads .implemented receiver parent ∧ r.Lacks receiver parent)
      (fun own name => ∃ receiver ∈ s.receivers .implemented, ∃ parent,
        s.Reads .implemented receiver parent ∧ s.Serves receiver parent own name)
      s ((s.receivers .implemented).foldl (receive .implemented) s) := by
  have settles := settles_implement (notes.stored stored) (notes.results ▸ nodup)
  refine settles.congr ?_ fun _ _ => Iff.rfl
  simp only [notes.reads_iff, notes.lacks_iff]
  constructor
  · rintro ⟨receiver, _, parent, both⟩
    exact ⟨receiver, parent, both⟩
  · rintro ⟨receiver, parent, read, lacks⟩
    refine ⟨receiver, ?_, parent, read, lacks⟩
    rw [notes.receivers_eq (notes.mem_related_iff _)]
    cases read with
    | named present named => exact mem_receivers.mpr ⟨present, parent, named⟩
    | gained later _ _ => exact later.subset (by simp)

theorem settles_inherit (stored : r.Stored) (notes : r.Notes gained s) :
    Settles (∃ receiver parent, r.Reads .inherited receiver parent ∧ r.Lacks receiver parent)
      (fun _ _ => False) s s.inherit := by
  obtain ⟨order, same, run⟩ := s.exists_order_inherit
  have related (id : DocletId) :
      (s.doclet id).related .inherited = (r.doclet id).related .inherited :=
    (notes.doclet id).related_eq (by decide)
  have listed (id : DocletId) : id ∈ order ↔ id ∈ r.receivers .inherited := by
    rw [same, notes.receivers_eq fun id name => by rw [related]]
  rw [run]
  refine (settles_receiveAll (notes.stored stored) (by decide) order).congr ?_ fun _ _ => Iff.rfl
  simp only [related, notes.lacks_iff]
  constructor
  · rintro ⟨receiver, present, parent, named, lacks⟩
    have result := mem_results_of_mem_receivers ((listed receiver).mp present)
    exact ⟨receiver, parent, .named result named, lacks⟩
  · rintro ⟨receiver, parent, ⟨present, named⟩, lacks⟩
    have waiting := mem_receivers.mpr ⟨present, parent, named⟩
    exact ⟨receiver, (listed receiver).mpr waiting, parent, named, lacks⟩

theorem results_size_inherit (r : Registry) : r.results.size ≤ r.inherit.results.size := by
  obtain ⟨order, _, run⟩ := r.exists_order_inherit
  rw [run]
  exact results_size_foldl results_size_receive order r

theorem Settles.results_eq_iff (h : Settles lacking gained r s) :
    s.results = r.results ↔ ¬ lacking := by
  rcases h with ⟨fine, notes⟩ | ⟨lacks, grown⟩
  · exact ⟨fun _ => fine, fun _ => notes.results⟩
  · constructor
    · intro same
      exact absurd (same ▸ grown) (Nat.lt_irrefl _)
    · exact fun fine => absurd lacks fine

theorem closed_iff : r.Closed ↔ ¬ ∃ relation receiver parent,
    r.Reads relation receiver parent ∧ r.Lacks receiver parent := by
  simp only [Closed, not_exists, not_and]

/-- A pass adds nothing exactly to a closed registry. -/
theorem results_resolveAugments_eq_iff (stored : r.Stored) (nodup : r.results.toList.Nodup) :
    r.resolveAugments.results = r.results ↔ r.Closed := by
  have mixed := settles_mix stored
  have implemented := mixed.trans (settles_implement_after stored nodup)
    (results_size_foldl results_size_receive _ _)
  have inherited := implemented.trans (settles_inherit stored) (results_size_inherit _)
  rw [closed_iff]
  refine inherited.results_eq_iff.trans (not_congr ?_)
  constructor
  · rintro ((found | found) | found)
    · exact ⟨.mixed, found⟩
    · exact ⟨.implemented, found⟩
    · exact ⟨.inherited, found⟩
  · rintro ⟨_ | _ | _, found⟩
    · exact Or.inl (Or.inl found)
    · exact Or.inl (Or.inr found)
    · exact Or.inr found

/-! ### What a first pass supplies -/

/-- What is documented stays documented. -/
theorem Onward.documentedAt_ne_nil (later : r.Onward s) (old : r.Filed) (new : s.Filed)
    {l : String} (documented : r.index.documentedAt l ≠ []) : s.index.documentedAt l ≠ [] := by
  obtain ⟨id, member⟩ := List.exists_mem_of_ne_nil _ documented
  obtain ⟨listed, own, shown⟩ := (old.mem_documented l id).mp member
  have same := (later.doclet id (old.valid id listed)).filedAlike
  apply List.ne_nil_of_mem (a := id)
  rw [new.mem_documented, same.longname, same.undocumented]
  exact ⟨later.mem_results listed, own, shown⟩

theorem documentedAt_passOn {owner l : String}
    (passed : (r.doclet member).passedName? owner = some l) :
    (passOn relation owner r member).index.documentedAt l ≠ [] := by
  have step := passedOn_passOn relation owner r member
  generalize Registry.passOn relation owner r member = s at step
  unfold Doclet.passedName? at passed
  cases step with
  | withheld private_ =>
    rw [private_] at passed
    cases passed
  | kept shared present =>
    rw [shared, Option.map_some, Option.some.injEq] at passed
    rw [← passed, index_modify]
    exact List.ne_nil_of_mem (List.mem_of_getLast? present)
  | copied shared absent =>
    rw [shared, Option.map_some, Option.some.injEq] at passed
    rw [← passed, documentedAt_copied shared]
    simp

theorem Entitled.passedName?_onward (h : r.Entitled relation receiver parent member)
    (valid : r.Filed) (later : r.Onward s) :
    (s.doclet member).passedName? (s.doclet receiver).longname =
      (r.doclet member).passedName? (r.doclet receiver).longname := by
  rw [(later.doclet member (valid.valid member h.member_mem)).passedName?,
    (later.doclet receiver (valid.valid receiver h.receiver_mem)).filedAlike.longname]

theorem Consistent.documentedAt_lasts {l : String} (old : r.Consistent) (new : s.Consistent)
    (later : r.Onward s) : r.index.documentedAt l ≠ [] → s.index.documentedAt l ≠ [] :=
  later.documentedAt_ne_nil old.toFiled new.toFiled

/-- A receiver whose turn comes gets every member it is entitled to, or has it. -/
theorem Entitled.documentedAt_receive (h : r.Entitled relation receiver parent member)
    (sound : r.Consistent) {l : String}
    (passed : (r.doclet member).passedName? (r.doclet receiver).longname = some l) :
    (receive relation r receiver).index.documentedAt l ≠ [] := by
  have inv := passInvariant_consistent
  apply (inv.loop_copyMembers relation receiver).reaches Consistent.documentedAt_lasts sound
    (fun _ named => ⟨h.receiver_mem, named⟩) h.named
  intro s sound' later claim
  have due := h.onward sound.toFiled later
  rw [← h.passedName?_onward sound.toFiled later] at passed
  unfold copyMembers
  dsimp only
  rw [if_neg due.other]
  apply (inv.loop_passOn relation _ receiver parent).reaches Consistent.documentedAt_lasts sound'
    (fun member listed => ⟨inv.entitled_membersOf sound' claim.1 claim.2 due.other member listed,
      rfl⟩)
  · rw [sound'.memberof, List.mem_filter, decide_eq_true_eq]
    exact ⟨Array.mem_toList_iff.mpr due.member_mem, due.child⟩
  · intro t _ later' _
    apply documentedAt_passOn
    rw [(later'.doclet member (sound'.valid member due.member_mem)).passedName?]
    exact passed

theorem Entitled.documentedAt_receiveAll (h : r.Entitled relation receiver parent member)
    (sound : r.Consistent) {l : String}
    (passed : (r.doclet member).passedName? (r.doclet receiver).longname = some l)
    {receivers : List DocletId} (turn : receiver ∈ receivers)
    (present : ∀ id ∈ receivers, id ∈ r.results) :
    (receivers.foldl (receive relation) r).index.documentedAt l ≠ [] := by
  apply (passInvariant_consistent.loop_receive relation).reaches Consistent.documentedAt_lasts sound
    present turn
  intro s sound' later _
  rw [← h.passedName?_onward sound.toFiled later] at passed
  exact (h.onward sound.toFiled later).documentedAt_receive sound' passed

/-- A pass supplies all that receivers are entitled to from the start. -/
theorem Entitled.documentedAt_resolveAugments (h : r.Entitled relation receiver parent member)
    (sound : r.Consistent) {l : String}
    (passed : (r.doclet member).passedName? (r.doclet receiver).longname = some l) :
    r.resolveAugments.index.documentedAt l ≠ [] := by
  have inv := passInvariant_consistent
  have listed {s : Registry} {own : Relation} (due : s.Entitled own receiver parent member) :
      receiver ∈ s.receivers own :=
    mem_receivers.mpr ⟨due.receiver_mem, parent, due.named⟩
  have results {s : Registry} {other : Relation} :
      ∀ id ∈ s.receivers other, id ∈ s.results := fun _ => mem_results_of_mem_receivers
  let mixed := (r.receivers .mixed).foldl (receive .mixed) r
  let implemented := (mixed.receivers .implemented).foldl (receive .implemented) mixed
  obtain ⟨sound₁, first⟩ := (inv.loop_receive .mixed).run (r.receivers .mixed) sound results
  obtain ⟨sound₂, second⟩ := (inv.loop_receive .implemented).run (mixed.receivers .implemented)
    sound₁ results
  obtain ⟨sound₃, third⟩ := inv.inherit sound₂
  change implemented.inherit.index.documentedAt l ≠ []
  cases relation with
  | mixed =>
    have supplied := h.documentedAt_receiveAll sound passed (listed h) results
    exact Consistent.documentedAt_lasts sound₁ sound₃ (second.trans third) supplied
  | implemented =>
    have due := h.onward sound.toFiled first
    rw [← h.passedName?_onward sound.toFiled first] at passed
    have supplied := due.documentedAt_receiveAll sound₁ passed (listed due) results
    exact Consistent.documentedAt_lasts sound₂ sound₃ third supplied
  | inherited =>
    have due := h.onward sound.toFiled (first.trans second)
    rw [← h.passedName?_onward sound.toFiled (first.trans second)] at passed
    obtain ⟨order, same, run⟩ := implemented.exists_order_inherit
    rw [run]
    apply due.documentedAt_receiveAll sound₂ passed ((same receiver).mpr (listed due))
    exact fun id member => results id ((same id).mp member)

/-- When a second pass adds nothing, and what it can add at most: nothing exactly if the first one
left the registry closed; and never a member that a parent had, for a receiver that named it, before
the first pass, since that one supplied it. -/
theorem resolveAugments_again (h : r.Consistent) :
    (r.resolveAugments.resolveAugments.results = r.resolveAugments.results ↔
      r.resolveAugments.Closed) ∧
    ∀ relation, ∀ receiver ∈ r.results, ∀ parent ∈ (r.doclet receiver).related relation,
      (r.doclet receiver).longname ≠ parent → ∀ member ∈ r.index.membersOf parent,
        ¬ r.resolveAugments.Missing (r.doclet receiver).longname member := by
  obtain ⟨sound, later⟩ := passInvariant_consistent.resolveAugments h
  constructor
  · apply results_resolveAugments_eq_iff
    · exact fun l id member => sound.valid id ((sound.mem_documented l id).mp member).1
    · exact sound.nodup
  · rintro relation receiver present parent named other member listed ⟨l, passed, nothing⟩
    have due := passInvariant_consistent.entitled_membersOf h present named other member listed
    have bound := h.valid member due.member_mem
    rw [(later.doclet member bound).passedName?] at passed
    exact due.documentedAt_resolveAugments h passed nothing

/-- A chain of mixins whose first receiver is read before its mixin has received anything. -/
def mixinChain : Registry :=
  ofDoclets [
    { Doclet.empty with longname := "A", kind := some .class, mixes := ["B"] },
    { Doclet.empty with longname := "B", kind := some .mixin, mixes := ["C"] },
    { Doclet.empty with longname := "C", kind := some .mixin },
    { Doclet.empty with
      name := some "m", longname := "C.m", memberof := some "C", scope := some .static }]

/-- The first pass gives the member to the mixin in the middle, and only the second one hands it on
to the class. -/
theorem resolveAugments_mixinChain_grows :
    mixinChain.Consistent ∧
    mixinChain.resolveAugments.resolveAugments.results ≠ mixinChain.resolveAugments.results ∧
    mixinChain.resolveAugments.resultDoclets.map Doclet.longname =
      ["A", "B", "C", "C.m", "B.m"] ∧
    mixinChain.resolveAugments.resolveAugments.resultDoclets.map Doclet.longname =
      ["A", "B", "C", "C.m", "B.m", "A.m"] :=
  ⟨consistent_ofDoclets _, by decide +kernel, by decide +kernel, by decide +kernel⟩

theorem resolveAugments_again_mixinChain :
    mixinChain.Consistent ∧ ¬ mixinChain.resolveAugments.Closed := by
  have sound : mixinChain.Consistent := consistent_ofDoclets _
  refine ⟨sound, fun closed => ?_⟩
  have same := (resolveAugments_again sound).1.mpr closed
  have size : mixinChain.resolveAugments.resolveAugments.results.size =
      mixinChain.resolveAugments.results.size := congrArg Array.size same
  revert size
  decide +kernel

end Registry

end Doclets
