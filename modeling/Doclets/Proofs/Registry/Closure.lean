import Doclets.Proofs.Registry.Repetition
import Mathlib.Data.Fintype.Pigeonhole
import Mathlib.Data.Set.Finite.List
import Mathlib.Logic.Relation

/-!
What the order of the receivers is for. A receiver from which no chain of parents leads into a cycle
has its turn when nothing under the longname of a parent waits any more, so that the members of its
parents are complete: the pass leaves it with all of them, those included that its parents received
in the same pass. Every pending receiver has one turn, whatever the cycles.
-/

namespace Doclets

/-- Where every element of a list leads to another one, each leads into a cycle. -/
theorem exists_cycle {α : Type} {leads : α → α → Prop} {list : List α}
    (next : ∀ a ∈ list, ∃ b ∈ list, leads a b) {a : α} (listed : a ∈ list) :
    ∃ b, Relation.ReflTransGen leads a b ∧ Relation.TransGen leads b b := by
  choose! step stays link using next
  have inside (n : ℕ) : step^[n] a ∈ list := by
    induction n with
    | zero => exact listed
    | succ n ih =>
      rw [Function.iterate_succ_apply']
      exact stays _ ih
  have reach (n k : ℕ) : Relation.ReflTransGen leads (step^[n] a) (step^[n + k] a) := by
    induction k with
    | zero => exact .refl
    | succ k ih =>
      rw [← Nat.add_assoc, Function.iterate_succ_apply']
      exact ih.tail (link _ (inside _))
  -- the steps outnumber the elements of the list, so one element is met again
  have finite : Finite {b // b ∈ list} := list.finite_toSet
  obtain ⟨i, j, less, same⟩ : ∃ i j, i < j ∧ step^[i] a = step^[j] a := by
    obtain ⟨i, j, apart, same⟩ := Finite.exists_ne_map_eq_of_infinite
      fun n => (⟨step^[n] a, inside n⟩ : {b // b ∈ list})
    rw [Subtype.mk.injEq] at same
    rcases Nat.lt_or_gt_of_ne apart with less | more
    · exact ⟨i, j, less, same⟩
    · exact ⟨j, i, more, same.symm⟩
  have first := link _ (inside i)
  rw [← Function.iterate_succ_apply' step] at first
  have rest := reach (i + 1) (j - (i + 1))
  rw [Nat.add_sub_cancel' less, ← same] at rest
  refine ⟨step^[i] a, ?_, .head' first rest⟩
  simpa using reach 0 i

theorem Doclet.Succeeds.augments {d e : Doclet} (h : e.Succeeds d) : e.augments = d.augments := by
  obtain ⟨_, _, _, rfl⟩ := h
  rfl

namespace Registry

/-- A result that has documentation. -/
def Documented (r : Registry) (id : DocletId) : Prop :=
  id ∈ r.results ∧ (r.doclet id).undocumented = false

/-- A documented result names the longname of another one among the parents it augments. -/
structure Augments (r : Registry) (child parent : DocletId) : Prop where
  documented : r.Documented child
  parent_documented : r.Documented parent
  named : (r.doclet parent).longname ∈ (r.doclet child).augments

/-- A chain of parents leads from a doclet into a cycle. -/
def Circular (r : Registry) (id : DocletId) : Prop :=
  ∃ other, Relation.ReflTransGen r.Augments id other ∧ Relation.TransGen r.Augments other other

/-- The registry that receivers inherit in: what is mixed in and implemented was received before. -/
def beforeInheritance (r : Registry) : Registry :=
  let r := (r.receivers .mixed).foldl (receive .mixed) r
  (r.receivers .implemented).foldl (receive .implemented) r

variable {start r s : Registry} {relation : Relation} {receiver child : DocletId}
  {parent owner : String} {pending order : List DocletId}

theorem Consistent.beforeInheritance (h : r.Consistent) : r.beforeInheritance.Consistent := by
  have inv := passInvariant_consistent
  obtain ⟨mixed, _⟩ := (inv.loop_receive .mixed).run (r.receivers .mixed) h
    fun _ => mem_results_of_mem_receivers
  exact ((inv.loop_receive .implemented).run _ mixed fun _ => mem_results_of_mem_receivers).1

theorem mem_receivers_inherited : receiver ∈ r.receivers .inherited ↔
    r.Documented receiver ∧ (r.doclet receiver).augments ≠ [] := by
  rw [mem_receivers]
  unfold Documented Doclet.related
  cases (r.doclet receiver).undocumented with
  | true => simp
  | false => simp [List.eq_nil_iff_forall_not_mem]

theorem nodup_receivers (h : r.Filed) (relation : Relation) : (r.receivers relation).Nodup :=
  h.nodup.filter _

/-! ### The members of a parent while others receive -/

theorem spares_passOn (other : owner ≠ parent) (r : Registry) (member : DocletId) :
    r.Spares (·.membersOf parent) (passOn relation owner r member) := by
  have step := passedOn_passOn relation owner r member
  refine ⟨step.onward, ?_⟩
  generalize Registry.passOn relation owner r member = s at step
  cases step with
  | withheld => rfl
  | kept => rfl
  | copied =>
    rw [index_addDoclet, Index.membersOf_add, Doclet.memberof_copyFor, if_neg, List.append_nil]
    exact fun same => other (Option.some.inj same)

theorem spares_copyMembers (other : (r.doclet receiver).longname ≠ parent) (source : String) :
    r.Spares (·.membersOf parent) (copyMembers relation receiver r source) := by
  unfold copyMembers
  dsimp only
  split
  · exact ⟨.refl r, rfl⟩
  · exact .foldl fun member _ s _ => spares_passOn other s member

theorem spares_receive (bound : receiver < r.doclets.size)
    (other : (r.doclet receiver).longname ≠ parent) :
    r.Spares (·.membersOf parent) (receive relation r receiver) := by
  refine .foldl fun source _ s spares => spares_copyMembers ?_ source
  rw [(spares.onward.doclet receiver bound).filedAlike.longname]
  exact other

theorem spares_receiveAll {receivers : List DocletId}
    (bound : ∀ id ∈ receivers, id < r.doclets.size)
    (other : ∀ id ∈ receivers, (r.doclet id).longname ≠ parent) :
    r.Spares (·.membersOf parent) (receivers.foldl (receive relation) r) := by
  refine .foldl fun id listed s spares => ?_
  refine spares_receive (Nat.lt_of_lt_of_le (bound id listed) spares.onward.size_le) ?_
  rw [(spares.onward.doclet id (bound id listed)).filedAlike.longname]
  exact other id listed

/-! ### The turn of a receiver -/

/-- A batch is made of receivers that no waiting one is a parent of, unless each waits for one that
waits itself. -/
theorem nextBatch_cases (r : Registry) (pending : List DocletId) :
    (∀ id ∈ r.nextBatch pending, ∀ other ∈ pending,
      (r.doclet other).longname ∉ (r.doclet id).augments) ∨
    ∀ id ∈ pending, ∃ other ∈ pending, (r.doclet other).longname ∈ (r.doclet id).augments := by
  unfold nextBatch
  dsimp only
  split
  next none =>
    right
    intro id waits
    have stuck := List.filter_eq_nil_iff.mp (List.isEmpty_iff.mp none) id waits
    simpa [and_comm] using stuck
  next =>
    left
    intro id listed other waits named
    have ready := (List.mem_filter.mp listed).2
    have apart := List.all_eq_true.mp ready _ named
    have present := List.mem_map_of_mem (f := fun id => (r.doclet id).longname) waits
    simp [present] at apart

/-- Where each pending receiver waits for another one, all lead into a cycle. -/
theorem circular_of_stuck (known : ∀ id ∈ pending, r.Documented id)
    (stuck : ∀ id ∈ pending, ∃ other ∈ pending,
      (r.doclet other).longname ∈ (r.doclet id).augments) (waits : child ∈ pending) :
    r.Circular child := by
  refine exists_cycle (fun id listed => ?_) waits
  obtain ⟨other, present, named⟩ := stuck id listed
  exact ⟨other, present, known id listed, known other present, named⟩

/-- A receiver that does not lead into a cycle has a turn, after which none under the longname of
one of its parents is handled. -/
theorem Rounds.exists_turn (h : r.Rounds pending order s) (sound : r.Consistent)
    (filed : start.Filed) (later : start.Onward r) (known : ∀ id ∈ pending, start.Documented id)
    (waits : child ∈ pending) (straight : ¬ start.Circular child) :
    ∃ before after, order = before ++ child :: after ∧
      ∀ id ∈ child :: after, (start.doclet id).longname ∉ (start.doclet child).augments := by
  induction h with
  | done => cases waits
  | @round r _ pending order _ rest ih =>
    have same (id : DocletId) (listed : id ∈ pending) := later.doclet id
      (filed.valid id (known id listed).1)
    have results (id : DocletId) (listed : id ∈ r.nextBatch pending) : id ∈ r.results :=
      later.mem_results (known id (r.nextBatch_subset pending listed)).1
    by_cases turn : child ∈ r.nextBatch pending
    · obtain ⟨before, after, split⟩ := List.append_of_mem turn
      refine ⟨before, after ++ order, by rw [split]; simp, ?_⟩
      intro id listed
      have among : id ∈ pending := by
        rw [← List.cons_append, List.mem_append] at listed
        rcases listed with now | later
        · apply r.nextBatch_subset pending
          rw [split]
          exact List.mem_append_right _ now
        · exact (List.mem_filter.mp (rest.perm.mem_iff.mp later)).1
      rcases r.nextBatch_cases pending with ready | stuck
      · have apart := ready child turn id among
        rwa [(same id among).filedAlike.longname, (same child waits).augments] at apart
      · refine absurd (circular_of_stuck known (fun id listed => ?_) waits) straight
        obtain ⟨other, present, named⟩ := stuck id listed
        rw [(same other present).filedAlike.longname, (same id listed).augments] at named
        exact ⟨other, present, named⟩
    · obtain ⟨next, onward⟩ := (passInvariant_consistent.loop_receive .inherited).run
        (r.nextBatch pending) sound results
      obtain ⟨before, after, split, apart⟩ := ih next (later.trans onward)
        (fun id listed => known id (List.mem_filter.mp listed).1)
        (List.mem_filter.mpr ⟨waits, by simpa using turn⟩)
      exact ⟨r.nextBatch pending ++ before, after, by rw [split, List.append_assoc], apart⟩

theorem eraseDups_of_nodup {list : List DocletId} (h : list.Nodup) : list.eraseDups = list := by
  induction list with
  | nil => rfl
  | cons id rest ih =>
    obtain ⟨fresh, single⟩ := List.nodup_cons.mp h
    have kept : rest.filter (fun other => !other == id) = rest := by
      refine List.filter_eq_self.mpr fun other listed => ?_
      have apart : other ≠ id := fun same => fresh (same ▸ listed)
      simpa using apart
    rw [List.eraseDups_cons, kept, ih single]

theorem exists_rounds_inherit (h : r.Filed) : ∃ order,
    r.Rounds (r.receivers .inherited) order r.inherit := by
  have rounds := exists_rounds _ (r.receivers .inherited).eraseDups r (Nat.le_refl _)
  rw [eraseDups_of_nodup (nodup_receivers h .inherited)] at rounds
  unfold inherit
  rw [eraseDups_of_nodup (nodup_receivers h .inherited)]
  exact rounds

/-- The registry in which a receiver that does not lead into a cycle has its turn. -/
theorem Consistent.exists_turn (h : r.Consistent) (waits : child ∈ r.receivers .inherited)
    (straight : ¬ r.Circular child) :
    ∃ turn after, turn.Consistent ∧ r.Onward turn ∧
      r.inherit = (child :: after).foldl (receive .inherited) turn ∧
      ∀ id ∈ child :: after,
        id ∈ turn.results ∧ (turn.doclet id).longname ∉ (r.doclet child).augments := by
  obtain ⟨order, rounds⟩ := exists_rounds_inherit h.toFiled
  have known (id : DocletId) (listed : id ∈ r.receivers .inherited) : r.Documented id :=
    (mem_receivers_inherited.mp listed).1
  have handled (id : DocletId) (listed : id ∈ order) : id ∈ r.results :=
    (known id (rounds.perm.mem_iff.mp listed)).1
  obtain ⟨before, after, split, apart⟩ :=
    rounds.exists_turn h h.toFiled (.refl r) known waits straight
  rw [split, List.forall_mem_append] at handled
  obtain ⟨early, late⟩ := handled
  obtain ⟨sound, later⟩ := (passInvariant_consistent.loop_receive .inherited).run before h early
  refine ⟨before.foldl (receive .inherited) r, after, sound, later, ?_, ?_⟩
  · rw [rounds.run, split, List.foldl_append]
  · intro id listed
    have present := late id listed
    rw [(later.doclet id (h.valid id present)).filedAlike.longname]
    exact ⟨later.mem_results present, apart id listed⟩

/-- A receiver that does not lead into a cycle ends up with every member that a parent ends up
with. -/
theorem Consistent.documentedAt_inherit (h : r.Consistent) (shown : r.Documented child)
    (straight : ¬ r.Circular child) (named : parent ∈ (r.doclet child).augments)
    {member : DocletId} (present : member ∈ r.inherit.results)
    (memberof : (r.inherit.doclet member).memberof = some parent) {l : String}
    (passed : (r.inherit.doclet member).passedName? (r.doclet child).longname = some l) :
    r.inherit.index.documentedAt l ≠ [] := by
  have inv := passInvariant_consistent
  have waits : child ∈ r.receivers .inherited :=
    mem_receivers_inherited.mpr ⟨shown, List.ne_nil_of_mem named⟩
  obtain ⟨turn, after, sound, first, run, late⟩ := h.exists_turn waits straight
  have results (id : DocletId) (listed : id ∈ child :: after) : id ∈ turn.results :=
    (late id listed).1
  have other (id : DocletId) (listed : id ∈ child :: after) : (turn.doclet id).longname ≠ parent :=
    fun same => (late id listed).2 (same ▸ named)
  obtain ⟨final, second⟩ := (inv.loop_receive .inherited).run (child :: after) sound results
  rw [← run] at final second
  -- the members of the parent are complete when the receiver has its turn
  have spares : turn.Spares (·.membersOf parent) r.inherit := by
    rw [run]
    exact spares_receiveAll (fun id listed => sound.valid id (results id listed)) other
  have complete : member ∈ turn.index.membersOf parent := by
    rw [← spares.same, final.memberof, List.mem_filter, decide_eq_true_eq]
    exact ⟨Array.mem_toList_iff.mpr present, memberof⟩
  have receiver := first.doclet child (h.valid child shown.1)
  have still : parent ∈ (turn.doclet child).related .inherited := by
    apply receiver.related
    simpa [Doclet.related, shown.2] using named
  have entitled := inv.entitled_membersOf sound (results child List.mem_cons_self) still
    (other child List.mem_cons_self) member complete
  rw [(second.doclet member (sound.valid member entitled.member_mem)).passedName?,
    ← receiver.filedAlike.longname] at passed
  have supplied := entitled.documentedAt_receiveAll sound passed List.mem_cons_self results
  rwa [← run] at supplied

/-- Inheritance is closed where no cycle is in the way. A pass over the pending receivers ends with
each of them handled once, whatever they augment. When it has ended, a receiver from which no chain
of parents leads into a cycle has every documented member of its parents that can be passed on,
those that a parent received in the same pass included. -/
theorem inherit_closed (h : r.Consistent) :
    (∃ order, r.beforeInheritance.Rounds (r.beforeInheritance.receivers .inherited) order
        r.resolveAugments ∧
      order.Nodup ∧ order.Perm (r.beforeInheritance.receivers .inherited)) ∧
    ∀ child, r.beforeInheritance.Documented child → ¬ r.beforeInheritance.Circular child →
      ∀ parent ∈ (r.beforeInheritance.doclet child).augments,
        ∀ member, r.resolveAugments.Documented member →
          (r.resolveAugments.doclet member).memberof = some parent →
          ∀ scope, (scope = .static ∨ scope = .perInstance) →
            (r.resolveAugments.doclet member).scope = some scope →
            ∀ name, (r.resolveAugments.doclet member).name = some name →
              ∃ copy, r.resolveAugments.Documented copy ∧
                (r.resolveAugments.doclet copy).longname =
                  (r.beforeInheritance.doclet child).longname ++ scope.punctuation ++ name := by
  have sound := h.beforeInheritance
  have filed := (passInvariant_consistent.inherit sound).1.toFiled
  have same : r.resolveAugments = r.beforeInheritance.inherit := rfl
  rw [same]
  constructor
  · obtain ⟨order, rounds⟩ := exists_rounds_inherit sound.toFiled
    refine ⟨order, rounds, ?_, rounds.perm⟩
    exact rounds.perm.nodup_iff.mpr (nodup_receivers sound.toFiled _)
  · intro child shown straight parent named member present memberof scope shared within name own
    have passed : (r.beforeInheritance.inherit.doclet member).passedName?
        (r.beforeInheritance.doclet child).longname =
          some ((r.beforeInheritance.doclet child).longname ++ scope.punctuation ++ name) := by
      unfold Doclet.passedName? Doclet.sharedScope? Doclet.ownName
      rcases shared with rfl | rfl <;> simp [present.2, within, own]
    have found := sound.documentedAt_inherit shown straight named present.1 memberof passed
    obtain ⟨copy, listed⟩ := List.exists_mem_of_ne_nil _ found
    obtain ⟨result, longname, documented⟩ := (filed.mem_documented _ _).mp listed
    exact ⟨copy, ⟨result, documented⟩, longname⟩

/-- Three generations, the youngest read first. The eldest has a method, and two classes besides
augment each other. -/
def generations : Registry :=
  ofDoclets [
    { Doclet.empty with longname := "C", kind := some .class, augments := ["B"] },
    { Doclet.empty with longname := "X", kind := some .class, augments := ["Y"] },
    { Doclet.empty with longname := "B", kind := some .class, augments := ["A"] },
    { Doclet.empty with longname := "A", kind := some .class },
    { Doclet.empty with
      name := some "run", longname := "A#run", memberof := some "A", scope := some .perInstance },
    { Doclet.empty with longname := "Y", kind := some .class, augments := ["X"] }]

/-- Where doclets name only later ones as parents, from some doclet on, it leads into no cycle. -/
theorem not_circular_of_lt (among : DocletId → Prop)
    (later : ∀ id other, among id → r.Augments id other → among other ∧ id < other)
    (listed : among child) : ¬ r.Circular child := by
  rintro ⟨other, chain, cycle⟩
  have inside : among other := by
    clear cycle
    induction chain with
    | refl => exact listed
    | tail _ link ih => exact (later _ _ ih link).1
  have grows {last : DocletId} (path : Relation.TransGen r.Augments other last) :
      among last ∧ other < last := by
    induction path with
    | single link => exact later _ _ inside link
    | tail _ link ih =>
      obtain ⟨next, less⟩ := later _ _ ih.1 link
      exact ⟨next, Nat.lt_trans ih.2 less⟩
  exact Nat.lt_irrefl other (grows cycle).2

/-- The youngest class ends up with the method that its parent receives in the same pass, and the
classes that augment each other are handled all the same. -/
theorem inherit_closed_generations :
    generations.Consistent ∧ generations.beforeInheritance.Documented 1 ∧
    ¬ generations.beforeInheritance.Circular 1 ∧
    "B" ∈ (generations.beforeInheritance.doclet 1).augments ∧
    generations.resolveAugments.Documented 7 ∧
    (generations.resolveAugments.doclet 7).longname = "B#run" ∧
    (∃ copy, generations.resolveAugments.Documented copy ∧
      (generations.resolveAugments.doclet copy).longname = "C#run") ∧
    ∃ order, generations.beforeInheritance.Rounds
      (generations.beforeInheritance.receivers .inherited) order generations.resolveAugments ∧
      order.Nodup ∧ order.Perm [1, 2, 3, 6] := by
  have sound : generations.Consistent := consistent_ofDoclets _
  obtain ⟨rounds, closed⟩ := inherit_closed sound
  have results : generations.beforeInheritance.results = #[1, 2, 3, 4, 5, 6] := by decide +kernel
  have edges : ∀ child ∈ [1, 3, 4], ∀ parent ∈ [1, 2, 3, 4, 5, 6],
      (generations.beforeInheritance.doclet parent).longname ∈
        (generations.beforeInheritance.doclet child).augments →
      parent ∈ [1, 3, 4] ∧ child < parent := by decide +kernel
  have straight : ¬ generations.beforeInheritance.Circular 1 := by
    apply not_circular_of_lt fun id => id ∈ [1, 3, 4]
    · intro id other listed link
      have present := link.parent_documented.1
      rw [results] at present
      exact edges id listed other (by simpa using present) link.named
    · decide
  have shown : generations.beforeInheritance.Documented 1 := ⟨by simp [results], by decide +kernel⟩
  have present : generations.resolveAugments.Documented 7 := by
    constructor <;> decide +kernel
  have named : "B" ∈ (generations.beforeInheritance.doclet 1).augments := by decide +kernel
  refine ⟨sound, shown, straight, named, present, by decide +kernel, ?_, ?_⟩
  · have found := closed 1 shown straight "B" named 7 present (by decide +kernel) .perInstance
      (Or.inr rfl) (by decide +kernel) "run" (by decide +kernel)
    have same : (generations.beforeInheritance.doclet 1).longname = "C" := by decide +kernel
    rw [same] at found
    exact found
  · obtain ⟨order, run, single, all⟩ := rounds
    have receivers : generations.beforeInheritance.receivers .inherited = [1, 2, 3, 6] := by
      decide +kernel
    exact ⟨order, run, single, receivers ▸ all⟩

end Registry

end Doclets
