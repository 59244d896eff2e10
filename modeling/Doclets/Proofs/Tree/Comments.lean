import Doclets.Proofs.Comment.Merging
import Doclets.Proofs.Tree.Acceptance

/-!
The comments of a unit. Each is kept once for its range, in the run of comments that were written
back to back with it; a run is stored as one comment, and it documents if its first comment does.
-/

namespace Doclets

/-- Three stars open a banner. -/
def Comment.isBanner (c : Comment) : Bool :=
  c.kind = .block && "/***".toList.isPrefixOf c.raw.toList

namespace Estree

open Json (Value)

variable {c previous : Comment} {h s : Harvest}

/-! ### One comment -/

theorem isDoc_iff : c.isDoc = true ↔
    c.kind = .block ∧ ∃ d rest, c.value.toList = '*' :: d :: rest ∧ d ≠ '*' := by
  rw [Comment.isDoc, Bool.and_eq_true, decide_eq_true_eq]
  refine and_congr_right fun block => ?_
  rw [Comment.raw, block]
  exact Comment.isDocText_blockText_iff

theorem isBanner_iff : c.isBanner = true ↔
    c.kind = .block ∧ (c.value.toList = ['*'] ∨ ∃ rest, c.value.toList = '*' :: '*' :: rest) := by
  rw [Comment.isBanner, Bool.and_eq_true, decide_eq_true_eq]
  refine and_congr_right fun block => ?_
  rw [Comment.raw, block]
  dsimp only
  rw [Comment.toList_blockText]
  cases c.value.toList with
  | nil => simp [List.isPrefixOf]
  | cons first rest =>
    cases rest with
    | nil => simp [List.isPrefixOf, @eq_comm _ '*']
    | cons second rest => simp [List.isPrefixOf, @eq_comm _ '*']

/-- What is merged opens with a star and has a place; it documents, or it is a banner. -/
theorem isPlacedDoc_iff : isPlacedDoc c = true ↔
    (c.isDoc = true ∨ c.isBanner = true) ∧ c.range.isEmpty = false := by
  rw [isDoc_iff, isBanner_iff, ← and_or_left]
  simp only [isPlacedDoc, Bool.and_eq_true, decide_eq_true_eq, Bool.not_eq_true']
  refine and_congr_left fun _ => and_congr_right fun _ => ?_
  cases c.value.toList with
  | nil => simp
  | cons first rest =>
    cases rest with
    | nil => simp
    | cons second rest => by_cases star : second = '*' <;> simp [star]

/-! ### Runs -/

/-- A comment together with one that continues it. -/
def joined (previous next : Comment) : Comment :=
  { previous with
    value := Comment.merge previous.value next.value
    range := ⟨previous.range.first, next.range.last⟩ }

/-- What is merged documents if what stands in front does, or is a lone star. -/
theorem isDoc_joined (next : continues previous c = true) :
    (joined previous c).isDoc = true ↔ previous.isDoc = true ∨ previous.value.toList = ['*'] := by
  simp only [continues, Bool.and_eq_true] at next
  have opens := next.1.1
  simp only [isPlacedDoc, Bool.and_eq_true, decide_eq_true_eq] at opens
  obtain ⟨⟨block, star⟩, -⟩ := opens
  obtain ⟨rest, text⟩ := List.head?_eq_some_iff.mp star
  rw [isDoc_iff, isDoc_iff]
  simp only [joined, block, true_and, Comment.merge, String.toList_append, text]
  cases rest with
  | nil => simp
  | cons first rest => simp

theorem joined_ne_star (previous c : Comment) : (joined previous c).value.toList ≠ ['*'] := by
  intro same
  have length := congrArg List.length same
  simp only [joined, Comment.merge, String.toList_append, List.length_append, List.length_singleton,
    show "@also".toList.length = 5 from rfl] at length
  omega

/-- Comments that are stored as one. -/
structure Run where
  first : Comment
  more : List Comment

namespace Run

variable {r : Run}

def members (r : Run) : List Comment := r.first :: r.more

def stored (r : Run) : Comment := r.more.foldl joined r.first

/-- The run with one more comment. -/
def append (r : Run) (c : Comment) : Run := ⟨r.first, r.more ++ [c]⟩

/-- Each comment of the run continues those before it, as they are stored. -/
inductive Chained : Run → Prop where
  | single (c : Comment) : Chained ⟨c, []⟩
  | append {r : Run} {c : Comment} (chained : Chained r) (next : continues r.stored c = true) :
    Chained (r.append c)

theorem stored_append (r : Run) (c : Comment) : (r.append c).stored = joined r.stored c := by
  rw [stored, append, List.foldl_append, stored]
  rfl

theorem members_append (r : Run) (c : Comment) : (r.append c).members = r.members ++ [c] := rfl

/-- Only what opens with a star is merged. -/
theorem Chained.merged (chained : r.Chained) (some : r.more ≠ []) :
    ∀ c ∈ r.members, isPlacedDoc c = true := by
  induction chained with
  | single c => exact absurd rfl some
  | @append r c chained next ih =>
    simp only [continues, Bool.and_eq_true] at next
    intro d listed
    rw [members_append, List.mem_append, List.mem_singleton] at listed
    rcases listed with inside | rfl
    · by_cases alone : r.more = []
      · rw [members, alone, List.mem_singleton] at inside
        rw [inside]
        simpa [stored, alone] using next.1.1
      · exact ih alone d inside
    · exact next.1.2

/-- A run documents if its first comment does, or if that is a lone star that others continue. -/
theorem Chained.isDoc_stored (chained : r.Chained) : r.stored.isDoc = true ↔
    r.first.isDoc = true ∨ r.first.value.toList = ['*'] ∧ r.more ≠ [] := by
  induction chained with
  | single c => simp [stored]
  | @append r c chained next ih =>
    have first : (r.append c).first = r.first := rfl
    have some : (r.append c).more ≠ [] := List.concat_ne_nil c r.more
    rw [stored_append, isDoc_joined next, ih, first]
    by_cases alone : r.more = []
    · simp [stored, alone, some]
    · have longer : r.stored.value.toList ≠ ['*'] := by
        cases chained with
        | single => exact absurd rfl alone
        | append => exact stored_append _ _ ▸ joined_ne_star _ _
      simp [alone, longer, some]

/-- A documentation comment is lost exactly in a run that begins with two stars. -/
theorem Chained.isDoc_stored_eq_false_iff (chained : r.Chained) (inside : c ∈ r.members)
    (doc : c.isDoc = true) : r.stored.isDoc = false ↔
      ∃ rest, r.first.value.toList = '*' :: '*' :: rest := by
  rw [← Bool.not_eq_true, chained.isDoc_stored]
  constructor
  · intro lost
    by_cases alone : r.more = []
    · rw [members, alone, List.mem_singleton] at inside
      exact absurd (Or.inl (inside ▸ doc)) lost
    · have first := chained.merged alone r.first List.mem_cons_self
      rcases (isPlacedDoc_iff.mp first).1 with own | banner
      · exact absurd (Or.inl own) lost
      · rcases (isBanner_iff.mp banner).2 with star | starred
        · exact absurd (Or.inr ⟨star, alone⟩) lost
        · exact starred
  · rintro ⟨rest, text⟩ (own | ⟨star, -⟩)
    · obtain ⟨-, d, others, same, plain⟩ := isDoc_iff.mp own
      rw [text] at same
      exact plain (List.cons.inj (List.cons.inj same).2).1.symm
    · rw [text] at star
      cases star

/-- A range that is that of a comment of the run. -/
def Spans (r : Run) (range : Range) : Prop :=
  range.isEmpty = false ∧ ∃ c ∈ r.members, c.range = range

theorem spans_append {range : Range} :
    (r.append c).Spans range ↔ r.Spans range ∨ range.isEmpty = false ∧ c.range = range := by
  simp only [Spans, members_append, List.mem_append, List.mem_singleton, or_and_right,
    exists_or, exists_eq_left, and_or_left]

end Run

/-! ### Keeping one comment -/

/-- A range stands for the run at this place. -/
def Located (runs : List Run) (range : Range) (k : Nat) : Prop :=
  ∃ r, runs[k]? = some r ∧ r.Spans range

/-- The runs that are stored, with a place for each range of theirs. -/
structure Filed (h : Harvest) (runs : List Run) : Prop where
  stored : h.comments.toList = runs.map Run.stored
  chained : ∀ r ∈ runs, r.Chained
  found : ∀ (range : Range) (k : Nat),
    Ledger.get? range h.byRange = some k ↔ Located runs range k

/-- How a comment comes to its place among the runs. -/
inductive Files (c : Comment) : List Run → Nat → List Run → Prop where
  | again {runs : List Run} {k : Nat} (there : Located runs c.range k) : Files c runs k runs
  | joins {runs : List Run} {r : Run} (fresh : ∀ k, ¬ Located (runs ++ [r]) c.range k) :
    Files c (runs ++ [r]) runs.length (runs ++ [r.append c])
  | opens {runs : List Run} (fresh : ∀ k, ¬ Located runs c.range k) :
    Files c runs runs.length (runs ++ [⟨c, []⟩])

variable {runs : List Run} {r : Run} {range : Range} {k : Nat}

theorem located_concat : Located (runs ++ [r]) range k ↔
    Located runs range k ∨ k = runs.length ∧ r.Spans range := by
  constructor
  · rintro ⟨other, there, spans⟩
    rw [List.getElem?_append] at there
    split at there
    next => exact Or.inl ⟨other, there, spans⟩
    next bound =>
      obtain ⟨last, same⟩ := List.getElem?_eq_some_iff.mp there
      rw [List.getElem_singleton] at same
      rw [List.length_singleton] at last
      exact Or.inr ⟨by omega, same ▸ spans⟩
  · rintro (⟨other, there, spans⟩ | ⟨rfl, spans⟩)
    · obtain ⟨bound, _⟩ := List.getElem?_eq_some_iff.mp there
      exact ⟨other, (List.getElem?_append_left bound).trans there, spans⟩
    · exact ⟨r, List.getElem?_concat_length, spans⟩

theorem filed_empty : Filed .empty [] := by
  refine ⟨rfl, nofun, fun range k => ?_⟩
  simp [Harvest.empty, Ledger.get?, Located]

/-- The range of a comment is found where the comment was put, if it is fresh. -/
theorem Filed.insert (filed : Filed h runs) (fresh : ∀ k, ¬ Located runs c.range k)
    (place : Nat) (later : List Run)
    (located : ∀ range k, Located later range k ↔ Located runs range k ∨
      k = place ∧ range.isEmpty = false ∧ c.range = range) (range : Range) (k : Nat) :
    Ledger.get? range (if c.range.isEmpty then h.byRange
      else Ledger.insert c.range place h.byRange) = some k ↔ Located later range k := by
  rw [located]
  split
  next empty =>
    rw [filed.found]
    refine (or_iff_left ?_).symm
    rintro ⟨-, some, rfl⟩
    rw [empty] at some
    cases some
  next some =>
    by_cases same : range = c.range
    · subst same
      rw [Ledger.get?_insert_self, Option.some.injEq, or_iff_right (fresh k)]
      simp [some, eq_comm]
    · rw [Ledger.get?_insert_of_ne same, filed.found]
      refine (or_iff_left ?_).symm
      rintro ⟨-, -, also⟩
      exact same also.symm

theorem Filed.size (filed : Filed h runs) : h.comments.size = runs.length := by
  rw [← Array.length_toList, filed.stored, List.length_map]

theorem Filed.keepNew (filed : Filed h runs) (fresh : ∀ k, ¬ Located runs c.range k) :
    (h.keepNew c).1 = runs.length ∧ Filed (h.keepNew c).2 (runs ++ [⟨c, []⟩]) := by
  refine ⟨filed.size, ?_, ?_, ?_⟩
  · rw [Harvest.keepNew, Array.toList_push, filed.stored, List.map_append]
    rfl
  · intro r listed
    rcases List.mem_append.mp listed with old | new
    · exact filed.chained r old
    · exact List.mem_singleton.mp new ▸ .single c
  · refine filed.insert fresh _ _ fun range k => ?_
    rw [located_concat, filed.size]
    simp [Run.Spans, Run.members]

/-- A comment that continues the last one is filed in its run. -/
theorem Filed.join (filed : Filed h runs)
    (fresh : ∀ k, ¬ Located runs c.range k) (last : h.comments.back? = some previous)
    (next : continues previous c = true) :
    ∃ later, Files c runs (h.comments.size - 1) later ∧ Filed { h with
      comments := h.comments.pop.push (joined previous c)
      byRange := Ledger.insert c.range (h.comments.size - 1) h.byRange } later := by
  have some : c.range.isEmpty = false := by
    simp only [continues, Bool.and_eq_true] at next
    exact (isPlacedDoc_iff.mp next.1.2).2
  have stored := filed.stored
  rw [← Array.getLast?_toList, stored, List.getLast?_map] at last
  cases runs using List.reverseRecOn with
  | nil => cases last
  | append_singleton runs r =>
    have place : h.comments.size - 1 = runs.length := by simp [filed.size]
    rw [List.getLast?_concat] at last
    obtain rfl : r.stored = previous := Option.some.inj last
    rw [place]
    refine ⟨_, .joins fresh, ?_, ?_, ?_⟩
    · rw [Array.toList_push, Array.toList_pop, stored, List.map_append, List.map_append,
        List.map_singleton, List.dropLast_concat, List.map_singleton, Run.stored_append]
    · intro other listed
      rcases List.mem_append.mp listed with old | new
      · exact filed.chained other (List.mem_append_left _ old)
      · rw [List.mem_singleton.mp new]
        exact (filed.chained r (by simp)).append next
    · have located := filed.insert fresh runs.length (runs ++ [r.append c])
        fun range k => by
          rw [located_concat, located_concat, Run.spans_append, and_or_left, or_assoc]
      rwa [if_neg (by simpa using some)] at located

/-- Each comment is filed in a run of its own, at the end of the last run, or where its range was
filed before. -/
theorem Filed.keep (filed : Filed h runs) (c : Comment) :
    ∃ later, Files c runs (h.keep c).1 later ∧ Filed (h.keep c).2 later := by
  unfold Harvest.keep
  split
  next k there =>
    split at there
    next => cases there
    next => exact ⟨runs, .again ((filed.found _ _).mp there), filed⟩
  next missing =>
    have fresh (k : Nat) : ¬ Located runs c.range k := by
      intro there
      obtain ⟨_, _, some, _⟩ := id there
      rw [some, if_neg Bool.false_ne_true, (filed.found _ _).mpr there] at missing
      cases missing
    have alone : ∃ later, Files c runs (h.keepNew c).1 later ∧ Filed (h.keepNew c).2 later := by
      obtain ⟨place, next⟩ := filed.keepNew fresh
      exact ⟨_, place ▸ .opens fresh, next⟩
    split
    next previous last =>
      split
      next next => exact filed.join fresh last next
      next => exact alone
    next => exact alone

/-! ### Keeping one comment after the other -/

/-- The comment stands in the run at this place, or its range does. -/
def Placed (runs : List Run) (c : Comment) (k : Nat) : Prop :=
  (∃ r, runs[k]? = some r ∧ c ∈ r.members) ∨ Located runs c.range k

/-- Runs only grow at their ends, and others come behind them. -/
def Prolonged (runs later : List Run) : Prop :=
  ∀ (k : Nat) (r : Run), runs[k]? = some r → ∃ s, later[k]? = some s ∧ r.members <+: s.members

def repeats (met : List Comment) (c : Comment) : Bool :=
  !c.range.isEmpty && met.any fun d => d.range = c.range

/-- The comments that were met, with those of a list whose range was not met before. -/
def unrepeated (met : List Comment) : List Comment → List Comment
  | [] => met
  | c :: rest => unrepeated (if repeats met c then met else met ++ [c]) rest

variable {later last : List Run} {cs : List Comment}

theorem Prolonged.refl (runs : List Run) : Prolonged runs runs :=
  fun _ r there => ⟨r, there, List.prefix_rfl⟩

theorem Prolonged.trans (first : Prolonged runs later) (next : Prolonged later last) :
    Prolonged runs last := by
  intro k r there
  obtain ⟨s, also, inner⟩ := first k r there
  obtain ⟨t, still, outer⟩ := next k s also
  exact ⟨t, still, inner.trans outer⟩

theorem Prolonged.append (runs : List Run) (r : Run) : Prolonged runs (runs ++ [r]) := by
  intro k s there
  obtain ⟨bound, _⟩ := List.getElem?_eq_some_iff.mp there
  exact ⟨s, (List.getElem?_append_left bound).trans there, List.prefix_rfl⟩

theorem Prolonged.located (grown : Prolonged runs later) (there : Located runs range k) :
    Located later range k := by
  obtain ⟨r, here, some, d, listed, same⟩ := there
  obtain ⟨s, still, inner⟩ := grown k r here
  exact ⟨s, still, some, d, inner.subset listed, same⟩

theorem Prolonged.placed (grown : Prolonged runs later) (placed : Placed runs c k) :
    Placed later c k := by
  rcases placed with ⟨r, there, listed⟩ | there
  · obtain ⟨s, still, inner⟩ := grown k r there
    exact Or.inl ⟨s, still, inner.subset listed⟩
  · exact Or.inr (grown.located there)

theorem Files.grown (files : Files c runs k later) : Prolonged runs later := by
  cases files with
  | again => exact .refl runs
  | @joins runs r _ =>
    intro k s there
    rw [List.getElem?_append] at there
    split at there
    next bound => exact ⟨s, by rw [List.getElem?_append_left bound, there], List.prefix_rfl⟩
    next bound =>
      obtain ⟨last, same⟩ := List.getElem?_eq_some_iff.mp there
      rw [List.length_singleton] at last
      obtain rfl : k = runs.length := by omega
      rw [List.getElem_singleton] at same
      exact ⟨r.append c, List.getElem?_concat_length, same ▸ List.prefix_append _ _⟩
  | opens => exact .append runs _

theorem Files.placed (files : Files c runs k later) : Placed later c k := by
  cases files with
  | again there => exact Or.inr there
  | @joins runs r _ =>
    exact Or.inl ⟨r.append c, List.getElem?_concat_length, by simp [Run.members_append]⟩
  | opens => exact Or.inl ⟨⟨c, []⟩, List.getElem?_concat_length, by simp [Run.members]⟩

theorem repeats_iff : repeats (runs.flatMap Run.members) c = true ↔
    ∃ k, Located runs c.range k := by
  simp only [repeats, Bool.and_eq_true, Bool.not_eq_true', List.any_eq_true, decide_eq_true_eq]
  constructor
  · rintro ⟨some, d, listed, same⟩
    obtain ⟨r, inside, inner⟩ := List.mem_flatMap.mp listed
    obtain ⟨k, there⟩ := List.mem_iff_getElem?.mp inside
    exact ⟨k, r, there, some, d, inner, same⟩
  · rintro ⟨k, r, there, some, d, listed, same⟩
    exact ⟨some, d, List.mem_flatMap.mpr ⟨r, List.mem_of_getElem? there, listed⟩, same⟩

theorem Files.members (files : Files c runs k later) : later.flatMap Run.members =
    if repeats (runs.flatMap Run.members) c then runs.flatMap Run.members
    else runs.flatMap Run.members ++ [c] := by
  have fresh {runs : List Run} (fresh : ∀ k, ¬ Located runs c.range k) :
      ¬ repeats (runs.flatMap Run.members) c = true := by
    rw [repeats_iff]
    rintro ⟨k, there⟩
    exact fresh k there
  cases files with
  | again there => rw [if_pos (repeats_iff.mpr ⟨k, there⟩)]
  | joins apart =>
    rw [if_neg (fresh apart)]
    simp [Run.members_append]
  | opens apart =>
    rw [if_neg (fresh apart)]
    simp [Run.members]

/-- What becomes of the comments `cs` among the runs, by the places that they go to. -/
structure FiledAll (runs : List Run) (cs : List Comment) (places : List Nat)
    (later : List Run) : Prop where
  grown : Prolonged runs later
  placed : List.Forall₂ (Placed later) cs places
  members : later.flatMap Run.members = unrepeated (runs.flatMap Run.members) cs

theorem Filed.keepAll (filed : Filed h runs) (vs : List Value) :
    ∃ later, FiledAll runs (vs.filterMap comment?) (h.keepAll vs).1 later ∧
      Filed (h.keepAll vs).2 later := by
  induction vs generalizing h runs with
  | nil => exact ⟨runs, ⟨.refl runs, .nil, rfl⟩, filed⟩
  | cons v rest ih =>
    unfold Harvest.keepAll
    cases read : comment? v with
    | none =>
      rw [List.filterMap_cons_none read]
      exact ih filed
    | some c =>
      rw [List.filterMap_cons_some read]
      obtain ⟨between, files, next⟩ := filed.keep c
      obtain ⟨later, all, done⟩ := ih next
      refine ⟨later, ⟨files.grown.trans all.grown, ?_, ?_⟩, done⟩
      · exact .cons (all.grown.placed files.placed) all.placed
      · rw [unrepeated, ← files.members, all.members]

/-! ### What is read later -/

theorem keep_eq (nodes : Array Node) (attached : Bool) (h : Harvest) (c : Comment) :
    ({ h with nodes, attached } : Harvest).keep c =
      ((h.keep c).1, { (h.keep c).2 with nodes, attached }) := by
  unfold Harvest.keep
  dsimp only
  split
  · rfl
  · split
    · split <;> rfl
    · rfl

theorem keepAll_eq (nodes : Array Node) (attached : Bool) (h : Harvest) (vs : List Value) :
    ({ h with nodes, attached } : Harvest).keepAll vs =
      ((h.keepAll vs).1, { (h.keepAll vs).2 with nodes, attached }) := by
  induction vs generalizing h with
  | nil => rfl
  | cons v rest ih =>
    unfold Harvest.keepAll
    cases comment? v with
    | none => exact ih h
    | some c =>
      dsimp only
      rw [keep_eq]
      dsimp only
      rw [ih]

theorem keepAll_append (h : Harvest) (vs ws : List Value) :
    (h.keepAll (vs ++ ws)).2 = ((h.keepAll vs).2.keepAll ws).2 := by
  induction vs generalizing h with
  | nil => rfl
  | cons v rest ih =>
    rw [List.cons_append, Harvest.keepAll, Harvest.keepAll]
    cases comment? v with
    | none => exact ih h
    | some c => exact ih _

/-- The comments are those of an earlier state, with those of a list. -/
def Leads (h later : Harvest) : Prop :=
  ∃ vs nodes attached, later = { (h.keepAll vs).2 with nodes, attached }

theorem Leads.refl (h : Harvest) : Leads h h := ⟨[], h.nodes, h.attached, rfl⟩

theorem Leads.trans {t : Harvest} (first : Leads h s) (next : Leads s t) : Leads h t := by
  obtain ⟨vs, nodes, attached, rfl⟩ := first
  obtain ⟨ws, others, also, rfl⟩ := next
  refine ⟨vs ++ ws, others, also, ?_⟩
  rw [keepAll_append, keepAll_eq]

theorem leads_leading (h : Harvest) (members : Members) : Leads h (h.leading members).2 := by
  unfold Harvest.leading
  split
  next list _ => exact ⟨list, h.nodes, true, by rw [keepAll_eq]⟩
  next => exact .refl h

theorem leads_addNode (h : Harvest) (typeName : String) (members : Members)
    (children : Children) : Leads h (h.addNode typeName members children).2 := by
  obtain ⟨list, nodes, attached, same⟩ := leads_leading h members
  refine ⟨list, (h.addNode typeName members children).2.nodes, attached, ?_⟩
  unfold Harvest.addNode
  dsimp only
  rw [same]

/-- One node after the other is added, each for members of which `P` holds. -/
inductive Adds (P : Members → Prop) (h : Harvest) : Harvest → Prop where
  | done : Adds P h h
  | node {s : Harvest} (adds : Adds P h s) {members : Members} (holds : P members)
    (typeName : String) (children : Children) : Adds P h (s.addNode typeName members children).2

theorem Adds.trans {P : Members → Prop} {t : Harvest} (first : Adds P h s) (next : Adds P s t) :
    Adds P h t := by
  induction next with
  | done => exact first
  | node _ holds typeName children ih => exact ih.node holds typeName children

theorem Adds.leads {P : Members → Prop} (adds : Adds P h s) : Leads h s := by
  induction adds with
  | done => exact .refl h
  | node _ _ typeName children ih => exact ih.trans (leads_addNode _ typeName _ children)

section

variable {read : Value → Harvest → Except TreeError (NodeRef × Harvest)} {P : Members → Prop}

theorem adds_readList {values : List Value}
    (each : ∀ v ∈ values, ∀ h r s, read v h = .ok (r, s) → Adds P h s) {rs : List NodeRef}
    (done : readList read values h = .ok (rs, s)) : Adds P h s := by
  induction values generalizing h rs with
  | nil =>
    cases done
    exact .done
  | cons v rest ih =>
    obtain ⟨_, _, _, first, later, rfl⟩ := exists_of_readList done
    exact (each v List.mem_cons_self _ _ _ first).trans
      (ih (fun w listed => each w (List.mem_cons_of_mem v listed)) later)

theorem adds_readChildren {slots : List (String × List Value)}
    (each : ∀ slot ∈ slots, ∀ v ∈ slot.2, ∀ h r s, read v h = .ok (r, s) → Adds P h s)
    {children : Children} (done : readChildren read slots h = .ok (children, s)) :
    Adds P h s := by
  induction slots generalizing h children with
  | nil =>
    cases done
    exact .done
  | cons slot rest ih =>
    obtain ⟨_, _, _, first, later, rfl⟩ := exists_of_readChildren done
    exact (adds_readList (each slot List.mem_cons_self) first).trans
      (ih (fun next listed => each next (List.mem_cons_of_mem slot listed)) later)

end

/-- Reading adds a node for every object that it comes to. -/
theorem adds_readNode {P : Members → Prop} {levels : Nat} {v : Value} {r : NodeRef}
    (each : ∀ depth members, ReadBelow v depth (.obj members) → P members)
    (done : readNode levels v h = .ok (r, s)) : Adds P h s := by
  induction levels generalizing v h r s with
  | zero =>
    cases nodeRead_of_readNode done with
    | null => exact .done
  | succ levels ih =>
    cases nodeRead_of_readNode done with
    | null => exact .done
    | obj typed below =>
      refine (adds_readChildren ?_ below).node (each 0 _ .here) _ _
      intro slot known w listed _ _ _ read
      exact ih (fun depth others inner =>
        each (depth + 1) others (.child typed known listed inner)) read

/-- The comments of a unit are kept in one sequence, whatever nodes they stand in front of. -/
theorem exists_comments_ofValue {file : String} {v : Value} {t : Tree}
    (read : ofValue file v = .ok t) :
    ∃ vs, t.comments = (Harvest.empty.keepAll vs).2.comments := by
  obtain ⟨members, program, root, h, _, done, rfl⟩ := exists_harvest read
  have begun : Leads .empty (Harvest.empty.keepAll (commentList members program)).2 :=
    ⟨_, _, _, rfl⟩
  obtain ⟨vs, nodes, attached, rfl⟩ :=
    begun.trans (adds_readNode (P := fun _ => True) (fun _ _ _ => trivial) done).leads
  refine ⟨vs, ?_⟩
  split
  · exact Tree.comments_link _
  · exact Tree.comments_link _

/-! ### All comments of a sequence -/

theorem Filed.keep_of_located (filed : Filed h runs) (there : Located runs c.range k) :
    h.keep c = (k, h) := by
  have some : c.range.isEmpty = false := by
    obtain ⟨_, _, some, _⟩ := there
    exact some
  unfold Harvest.keep
  rw [some, if_neg Bool.false_ne_true, (filed.found _ _).mpr there]

/-- A range that has a place keeps it, whatever is read later. -/
theorem Filed.keep_of_leads (filed : Filed h runs) (leads : Leads h s)
    (there : Located runs c.range k) : s.keep c = (k, s) := by
  obtain ⟨vs, nodes, attached, rfl⟩ := leads
  obtain ⟨later, all, done⟩ := filed.keepAll vs
  rw [keep_eq, done.keep_of_located (all.grown.located there)]

/-- What is kept of the comments `cs`, which go to `places`: runs of comments, each stored as one.
Only documentation comments and banners are merged. A run documents if its first comment does or is
a lone star; so the documentation comments in it are lost exactly if it begins with two stars. -/
structure Kept (cs : List Comment) (places : List Nat) (h : Harvest) (runs : List Run) : Prop where
  stored : h.comments.toList = runs.map Run.stored
  members : runs.flatMap Run.members = unrepeated [] cs
  placed : List.Forall₂ (Placed runs) cs places
  merged : ∀ r ∈ runs, r.more ≠ [] → ∀ c ∈ r.members, c.isDoc = true ∨ c.isBanner = true
  documents : ∀ r ∈ runs, r.stored.isDoc = true ↔
    r.first.isDoc = true ∨ r.first.value.toList = ['*'] ∧ r.more ≠ []
  lost : ∀ r ∈ runs, ∀ c ∈ r.members, c.isDoc = true → (r.stored.isDoc = false ↔
    ∃ rest, r.first.value.toList = '*' :: '*' :: rest)
  again : ∀ c k, Located runs c.range k → ∀ later, Leads h later → later.keep c = (k, later)

/-- Every sequence of comments is kept in runs. -/
theorem exists_kept (vs : List Value) : ∃ runs,
    Kept (vs.filterMap comment?) (Harvest.empty.keepAll vs).1 (Harvest.empty.keepAll vs).2
      runs := by
  obtain ⟨runs, all, filed⟩ := filed_empty.keepAll vs
  refine ⟨runs, filed.stored, all.members, all.placed, ?_, ?_, ?_, ?_⟩
  · intro r listed some c inside
    exact (isPlacedDoc_iff.mp ((filed.chained r listed).merged some c inside)).1
  · exact fun r listed => (filed.chained r listed).isDoc_stored
  · exact fun r listed c inside doc =>
      (filed.chained r listed).isDoc_stored_eq_false_iff inside doc
  · exact fun c k there later leads => filed.keep_of_leads leads there

/-- A block comment that has a range. -/
def blockValue (value : String) (first last : Nat) : Value :=
  .obj [("type", .str "Block"), ("value", .str value), ("range", .arr [.int first, .int last])]

/-- A documentation comment that touches a banner becomes a part of it. -/
theorem banner_swallows : ¬ ∀ vs : List Value,
    ∀ e ∈ (vs.filterMap comment?).zip (Harvest.empty.keepAll vs).1, e.1.isDoc = true →
      ((Harvest.empty.keepAll vs).2.comments[e.2]?).any Comment.isDoc = true := by
  intro all
  exact absurd (all [blockValue "** banner " 0 14, blockValue "* @class A " 14 29])
    (by decide +kernel)

end Estree

end Doclets
