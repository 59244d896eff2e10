import Doclets.Pipeline.Walk
import Mathlib.Data.List.Count
import Mathlib.Data.List.Induction
import Mathlib.Data.List.Nodup
import Mathlib.Tactic.ByContra
import Mathlib.Tactic.SplitIfs

/-!
The order in which a walk announces comments and symbols. First come the documentation comments in
front of no node, as they stand in the source; then the nodes in pre-order, each after the
documentation comments in front of it that have not been announced. So every documentation
comment is announced once, wherever and however often it is listed, and no other comment is.
-/

namespace Doclets

namespace Tree

/-- The comments in front of a node, by their place among the comments of the unit. -/
def commentsAt (t : Tree) (i : NodeIndex) : List Nat :=
  match t.nodes[i]? with
  | some n => n.comments
  | none => []

/-- Whether a documentation comment has a place among the comments. -/
def isDocAt (t : Tree) (c : Nat) : Bool := t.comments[c]?.any Comment.isDoc

/-- Whether a node stands for a symbol. -/
def isSymbolAt (t : Tree) (i : NodeIndex) : Bool := (t.kind? (some i)).any NodeKind.isSymbol

/-- Whether a comment stands in front of no node. -/
def isLoose (t : Tree) (c : Nat) : Bool := t.preorder.all fun i => !(t.commentsAt i).contains c

/-- The documentation comments of a list that are not among those passed, in order, each once. -/
def unpassed (t : Tree) : List Nat → List Nat → List Nat
  | _, [] => []
  | passed, c :: rest =>
    if t.isDocAt c && !passed.contains c then c :: t.unpassed (passed ++ [c]) rest
    else t.unpassed passed rest

/-- What is announced at nodes, after some comments were passed. -/
def announcedFrom (t : Tree) : List Nat → List NodeIndex → List Stop
  | _, [] => []
  | passed, i :: rest =>
    let comments := t.unpassed passed (t.commentsAt i)
    comments.map .comment ++ (if t.isSymbolAt i then [.node i] else []) ++
      t.announcedFrom (passed ++ comments) rest

/-- The documentation comments in front of no node. -/
def looseDocs (t : Tree) : List Nat :=
  (List.range t.comments.size).filter fun c => t.isDocAt c && t.isLoose c

/-- The documentation comments and symbols of a unit, in the order in which a walk announces
them. -/
def announced (t : Tree) : List Stop :=
  t.looseDocs.map .comment ++ t.announcedFrom t.looseDocs t.preorder

/-- Whether a stop is at a documentation comment or at a symbol. -/
def announces (t : Tree) : Stop → Bool
  | .comment c => t.isDocAt c
  | .node i => t.isSymbolAt i

variable {t : Tree} {c i : Nat} {passed indices : List Nat} {order nodes : List NodeIndex}

theorem lt_size_of_isDocAt (doc : t.isDocAt c = true) : c < t.comments.size := by
  by_contra outside
  unfold isDocAt at doc
  rw [Array.getElem?_eq_none (Nat.le_of_not_lt outside)] at doc
  cases doc

theorem isLoose_iff : t.isLoose c = true ↔ ∀ i ∈ t.preorder, c ∉ t.commentsAt i := by
  simp [isLoose]

theorem exists_of_not_isLoose (held : ¬ t.isLoose c = true) :
    ∃ i ∈ t.preorder, c ∈ t.commentsAt i := by
  by_contra none
  exact held (isLoose_iff.mpr fun i listed here => none ⟨i, listed, here⟩)

theorem mem_looseDocs : c ∈ t.looseDocs ↔ t.isDocAt c = true ∧ t.isLoose c = true := by
  unfold looseDocs
  rw [List.mem_filter, List.mem_range, Bool.and_eq_true]
  exact ⟨And.right, fun h => ⟨lt_size_of_isDocAt h.1, h⟩⟩

/-! ### Marks -/

theorem markComments_eq (t : Tree) (marks : Array Bool) (i : NodeIndex) :
    t.markComments marks i =
      (t.commentsAt i).foldl (fun marks c => marks.setIfInBounds c true) marks := by
  unfold markComments commentsAt
  cases t.nodes[i]? <;> rfl

theorem size_markComments (t : Tree) (marks : Array Bool) (i : NodeIndex) :
    (t.markComments marks i).size = marks.size := by
  rw [markComments_eq]
  induction t.commentsAt i generalizing marks with
  | nil => rfl
  | cons c rest ih => rw [List.foldl_cons, ih, Array.size_setIfInBounds]

theorem getElem?_markComments (t : Tree) (marks : Array Bool) (i : NodeIndex) (c : Nat) :
    (t.markComments marks i)[c]? =
      if c ∈ t.commentsAt i ∧ c < marks.size then some true else marks[c]? := by
  rw [markComments_eq]
  induction t.commentsAt i generalizing marks with
  | nil => simp
  | cons first rest ih =>
    rw [List.foldl_cons, ih, Array.size_setIfInBounds, Array.getElem?_setIfInBounds]
    simp only [List.mem_cons]
    by_cases same : first = c
    · subst same
      by_cases bound : first < marks.size <;> simp [bound]
    · have other : c ≠ first := fun equal => same equal.symm
      simp [same, other]

/-- After the nodes have been gone through, the comments in front of them are marked. -/
theorem getElem?_foldl_markComments (t : Tree) (nodes : List NodeIndex) (marks : Array Bool)
    (c : Nat) : (nodes.foldl t.markComments marks)[c]? =
      if (∃ i ∈ nodes, c ∈ t.commentsAt i) ∧ c < marks.size then some true else marks[c]? := by
  induction nodes generalizing marks with
  | nil => simp
  | cons i rest ih =>
    rw [List.foldl_cons, ih, size_markComments, getElem?_markComments]
    by_cases here : c ∈ t.commentsAt i <;> by_cases bound : c < marks.size <;> simp [here, bound]

/-! ### Waiting comments -/

/-- Of the documentation comments that `listed` holds of, those are waiting that were not passed. -/
def Waits (t : Tree) (listed : Nat → Prop) (waiting : Array Bool) (passed : List Nat) : Prop :=
  ∀ c, listed c → t.isDocAt c = true → (waiting[c]? = some true ↔ c ∉ passed)

variable {listed : Nat → Prop} {waiting : Array Bool} {stops : Array Stop}

/-- A comment that is passed is not waiting any more. -/
theorem Waits.pass (waits : t.Waits listed waiting passed) (c : Nat) :
    t.Waits listed (waiting.setIfInBounds c false)
      (if t.isDocAt c then passed ++ [c] else passed) := by
  intro other known doc
  rw [Array.getElem?_setIfInBounds]
  by_cases same : c = other
  · subst same
    rw [if_pos rfl, if_pos doc]
    by_cases bound : c < waiting.size <;> simp [bound]
  · have before := waits other known doc
    rw [if_neg same, before]
    split_ifs
    · have apart : other ≠ c := fun equal => same equal.symm
      simp [apart]
    · rfl

/-- Of the comments in front of a node, those are announced that have not been passed. -/
theorem Waits.announced_passComments (waits : t.Waits listed waiting passed)
    (stops : Array Stop) (all : ∀ c ∈ indices, listed c) :
    let done := passComments waiting stops indices
    done.2.toList.filter t.announces =
        stops.toList.filter t.announces ++ (t.unpassed passed indices).map .comment ∧
      t.Waits listed done.1 (passed ++ t.unpassed passed indices) := by
  induction indices generalizing waiting stops passed with
  | nil => simpa [passComments, unpassed] using waits
  | cons c rest ih =>
    have others : ∀ d ∈ rest, listed d := fun d member => all d (List.mem_cons_of_mem _ member)
    unfold passComments at ih ⊢
    rw [List.foldl_cons, unpassed]
    dsimp only
    by_cases doc : t.isDocAt c = true
    · have known := waits c (all c List.mem_cons_self) doc
      by_cases fresh : c ∉ passed
      · obtain ⟨filtered, still⟩ := ih (waits.pass c) (stops.push (.comment c)) others
        rw [if_pos (known.mpr fresh), if_pos (by simp [doc, fresh])]
        simp only [if_pos doc] at filtered still
        refine ⟨?_, by simpa using still⟩
        rw [filtered]
        simp [List.filter_append, announces, doc]
      · rw [if_neg (fun waiting => fresh (known.mp waiting)),
          if_neg (by simpa [doc] using fresh)]
        exact ih waits stops others
    · rw [if_neg (c := (t.isDocAt c && !passed.contains c) = true) (by simp [doc])]
      split_ifs
      · obtain ⟨filtered, still⟩ := ih (waits.pass c) (stops.push (.comment c)) others
        simp only [if_neg doc] at filtered still
        refine ⟨?_, still⟩
        rw [filtered]
        simp [List.filter_append, announces, doc]
      · exact ih waits stops others

theorem passNode_eq (t : Tree) (passed : Array Bool × Array Stop) (i : NodeIndex) :
    t.passNode passed i =
      ((passComments passed.1 passed.2 (t.commentsAt i)).1,
        (passComments passed.1 passed.2 (t.commentsAt i)).2.push (.node i)) := rfl

/-- What is announced at nodes that are passed one after the other. -/
theorem Waits.announced_passNodes (waits : t.Waits listed waiting passed)
    (all : ∀ i ∈ nodes, ∀ c ∈ t.commentsAt i, listed c) :
    (nodes.foldl t.passNode (waiting, stops)).2.toList.filter t.announces =
      stops.toList.filter t.announces ++ t.announcedFrom passed nodes := by
  induction nodes generalizing waiting stops passed with
  | nil => simp [announcedFrom]
  | cons i rest ih =>
    obtain ⟨filtered, still⟩ :=
      waits.announced_passComments stops (all i List.mem_cons_self)
    rw [List.foldl_cons, announcedFrom, passNode_eq,
      ih still fun j later => all j (List.mem_cons_of_mem _ later), Array.toList_push,
      List.filter_append, filtered]
    cases symbol : t.isSymbolAt i <;> simp [announces, symbol]

/-! ### Order -/

/-- A walk stops at what it announces, in this order, and at nothing else that speaks. -/
theorem filter_stops (t : Tree) : t.stops.filter t.announces = t.announced := by
  unfold stops announced
  dsimp only
  have marked (c : Nat) (inside : c < t.comments.size) :
      (t.preorder.foldl t.markComments (Array.replicate t.comments.size false))[c]? =
        some (!t.isLoose c) := by
    rw [getElem?_foldl_markComments, Array.size_replicate, Array.getElem?_replicate]
    by_cases loose : t.isLoose c = true
    · have unlisted := isLoose_iff.mp loose
      rw [if_neg (fun h => h.1.elim fun i here => unlisted i here.1 here.2), if_pos inside, loose]
      rfl
    · rw [if_pos ⟨exists_of_not_isLoose loose, inside⟩, Bool.eq_false_iff.mpr loose]
      rfl
  have waits : t.Waits (fun c => ∃ i ∈ t.preorder, c ∈ t.commentsAt i)
      (t.preorder.foldl t.markComments (Array.replicate t.comments.size false)) t.looseDocs := by
    intro c attached doc
    obtain ⟨i, listed, here⟩ := attached
    have held : t.isLoose c = false :=
      Bool.eq_false_iff.mpr fun loose => isLoose_iff.mp loose i listed here
    rw [marked c (lt_size_of_isDocAt doc), mem_looseDocs]
    simp [held]
  rw [waits.announced_passNodes fun i listed c here => ⟨i, listed, here⟩]
  congr 1
  rw [List.filter_map, List.filter_filter]
  unfold looseDocs
  congr 1
  refine List.filter_congr fun c inside => ?_
  rw [marked c (List.mem_range.mp inside)]
  simp [announces]

/-! ### Comments come before the nodes they stand in front of -/

/-- No stop at a node comes before those at the comments in front of it. -/
def CommentsFirst (t : Tree) (stops : List Stop) : Prop :=
  ∀ before a after, stops = before ++ .node a :: after →
    ∀ c ∈ t.commentsAt a, c < t.comments.size → .comment c ∈ before

theorem CommentsFirst.concat {stops : List Stop} (h : t.CommentsFirst stops) {stop : Stop}
    (own : ∀ a, stop = .node a → ∀ c ∈ t.commentsAt a, c < t.comments.size → .comment c ∈ stops) :
    t.CommentsFirst (stops ++ [stop]) := by
  intro before a after split
  cases after using List.reverseRecOn with
  | nil =>
    obtain ⟨rfl, same⟩ := List.append_inj' split rfl
    exact own a (List.cons.inj same).1
  | append_singleton after last =>
    rw [← List.cons_append, ← List.append_assoc] at split
    exact h before a after (List.append_inj' split rfl).1

/-- A comment that is waiting or was passed. -/
def Ready (waiting : Array Bool) (stops : Array Stop) (c : Nat) : Prop :=
  waiting[c]? = some true ∨ .comment c ∈ stops.toList

theorem Ready.pass (ready : Ready waiting stops c) (other : Nat) :
    Ready (waiting.setIfInBounds other false) (stops.push (.comment other)) c := by
  by_cases same : other = c
  · exact Or.inr (by simp [same])
  · refine ready.imp (fun waits => ?_) fun passed => by simp [passed]
    rwa [Array.getElem?_setIfInBounds_ne same]

theorem subset_passComments (waiting : Array Bool) (stops : Array Stop) (indices : List Nat) :
    stops.toList ⊆ (passComments waiting stops indices).2.toList := by
  induction indices generalizing waiting stops with
  | nil => exact List.Subset.refl _
  | cons c rest ih =>
    unfold passComments at ih ⊢
    rw [List.foldl_cons]
    dsimp only
    split
    · exact fun stop listed => ih _ _ (by simp [listed])
    · exact ih _ _

/-- The comments in front of a node are passed, and no other is lost. -/
theorem commentsFirst_passComments (waiting : Array Bool) (indices : List Nat)
    (first : t.CommentsFirst stops.toList) :
    let done := passComments waiting stops indices
    t.CommentsFirst done.2.toList ∧ (∀ c, Ready waiting stops c → Ready done.1 done.2 c) ∧
      ∀ c ∈ indices, Ready waiting stops c → .comment c ∈ done.2.toList := by
  induction indices generalizing waiting stops with
  | nil => exact ⟨first, fun c => id, nofun⟩
  | cons c rest ih =>
    have mono := subset_passComments
    unfold passComments at ih mono ⊢
    rw [List.foldl_cons]
    dsimp only
    split
    next waits =>
      have pushed : t.CommentsFirst (stops.push (.comment c)).toList := by
        rw [Array.toList_push]
        exact first.concat nofun
      obtain ⟨kept, still, passed⟩ := ih (waiting.setIfInBounds c false) pushed
      refine ⟨kept, fun d ready => still d (ready.pass c), fun d listed ready => ?_⟩
      rcases List.mem_cons.mp listed with rfl | later
      · exact mono _ _ _ (by simp)
      · exact passed d later (ready.pass c)
    next idle =>
      obtain ⟨kept, still, passed⟩ := ih waiting first
      refine ⟨kept, still, fun d listed ready => ?_⟩
      rcases List.mem_cons.mp listed with rfl | later
      · exact mono _ _ _ (ready.resolve_left idle)
      · exact passed d later ready

/-- A node is passed behind the comments in front of it. -/
theorem commentsFirst_passNodes (first : t.CommentsFirst stops.toList)
    (ready : ∀ a ∈ nodes, ∀ c ∈ t.commentsAt a, c < t.comments.size → Ready waiting stops c) :
    t.CommentsFirst (nodes.foldl t.passNode (waiting, stops)).2.toList := by
  induction nodes generalizing waiting stops with
  | nil => exact first
  | cons a rest ih =>
    obtain ⟨kept, still, passed⟩ := commentsFirst_passComments waiting (t.commentsAt a) first
    rw [List.foldl_cons, passNode_eq]
    apply ih
    · rw [Array.toList_push]
      refine kept.concat ?_
      rintro _ ⟨⟩ c listed bound
      exact passed c listed (ready a List.mem_cons_self c listed bound)
    · intro b later c listed bound
      refine (still c (ready b (List.mem_cons_of_mem _ later) c listed bound)).imp_right ?_
      intro before
      simp [before]

/-- A walk stops at a node after it stopped at the comments in front of it. -/
theorem passed_of_comment {before after : List Stop} (split : t.stops = before ++ .node i :: after)
    (listed : c ∈ t.commentsAt i) (bound : c < t.comments.size) : .comment c ∈ before := by
  have first : t.CommentsFirst t.stops := by
    unfold stops
    refine commentsFirst_passNodes ?_ fun a visited d listed bound => Or.inl ?_
    · intro front a back split
      have node : Stop.node a ∈ front ++ .node a :: back := by simp
      rw [← split] at node
      simp at node
    · rw [getElem?_foldl_markComments, if_pos]
      exact ⟨⟨a, visited, listed⟩, by simpa using bound⟩
  exact first before i after split c listed bound

/-! ### Every documentation comment once -/

theorem count_unpassed (t : Tree) (passed indices : List Nat) (c : Nat) :
    (t.unpassed passed indices).count c =
      if t.isDocAt c = true ∧ c ∉ passed ∧ c ∈ indices then 1 else 0 := by
  induction indices generalizing passed with
  | nil => simp [unpassed]
  | cons first rest ih =>
    rw [unpassed]
    by_cases taken : (t.isDocAt first && !passed.contains first) = true
    · rw [if_pos taken, List.count_cons, ih]
      rw [Bool.and_eq_true] at taken
      by_cases same : first = c
      · subst same
        simp_all
      · have other : c ≠ first := fun equal => same equal.symm
        simp [same, other]
    · rw [if_neg taken, ih]
      by_cases same : c = first
      · subst same
        have known : t.isDocAt c = true → c ∈ passed := by simpa using taken
        rw [if_neg (fun h => h.2.1 (known h.1)), if_neg (fun h => h.2.1 (known h.1))]
      · simp [same]

theorem count_announcedFrom (t : Tree) (passed : List Nat) (nodes : List NodeIndex) (c : Nat) :
    (t.announcedFrom passed nodes).count (.comment c) =
      if t.isDocAt c = true ∧ c ∉ passed ∧ ∃ i ∈ nodes, c ∈ t.commentsAt i then 1 else 0 := by
  have injective : Function.Injective Stop.comment := fun _ _ => Stop.comment.inj
  induction nodes generalizing passed with
  | nil => simp [announcedFrom]
  | cons i rest ih =>
    have symbol : (if t.isSymbolAt i then [Stop.node i] else []).count (.comment c) = 0 := by
      split_ifs <;> simp
    have taken : c ∈ t.unpassed passed (t.commentsAt i) ↔
        t.isDocAt c = true ∧ c ∉ passed ∧ c ∈ t.commentsAt i := by
      rw [← List.count_pos_iff, count_unpassed]
      split_ifs <;> simp_all
    rw [announcedFrom, List.count_append, List.count_append, symbol, ih,
      List.count_map_of_injective _ _ injective, count_unpassed]
    simp only [List.mem_append, taken, List.exists_mem_cons_iff]
    by_cases doc : t.isDocAt c = true <;> by_cases fresh : c ∈ passed <;>
      by_cases here : c ∈ t.commentsAt i <;> simp [doc, fresh, here]

/-- Every documentation comment is announced once, and no other comment is. -/
theorem count_announced (t : Tree) (c : Nat) :
    t.announced.count (.comment c) = if t.isDocAt c then 1 else 0 := by
  have injective : Function.Injective Stop.comment := fun _ _ => Stop.comment.inj
  have loose : t.looseDocs.count c = if c ∈ t.looseDocs then 1 else 0 :=
    (List.nodup_range.filter _).count
  unfold announced
  rw [List.count_append, List.count_map_of_injective _ _ injective, loose, count_announcedFrom]
  simp only [mem_looseDocs]
  by_cases doc : t.isDocAt c = true
  · by_cases free : t.isLoose c = true
    · simp [doc, free]
    · simp [doc, free, exists_of_not_isLoose free]
  · simp [doc]

end Tree

end Doclets
