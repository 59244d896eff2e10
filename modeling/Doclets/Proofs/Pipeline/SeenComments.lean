import Doclets.Proofs.Pipeline.WalkOrder
import Doclets.Proofs.Text.Pieces
import Doclets.Proofs.Tree.Shape

/-!
Symbols and the comments that handlers have changed. A symbol takes its comment from the node that
it stands for, or from one of the two around it; the walk comes to all of them, and to the comments
in front of them, before it comes to the symbol. So whatever a symbol is documented by was shown to
the handlers before, and is what they left of it.
-/

namespace Doclets

open Comment (blockText)

/-! ### Comments whose text is replaced -/

namespace Comment

/-- A text with both delimiters, which share no star. -/
structure IsBlock (text : String) : Prop where
  opens : "/*".toList <+: text.toList
  closes : "*/".toList <:+ text.toList
  long : 4 ≤ text.length

theorem IsBlock.exists_value {text : String} (block : IsBlock text) :
    ∃ value, text = blockText value := by
  obtain ⟨rest, split⟩ := block.opens
  have long : 2 ≤ rest.length := by
    have whole := congrArg List.length split
    rw [List.length_append, String.length_toList, String.length_toList,
      show "/*".length = 2 from rfl] at whole
    have long := block.long
    omega
  have closes : "*/".toList <:+ rest :=
    List.suffix_of_suffix_length_le block.closes ⟨_, split⟩ long
  obtain ⟨value, rfl⟩ := closes
  refine ⟨String.ofList value, ?_⟩
  apply String.toList_injective
  rw [← split]
  simp [blockText]

theorem valueOf_blockText (value : String) : valueOf (blockText value) = value := by
  have opens : Text.after? "/*" (blockText value) = some (value ++ "*/") :=
    Text.after?_eq_some_iff.mpr (by rw [blockText, String.append_assoc])
  have closes : Text.before? "*/" (value ++ "*/") = some value := Text.before?_eq_some_iff.mpr rfl
  rw [valueOf, opens, Option.bind_some, closes, Option.getD_some]

/-- A comment whose text is replaced by a block comment has this text. -/
theorem raw_withRaw (c : Comment) {text : String} (block : IsBlock text) :
    (c.withRaw text).raw = text := by
  obtain ⟨value, rfl⟩ := block.exists_value
  rw [withRaw, valueOf_blockText]
  rfl

end Comment

/-! ### One stop -/

variable {σ : Type}

namespace Watchers

variable {w : Watchers σ} {walk next : Walk σ} {file : String} {c : Nat} {comment : Comment}

/-- What handlers leave of a comment when they are shown it. -/
def leaves (w : Watchers σ) (file : String) (walk : Walk σ) (comment : Comment) : String :=
  (Handler.relay (fun h => h.commentFound ⟨walk.registry, walk.tree⟩) w.handlers
    ⟨comment.raw, file, comment.position.line, comment.position.column, []⟩
    walk.state).2.1.comment

theorem comment_passComment (stored : walk.tree.comments[c]? = some comment)
    (doc : comment.isDoc = true) : (w.pass file walk (.comment c)).2.tree.comments[c]? =
      some (if w.leaves file walk comment = comment.raw then comment
        else comment.withRaw (w.leaves file walk comment)) := by
  unfold pass passComment leaves
  dsimp only
  rw [stored]
  dsimp only
  rw [if_pos doc]
  dsimp only
  split
  · exact stored
  · rw [Array.getElem?_modify, if_pos rfl, stored]
    rfl

/-- A comment that is no documentation stays as it is. -/
theorem comment_pass_plain (plain : ∀ comment, walk.tree.comments[c]? = some comment →
      comment.isDoc = false) (file : String) (stop : Stop) :
    (w.pass file walk stop).2.tree.comments[c]? = walk.tree.comments[c]? := by
  by_cases here : stop = .comment c
  · subst here
    unfold pass passComment
    dsimp only
    split
    · rfl
    next comment stored => rw [if_neg (by simp [plain comment stored])]
  · exact (w.tree_pass file walk stop).2 c here

/-- A symbol shows the comment that documents it, as it is then. -/
theorem exists_doc?_of_symbolAt? {t : Tree} {i : NodeIndex} {r : Registry} {event : SymbolFound}
    {prepared : List FollowUp × Registry} (built : symbolAt? t file i r = some (event, prepared))
    (filled : event.comment ≠ "") :
    ∃ comment, t.doc? (some i) = some comment ∧ comment.raw = event.comment := by
  obtain ⟨_, _, _, _, _, shown⟩ := prepared_of_symbolAt? built
  have same : event.comment = ((t.doc? (some i)).map Comment.raw).getD "" :=
    congrArg SymbolFound.comment shown
  cases found : t.doc? (some i) with
  | none =>
    rw [found] at same
    exact absurd same filled
  | some comment =>
    rw [found] at same
    exact ⟨comment, rfl, same.symm⟩

/-! ### Several stops -/

variable {stop : Stop} {stops before after : List Stop}

/-- Whatever a walk keeps at each of these stops it keeps at all of them. -/
theorem passAll_induction {P : Walk σ → Prop}
    (reached : w.passAll file stops walk = (.continue, next))
    (step : ∀ walk, ∀ stop ∈ stops, P walk → P (w.pass file walk stop).2) (start : P walk) :
    P next := by
  induction stops generalizing walk with
  | nil =>
    obtain rfl : walk = next := congrArg Prod.snd reached
    exact start
  | cons stop rest ih =>
    have first := step walk stop List.mem_cons_self start
    rw [passAll] at reached
    split at reached
    next walk' passed =>
      rw [passed] at first
      refine ih reached (fun walk stop listed => ?_) first
      exact step walk stop (List.mem_cons_of_mem _ listed)
    next flow _ stopped _ => exact absurd (congrArg Prod.fst reached) stopped

theorem exists_passAll_append
    (reached : w.passAll file (before ++ stop :: after) walk = (.continue, next)) :
    ∃ between, w.passAll file before walk = (.continue, between) ∧
      w.passAll file after (w.pass file between stop).2 = (.continue, next) := by
  induction before generalizing walk with
  | nil =>
    refine ⟨walk, rfl, ?_⟩
    rw [List.nil_append, passAll] at reached
    split at reached
    next walk' passed => rw [passed]; exact reached
    next flow _ stopped _ => exact absurd (congrArg Prod.fst reached) stopped
  | cons first rest ih =>
    rw [List.cons_append, passAll] at reached
    split at reached
    next walk' passed =>
      obtain ⟨between, front, back⟩ := ih reached
      refine ⟨between, ?_, back⟩
      rw [passAll, passed]
      exact front
    next flow _ stopped _ => exact absurd (congrArg Prod.fst reached) stopped

theorem tree_passAll_eq (reached : w.passAll file stops walk = (.continue, next)) :
    next.tree = { walk.tree with comments := next.tree.comments } := by
  refine passAll_induction (P := fun n => n.tree = { walk.tree with comments := n.tree.comments })
    reached (fun between stop _ same => ?_) rfl
  rw [(w.tree_pass file between stop).1, same]

theorem comment_passAll (reached : w.passAll file stops walk = (.continue, next))
    (apart : .comment c ∉ stops) : next.tree.comments[c]? = walk.tree.comments[c]? := by
  refine passAll_induction (P := fun n => n.tree.comments[c]? = walk.tree.comments[c]?)
    reached (fun between stop listed same => ?_) rfl
  rw [(w.tree_pass file between stop).2 c fun here => apart (here ▸ listed), same]

end Watchers

/-! ### Symbols and their comments -/

namespace Tree

variable {t : Tree} {i : NodeIndex} {c : Nat} {comment : Comment}

/-- The node itself, its parent and its grandparent. -/
def nearest (t : Tree) (i : NodeIndex) : List NodeRef :=
  [some i, t.parent (some i), t.parent (t.parent (some i))]

theorem documentedBy_subset (t : Tree) (i : NodeIndex) : t.documentedBy (some i) ⊆ t.nearest i := by
  unfold documentedBy nearest
  cases stored : t.node? (some i) with
  | none => exact List.nil_subset _
  | some n =>
    have parent : t.parent (some i) = n.parent := by rw [Tree.parent, stored, Option.bind_some]
    rw [parent]
    dsimp only
    split
    · split
      · split <;> simp
      · simp
    · split <;> simp
    · split <;> simp
    · split <;> simp
    · split <;> simp
    · split <;> simp
    · split <;> simp
    · simp

theorem nearest_of_nodes {u : Tree} (same : u.nodes = t.nodes) (i : NodeIndex) :
    u.nearest i = t.nearest i := by
  unfold nearest parent node?
  rw [same]

theorem commentsAt_of_nodes {u : Tree} (same : u.nodes = t.nodes) (i : NodeIndex) :
    u.commentsAt i = t.commentsAt i := by
  unfold commentsAt
  rw [same]

theorem exists_of_ownDoc? {r : NodeRef} (found : t.ownDoc? r = some comment) : ∃ a c, r = some a ∧
    c ∈ t.commentsAt a ∧ t.comments[c]? = some comment ∧ comment.isDoc = true := by
  unfold ownDoc? commentsOf at found
  obtain ⟨last, doc⟩ := Option.filter_eq_some_iff.mp found
  cases r with
  | none => cases last
  | some a =>
    cases stored : t.node? (some a) with
    | none => rw [stored] at last; cases last
    | some n =>
      rw [stored] at last
      obtain ⟨c, listed, here⟩ := List.mem_filterMap.mp (List.mem_of_getLast? last)
      refine ⟨a, c, rfl, ?_, here, doc⟩
      rw [commentsAt, show t.nodes[a]? = some n from stored]
      exact listed

/-- The comment of a symbol stands in front of the symbol, its parent or its grandparent. -/
theorem exists_of_doc? (found : t.doc? (some i) = some comment) : ∃ a c, some a ∈ t.nearest i ∧
    c ∈ t.commentsAt a ∧ t.comments[c]? = some comment ∧ comment.isDoc = true := by
  obtain ⟨r, listed, own⟩ := List.exists_of_findSome?_eq_some found
  obtain ⟨a, c, rfl, rest⟩ := exists_of_ownDoc? own
  exact ⟨a, c, t.documentedBy_subset i listed, rest⟩

theorem Grown.around_of_nearest (h : t.Grown) {a : NodeIndex} (near : some a ∈ t.nearest i) :
    a = i ∨ t.Around a i := by
  simp only [nearest, List.mem_cons, List.not_mem_nil, or_false] at near
  rcases near with same | parent | above
  · exact Or.inl (Option.some.inj same)
  · exact Or.inr (.single (h.linked i a parent.symm).1)
  · cases linked : t.parent (some i) with
    | none => rw [linked] at above; cases above
    | some p =>
      rw [linked] at above
      exact Or.inr (.tail (.single (h.linked p a above.symm).1) (h.linked i p linked).1)

/-- A walk has passed the comments in front of a symbol, its parent and its grandparent. -/
theorem Grown.passed_of_nearest (h : t.Grown) {before after : List Stop} {c a : Nat}
    (split : t.stops = before ++ .node i :: after) (near : some a ∈ t.nearest i)
    (listed : c ∈ t.commentsAt a) (bound : c < t.comments.size) : .comment c ∈ before := by
  rcases h.around_of_nearest near with rfl | around
  · exact passed_of_comment split listed bound
  · obtain ⟨front, back, rfl⟩ := List.append_of_mem (h.passed_of_around around split)
    rw [List.append_assoc, List.cons_append] at split
    exact List.mem_append_left _ (passed_of_comment split listed bound)

/-- A documentation comment is passed once at most. -/
theorem count_stops_le (doc : t.isDocAt c = true) : t.stops.count (.comment c) ≤ 1 := by
  have once := t.count_announced c
  rw [if_pos doc, ← filter_stops, List.count_filter (show t.announces (.comment c) = true from doc)]
    at once
  exact Nat.le_of_eq once

end Tree

namespace Run

variable {run : Run σ} {name file : String} {v : Json.Value} {t : Tree} {passed : List Stop}
  {i : NodeIndex} {walk : Walk σ} {event : SymbolFound}

/-- The walk of a tree as the next unit has passed these stops and come to `walk`, and makes this
checkpoint of the symbol at a node. -/
structure BuildsSymbol (run : Run σ) (file : String) (t : Tree) (passed : List Stop)
    (i : NodeIndex) (walk : Walk σ) (event : SymbolFound) : Prop where
  order : ∃ rest, t.stops = passed ++ .node i :: rest
  reached : run.watchers.passAll file passed
    ⟨t.inUnit run.registry.units, run.registry.nextUnit.2, run.state⟩ = (.continue, walk)
  built : ∃ prepared, Watchers.symbolAt? walk.tree file i walk.registry = some (event, prepared)

/-- One of these stops, and no other, is the checkpoint of a documentation comment. The handlers
were shown the comment as it was read, and left `text` of it. -/
structure ShowsComment (run : Run σ) (file : String) (t : Tree) (passed : List Stop) (c : Nat)
    (comment : Comment) (text : String) : Prop where
  read : t.comments[c]? = some comment
  doc : comment.isDoc = true
  once : passed.count (.comment c) = 1
  left : ∃ before after walk, passed = before ++ .comment c :: after ∧
    run.watchers.passAll file before
      ⟨t.inUnit run.registry.units, run.registry.nextUnit.2, run.state⟩ = (.continue, walk) ∧
    run.watchers.leaves file walk comment = text

/-- A documentation comment was one when it was read, since no other is shown to handlers. -/
theorem BuildsSymbol.isDocAt (building : run.BuildsSymbol file t passed i walk event) {c : Nat}
    {comment : Comment} (stored : walk.tree.comments[c]? = some comment)
    (doc : comment.isDoc = true) : t.isDocAt c = true := by
  by_contra other
  have plain (shown : Comment) (read : t.comments[c]? = some shown) : shown.isDoc = false := by
    rw [Tree.isDocAt, read] at other
    simpa using other
  have same : walk.tree.comments[c]? = t.comments[c]? := by
    refine Watchers.passAll_induction (P := fun n => n.tree.comments[c]? = t.comments[c]?)
      building.reached (fun between stop _ same => ?_) rfl
    rw [Watchers.comment_pass_plain (fun shown here => plain shown (same ▸ here)), same]
  rw [plain comment (same ▸ stored)] at doc
  cases doc

/-- A documentation comment that the walk has passed was shown to the handlers, once, and is what
they left of it. -/
theorem BuildsSymbol.exists_showsComment (building : run.BuildsSymbol file t passed i walk event)
    {c : Nat} {comment : Comment} (inside : .comment c ∈ passed)
    (stored : walk.tree.comments[c]? = some comment) (doc : comment.isDoc = true) :
    ∃ shown text, run.ShowsComment file t passed c shown text ∧
      (Comment.IsBlock text → comment.raw = text) := by
  have docBefore := building.isDocAt stored doc
  obtain ⟨shown, written, shownDoc⟩ := (Option.any_eq_true _ _).mp docBefore
  have once : passed.count (.comment c) = 1 := by
    obtain ⟨rest, order⟩ := building.order
    have most := Tree.count_stops_le docBefore
    rw [order, List.count_append] at most
    have some := List.count_pos_iff.mpr inside
    omega
  obtain ⟨before, after, split⟩ := List.append_of_mem inside
  have apart : .comment c ∉ before ∧ .comment c ∉ after := by
    rw [split, List.count_append, List.count_cons_self] at once
    exact ⟨List.not_mem_of_count_eq_zero (by omega), List.not_mem_of_count_eq_zero (by omega)⟩
  have reached := building.reached
  rw [split] at reached
  obtain ⟨between, front, back⟩ := Watchers.exists_passAll_append reached
  have here := (Watchers.comment_passAll front apart.1).trans written
  have changed := (Watchers.comment_passAll back apart.2).trans
    (Watchers.comment_passComment here shownDoc)
  refine ⟨shown, run.watchers.leaves file between shown,
    ⟨written, shownDoc, once, before, after, between, split, front, rfl⟩, fun block => ?_⟩
  rw [Option.some.inj (stored.symm.trans changed)]
  split
  next same => exact same.symm
  next => exact Comment.raw_withRaw shown block

/-- What documents a symbol stands in front of it or of one of the two nodes around it, was shown to
the handlers before, once, and is what they left of it. -/
theorem symbols_see_shown_comments (read : Estree.ofValue name v = .ok t)
    (building : run.BuildsSymbol file t passed i walk event) (filled : event.comment ≠ "") :
    ∃ a c comment shown text, some a ∈ t.nearest i ∧ c ∈ t.commentsAt a ∧
      walk.tree.comments[c]? = some comment ∧ comment.raw = event.comment ∧
      run.ShowsComment file t passed c shown text ∧
      (Comment.IsBlock text → event.comment = text) := by
  obtain ⟨rest, order⟩ := building.order
  obtain ⟨prepared, built⟩ := building.built
  have nodes : walk.tree.nodes = t.nodes := by
    rw [Watchers.tree_passAll_eq building.reached]
    rfl
  obtain ⟨comment, found, raw⟩ := Watchers.exists_doc?_of_symbolAt? built filled
  obtain ⟨a, c, near, listed, stored, doc⟩ := Tree.exists_of_doc? found
  rw [Tree.nearest_of_nodes nodes] at near
  rw [Tree.commentsAt_of_nodes nodes] at listed
  have bound := Tree.lt_size_of_isDocAt (building.isDocAt stored doc)
  have inside := (Estree.grown_ofValue read).passed_of_nearest order near listed bound
  obtain ⟨shown, text, shows_, same⟩ := building.exists_showsComment inside stored doc
  exact ⟨a, c, comment, shown, text, near, listed, stored, raw, shows_, fun block =>
    raw ▸ same block⟩

end Run

namespace SharedComment

/-- The walk of the unit when it comes to the declarator, whose comment was replaced in front of the
declaration around it. -/
def walk : Walk (Option String) :=
  (run.watchers.passAll "a.js" (tree.stopsBefore 2)
    ⟨tree, run.registry.nextUnit.2, run.state⟩).2

theorem symbols_see_shown_comments_shared : ∃ event,
    run.BuildsSymbol "a.js" tree (tree.stopsBefore 2) 2 walk event ∧ event.comment ≠ "" ∧
      ∃ a c comment shown text, some a ∈ tree.nearest 2 ∧ c ∈ tree.commentsAt a ∧
        walk.tree.comments[c]? = some comment ∧ comment.raw = event.comment ∧
        run.ShowsComment "a.js" tree (tree.stopsBefore 2) c shown text ∧
        (Comment.IsBlock text → event.comment = text) := by
  have known : (Watchers.symbolAt? walk.tree "a.js" 2 walk.registry).map
      (fun found => found.1.comment) = some "/** @name y */" := by
    decide +kernel
  obtain ⟨⟨event, prepared⟩, built, text⟩ := Option.map_eq_some_iff.mp known
  have goesOn : (run.watchers.passAll "a.js" (tree.stopsBefore 2)
      ⟨tree, run.registry.nextUnit.2, run.state⟩).1 = .continue := by
    decide +kernel
  have building : run.BuildsSymbol "a.js" tree (tree.stopsBefore 2) 2 walk event :=
    ⟨Tree.exists_stops (by decide +kernel), Prod.ext goesOn rfl, prepared, built⟩
  have filled : event.comment ≠ "" := fun empty => absurd (text.symm.trans empty) (by decide)
  have read : Estree.ofValue "a.js" unit = .ok tree := rfl
  exact ⟨event, building, filled, Run.symbols_see_shown_comments read building filled⟩

end SharedComment

end Doclets
