import Doclets.Pipeline.Documenter

/-!
What the tags of a comment ask to borrow. A doclet that is made of one part of a comment asks for
what the tags of this part say, in order, and placing and completing it adds and drops nothing.
-/

namespace Doclets

/-- The request that a tag stands for, if it is one. -/
def Tag.borrow? (tag : Tag) : Option Borrow :=
  if tag.title = "borrows" then Doclet.borrow? tag.value else none

/-- What the tags of one part of a comment ask to borrow. -/
def Comment.borrows (part : String) : List Borrow :=
  (ParsedComment.ofRaw part).tags.filterMap Tag.borrow?

namespace Doclet

theorem borrowed_withTypes (d : Doclet) (names : Option (List String)) :
    (d.withTypes names).borrowed = d.borrowed := by
  unfold withTypes
  split <;> rfl

theorem borrowed_withName (d : Doclet) (name : Option String) :
    (d.withName name).borrowed = d.borrowed := by
  unfold withName
  split <;> rfl

theorem borrowed_augment (d : Doclet) (parent : String) :
    (d.augment parent).borrowed = d.borrowed := by
  unfold augment
  split <;> rfl

theorem borrowed_withKind (d : Doclet) (kind : DocletKind) (value : String) :
    (d.withKind kind value).borrowed = d.borrowed :=
  (borrowed_withName _ _).trans (borrowed_withTypes _ _)

/-- A tag adds its request at the end. -/
theorem requests_applyTag (d : Doclet) (tag : Tag) :
    (d.applyTag tag).borrowed.getD [] = d.borrowed.getD [] ++ tag.borrow?.toList := by
  unfold applyTag Tag.borrow?
  split
  next kind known =>
    have other : tag.title ≠ "borrows" := fun same => by
      rw [same] at known
      cases known
    rw [if_neg other, borrowed_withKind]
    exact (List.append_nil _).symm
  · by_cases asks : tag.title = "borrows"
    · rw [if_pos asks, asks]
      cases borrow? tag.value <;> simp
    · rw [if_neg asks]
      simp only [Option.toList_none, List.append_nil]
      split
      case h_7 same => exact absurd same asks
      case h_1 => rw [borrowed_withName]
      case h_12 => rw [borrowed_withTypes]
      case h_4 | h_5 => split <;> rfl
      case h_8 | h_9 =>
        split
        · rw [borrowed_augment]
        · rfl
      all_goals rfl

theorem requests_foldl_applyTag (d : Doclet) (tags : List Tag) :
    (tags.foldl applyTag d).borrowed.getD [] =
      d.borrowed.getD [] ++ tags.filterMap Tag.borrow? := by
  induction tags generalizing d with
  | nil => simp
  | cons tag rest ih =>
    rw [List.foldl_cons, ih, requests_applyTag, List.append_assoc, List.filterMap_cons]
    cases tag.borrow? <;> rfl

/-- The doclet of a comment asks for what the tags of the comment say. -/
theorem requests_ofComment (raw : String) (origin : Origin) :
    (ofComment raw origin).borrowed.getD [] = Comment.borrows raw := by
  unfold ofComment
  dsimp only
  split
  next blank =>
    have empty : Text.trim raw.toList = [] := List.isEmpty_iff.mp blank
    rw [Comment.borrows, ParsedComment.ofRaw, Comment.content, empty]
    rfl
  next =>
    rw [requests_foldl_applyTag]
    exact List.nil_append _

/-! ### Resolving -/

variable (d : Doclet)

theorem borrowed_qualifyName : d.qualifyName.2.borrowed = d.borrowed := by
  unfold qualifyName
  dsimp only
  split
  · rfl
  · split
    · split <;> rfl
    · rfl

theorem borrowed_divide (name : String) : (d.divide name).2.borrowed = d.borrowed := by
  unfold divide divideBelow
  dsimp only
  repeat' split
  all_goals rfl

theorem borrowed_adopt (path : Longname.Parts) : (d.adopt path).borrowed = d.borrowed := by
  unfold adopt
  dsimp only
  repeat' split
  all_goals rfl

theorem borrowed_settle (path : Option Longname.Parts) : (d.settle path).borrowed = d.borrowed := by
  have joined : d.join.borrowed = d.borrowed := by
    unfold join
    split <;> rfl
  unfold settle
  split
  · rfl
  · split
    · rfl
    · split
      · exact joined
      · rfl

theorem borrowed_resolve : d.resolve.borrowed = d.borrowed := by
  have below : (d.qualifyName.2.divide d.qualifyName.1).2.borrowed = d.borrowed := by
    rw [borrowed_divide, borrowed_qualifyName]
  unfold resolve
  dsimp only
  generalize d.qualifyName.2.divide d.qualifyName.1 = divided at below
  split
  next path _ =>
    have settled := (borrowed_settle (divided.2.adopt path) divided.1).trans
      ((borrowed_adopt divided.2 path).trans below)
    split
    · exact settled
    · exact settled
  next =>
    have settled := (borrowed_settle divided.2 divided.1).trans below
    split
    · exact settled
    · exact settled

end Doclet

namespace Documenter

theorem borrowed_inModule (module : Option String) (exported : Bool) (d : Doclet) :
    (inModule module exported d).borrowed = d.borrowed := by
  unfold inModule
  dsimp only
  repeat' split
  all_goals rfl

theorem borrowed_placed (ctx : Context) (module : Option String) (node : NodeRef) (d : Doclet) :
    (placed ctx module node d).borrowed = d.borrowed := by
  unfold placed onThis onExports inScope
  dsimp only
  repeat' split
  all_goals first | rfl | exact borrowed_inModule _ _ _

theorem borrowed_completed (ctx : Context) (module : Option String) (event : SymbolFound)
    (d : Doclet) : (completed ctx module event d).borrowed = d.borrowed := by
  unfold completed
  dsimp only
  repeat' split
  all_goals first | rfl | exact Doclet.borrowed_augment _ _

/-- A part of a comment that makes a doclet on its own asks for what its tags say. -/
theorem requests_ofCommentPart {event : CommentFound} {module : Option String} {part : String}
    {d : Doclet} (made : (ofCommentPart event module part).1 = some d) :
    d.borrowed.getD [] = Comment.borrows part := by
  have read := Doclet.requests_ofComment part (.at event.file event.line event.column)
  unfold ofCommentPart at made
  generalize Doclet.ofComment part (.at event.file event.line event.column) = start at made read
  dsimp only at made
  split at made
  · cases made
  · generalize begun : (if start.isModule then start else inModule module false start) = e at made
    have placed : e.borrowed = start.borrowed := by
      rw [← begun]
      split
      · rfl
      · exact borrowed_inModule _ _ _
    have resolved := (Doclet.borrowed_resolve e).trans placed
    split at made
    · split at made
      · cases made
      · rw [← Option.some.inj made]
        exact (congrArg (Option.getD · []) resolved).trans read
    · split at made
      · cases made
      · rw [← Option.some.inj made]
        exact (congrArg (Option.getD · []) resolved).trans read

theorem exists_ofCommentPart {event : CommentFound} {module : Option String} {parts : List String}
    {d : Doclet} (made : d ∈ (ofCommentParts event module parts).1) :
    ∃ part ∈ parts, ∃ module, (ofCommentPart event module part).1 = some d := by
  induction parts generalizing module with
  | nil => cases made
  | cons part rest ih =>
    rw [ofCommentParts, List.mem_append] at made
    rcases made with first | later
    · exact ⟨part, List.mem_cons_self, module, Option.mem_toList.mp first⟩
    · obtain ⟨other, listed, same⟩ := ih later
      exact ⟨other, List.mem_cons_of_mem _ listed, same⟩

/-- A symbol asks for what the tags of a part of its comment say, unless the part names what it
documents; then a doclet of its own has been made of it, and that asks. -/
theorem requests_ofSymbolPart {ctx : Context} {module : Option String} {event : SymbolFound}
    {part : String} {d : Doclet} (made : ofSymbolPart ctx module event part = some d) :
    d.borrowed.getD [] = Comment.borrows part ∨ d.borrowed.getD [] = [] ∧
      ∃ origin, (Doclet.ofComment part origin).name.isSome := by
  have read : (described ctx event part).borrowed.getD [] = Comment.borrows part ∨
      (described ctx event part).borrowed.getD [] = [] ∧
        ∃ origin, (Doclet.ofComment part origin).name.isSome := by
    unfold described
    dsimp only
    split
    next named => exact Or.inr ⟨rfl, _, named⟩
    next => exact Or.inl (Doclet.requests_ofComment _ _)
  have kept : d.borrowed = (described ctx event part).borrowed := by
    unfold ofSymbolPart at made
    dsimp only at made
    generalize described ctx event part = start at made ⊢
    split at made
    · cases made
    · generalize begun : (if start.memberof.isNone then
          placed ctx module (some event.node) { start with name := some event.code.name }
        else { start with name := some event.code.name }) = e at made
      have placed : e.borrowed = start.borrowed := by
        rw [← begun]
        split
        · exact borrowed_placed _ _ _ _
        · rfl
      split at made
      · cases made
      · split at made
        · cases made
        · rw [← Option.some.inj made, borrowed_completed, Doclet.borrowed_resolve, placed]
  rwa [kept]

end Documenter

end Doclets
