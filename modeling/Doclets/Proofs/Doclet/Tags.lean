import Doclets.Doclet.Tags

/-!
What no tag decides: the longname of a doclet is made from its name and parent, and where it comes
from is known before its comment is read. What some tags decide: whether the comment names what it
documents.
-/

namespace Doclets

/-- Whether a tag names what is documented: by a word of its own, by one behind the type that a kind
may have, or as a module, which has the name of its file if it has no other. -/
def Tag.names (tag : Tag) : Bool :=
  if (Doclet.kindOfTitle? tag.title).isSome then
    (Text.firstWord? (Doclet.splitType tag.value).2).isSome
  else if tag.title = "name" then (Text.firstWord? tag.value).isSome
  else tag.title = "module"

namespace Doclet

/-- A doclet whose comment neither names it, nor says what it is or belongs to. -/
structure Untagged (d : Doclet) : Prop where
  name : d.name = none
  memberof : d.memberof = none
  scope : d.scope = none
  kind : d.kind = none

/-- A doclet whose comment neither names it nor says what it belongs to, and in what scope. -/
structure Unplaced (d : Doclet) : Prop where
  name : d.name = none
  memberof : d.memberof = none
  scope : d.scope = none

theorem Untagged.unplaced {d : Doclet} (h : d.Untagged) : d.Unplaced :=
  ⟨h.name, h.memberof, h.scope⟩

/-- Reading a tag leaves the longname and the origin alone, the comment it stands in, and the
members. -/
structure Untouched (d e : Doclet) : Prop where
  longname : e.longname = d.longname
  origin : e.origin = d.origin
  comment : e.comment = d.comment
  undocumented : e.undocumented = d.undocumented
  properties : e.properties = d.properties

theorem Untouched.refl (d : Doclet) : d.Untouched d := ⟨rfl, rfl, rfl, rfl, rfl⟩

theorem Untouched.trans {c d e : Doclet} (first : c.Untouched d) (second : d.Untouched e) :
    c.Untouched e :=
  ⟨second.longname.trans first.longname, second.origin.trans first.origin,
    second.comment.trans first.comment, second.undocumented.trans first.undocumented,
    second.properties.trans first.properties⟩

variable (d : Doclet)

theorem untouched_withName (name : Option String) : d.Untouched (d.withName name) := by
  unfold withName
  split <;> exact ⟨rfl, rfl, rfl, rfl, rfl⟩

theorem untouched_withTypes (names : Option (List String)) : d.Untouched (d.withTypes names) := by
  unfold withTypes
  split <;> exact ⟨rfl, rfl, rfl, rfl, rfl⟩

theorem untouched_augment (parent : String) : d.Untouched (d.augment parent) := by
  unfold augment
  split <;> exact ⟨rfl, rfl, rfl, rfl, rfl⟩

theorem untouched_withKind (kind : DocletKind) (value : String) :
    d.Untouched (d.withKind kind value) := by
  have types := untouched_withTypes { d with kind := some kind } (splitType value).1
  have name := untouched_withName (({ d with kind := some kind } : Doclet).withTypes
    (splitType value).1) (Text.firstWord? (splitType value).2)
  exact Untouched.trans ⟨types.longname, types.origin, types.comment, types.undocumented,
    types.properties⟩ name

theorem untouched_applyTag (tag : Tag) : d.Untouched (d.applyTag tag) := by
  unfold applyTag
  split
  · exact untouched_withKind d _ _
  · split
    case h_1 => exact untouched_withName d _
    case h_12 =>
      have types := untouched_withTypes
        { d with isEnum := true, kind := some (d.kind.getD .member) } (splitType tag.value).1
      exact ⟨types.longname, types.origin, types.comment, types.undocumented, types.properties⟩
    case h_4 | h_5 | h_7 => split <;> exact ⟨rfl, rfl, rfl, rfl, rfl⟩
    case h_8 | h_9 =>
      split
      · exact untouched_augment d _
      · exact ⟨rfl, rfl, rfl, rfl, rfl⟩
    all_goals exact ⟨rfl, rfl, rfl, rfl, rfl⟩

theorem untouched_foldl_applyTag (tags : List Tag) : d.Untouched (tags.foldl applyTag d) := by
  induction tags generalizing d with
  | nil => exact Untouched.refl d
  | cons tag rest ih => exact (untouched_applyTag d tag).trans (ih (d.applyTag tag))

theorem longname_ofComment (raw : String) (origin : Origin) :
    (ofComment raw origin).longname = "" ∧ (ofComment raw origin).origin = origin := by
  unfold ofComment
  dsimp only
  split
  · exact ⟨rfl, rfl⟩
  · have read := untouched_foldl_applyTag { empty with
      origin := origin, comment := raw, description := (ParsedComment.ofRaw raw).description }
      (ParsedComment.ofRaw raw).tags
    exact ⟨read.longname, read.origin⟩

/-- A comment gives no members. -/
theorem properties_ofComment (raw : String) (origin : Origin) :
    (ofComment raw origin).properties = [] := by
  unfold ofComment
  dsimp only
  split
  · rfl
  · exact (untouched_foldl_applyTag { empty with
      origin := origin, comment := raw, description := (ParsedComment.ofRaw raw).description }
      (ParsedComment.ofRaw raw).tags).properties

/-- A comment with a character that is no blank documents. -/
theorem documents_ofComment {raw : String} (filled : ¬ (Text.trim raw.toList).isEmpty = true)
    (origin : Origin) :
    (ofComment raw origin).comment = raw ∧ (ofComment raw origin).undocumented = false := by
  unfold ofComment
  dsimp only
  rw [if_neg filled]
  have read := untouched_foldl_applyTag { empty with
    origin := origin, comment := raw, description := (ParsedComment.ofRaw raw).description }
    (ParsedComment.ofRaw raw).tags
  exact ⟨read.comment, read.undocumented⟩

/-! ### Names -/

theorem isSome_name_withName (name : Option String) :
    (d.withName name).name.isSome = (d.name.isSome || name.isSome) := by
  unfold withName
  cases name <;> simp

theorem name_withTypes (names : Option (List String)) : (d.withTypes names).name = d.name := by
  unfold withTypes
  split <;> rfl

theorem name_augment (parent : String) : (d.augment parent).name = d.name := by
  unfold augment
  split <;> rfl

theorem isSome_name_applyTag (tag : Tag) :
    (d.applyTag tag).name.isSome = (d.name.isSome || tag.names) := by
  unfold applyTag Tag.names
  split
  next kind found =>
    rw [found, withKind]
    dsimp only
    rw [isSome_name_withName, name_withTypes]
    rfl
  next found =>
    rw [found, Option.isSome_none, if_neg Bool.false_ne_true]
    split
    case h_1 title => rw [isSome_name_withName, if_pos title]
    case h_3 title => simp [title]
    case h_4 title | h_5 title => split <;> simp [title, withMemberof]
    case h_7 title => split <;> simp [title]
    case h_8 title | h_9 title => split <;> simp [title, name_augment]
    case h_12 title => simp [title, name_withTypes]
    case h_20 =>
      rw [if_neg ‹¬ tag.title = "name"›, decide_eq_false ‹¬ tag.title = "module"›, Bool.or_false]
    all_goals simp [*]

theorem isSome_name_foldl_applyTag (tags : List Tag) :
    (tags.foldl applyTag d).name.isSome = (d.name.isSome || tags.any Tag.names) := by
  induction tags generalizing d with
  | nil => simp
  | cons tag rest ih => rw [List.foldl_cons, ih, isSome_name_applyTag, List.any_cons, Bool.or_assoc]

/-- Whether a comment names what it documents does not depend on where it stands. -/
theorem isSome_name_ofComment (raw : String) (origin : Origin) :
    (ofComment raw origin).name.isSome =
      (!(Text.trim raw.toList).isEmpty && (ParsedComment.ofRaw raw).tags.any Tag.names) := by
  unfold ofComment
  dsimp only
  split
  next blank => simp [blank, empty]
  next filled =>
    rw [isSome_name_foldl_applyTag]
    simp [filled, empty]

end Doclet

end Doclets
