import Mathlib.Data.List.ReduceOption
import Doclets.Proofs.Pipeline.Placement

/-!
The parts of a comment at the two checkpoints that read them, that of the comment and that of the
symbol behind it. The two do not know of each other, and read a part with different origins and
modules; but they agree on whether it names what it documents, and so each part is documented once.
-/

namespace Doclets.Documenter

variable {σ : Type} {ctx : Context} {module : Option String} {found : CommentFound}
  {event : SymbolFound} {part : String}

/-- Whether nothing is written in a part. -/
def isBlankPart (part : String) : Bool := (Text.trim part.toList).isEmpty

/-- Whether a part names what it documents. -/
def namesItself (part : String) : Bool := (ParsedComment.ofRaw part).tags.any Tag.names

/-- The doclet that a part makes on its own, which may be that of a prototype. -/
def namedPart (found : CommentFound) (module : Option String) (part : String) : Doclet :=
  let d := Doclet.ofComment part (.at found.file found.line found.column)
  let d := (if d.isModule then d else inModule module false d).resolve
  if d.memberof.isNone && d.scope.isNone && !d.isModule then { d with scope := some .global } else d

/-- The doclet of a symbol and a part, with the name that the symbol has below its owner. -/
def localPart (ctx : Context) (module : Option String) (event : SymbolFound) (part : String) :
    Doclet :=
  let d := { described ctx event part with name := some event.code.name }
  if d.memberof.isNone then placed ctx module (some event.node) d else d

/-- The doclet that a symbol and a part make, which may be that of a prototype. -/
def symbolPart (ctx : Context) (module : Option String) (event : SymbolFound) (part : String) :
    Doclet :=
  completed ctx module event (localPart ctx module event part).resolve

theorem ofCommentPart_eq (found : CommentFound) (module : Option String) (part : String) :
    ofCommentPart found module part =
      if (Doclet.ofComment part (.at found.file found.line found.column)).name.isNone then
        (none, module)
      else
        (if isPrototype (namedPart found module part).longname then none
          else some (namedPart found module part),
        if (namedPart found module part).isModule then some (namedPart found module part).longname
          else module) := rfl

theorem ofSymbolPart_of_named (named : event.code.name ≠ "") :
    ofSymbolPart ctx module event part =
      if ((localPart ctx module event part).name.getD "").isEmpty then none
      else if isPrototype (symbolPart ctx module event part).longname then none
      else some (symbolPart ctx module event part) := by
  unfold ofSymbolPart
  rw [if_neg (by simpa using named)]
  rfl

/-! ### What a part says -/

theorem sameContent_namedPart (found : CommentFound) (module : Option String) (part : String) :
    (Doclet.ofComment part (.at found.file found.line found.column)).SameContent
      (namedPart found module part) := by
  unfold namedPart
  generalize Doclet.ofComment part _ = d
  have moved : d.SameContent (if d.isModule then d else inModule module false d).resolve := by
    split
    · exact Doclet.sameContent_resolve d
    · exact (sameContent_inModule module false d).trans (Doclet.sameContent_resolve _)
  dsimp only
  generalize (if d.isModule then d else inModule module false d).resolve = e at moved
  split
  · exact moved.trans ⟨_, _, _, _, rfl⟩
  · exact moved

theorem sameContent_localPart (ctx : Context) (module : Option String) (event : SymbolFound)
    (part : String) : (described ctx event part).SameContent (localPart ctx module event part) := by
  have named : (described ctx event part).SameContent
      { described ctx event part with name := some event.code.name } := ⟨_, _, _, _, rfl⟩
  unfold localPart
  dsimp only
  split
  · exact named.trans (sameContent_placed ctx module _ _)
  · exact named

theorem says_symbolPart (ctx : Context) (module : Option String) (event : SymbolFound)
    (part : String) :
    (symbolPart ctx module event part).comment = (described ctx event part).comment ∧
      (symbolPart ctx module event part).undocumented =
        (described ctx event part).undocumented := by
  have same := (sameContent_localPart ctx module event part).trans (Doclet.sameContent_resolve _)
  have completes := completes_completed ctx module event (localPart ctx module event part).resolve
  exact ⟨completes.comment.trans same.comment, completes.undocumented.trans same.undocumented⟩

/-! ### One part -/

/-- A documented doclet whose comment is the part. -/
def IsDocumented (part : String) (d? : Option Doclet) : Prop :=
  ∃ d, d? = some d ∧ d.undocumented = false ∧ d.comment = part

/-- A doclet without documentation, or none. -/
def IsUndocumented (d? : Option Doclet) : Prop := ∀ d ∈ d?, d.undocumented = true

/-- What a part comes to at the checkpoint of the comment, where `module` is declared, and at that
of the symbol, where `outer` is. -/
structure DocumentedOnce (found : CommentFound) (module : Option String) (ctx : Context)
    (outer : Option String) (event : SymbolFound) (part : String) (own byCode : Option Doclet) :
    Prop where
  blank : isBlankPart part = true → own = none ∧ IsUndocumented byCode
  named : isBlankPart part = false → namesItself part = true →
    IsUndocumented byCode ∧
      if isPrototype (namedPart found module part).longname then own = none
      else IsDocumented part own
  unnamed : isBlankPart part = false → namesItself part = false →
    own = none ∧
      if (localPart ctx outer event part).name.getD "" = "" ∨
          isPrototype (symbolPart ctx outer event part).longname then byCode = none
      else IsDocumented part byCode

theorem isUndocumented_ofSymbolPart
    (silent : (described ctx event part).undocumented = true) :
    IsUndocumented (ofSymbolPart ctx module event part) := by
  intro d made
  obtain ⟨p, same, rfl⟩ := exists_completed_of_ofSymbolPart made
  calc (completed ctx module event p).undocumented
      = p.undocumented := (completes_completed ctx module event p).undocumented
    _ = (described ctx event part).undocumented := same.undocumented
    _ = true := silent

theorem undocumented_of_blank (blank : isBlankPart part = true) (origin : Origin) :
    (Doclet.ofComment part origin).undocumented = true := by
  unfold Doclet.ofComment
  dsimp only
  rw [if_pos (by simpa [isBlankPart] using blank)]

/-- Both checkpoints ask the part alone whether it names what it documents. -/
theorem isSome_name_ofComment (part : String) (origin : Origin) :
    (Doclet.ofComment part origin).name.isSome = (!isBlankPart part && namesItself part) :=
  Doclet.isSome_name_ofComment part origin

theorem described_of_named (ctx : Context) (event : SymbolFound) (filled : isBlankPart part = false)
    (names : namesItself part = true) :
    ∃ origin, described ctx event part = Doclet.ofComment "" origin := by
  unfold described
  dsimp only
  rw [isSome_name_ofComment, filled, names]
  exact ⟨_, rfl⟩

theorem described_of_unnamed (ctx : Context) (event : SymbolFound)
    (unnamed : (!isBlankPart part && namesItself part) = false) :
    ∃ origin, described ctx event part = Doclet.ofComment part origin := by
  unfold described
  dsimp only
  rw [isSome_name_ofComment, unnamed]
  exact ⟨_, rfl⟩

theorem ofCommentPart_of_unnamed (unnamed : (!isBlankPart part && namesItself part) = false) :
    (ofCommentPart found module part).1 = none := by
  rw [ofCommentPart_eq, ← Option.not_isSome, isSome_name_ofComment, unnamed]
  rfl

theorem ofCommentPart_of_named (filled : isBlankPart part = false)
    (names : namesItself part = true) : (ofCommentPart found module part).1 =
      if isPrototype (namedPart found module part).longname then none
      else some (namedPart found module part) := by
  rw [ofCommentPart_eq, ← Option.not_isSome, isSome_name_ofComment, filled, names,
    if_neg (by decide)]

theorem documentedOnce (found : CommentFound) (module : Option String) (ctx : Context)
    (outer : Option String) (part : String) (named : event.code.name ≠ "") :
    DocumentedOnce found module ctx outer event part (ofCommentPart found module part).1
      (ofSymbolPart ctx outer event part) := by
  refine ⟨fun blank => ?_, fun filled names => ?_, fun filled unnamed => ?_⟩
  · have unnamed : (!isBlankPart part && namesItself part) = false := by rw [blank]; rfl
    obtain ⟨origin, same⟩ := described_of_unnamed ctx event unnamed
    refine ⟨ofCommentPart_of_unnamed unnamed, isUndocumented_ofSymbolPart ?_⟩
    rw [same, undocumented_of_blank blank]
  · obtain ⟨origin, same⟩ := described_of_named ctx event filled names
    constructor
    · apply isUndocumented_ofSymbolPart
      rw [same, undocumented_of_blank (by decide)]
    · have own := Doclet.documents_ofComment (by simpa [isBlankPart] using filled)
        (.at found.file found.line found.column)
      have same := sameContent_namedPart found module part
      rw [ofCommentPart_of_named filled names]
      generalize namedPart found module part = d at same
      split
      · rfl
      · exact ⟨_, rfl, same.undocumented.trans own.2, same.comment.trans own.1⟩
  · have neither : (!isBlankPart part && namesItself part) = false := by
      rw [unnamed, Bool.and_false]
    obtain ⟨origin, same⟩ := described_of_unnamed ctx event neither
    have own := Doclet.documents_ofComment (by simpa [isBlankPart] using filled) origin
    obtain ⟨comment, undocumented⟩ := says_symbolPart ctx outer event part
    rw [same] at comment undocumented
    refine ⟨ofCommentPart_of_unnamed neither, ?_⟩
    rw [ofSymbolPart_of_named named]
    generalize symbolPart ctx outer event part = d at comment undocumented
    generalize (localPart ctx outer event part).name.getD "" = name
    by_cases empty : name = ""
    · rw [if_pos (Or.inl empty), empty]
      rfl
    · have kept : name.isEmpty = false := by simpa using empty
      simp only [kept, empty, Bool.false_eq_true, if_false, false_or]
      split
      · rfl
      · exact ⟨_, rfl, undocumented.trans own.2, comment.trans own.1⟩

/-! ### All parts -/

/-- What the comment makes of each part, from the module that is declared in front of it on. -/
def ownParts (found : CommentFound) : Option String → List String → List (Option Doclet)
  | _, [] => []
  | module, part :: rest =>
    (ofCommentPart found module part).1 ::
      ownParts found (ofCommentPart found module part).2 rest

theorem ofCommentParts_eq (found : CommentFound) (module : Option String) (parts : List String) :
    (ofCommentParts found module parts).1 = (ownParts found module parts).reduceOption := by
  induction parts generalizing module with
  | nil => rfl
  | cons part rest ih =>
    rw [ofCommentParts, ownParts]
    dsimp only
    rw [ih]
    cases (ofCommentPart found module part).1 <;> rfl

theorem length_ownParts (found : CommentFound) (module : Option String) (parts : List String) :
    (ownParts found module parts).length = parts.length := by
  induction parts generalizing module with
  | nil => rfl
  | cons part rest ih => rw [ownParts, List.length_cons, List.length_cons, ih]

theorem getElem?_ownParts (found : CommentFound) (module : Option String) (parts : List String)
    (i : Nat) : (ownParts found module parts)[i]? = parts[i]?.map fun part =>
      (ofCommentPart found (ofCommentParts found module (parts.take i)).2 part).1 := by
  induction parts generalizing module i with
  | nil => rfl
  | cons part rest ih =>
    cases i with
    | zero => rfl
    | succ i =>
      rw [ownParts, List.getElem?_cons_succ, List.getElem?_cons_succ, ih]
      rfl

/-- What the checkpoints of a comment and of the symbol behind it make of the parts, with a place
for each part: every part is documented once. -/
structure Shares (slot : ModuleSlot σ) (around : Context) (found : CommentFound) (s : σ)
    (ctx : Context) (event : SymbolFound) (t : σ) (own byCode : List (Option Doclet)) : Prop where
  length_own : own.length = (Comment.parts found.comment).length
  length_byCode : byCode.length = (Comment.parts found.comment).length
  doclets_own : ((handler slot).commentFound around found s).2.1.doclets =
    found.doclets ++ own.reduceOption
  doclets_byCode : ((handler slot).symbolFound ctx event t).2.1.doclets =
    event.doclets ++ byCode.reduceOption
  once : ∀ i part, (Comment.parts found.comment)[i]? = some part → ∃ mine theirs,
    own[i]? = some mine ∧ byCode[i]? = some theirs ∧
      DocumentedOnce found
        (ofCommentParts found (slot.get s) ((Comment.parts found.comment).take i)).2
        ctx (slot.get t) event part mine theirs

/-- Every part of a comment in front of a symbol is documented once, whatever the two checkpoints
know of modules, files and places. -/
theorem parts_documented_once (slot : ModuleSlot σ) (around : Context) (found : CommentFound)
    (s : σ) (ctx : Context) (event : SymbolFound) (t : σ) (same : event.comment = found.comment)
    (named : event.code.name ≠ "") :
    ∃ own byCode, Shares slot around found s ctx event t own byCode := by
  refine ⟨ownParts found (slot.get s) (Comment.parts found.comment),
    (Comment.parts found.comment).map (ofSymbolPart ctx (slot.get t) event),
    length_ownParts found _ _, List.length_map _, ?_, ?_, fun i part listed => ?_⟩
  · exact congrArg (found.doclets ++ ·) (ofCommentParts_eq found _ _)
  · show event.doclets ++ ofSymbol ctx (slot.get t) event = _
    rw [ofSymbol, same, List.reduceOption, List.filterMap_map]
    rfl
  · refine ⟨_, _, ?_, ?_, documentedOnce found _ ctx (slot.get t) part named⟩
    · rw [getElem?_ownParts, listed]
      rfl
    · rw [List.getElem?_map, listed]
      rfl

/-- A part that names what it documents, two that do not, and a blank one between them. -/
def pumpComment : CommentFound where
  comment := "/** @event pump\n@also Turns it.\n@also \n@also @memberof Shop */"
  file := "shop.js"
  line := 1
  column := 0
  doclets := []

def pumpSymbol : SymbolFound where
  comment := pumpComment.comment
  file := "shop.js"
  line := 5
  column := 0
  node := 0
  code := Symbol.ofValue ⟨"shop.js", 0, #[], none, #[]⟩ "turn" none
  doclets := []

theorem parts_documented_once_pump :
    pumpSymbol.comment = pumpComment.comment ∧ pumpSymbol.code.name ≠ "" ∧
      ∃ own byCode, Shares .whole ⟨Registry.empty, ⟨"shop.js", 0, #[], none, #[]⟩⟩ pumpComment none
        ⟨Registry.empty, ⟨"shop.js", 0, #[], none, #[]⟩⟩ pumpSymbol (some "module:shop") own byCode :=
  ⟨rfl, by decide, parts_documented_once .whole _ pumpComment none _ pumpSymbol _ rfl (by decide)⟩

example : (ownParts pumpComment none (Comment.parts pumpComment.comment)).reduceOption.map
    (fun d => (d.longname, d.comment)) = [("pump", "/** @event pump\n")] := by
  decide +kernel

example : (ofSymbol ⟨Registry.empty, ⟨"shop.js", 0, #[], none, #[]⟩⟩ (some "module:shop")
    pumpSymbol).map (fun d => (d.longname, d.comment)) =
    [("module:shop~turn", ""), ("module:shop~turn", " Turns it.\n"), ("module:shop~turn", ""),
      ("Shop.turn", " @memberof Shop */")] := by
  decide +kernel

end Doclets.Documenter
