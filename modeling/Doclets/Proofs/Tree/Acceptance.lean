import Doclets.Proofs.Tree.Growth

/-!
Which values are accepted. What stands at the root, or in the file there, is read as a node, and
reading fails only at a value in child position that is no node or lies too deep.
-/

namespace Doclets

namespace Estree

open Json (Value)

/-! ### What is read -/

/-- The type that a value is given, if it is an object with a type. -/
def typeOf? (v : Value) : Option String := (v.get? "type").bind Value.str?

/-- The value at the root of a unit is a program, or a file around what should be one. -/
inductive HoldsProgram : Value → Value → Prop where
  | program {members : Members} (typed : typeOf? (.obj members) = some "Program") :
    HoldsProgram (.obj members) (.obj members)
  | file {members : Members} {p : Value} (typed : typeOf? (.obj members) = some "File")
    (held : Ledger.get? "program" members = some p) : HoldsProgram (.obj members) p

/-- Reading `v` comes to the value `w`, in child position `depth` levels below. -/
inductive ReadBelow : Value → Nat → Value → Prop where
  | here {v : Value} : ReadBelow v 0 v
  | child {members : Members} {typeName key : String} {values : List Value} {v w : Value}
    {depth : Nat} (typed : typeOf? (.obj members) = some typeName)
    (slot : (key, values) ∈ childValues (NodeKind.ofType typeName) members) (listed : v ∈ values)
    (below : ReadBelow v depth w) : ReadBelow (.obj members) (depth + 1) w

/-- All that is read is null, or an object with a type less than `levels` levels below. -/
def ReadableWithin (levels : Nat) (v : Value) : Prop :=
  ∀ depth w, ReadBelow v depth w → w ≠ .null → (typeOf? w).isSome ∧ depth < levels

/-- All that is read is null, or an object with a type at a depth that trees may have. -/
def Readable (p : Value) : Prop :=
  ∀ depth w, ReadBelow p depth w → w ≠ .null → (typeOf? w).isSome ∧ depth ≤ maxTreeDepth

/-! ### Lists and members -/

variable {read : Value → Harvest → Except TreeError (NodeRef × Harvest)} {Fits : Value → Prop}

theorem isOk_readList (reads : ∀ v h, (read v h).isOk ↔ Fits v) (values : List Value)
    (h : Harvest) : (readList read values h).isOk ↔ ∀ v ∈ values, Fits v := by
  induction values generalizing h with
  | nil => simp [readList, Except.isOk, Except.toBool]
  | cons v rest ih =>
    have first := reads v h
    rw [List.forall_mem_cons, ← first]
    unfold readList
    cases read v h with
    | error e => simp [Except.isOk, Except.toBool]
    | ok done =>
      have others := ih done.2
      dsimp only
      cases list : readList read rest done.2 <;> rw [list] at others <;>
        simpa [Except.isOk, Except.toBool] using others

theorem isOk_readChildren (reads : ∀ v h, (read v h).isOk ↔ Fits v)
    (slots : List (String × List Value)) (h : Harvest) :
    (readChildren read slots h).isOk ↔ ∀ slot ∈ slots, ∀ v ∈ slot.2, Fits v := by
  induction slots generalizing h with
  | nil => simp [readChildren, Except.isOk, Except.toBool]
  | cons slot rest ih =>
    obtain ⟨key, values⟩ := slot
    have first := isOk_readList reads values h
    rw [List.forall_mem_cons, ← first]
    unfold readChildren
    cases readList read values h with
    | error e => simp [Except.isOk, Except.toBool]
    | ok done =>
      have others := ih done.2
      dsimp only
      cases list : readChildren read rest done.2 <;> rw [list] at others <;>
        simpa [Except.isOk, Except.toBool] using others

/-! ### Nodes -/

theorem readableWithin_null (levels : Nat) : ReadableWithin levels .null := by
  intro depth w below filled
  cases below
  exact absurd rfl filled

theorem readableWithin_obj {members : Members} {typeName : String}
    (typed : typeOf? (.obj members) = some typeName) (levels : Nat) :
    ReadableWithin (levels + 1) (.obj members) ↔
      ∀ slot ∈ childValues (NodeKind.ofType typeName) members, ∀ v ∈ slot.2,
        ReadableWithin levels v := by
  constructor
  · intro readable slot known v listed depth w below filled
    obtain ⟨node, bound⟩ := readable (depth + 1) w (.child typed known listed below) filled
    exact ⟨node, Nat.lt_of_succ_lt_succ bound⟩
  · intro children depth w below filled
    cases below with
    | here => exact ⟨by rw [typed]; rfl, Nat.succ_pos levels⟩
    | child also known listed below =>
      obtain rfl := Option.some.inj (typed.symm.trans also)
      obtain ⟨node, bound⟩ := children _ known _ listed _ w below filled
      exact ⟨node, Nat.succ_lt_succ bound⟩

theorem not_readableWithin_zero {v : Value} (filled : v ≠ .null) : ¬ ReadableWithin 0 v :=
  fun readable => Nat.not_lt_zero 0 (readable 0 v .here filled).2

theorem not_readableWithin_untyped {v : Value} (filled : v ≠ .null) (untyped : typeOf? v = none)
    (levels : Nat) : ¬ ReadableWithin levels v := by
  intro readable
  have node := (readable 0 v .here filled).1
  rw [untyped] at node
  cases node

/-- Whether a value can be read depends on what is in child position, and on nothing that was read
before. -/
theorem isOk_readNode (levels : Nat) (v : Value) (h : Harvest) :
    (readNode levels v h).isOk ↔ ReadableWithin levels v := by
  induction levels generalizing v h with
  | zero =>
    cases v with
    | null => exact iff_of_true rfl (readableWithin_null 0)
    | _ => exact iff_of_false Bool.false_ne_true (not_readableWithin_zero (by simp))
  | succ levels ih =>
    cases v with
    | null => exact iff_of_true rfl (readableWithin_null _)
    | obj members =>
      unfold readNode
      cases typed : str? "type" members with
      | none =>
        have untyped : typeOf? (.obj members) = none := typed
        exact iff_of_false Bool.false_ne_true (not_readableWithin_untyped (by simp) untyped _)
      | some typeName =>
        rw [readableWithin_obj typed levels, ← isOk_readChildren ih _ h]
        dsimp only
        cases readChildren (readNode levels) (childValues (NodeKind.ofType typeName) members) h <;>
          exact Iff.rfl
    | _ => exact iff_of_false Bool.false_ne_true (not_readableWithin_untyped (by simp) rfl _)

theorem readable_iff (p : Value) : Readable p ↔ ReadableWithin (maxTreeDepth + 1) p := by
  simp only [Readable, ReadableWithin, Nat.lt_succ_iff]

/-! ### Roots -/

/-- What stands at the root is a program or a file, whatever that holds. -/
theorem program?_eq_ok_iff {v p : Value} :
    (∃ members, program? v = .ok (members, p)) ↔ HoldsProgram v p := by
  constructor
  · rintro ⟨members, found⟩
    unfold program? at found
    split at found
    next =>
      split at found
      next => cases found
      next typed =>
        cases found
        exact .program typed
      next typed =>
        split at found
        next held =>
          cases found
          exact .file typed held
        next => cases found
      next => cases found
    next => cases found
  · intro holds
    cases holds with
    | @program members typed =>
      refine ⟨members, ?_⟩
      simp only [program?, show str? "type" members = _ from typed]
    | @file members p typed held =>
      refine ⟨members, ?_⟩
      simp only [program?, show str? "type" members = _ from typed, held]

theorem ofType_eq_program_iff (typeName : String) :
    NodeKind.ofType typeName = .program ↔ typeName = "Program" := by
  constructor
  · intro same
    unfold NodeKind.ofType at same
    split at same <;> first | rfl | cases same
  · rintro rfl
    rfl

theorem finalKind_eq_program_iff (h : Harvest) (kind : NodeKind) (children : Children) :
    finalKind h kind children = .program ↔ kind = .program := by
  unfold finalKind
  split
  next field =>
    subst field
    split
    · split <;> simp
    · simp
  next => rfl

/-- The node that is read is a program exactly when the value is. -/
theorem kind?_readNode (file : String) {levels : Nat} {v : Value} {h s : Harvest} {r : NodeRef}
    (read : readNode levels v h = .ok (r, s)) :
    (⟨file, 0, s.nodes, r, s.comments⟩ : Tree).kind? r = some .program ↔
      typeOf? v = some "Program" := by
  cases nodeRead_of_readNode read with
  | null => simp [Tree.kind?, Tree.node?, typeOf?, Value.get?]
  | @obj _ members typeName _ between children typed =>
    rw [show typeOf? (.obj members) = some typeName from typed, Option.some.injEq,
      ← ofType_eq_program_iff, ← finalKind_eq_program_iff between _ children]
    simp [Tree.kind?, Tree.node?, Harvest.addNode, Node.make]

/-! ### Units -/

variable {file : String} {v p : Value} {t : Tree}

theorem readable_of_ofValue (read : ofValue file v = .ok t) :
    ∃ p, HoldsProgram v p ∧ Readable p := by
  obtain ⟨members, p, _, _, s, found, _, done, _⟩ := exists_read read
  refine ⟨p, program?_eq_ok_iff.mp ⟨members, found⟩, (readable_iff p).mpr ?_⟩
  rw [← isOk_readNode _ p s, done]
  rfl

theorem exists_ofValue (file : String) (holds : HoldsProgram v p) (readable : Readable p) :
    ∃ t, ofValue file v = .ok t := by
  obtain ⟨members, found⟩ := program?_eq_ok_iff.mpr holds
  have accepted := (isOk_readNode _ p (Harvest.empty.keepAll (commentList members p)).2).mpr
    ((readable_iff p).mp readable)
  unfold ofValue
  rw [found]
  dsimp only
  cases read : readNode (maxTreeDepth + 1) p
      (Harvest.empty.keepAll (commentList members p)).2 with
  | error e =>
    rw [read] at accepted
    cases accepted
  | ok done => exact ⟨_, rfl⟩

theorem kind?_root_ofValue (read : ofValue file v = .ok t) (holds : HoldsProgram v p) :
    t.kind? t.root = some .program ↔ typeOf? p = some "Program" := by
  obtain ⟨members, found⟩ := program?_eq_ok_iff.mpr holds
  obtain ⟨_, _, root, h, _, also, _, done, top, same⟩ := exists_read read
  cases found.symm.trans also
  have shape := (Tree.sameShape_link ⟨file, 0, h.nodes, root, h.comments⟩).trans same.sameShape
  rw [shape.kind?, top]
  exact kind?_readNode file done

/-- A value is accepted exactly when a program stands at its root, or a file that holds anything,
and everything in child position from there on can be read; the root is a program exactly when what
is held is one. -/
theorem ofValue_accepts (file : String) (v : Value) :
    ((∃ t, ofValue file v = .ok t) ↔ ∃ p, HoldsProgram v p ∧ Readable p) ∧
      ((∃ t, ofValue file v = .ok t ∧ t.kind? t.root = some .program) ↔
        ∃ p, HoldsProgram v p ∧ typeOf? p = some "Program" ∧ Readable p) := by
  have accepts : (∃ t, ofValue file v = .ok t) ↔ ∃ p, HoldsProgram v p ∧ Readable p := by
    constructor
    · rintro ⟨t, read⟩
      exact readable_of_ofValue read
    · rintro ⟨p, holds, readable⟩
      exact exists_ofValue file holds readable
  refine ⟨accepts, ?_, ?_⟩
  · rintro ⟨t, read, root⟩
    obtain ⟨p, holds, readable⟩ := accepts.mp ⟨t, read⟩
    exact ⟨p, holds, (kind?_root_ofValue read holds).mp root, readable⟩
  · rintro ⟨p, holds, program, readable⟩
    obtain ⟨t, read⟩ := accepts.mpr ⟨p, holds, readable⟩
    exact ⟨t, read, (kind?_root_ofValue read holds).mpr program⟩

/-- A file that holds no program. -/
def emptyFile : Value := .obj [("type", .str "File"), ("program", .null)]

/-- It takes no program to be accepted. -/
theorem accepts_emptyFile : ¬ ∀ (file : String) (v : Value), (∃ t, ofValue file v = .ok t) ↔
    ∃ p, HoldsProgram v p ∧ typeOf? p = some "Program" ∧ Readable p := by
  intro claim
  obtain ⟨p, holds, program, _⟩ := (claim "empty.js" emptyFile).mp ⟨_, rfl⟩
  cases holds with
  | program typed => exact absurd typed (by decide)
  | file _ held =>
    cases held
    cases program

end Estree

end Doclets
