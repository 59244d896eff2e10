import Doclets.Doclet
import Doclets.Ledger
import Doclets.Registry.History

/-!
Look-ups over the results, kept up as doclets are added to them.
-/

namespace Doclets

structure Index where
  longname : List (String × List DocletId)
  memberof : List (String × List DocletId)
  /-- Only doclets with documentation. -/
  documented : List (String × List DocletId)
  /-- Doclets with requests to borrow that have not been met yet. -/
  borrowed : List DocletId

namespace Index

def empty : Index := ⟨[], [], [], []⟩

def add (x : Index) (id : DocletId) (d : Doclet) : Index where
  longname := Ledger.push d.longname id x.longname
  memberof := match d.memberof with
    | some parent => Ledger.push parent id x.memberof
    | none => x.memberof
  documented := if d.undocumented then x.documented else Ledger.push d.longname id x.documented
  borrowed := if d.hasBorrows then x.borrowed ++ [id] else x.borrowed

/-- The doclets that document a longname. -/
def documentedAt (x : Index) (longname : String) : List DocletId :=
  Ledger.listAt longname x.documented

/-- The doclets whose parent is `parent`. -/
def membersOf (x : Index) (parent : String) : List DocletId := Ledger.listAt parent x.memberof

/-- Files a doclet anew after it gained or lost its documentation. -/
def refile (x : Index) (id : DocletId) (d : Doclet) : Index :=
  let others := (x.documentedAt d.longname).filter fun other => other ≠ id
  let ids := if d.undocumented then others else others ++ [id]
  { x with
    documented :=
      if ids.isEmpty then Ledger.erase d.longname x.documented
      else Ledger.insert d.longname ids x.documented }

/-! ### What is filed -/

variable (x : Index) (id : DocletId) (d : Doclet)

theorem longname_add (l : String) : Ledger.listAt l (x.add id d).longname =
    Ledger.listAt l x.longname ++ if d.longname = l then [id] else [] := by
  by_cases same : d.longname = l
  · subst same
    simp [add]
  · simp [add, Ledger.listAt_push_of_ne (Ne.symm same), same]

theorem membersOf_add (m : String) : (x.add id d).membersOf m =
    x.membersOf m ++ if d.memberof = some m then [id] else [] := by
  cases parent : d.memberof with
  | none => simp [membersOf, add, parent]
  | some p =>
    by_cases same : p = m
    · subst same
      simp [membersOf, add, parent]
    · simp [membersOf, add, parent, Ledger.listAt_push_of_ne (Ne.symm same), same]

theorem documentedAt_add (l : String) : (x.add id d).documentedAt l =
    x.documentedAt l ++ if d.longname = l ∧ d.undocumented = false then [id] else [] := by
  cases hidden : d.undocumented with
  | true => simp [documentedAt, add, hidden]
  | false =>
    by_cases same : d.longname = l
    · subst same
      simp [documentedAt, add, hidden]
    · simp [documentedAt, add, hidden, Ledger.listAt_push_of_ne (Ne.symm same), same]

theorem borrowed_add : (x.add id d).borrowed =
    x.borrowed ++ if d.hasBorrows then [id] else [] := by
  simp only [add]
  split <;> simp

theorem documented_add_ne_nil (h : ∀ entry ∈ x.documented, entry.2 ≠ []) :
    ∀ entry ∈ (x.add id d).documented, entry.2 ≠ [] := by
  cases hidden : d.undocumented with
  | true => simpa [add, hidden] using h
  | false =>
    simp only [add, hidden, Bool.false_eq_true, if_false, Ledger.push]
    exact Ledger.forall_mem_alter (P := (· ≠ [])) h fun old => by simp

theorem documentedAt_refile_self : (x.refile id d).documentedAt d.longname =
    ((x.documentedAt d.longname).filter fun other => other ≠ id) ++
      if d.undocumented then [] else [id] := by
  cases hidden : d.undocumented with
  | true =>
    simp only [refile, documentedAt, hidden, if_true, List.append_nil]
    split
    next nothing =>
      rw [List.isEmpty_iff.mp nothing]
      simp [Ledger.listAt]
    next => simp [Ledger.listAt]
  | false => simp [refile, documentedAt, hidden, Ledger.listAt]

theorem documentedAt_refile_of_ne {l : String} (h : l ≠ d.longname) :
    (x.refile id d).documentedAt l = x.documentedAt l := by
  unfold refile documentedAt Ledger.listAt
  dsimp only
  generalize (if d.undocumented then _ else _) = ids
  split
  · rw [Ledger.get?_erase_of_ne h]
  · rw [Ledger.get?_insert_of_ne h]

theorem documented_refile_ne_nil (h : ∀ entry ∈ x.documented, entry.2 ≠ []) :
    ∀ entry ∈ (x.refile id d).documented, entry.2 ≠ [] := by
  unfold refile
  dsimp only
  generalize (if d.undocumented then _ else _) = ids
  split
  next =>
    intro entry member
    exact h entry (List.mem_filter.mp member).1
  next something =>
    apply Ledger.forall_mem_alter (P := (· ≠ [])) h
    intro old
    simpa using something

end Index

end Doclets
