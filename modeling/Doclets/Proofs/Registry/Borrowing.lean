import Doclets.Proofs.Registry.Consistency
import Doclets.Registry.Borrows

/-!
Meeting requests to borrow. They are taken off the index before the first of them is met, and off
their doclets one by one, so the index is behind the doclets until the last request is met.
-/

namespace Doclets.Registry

/-- A registry whose pending requests are being met: those that remain are requests of the doclets
in `pending`. -/
structure Lending (r : Registry) (pending : List DocletId) : Prop extends Filed r, Anchored r where
  borrowed : r.index.borrowed = []
  pending : ∀ id ∈ r.results, (r.doclet id).hasBorrows = true → id ∈ pending

variable {r : Registry} {borrower : DocletId} {pending : List DocletId}

theorem Lending.addDoclet (h : r.Lending pending) {d : Doclet} (none : d.borrowed = none) :
    (r.addDoclet d).2.Lending pending where
  toFiled := h.toFiled.addDoclet d
  toAnchored := h.toAnchored.addDoclet d
  borrowed := by
    rw [index_addDoclet, Index.borrowed_add, h.borrowed]
    simp [Doclet.hasBorrows, none]
  pending id listed requests := by
    rcases mem_results_addDoclet.mp listed with old | new
    · rw [doclet_addDoclet_of_lt (h.valid id old)] at requests
      exact h.pending id old requests
    · rw [new, doclet_addDoclet_self] at requests
      simp [Doclet.hasBorrows, none] at requests

theorem Lending.meet (h : r.Lending pending) (longname : String) (b : Borrow) :
    (meet longname r b).Lending pending := by
  unfold Registry.meet
  dsimp only
  generalize Ledger.listAt b.source r.index.longname = sources
  induction sources generalizing r with
  | nil => exact h
  | cons source rest ih => exact ih (h.addDoclet rfl)

/-- The doclet that is asked for its requests has none afterwards. -/
theorem Lending.meetAll (h : r.Lending (borrower :: pending)) :
    (r.meetAll borrower).Lending pending := by
  unfold Registry.meetAll
  cases asked : (r.doclet borrower).borrowed with
  | none =>
    refine { h with pending := ?_ }
    intro id listed waiting
    rcases List.mem_cons.mp (h.pending id listed waiting) with own | rest
    · simp [own, Doclet.hasBorrows, asked] at waiting
    · exact rest
  | some requests =>
    clear asked
    dsimp only
    have dropped : (r.modify borrower fun d => { d with borrowed := none }).Lending pending := by
      refine ⟨h.toFiled.modify fun _ => ⟨rfl, rfl, rfl⟩, h.toAnchored.modify fun _ => ⟨rfl, rfl, rfl⟩,
        h.borrowed, ?_⟩
      intro id listed waiting
      have bound : id < r.doclets.size := h.valid id listed
      rw [doclet_modify] at waiting
      split at waiting
      · simp [Doclet.hasBorrows] at waiting
      next other =>
        rcases List.mem_cons.mp (h.pending id listed waiting) with own | rest
        · exact absurd ⟨own.symm, bound⟩ other
        · exact rest
    generalize r.modify borrower (fun d => { d with borrowed := none }) = s at dropped
    generalize (s.doclet borrower).longname = longname
    induction requests generalizing s with
    | nil => exact dropped
    | cons b rest ih => exact ih _ (dropped.meet longname b)

theorem Lending.foldl_meetAll (h : r.Lending pending) :
    (pending.foldl Registry.meetAll r).Lending [] := by
  induction pending generalizing r with
  | nil => exact h
  | cons borrower rest ih => exact ih h.meetAll

theorem Consistent.lending (h : r.Consistent) (anchored : r.Anchored) :
    { r with index := { r.index with borrowed := [] } }.Lending r.index.borrowed where
  toFiled := { h.toFiled with }
  toAnchored := { anchored with }
  borrowed := rfl
  pending id listed requests := by
    rw [h.borrowed, List.mem_filter]
    exact ⟨Array.mem_toList_iff.mpr listed, requests⟩

theorem Lending.consistent (h : r.Lending []) : r.Consistent where
  toFiled := h.toFiled
  borrowed := by
    rw [h.borrowed]
    symm
    rw [List.filter_eq_nil_iff]
    intro id listed requests
    cases h.pending id (Array.mem_toList_iff.mp listed) requests

/-- Afterwards the index is up to date again, and nothing is pending. -/
theorem lending_resolveBorrows (h : r.Consistent) (anchored : r.Anchored) :
    r.resolveBorrows.Lending [] := (h.lending anchored).foldl_meetAll

end Doclets.Registry
