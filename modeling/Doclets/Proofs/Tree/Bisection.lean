import Doclets.Tree.Estree
import Mathlib.Data.List.Basic

/-!
The search by bisection. It always ends at a place where the elements that satisfy the predicate
stop; where all of them come first there is one such place, and what is found there is what a search
from the start finds.
-/

namespace Doclets.Estree

variable {α : Type} {p q : α → Bool} {xs : Array α} {base size i : Nat}

/-- A place behind an element that satisfies `p`, or at the start, and in front of one that fails
it, or at the end. -/
structure Boundary (p : α → Bool) (xs : Array α) (i : Nat) : Prop where
  inside : i ≤ xs.size
  before : ∀ j x, i = j + 1 → xs[j]? = some x → p x = true
  behind : ∀ x, xs[i]? = some x → p x = false

/-- What is left to search begins at an element that satisfies `p`, or at the start, and ends in
front of one that fails it, behind one, or at the end. -/
structure Narrowed (p : α → Bool) (xs : Array α) (base size : Nat) : Prop where
  filled : 0 < size
  inside : base + size ≤ xs.size
  begins : base = 0 ∨ ∀ x, xs[base]? = some x → p x = true
  ends : (∀ x, xs[base + size]? = some x → p x = false) ∨
    ∀ x, xs[base + size - 1]? = some x → p x = false

theorem Narrowed.step (narrowed : Narrowed p xs base size) (several : ¬ size ≤ 1) :
    Narrowed p xs (match xs[base + size / 2]? with
      | some x => if p x then base + size / 2 else base
      | none => base) (size - size / 2) := by
  have filled := narrowed.filled
  have inside := narrowed.inside
  have bound : base + size / 2 < xs.size := by omega
  have middle := Array.getElem?_eq_getElem bound
  rw [middle]
  dsimp only
  split
  next holds =>
    have same : base + size / 2 + (size - size / 2) = base + size := by omega
    refine ⟨by omega, by omega, Or.inr fun x found => ?_, same ▸ narrowed.ends⟩
    rw [middle] at found
    exact Option.some.inj found ▸ holds
  next fails =>
    refine ⟨by omega, by omega, narrowed.begins, ?_⟩
    have there (x : α) (found : xs[base + size / 2]? = some x) : p x = false := by
      rw [middle] at found
      exact Option.some.inj found ▸ by simpa using fails
    rcases Nat.mod_two_eq_zero_or_one size with even | odd
    · have same : base + (size - size / 2) = base + size / 2 := by omega
      exact Or.inl (same ▸ there)
    · have same : base + (size - size / 2) - 1 = base + size / 2 := by omega
      exact Or.inr (same ▸ there)

theorem Narrowed.narrow (narrowed : Narrowed p xs base size) (fuel : Nat)
    (enough : size ≤ fuel + 1) : Narrowed p xs (narrow p xs fuel base size) 1 := by
  induction fuel generalizing base size with
  | zero =>
    have single : size = 1 := Nat.le_antisymm enough narrowed.filled
    exact single ▸ narrowed
  | succ fuel ih =>
    unfold Estree.narrow
    split
    next few =>
      have single : size = 1 := Nat.le_antisymm few narrowed.filled
      exact single ▸ narrowed
    next several => exact ih (narrowed.step several) (by omega)

theorem boundary_of_size_eq_zero (p : α → Bool) (empty : xs.size = 0) : Boundary p xs 0 := by
  have none (i : Nat) (x : α) : xs[i]? ≠ some x := by
    rw [Array.getElem?_eq_none (by omega)]
    nofun
  exact ⟨Nat.zero_le _, fun _ _ next => absurd next (Nat.succ_ne_zero _).symm,
    fun x found => absurd found (none 0 x)⟩

/-- Where one element is left, there is a boundary in front of it or behind it. -/
theorem Narrowed.boundary (last : Narrowed p xs base 1) :
    Boundary p xs (match xs[base]? with
      | some x => if p x then base + 1 else base
      | none => 0) := by
  have inside := last.inside
  have here := Array.getElem?_eq_getElem (show base < xs.size by omega)
  rw [here]
  dsimp only
  split
  next holds =>
    refine ⟨inside, fun j x same found => ?_, ?_⟩
    · obtain rfl : base = j := by omega
      rw [here] at found
      exact Option.some.inj found ▸ holds
    · rcases last.ends with next | fails
      · exact next
      · rw [fails _ here] at holds
        cases holds
  next fails =>
    refine ⟨by omega, fun j x same found => ?_, fun x found => ?_⟩
    · rcases last.begins with rfl | holds
      · omega
      · exact absurd (holds _ here) fails
    · rw [here] at found
      exact Option.some.inj found ▸ by simpa using fails

/-- Whatever the order of the elements, the search ends at a boundary. -/
theorem boundary_partitionPoint (p : α → Bool) (xs : Array α) :
    Boundary p xs (partitionPoint p xs) := by
  unfold partitionPoint
  by_cases empty : xs.size = 0
  · dsimp only
    rw [Array.getElem?_eq_none (by omega)]
    exact boundary_of_size_eq_zero p empty
  · have start : Narrowed p xs 0 xs.size := by
      refine ⟨by omega, by omega, Or.inl rfl, Or.inl fun x found => ?_⟩
      rw [Nat.zero_add, Array.getElem?_eq_none (Nat.le_refl _)] at found
      cases found
    exact (start.narrow xs.size (by omega)).boundary

/-! ### Where the elements that satisfy the predicate come first -/

section

variable {list : List α} (first : list.Pairwise fun x y => p y = true → p x = true)
include first

theorem Boundary.forall_mem_take (boundary : Boundary p list.toArray i) :
    ∀ x ∈ list.take i, p x = true := by
  intro x listed
  obtain ⟨j, bound, rfl⟩ := List.mem_take_iff_getElem.mp listed
  have inside : i ≤ list.length := boundary.inside
  have last : i = i - 1 + 1 := by omega
  have front : i - 1 < list.length := by omega
  have holds := boundary.before (i - 1) list[i - 1] last (by simp)
  by_cases same : j = i - 1
  · subst same
    exact holds
  · exact List.pairwise_iff_getElem.mp first j (i - 1) (by omega) (by omega) (by omega) holds

theorem Boundary.forall_mem_drop (boundary : Boundary p list.toArray i) :
    ∀ x ∈ list.drop i, p x = false := by
  intro x listed
  obtain ⟨j, bound, rfl⟩ := List.mem_drop_iff_getElem.mp listed
  have here : i < list.length := by omega
  have fails := boundary.behind list[i] (by simp)
  by_cases same : j = 0
  · subst same
    simpa using fails
  · rw [Bool.eq_false_iff]
    intro holds
    have also := List.pairwise_iff_getElem.mp first i (i + j) (by omega) (by omega) (by omega) holds
    rw [also] at fails
    cases fails

/-- The search finds the first element that fails the predicate. -/
theorem getElem?_partitionPoint :
    list[partitionPoint p list.toArray]? = list.find? fun x => !p x := by
  have boundary := boundary_partitionPoint p list.toArray
  have front := boundary.forall_mem_take first
  have back := boundary.forall_mem_drop first
  generalize partitionPoint p list.toArray = i at front back
  have none : (list.take i).find? (fun x => !p x) = none := by
    rw [List.find?_eq_none]
    intro x listed
    simp [front x listed]
  rw [← List.head?_drop]
  conv_rhs => rw [← List.take_append_drop i list]
  rw [List.find?_append, none, Option.none_or]
  cases rest : list.drop i with
  | nil => rfl
  | cons x rest =>
    have fails := back x (by simp [rest])
    rw [List.head?_cons, List.find?_cons_of_pos (by simp [fails])]

/-- The last element of a kind stands among those that satisfy the predicate, if all of that kind
do. -/
theorem find?_take_partitionPoint (narrower : ∀ x ∈ list, q x = true → p x = true) :
    (list.take (partitionPoint p list.toArray)).reverse.find? q = list.reverse.find? q := by
  have back := (boundary_partitionPoint p list.toArray).forall_mem_drop first
  generalize partitionPoint p list.toArray = i at back
  have none : (list.drop i).reverse.find? q = none := by
    rw [List.find?_eq_none]
    intro x listed holds
    have inside := List.mem_reverse.mp listed
    have also := narrower x (List.mem_of_mem_drop inside) holds
    rw [back x inside] at also
    cases also
  conv_rhs => rw [← List.take_append_drop i list]
  rw [List.reverse_append, List.find?_append, none, Option.none_or]

end

end Doclets.Estree
