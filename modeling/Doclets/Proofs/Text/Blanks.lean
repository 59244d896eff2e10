import Mathlib.Data.List.DropRight
import Doclets.Text.Blank

/-! What stands at the end of a text, blanks around it, and the characters in it that are none. -/

namespace Doclets.Text

variable {p : Char → Bool} {cs front blanks : List Char} {c : Char}

/-! ### Dropping from the end -/

theorem dropEndWhile_concat (p : Char → Bool) (cs : List Char) (c : Char) :
    dropEndWhile p (cs ++ [c]) = if p c then dropEndWhile p cs else cs ++ [c] := by
  rw [dropEndWhile, List.reverse_append, List.reverse_singleton, List.singleton_append,
    List.dropWhile_cons]
  split
  · rfl
  · simp

/-- What ends in a character that is kept is kept. -/
theorem dropEndWhile_append (kept : ∀ c, front.getLast? = some c → p c = false)
    (back : List Char) : dropEndWhile p (front ++ back) = front ++ dropEndWhile p back := by
  induction back using List.reverseRecOn with
  | nil =>
    cases front using List.reverseRecOn with
    | nil => rfl
    | append_singleton front last =>
      have other := kept last (by simp)
      rw [List.append_nil, dropEndWhile_concat, other, if_neg Bool.false_ne_true]
      exact (List.append_nil _).symm
  | append_singleton back last ih =>
    rw [← List.append_assoc, dropEndWhile_concat, dropEndWhile_concat, ih]
    split
    · rfl
    · exact List.append_assoc front back [last]

theorem dropEndWhile_append_cons (kept : p c = false) (front back : List Char) :
    dropEndWhile p (front ++ c :: back) = front ++ c :: dropEndWhile p back := by
  have last (d : Char) (last : (front ++ [c]).getLast? = some d) : p d = false := by
    rw [List.getLast?_concat] at last
    exact Option.some.inj last ▸ kept
  have joined := dropEndWhile_append last back
  rwa [List.append_assoc, List.append_assoc] at joined

theorem dropEndWhile_of_forall (all : ∀ c ∈ cs, p c = true) : dropEndWhile p cs = [] :=
  List.rdropWhile_eq_nil_iff.mpr all

/-- A text is what is kept of it in front of what is dropped. -/
theorem exists_dropEndWhile (p : Char → Bool) (cs : List Char) :
    ∃ more, cs = dropEndWhile p cs ++ more ∧ ∀ c ∈ more, p c = true :=
  ⟨cs.rtakeWhile p, List.rdropWhile_append_rtakeWhile.symm, fun _ => List.mem_rtakeWhile_imp⟩

/-- A text that is not dropped as a whole is kept from some character on. -/
theorem exists_first_kept (some : ¬ ∀ c ∈ cs, p c = true) :
    ∃ front c back, cs = front ++ c :: back ∧ (∀ d ∈ front, p d = true) ∧ p c = false := by
  have split := List.takeWhile_append_dropWhile (p := p) (l := cs)
  cases rest : cs.dropWhile p with
  | nil => exact absurd (List.dropWhile_eq_nil_iff.mp rest) some
  | cons c back =>
    have first := List.head?_dropWhile_not p cs
    rw [rest] at first split
    exact ⟨_, c, back, split.symm, fun _ => List.mem_takeWhile_imp, by simpa using first⟩

/-- Only the last of several pieces ends a text. -/
theorem dropEndWhile_intercalate {sep : Char} (kept : p sep = false) (front : List (List Char))
    (last : List Char) : dropEndWhile p ([sep].intercalate (front ++ [last])) =
      [sep].intercalate (front ++ [dropEndWhile p last]) := by
  induction front with
  | nil => simp
  | cons piece front ih =>
    rw [List.cons_append, List.cons_append,
      List.intercalate_cons_of_ne_nil (by simp), List.intercalate_cons_of_ne_nil (by simp),
      dropEndWhile_append (by simpa using kept), ih]

/-! ### Blanks at the ends -/

theorem exists_trimStart (cs : List Char) :
    ∃ blanks, cs = blanks ++ trimStart cs ∧ ∀ c ∈ blanks, isBlank c = true :=
  ⟨cs.takeWhile isBlank, List.takeWhile_append_dropWhile.symm, fun _ => List.mem_takeWhile_imp⟩

theorem trimStart_append (blank : ∀ c ∈ blanks, isBlank c = true) (cs : List Char) :
    trimStart (blanks ++ cs) = trimStart cs :=
  List.dropWhile_append_of_pos blank

theorem trim_blank_append (blank : ∀ c ∈ blanks, isBlank c = true) (cs : List Char) :
    trim (blanks ++ cs) = trim cs := by
  rw [trim, trimStart_append blank, trim]

theorem trimEnd_append_blank (cs : List Char) (blank : ∀ c ∈ blanks, isBlank c = true) :
    trimEnd (cs ++ blanks) = trimEnd cs := by
  induction blanks using List.reverseRecOn with
  | nil => rw [List.append_nil]
  | append_singleton blanks last ih =>
    rw [← List.append_assoc, trimEnd, dropEndWhile_concat, if_pos (blank last (by simp))]
    exact ih fun c listed => blank c (by simp [listed])

theorem trimStart_eq_nil_iff : trimStart cs = [] ↔ ∀ c ∈ cs, isBlank c = true :=
  List.dropWhile_eq_nil_iff

theorem trim_append_blank (cs : List Char) (blank : ∀ c ∈ blanks, isBlank c = true) :
    trim (cs ++ blanks) = trim cs := by
  by_cases none : ∀ c ∈ cs, isBlank c = true
  · rw [trim_blank_append none, trim, trim, trimStart_eq_nil_iff.mpr none,
      trimStart_eq_nil_iff.mpr blank]
  · have some : trimStart cs ≠ [] := fun empty => none (trimStart_eq_nil_iff.mp empty)
    have front : trimStart (cs ++ blanks) = trimStart cs ++ blanks := by
      rw [trimStart, List.dropWhile_append, if_neg (by simpa [trimStart] using some), trimStart]
    rw [trim, front, trimEnd_append_blank _ blank, trim]

/-! ### Texts without blanks at the ends -/

theorem trimStart_eq_self_iff : trimStart cs = cs ↔ ∀ c ∈ cs.head?, isBlank c = false := by
  rw [trimStart, List.dropWhile_eq_self_iff]
  cases cs <;> simp

theorem trimEnd_eq_self_iff : trimEnd cs = cs ↔ ∀ c ∈ cs.getLast?, isBlank c = false := by
  have same : trimEnd cs = cs ↔ ∀ filled : cs ≠ [], ¬ isBlank (cs.getLast filled) = true :=
    List.rdropWhile_eq_self_iff
  rw [same]
  cases cs with
  | nil => simp
  | cons c cs => simp [List.getLast?_eq_some_getLast]

theorem trim_eq_self_iff : trim cs = cs ↔ trimStart cs = cs ∧ trimEnd cs = cs := by
  constructor
  · intro same
    have short : cs.length ≤ (trimStart cs).length := by
      conv_lhs => rw [← same]
      exact (List.rdropWhile_prefix isBlank (trimStart cs)).length_le
    have start : trimStart cs = cs := (List.dropWhile_suffix isBlank).eq_of_length_le short
    rw [trim, start] at same
    exact ⟨start, same⟩
  · rintro ⟨start, ends⟩
    rw [trim, start, ends]

theorem trimEnd_trimEnd (cs : List Char) : trimEnd (trimEnd cs) = trimEnd cs :=
  List.rdropWhile_idempotent isBlank cs

/-! ### Characters that are no blanks -/

/-- The number of characters that are no blanks. -/
def nonblanks (cs : List Char) : Nat := cs.countP fun c => !isBlank c

@[simp] theorem nonblanks_append (front back : List Char) :
    nonblanks (front ++ back) = nonblanks front + nonblanks back :=
  List.countP_append

@[simp] theorem nonblanks_cons (c : Char) (cs : List Char) :
    nonblanks (c :: cs) = nonblanks cs + if isBlank c then 0 else 1 := by
  rw [nonblanks, List.countP_cons, nonblanks]
  cases isBlank c <;> rfl

theorem nonblanks_eq_zero_iff : nonblanks cs = 0 ↔ ∀ c ∈ cs, isBlank c = true := by
  simp [nonblanks]

@[simp] theorem nonblanks_trimStart (cs : List Char) : nonblanks (trimStart cs) = nonblanks cs := by
  obtain ⟨blanks, same, blank⟩ := exists_trimStart cs
  conv_rhs => rw [same]
  rw [nonblanks_append, nonblanks_eq_zero_iff.mpr blank, Nat.zero_add]

@[simp] theorem nonblanks_trim (cs : List Char) : nonblanks (trim cs) = nonblanks cs := by
  obtain ⟨blanks, same, blank⟩ := exists_dropEndWhile isBlank (trimStart cs)
  rw [← nonblanks_trimStart cs, same, nonblanks_append, nonblanks_eq_zero_iff.mpr blank,
    Nat.add_zero]
  rfl

end Doclets.Text
