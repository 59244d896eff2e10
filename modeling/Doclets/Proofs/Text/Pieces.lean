import Mathlib.Data.List.Basic
import Doclets.Text.Pieces

/-! What remains of a text after a fixed beginning, and the pieces between separators. -/

namespace Doclets.Text

theorem after?_eq_some_iff {start text rest : String} :
    after? start text = some rest ↔ text = start ++ rest := by
  unfold after?
  rw [Option.map_eq_some_iff]
  constructor
  · rintro ⟨cs, found, rfl⟩
    rw [List.isPrefixOf?_eq_some_iff_append_eq] at found
    apply String.toList_injective
    simpa using found.symm
  · rintro rfl
    exact ⟨rest.toList, by simp [List.isPrefixOf?_eq_some_iff_append_eq], by simp⟩

theorem after?_eq_none_iff {start text : String} :
    after? start text = none ↔ ¬ start.toList <+: text.toList := by
  rw [Option.eq_none_iff_forall_ne_some]
  constructor
  · rintro none ⟨rest, same⟩
    apply none (String.ofList rest)
    rw [after?_eq_some_iff]
    apply String.toList_injective
    simpa using same.symm
  · rintro none rest found
    rw [after?_eq_some_iff] at found
    exact none ⟨rest.toList, by simp [found]⟩

theorem before?_eq_some_iff {ending text rest : String} :
    before? ending text = some rest ↔ text = rest ++ ending := by
  unfold before?
  rw [Option.map_eq_some_iff]
  constructor
  · rintro ⟨cs, found, rfl⟩
    rw [List.isSuffixOf?_eq_some_iff_append_eq] at found
    apply String.toList_injective
    simpa using found.symm
  · rintro rfl
    exact ⟨rest.toList, by simp [List.isSuffixOf?_eq_some_iff_append_eq], by simp⟩

/-! ### Pieces between separators -/

variable {sep c : Char} {cs before front line name : List Char} {pieces : List (List Char)}

theorem splitAt_of_notMem (h : sep ∉ cs) : splitAt sep cs = [cs] := by
  induction cs with
  | nil => rfl
  | cons c rest ih =>
    obtain ⟨other, apart⟩ := List.ne_and_not_mem_of_not_mem_cons h
    rw [splitAt, if_neg (Ne.symm other), ih apart]

/-- A character that is no separator belongs to the first piece. -/
theorem exists_splitAt_cons (other : c ≠ sep) (cs : List Char) : ∃ first others,
    splitAt sep cs = first :: others ∧ splitAt sep (c :: cs) = (c :: first) :: others := by
  cases pieces : splitAt sep cs with
  | nil => exact absurd pieces (splitAt_ne_nil sep cs)
  | cons first others => exact ⟨first, others, rfl, by rw [splitAt, if_neg other, pieces]⟩

theorem splitAt_append_cons (sep : Char) (before rest : List Char) :
    splitAt sep (before ++ sep :: rest) = splitAt sep before ++ splitAt sep rest := by
  induction before with
  | nil => simp [splitAt]
  | cons c before ih =>
    by_cases same : c = sep
    · rw [List.cons_append, splitAt, splitAt, if_pos same, if_pos same, ih]
      rfl
    · obtain ⟨first, others, pieces, split⟩ := exists_splitAt_cons same before
      rw [split, List.cons_append, splitAt, if_neg same, ih, pieces]
      rfl

theorem length_splitAt_eq_one_iff : (splitAt sep cs).length = 1 ↔ sep ∉ cs := by
  constructor
  · intro single found
    obtain ⟨before, rest, rfl⟩ := List.append_of_mem found
    have front := List.length_pos_iff.mpr (splitAt_ne_nil sep before)
    have back := List.length_pos_iff.mpr (splitAt_ne_nil sep rest)
    rw [splitAt_append_cons, List.length_append] at single
    omega
  · intro apart
    rw [splitAt_of_notMem apart, List.length_singleton]

/-- A text is cut at the last place where a character stands in it. -/
theorem exists_last_of_mem (h : sep ∈ cs) :
    ∃ before name, cs = before ++ sep :: name ∧ sep ∉ name := by
  obtain ⟨name, before, same, apart⟩ := List.eq_append_cons_of_mem (List.mem_reverse.mpr h)
  refine ⟨before.reverse, name.reverse, ?_, by simpa using apart⟩
  rw [← List.reverse_inj, same]
  simp

/-- What no separator stands in is in front of the first piece. -/
theorem splitAt_append_of_notMem (apart : sep ∉ front) (cs : List Char) :
    splitAt sep (front ++ cs) = (splitAt sep cs).modifyHead (front ++ ·) := by
  induction front with
  | nil => exact List.modifyHead_id.symm ▸ rfl
  | cons c front ih =>
    obtain ⟨other, apart⟩ := List.ne_and_not_mem_of_not_mem_cons apart
    obtain ⟨first, others, pieces, split⟩ := exists_splitAt_cons (Ne.symm other) (front ++ cs)
    rw [List.cons_append, split]
    rw [ih apart] at pieces
    cases own : splitAt sep cs with
    | nil => exact absurd own (splitAt_ne_nil sep cs)
    | cons piece more =>
      rw [own] at pieces
      cases pieces
      rfl

theorem notMem_of_mem_splitAt {piece : List Char} (listed : piece ∈ splitAt sep cs) :
    sep ∉ piece ∧ piece ⊆ cs := by
  induction cs generalizing piece with
  | nil =>
    obtain rfl := List.mem_singleton.mp listed
    exact ⟨List.not_mem_nil, List.Subset.refl _⟩
  | cons c rest ih =>
    have keeps {own : List Char} (listed : own ∈ splitAt sep rest) : sep ∉ own ∧ own ⊆ c :: rest :=
      ⟨(ih listed).1, List.subset_cons_of_subset c (ih listed).2⟩
    by_cases same : c = sep
    · rw [splitAt, if_pos same] at listed
      rcases List.mem_cons.mp listed with rfl | listed
      · exact ⟨List.not_mem_nil, List.nil_subset _⟩
      · exact keeps listed
    · obtain ⟨first, others, pieces, split⟩ := exists_splitAt_cons same rest
      rw [pieces] at ih keeps
      rw [split] at listed
      rcases List.mem_cons.mp listed with rfl | listed
      · obtain ⟨apart, inside⟩ := ih List.mem_cons_self
        exact ⟨List.not_mem_cons_of_ne_of_not_mem (Ne.symm same) apart,
          List.cons_subset_cons c inside⟩
      · exact keeps (List.mem_cons_of_mem first listed)

/-- The first piece is what the text begins with. -/
theorem prefix_of_mem_head?_splitAt {piece : List Char} (first : piece ∈ (splitAt sep cs).head?) :
    piece <+: cs := by
  induction cs generalizing piece with
  | nil => exact Option.some.inj first ▸ List.nil_prefix
  | cons c rest ih =>
    by_cases same : c = sep
    · rw [splitAt, if_pos same] at first
      exact Option.some.inj first ▸ List.nil_prefix
    · obtain ⟨front, others, pieces, split⟩ := exists_splitAt_cons same rest
      rw [split] at first
      rw [pieces] at ih
      exact Option.some.inj first ▸ List.cons_prefix_cons.mpr ⟨rfl, ih rfl⟩

/-- The pieces with a separator behind each give the text with one behind it. -/
theorem flatMap_splitAt (sep : Char) (cs : List Char) :
    (splitAt sep cs).flatMap (· ++ [sep]) = cs ++ [sep] := by
  induction cs with
  | nil => rfl
  | cons c rest ih =>
    by_cases same : c = sep
    · rw [splitAt, if_pos same, List.flatMap_cons, ih, same]
      rfl
    · obtain ⟨first, others, pieces, split⟩ := exists_splitAt_cons same rest
      rw [pieces, List.flatMap_cons] at ih
      rw [split, List.flatMap_cons]
      exact congrArg (c :: ·) ih

/-- Pieces that hold no separator come off again where they were joined. -/
theorem splitAt_intercalate (filled : pieces ≠ []) (apart : ∀ piece ∈ pieces, sep ∉ piece) :
    splitAt sep ([sep].intercalate pieces) = pieces := by
  induction pieces with
  | nil => exact absurd rfl filled
  | cons piece others ih =>
    obtain ⟨here, later⟩ := List.forall_mem_cons.mp apart
    cases others with
    | nil => rw [List.intercalate_singleton, splitAt_of_notMem here]
    | cons next others =>
      rw [List.intercalate_cons_cons, List.append_assoc, List.singleton_append,
        splitAt_append_cons, splitAt_of_notMem here, ih (List.cons_ne_nil next others) later]
      rfl

/-! ### Lines -/

theorem dropReturn_of_notMem (free : '\r' ∉ line) : dropReturn line = line := by
  rw [dropReturn, if_neg]
  intro last
  exact free (List.mem_of_getLast? last)

theorem linesFrom_eq_splitAt (free : '\r' ∉ line) (also : '\r' ∉ cs)
    (filled : line ≠ [] ∨ cs ≠ []) (ends : cs.getLast? ≠ some '\n') :
    linesFrom line cs = (splitAt '\n' cs).modifyHead (line.reverse ++ ·) := by
  fun_induction linesFrom line cs with
  | case1 line empty => simp_all
  | case2 line some => simp [splitAt]
  | case3 line rest ih =>
    have more : rest ≠ [] := by
      rintro rfl
      exact ends rfl
    have free : '\r' ∉ line.reverse := by simpa using free
    rw [List.getLast?_cons_of_ne_nil more] at ends
    rw [splitAt, if_pos rfl, dropReturn_of_notMem free, List.modifyHead_cons, List.append_nil,
      ih List.not_mem_nil (List.not_mem_of_not_mem_cons also) (Or.inr more) ends]
    exact congrArg (line.reverse :: ·) (congrFun List.modifyHead_id _)
  | case4 line c rest other ih =>
    obtain ⟨here, also⟩ := List.ne_and_not_mem_of_not_mem_cons also
    have free := List.not_mem_cons_of_ne_of_not_mem here free
    have still : rest.getLast? ≠ some '\n' := by
      intro last
      rw [List.getLast?_cons, last] at ends
      exact ends rfl
    obtain ⟨first, others, pieces, split⟩ := exists_splitAt_cons other rest
    rw [ih free also (Or.inl (List.cons_ne_nil _ _)) still, split, pieces]
    simp

/-- Without carriage returns the lines are the pieces between the line feeds. -/
theorem lines_eq_splitAt (free : '\r' ∉ cs) (filled : cs ≠ []) (ends : cs.getLast? ≠ some '\n') :
    lines cs = splitAt '\n' cs := by
  rw [lines, linesFrom_eq_splitAt List.not_mem_nil free (Or.inr filled) ends]
  exact congrFun List.modifyHead_id _

end Doclets.Text
