import Mathlib.Data.List.Infix
import Doclets.Comment.Text

/-!
The parts of a comment. A text that holds no marker is its own only part, and a marker between two
such texts makes two parts of them, unless it is read as the beginning of a longer word. Whatever a
comment holds, its parts hold no markers and are what stands between them.
-/

namespace Doclets.Comment

def marker : List Char := ['@', 'a', 'l', 's', 'o']

/-- A marker stands in the text, and no longer word begins with it. -/
def Marked (cs : List Char) : Prop := ∃ rest, marker ++ rest <:+ cs ∧ endsWord rest = true

variable {cs rest back piece : List Char} {c : Char}

/-! ### Markers -/

theorem Marked.of_suffix (marked : Marked rest) (inner : rest <:+ cs) : Marked cs := by
  obtain ⟨behind, stands, ends⟩ := marked
  exact ⟨behind, stands.trans inner, ends⟩

theorem not_marked_of_notMem (absent : '@' ∉ cs) : ¬ Marked cs := by
  rintro ⟨rest, stands, _⟩
  exact absent (stands.subset (by simp [marker]))

theorem Marked.cases (marked : Marked (c :: cs)) :
    (∃ rest, c :: cs = marker ++ rest ∧ endsWord rest = true) ∨ Marked cs := by
  obtain ⟨rest, stands, ends⟩ := marked
  rcases List.suffix_cons_iff.mp stands with same | inner
  · exact Or.inl ⟨rest, same.symm, ends⟩
  · exact Or.inr ⟨rest, inner, ends⟩

theorem Marked.of_cons (marked : Marked (c :: cs)) (other : c ≠ '@') : Marked cs := by
  rcases marked.cases with ⟨rest, same, _⟩ | inner
  · exact absurd (List.cons.inj same).1 other
  · exact inner

theorem endsWord_append (filled : cs ≠ []) (back : List Char) :
    endsWord (cs ++ back) = endsWord cs := by
  cases cs with
  | nil => exact absurd rfl filled
  | cons c cs => rfl

/-- What holds no last letter of a marker completes none. -/
theorem Marked.of_append (marked : Marked (cs ++ back)) (absent : 'o' ∉ back) : Marked cs := by
  obtain ⟨rest, ⟨front, same⟩, ends⟩ := marked
  rw [← List.append_assoc] at same
  rcases List.append_eq_append_iff.mp same with ⟨inner, rfl, rfl⟩ | ⟨tail, split, longer⟩
  · refine ⟨inner, ⟨front, by simp⟩, ?_⟩
    by_cases none : inner = []
    · rw [none]
      rfl
    · rwa [endsWord_append none] at ends
  · cases tail using List.reverseRecOn with
    | nil => exact ⟨[], ⟨front, by simpa using split⟩, rfl⟩
    | append_singleton tail last =>
      have letters := congrArg List.getLast? split
      rw [List.getLast?_append_of_ne_nil _ (by simp [marker]), ← List.append_assoc,
        List.getLast?_concat] at letters
      obtain rfl : 'o' = last := Option.some.inj letters
      exact absurd (by simp [longer]) absent

/-! ### Parts -/

theorem partsFrom_ne_nil (part cs : List Char) : partsFrom part cs ≠ [] := by
  fun_induction partsFrom part cs <;> simp_all

theorem parts_ne_nil (comment : String) : parts comment ≠ [] := by
  unfold parts
  simpa using partsFrom_ne_nil [] comment.toList

/-- A text without a marker is its own only part. -/
theorem partsFrom_of_not_marked (part : List Char) (unmarked : ¬ Marked cs) :
    partsFrom part cs = [part.reverse ++ cs] := by
  fun_induction partsFrom part cs with
  | case1 part => simp
  | case2 part rest ends => exact absurd ⟨rest, List.suffix_rfl, ends⟩ unmarked
  | case3 part rest _ ih =>
    rw [ih fun marked => unmarked (marked.of_suffix ⟨marker, rfl⟩)]
    simp
  | case4 part c rest _ ih =>
    rw [ih fun marked => unmarked (marked.of_suffix (List.suffix_cons c rest))]
    simp

/-- No marker begins in front of another one without ending there. -/
theorem not_marker_append (other : ∀ more, cs = ['a', 'l', 's', 'o'] ++ more → False)
    (more : List Char) : cs ++ marker ++ rest ≠ ['a', 'l', 's', 'o'] ++ more := by
  intro same
  rw [List.append_assoc] at same
  rcases List.append_eq_append_iff.mp same with ⟨tail, split, longer⟩ | ⟨tail, split, _⟩
  · cases tail with
    | nil => exact other [] (by simpa using split.symm)
    | cons first tail =>
      obtain rfl : '@' = first := (List.cons.inj longer).1
      have listed : '@' ∈ ['a', 'l', 's', 'o'] := split ▸ by simp
      exact absurd listed (by decide)
  · exact other tail split

/-- A marker between two texts that hold none makes two parts of them, if it ends a word. -/
theorem partsFrom_marker (part : List Char) (front : ¬ Marked cs) (behind : ¬ Marked rest) :
    partsFrom part (cs ++ marker ++ rest) =
      if endsWord rest then [part.reverse ++ cs, rest]
      else [part.reverse ++ (cs ++ marker ++ rest)] := by
  fun_induction partsFrom part cs with
  | case1 part =>
    rw [List.nil_append, List.append_nil]
    simp only [marker, List.cons_append, List.nil_append, partsFrom]
    split
    · rw [partsFrom_of_not_marked [] behind]
      rfl
    · rw [partsFrom_of_not_marked _ behind]
      simp
  | case2 part cs ends => exact absurd ⟨cs, List.suffix_rfl, ends⟩ front
  | case3 part cs goes ih =>
    have filled : cs ≠ [] := by
      rintro rfl
      exact goes rfl
    have still : ¬ endsWord (cs ++ marker ++ rest) = true := by
      rwa [List.append_assoc, endsWord_append filled]
    have unmarked : ¬ Marked cs := fun marked => front (marked.of_suffix ⟨marker, rfl⟩)
    simp only [List.cons_append, partsFrom]
    rw [if_neg still, ih unmarked]
    simp
  | case4 part c cs other ih =>
    have unmarked : ¬ Marked cs := fun marked =>
      front (marked.of_suffix (List.suffix_cons c cs))
    have read : partsFrom part (c :: (cs ++ marker ++ rest)) =
        partsFrom (c :: part) (cs ++ marker ++ rest) := by
      apply partsFrom.eq_3
      intro more begins same
      exact not_marker_append (fun more split => other more begins split) more same
    rw [List.cons_append, List.cons_append, read, ih unmarked]
    simp

/-! ### The parts of any text -/

/-- What has been read of a part stands in front of it, and changes no other. -/
theorem partsFrom_append (part front cs : List Char) :
    partsFrom (part ++ front) cs = (partsFrom part cs).modifyHead (front.reverse ++ ·) := by
  fun_induction partsFrom part cs with
  | case1 part => simp [partsFrom]
  | case2 part rest ends _ => simp [partsFrom, ends]
  | case3 part rest goes ih =>
    rw [← ih, partsFrom, if_neg goes]
    rfl
  | case4 part c rest other ih =>
    rw [← ih, partsFrom]
    · rfl
    · exact other

theorem intercalate_partsFrom (part cs : List Char) :
    marker.intercalate (partsFrom part cs) = part.reverse ++ cs := by
  fun_induction partsFrom part cs with
  | case1 part => simp
  | case2 part rest ends ih =>
    rw [List.intercalate_cons_of_ne_nil (partsFrom_ne_nil [] rest), ih]
    simp [marker]
  | case3 part rest _ ih =>
    rw [ih]
    simp
  | case4 part c rest _ ih =>
    rw [ih]
    simp

/-- The first part ends a word in front of it where the whole text does: no word begins with the
marker behind the part. -/
theorem exists_of_partsFrom {others : List (List Char)}
    (split : partsFrom [] cs = piece :: others) :
    ∃ more, cs = piece ++ more ∧ endsWord piece = endsWord cs := by
  have whole := intercalate_partsFrom [] cs
  rw [split] at whole
  cases others with
  | nil => exact ⟨[], by simpa using whole.symm, by simpa using congrArg endsWord whole⟩
  | cons next others =>
    rw [List.intercalate_cons_cons, List.reverse_nil, List.nil_append] at whole
    subst whole
    refine ⟨marker ++ marker.intercalate (next :: others), by simp, ?_⟩
    by_cases none : piece = []
    · have mark : endsWord ['@'] = true := by decide +kernel
      rw [none]
      exact mark.symm
    · rw [List.append_assoc, endsWord_append none]

/-- A part of a text that `front` was read of stands behind it, if it is the first, and is a part of
the rest otherwise. -/
theorem cases_of_mem_partsFrom (front : List Char) (listed : piece ∈ partsFrom front.reverse cs) :
    (∃ first more, first ∈ partsFrom [] cs ∧ piece = front ++ first ∧ cs = first ++ more ∧
      endsWord first = endsWord cs) ∨ piece ∈ partsFrom [] cs := by
  obtain ⟨first, others, split⟩ := List.exists_cons_of_ne_nil (partsFrom_ne_nil [] cs)
  rw [← List.nil_append front.reverse, partsFrom_append, split, List.modifyHead_cons,
    List.reverse_reverse] at listed
  rcases List.mem_cons.mp listed with here | later
  · obtain ⟨more, text, word⟩ := exists_of_partsFrom split
    exact Or.inl ⟨first, more, split ▸ List.mem_cons_self, here, text, word⟩
  · exact Or.inr (split ▸ List.mem_cons_of_mem first later)

/-- No part holds a marker. -/
theorem not_marked_of_mem_partsFrom (part : List Char) (listed : piece ∈ partsFrom [] cs) :
    ¬ Marked piece := by
  fun_induction partsFrom part cs generalizing piece with
  | case1 part =>
    obtain rfl := List.mem_singleton.mp listed
    exact not_marked_of_notMem List.not_mem_nil
  | case2 part rest ends ih =>
    rw [partsFrom, if_pos ends] at listed
    rcases List.mem_cons.mp listed with rfl | later
    · exact not_marked_of_notMem List.not_mem_nil
    · exact ih later
  | case3 part rest goes ih =>
    rw [partsFrom, if_neg goes] at listed
    rcases cases_of_mem_partsFrom marker listed with ⟨first, _, own, rfl, _, word⟩ | later
    · intro marked
      rcases marked.cases with ⟨behind, same, ends⟩ | inner
      · have same : marker ++ first = marker ++ behind := same
        obtain rfl := List.append_cancel_left same
        exact goes (word ▸ ends)
      · exact ih own ((((inner.of_cons (by decide)).of_cons (by decide)).of_cons
          (by decide)).of_cons (by decide))
    · exact ih later
  | case4 part c rest other ih =>
    rw [partsFrom] at listed
    · rcases cases_of_mem_partsFrom [c] listed with ⟨first, more, own, rfl, text, _⟩ | later
      · intro marked
        rcases marked.cases with ⟨behind, same, _⟩ | inner
        · obtain ⟨rfl, rfl⟩ := List.cons.inj same
          exact other (behind ++ more) rfl text
        · exact ih own inner
      · exact ih later
    · exact other

/-- The number of places in a text where a marker stands and no longer word begins with it. -/
def markers (cs : List Char) : Nat :=
  cs.tails.countP fun rest => marker.isPrefixOf rest && endsWord (rest.drop marker.length)

/-- The parts are as many as the markers and one more. -/
theorem length_partsFrom (part cs : List Char) :
    (partsFrom part cs).length = markers cs + 1 := by
  fun_induction partsFrom part cs with
  | case1 part => rfl
  | case2 part rest ends ih =>
    rw [List.length_cons, ih]
    simp [markers, marker, List.isPrefixOf, ends]
  | case3 part rest goes ih =>
    rw [ih]
    simp [markers, marker, List.isPrefixOf, goes]
  | case4 part c rest other ih =>
    rw [ih]
    have plain : marker.isPrefixOf (c :: rest) = false := by
      rw [Bool.eq_false_iff, ne_eq, List.isPrefixOf_iff_prefix]
      rintro ⟨more, same⟩
      obtain ⟨rfl, split⟩ := List.cons.inj same
      exact other more rfl split.symm
    simp [markers, plain]

/-- The parts of a comment are what stands between its markers: joined by them they are the comment
again, none of them holds one, and there are as many as the comment has places for them. -/
theorem parts_partition (comment : String) :
    "@also".intercalate (parts comment) = comment ∧
      (∀ part ∈ parts comment, parts part = [part]) ∧
      (parts comment).length = markers comment.toList + 1 := by
  refine ⟨?_, ?_, ?_⟩
  · apply String.toList_injective
    have joined := intercalate_partsFrom [] comment.toList
    simpa [parts, marker, Function.comp_def] using joined
  · intro part listed
    obtain ⟨piece, own, rfl⟩ := List.mem_map.mp listed
    have unmarked := not_marked_of_mem_partsFrom [] own
    rw [parts, String.toList_ofList, partsFrom_of_not_marked [] unmarked]
    rfl
  · rw [parts, List.length_map, length_partsFrom]

example : parts "@also@alsoKnownAs @also" = ["", "@alsoKnownAs ", ""] := by decide +kernel

end Doclets.Comment
