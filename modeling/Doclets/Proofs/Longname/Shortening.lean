import Doclets.Proofs.Longname.Spelling

/-!
Taking a longname apart loses nothing. It is cut at the last punctuation that stands outside of
quotations and brackets and has text on both sides, and its pieces give the longname again.
-/

namespace Doclets.Longname

variable {cs front back : List Char} {c d : Char} {n : Nesting} {text : String}

/-! ### Variations -/

/-- A name with its variation behind it, in parentheses. -/
def withVariation (name : List Char) : Option (List Char) → List Char
  | some variation => name ++ '(' :: (variation ++ [')'])
  | none => name

/-- A name and its variation are the text that they were split from. -/
theorem withVariation_splitVariation (own : List Char) :
    withVariation (splitVariation own).1 (splitVariation own).2 = own := by
  unfold splitVariation
  split
  next before after cut =>
    split
    next variation ends =>
      split
      · rfl
      · rw [List.isSuffixOf?_eq_some_iff_append_eq] at ends
        rw [eq_append_of_cutParenthesis cut, ← ends]
        rfl
    next => rfl
  next => rfl

/-- What is left of a longname behind its parent. -/
def Parts.own (parts : Parts) : String :=
  String.ofList (withVariation parts.name.toList (parts.variation.map String.toList))

/-- A longname taken apart at the last place where it can be cut. -/
structure Parts.Splits (parts : Parts) (c : Char) : Prop where
  memberof_ne_empty : parts.memberof ≠ ""
  name_ne_empty : parts.name ≠ ""
  divides : Divides .outside parts.longname.toList parts.memberof.toList c parts.own.toList
  last : ∀ more d after, Divides .outside parts.longname.toList more d after →
    parts.memberof.toList.length < more.length → after = []

/-- A longname that can be cut at its ends only, and is left whole. -/
structure Parts.Undivided (parts : Parts) : Prop where
  memberof_eq_empty : parts.memberof = ""
  own_eq : parts.own = parts.longname
  ends : ∀ front c back, Divides .outside parts.longname.toList front c back →
    front = [] ∨ back = []

theorem own_eq {own : List Char} (longname memberof : String) (scope : Option Char) :
    (Parts.own ⟨longname, memberof, scope, String.ofList (splitVariation own).1,
      (splitVariation own).2.map String.ofList⟩).toList = own := by
  have same :
      (splitVariation own).2.map (String.toList ∘ String.ofList) = (splitVariation own).2 := by
    simp [Function.comp_def]
  rw [Parts.own, String.toList_ofList, String.toList_ofList, Option.map_map, same,
    withVariation_splitVariation]

/-- Taking a longname apart loses nothing of what is spelled out of it, divides it at the last place
where it can be divided, and has the same result for what is spelled out. -/
theorem shorten_splits (text : String) : (shorten text).longname = spellPrototypes text ∧
    (match (shorten text).scope with
      | some c => (shorten text).Splits c
      | none => (shorten text).Undivided) ∧
    shorten (shorten text).longname = shorten text := by
  refine ⟨rfl, ?_, ?_⟩
  · unfold shorten
    dsimp only
    cases cut : cutLast .outside [] (spellPrototypes text).toList with
    | none =>
      refine ⟨rfl, String.toList_injective (own_eq _ _ _), fun front c back divides => ?_⟩
      exact (divides.of_cutLast_none cut).imp_left And.right
    | some pieces =>
      obtain ⟨whole, c, back⟩ := pieces
      obtain ⟨front, rfl, filled, behind, divides, last⟩ := divides_of_cutLast cut
      dsimp only
      refine ⟨by simpa using filled, by simpa using splitVariation_ne_nil behind, ?_, ?_⟩
      · rw [own_eq, String.toList_ofList]
        exact divides
      · intro more d after other longer
        rw [String.toList_ofList] at longer
        exact last more d after other longer
  · show shorten (spellPrototypes text) = shorten text
    unfold shorten
    rw [spellPrototypes_spellPrototypes]

example : shorten "Shop.prototype.\"a.b\"(2)" =
    ⟨"Shop#\"a.b\"(2)", "Shop", some '#', "\"a.b\"", some "2"⟩ := by
  decide +kernel

end Doclets.Longname
