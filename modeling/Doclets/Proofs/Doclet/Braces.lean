import Doclets.Proofs.Doclet.Types

/-!
Types in braces. A value may begin with a type, which ends with the brace that closes its first one:
in the text between the two the braces are balanced. The count of open braces by which that brace is
found never falls below zero.
-/

namespace Doclets

namespace Text

variable {opening closing c : Char} {depth : Nat} {text : List Char}

/-! ### Counting brackets -/

/-- No beginning of a text closes more brackets than are open: those that it opens, and `depth` in
front of the text. -/
def Within (opening closing : Char) (depth : Nat) (text : List Char) : Prop :=
  ∀ front, front <+: text → front.count closing ≤ front.count opening + depth

theorem within_nil : Within opening closing depth [] := by
  intro front begins
  rw [List.prefix_nil.mp begins]
  exact Nat.zero_le _

theorem within_cons : Within opening closing depth (c :: text) ↔
    ∀ front, front <+: text → (c :: front).count closing ≤ (c :: front).count opening + depth := by
  constructor
  · exact fun within front begins => within (c :: front) (List.cons_prefix_cons.mpr ⟨rfl, begins⟩)
  · intro within front begins
    rcases List.prefix_cons_iff.mp begins with rfl | ⟨more, rfl, behind⟩
    · exact Nat.zero_le _
    · exact within more behind

theorem within_opening (apart : opening ≠ closing) :
    Within opening closing depth (opening :: text) ↔ Within opening closing (depth + 1) text := by
  rw [within_cons]
  refine forall₂_congr fun front _ => ?_
  rw [List.count_cons_self, List.count_cons_of_ne apart]
  omega

theorem within_closing (apart : opening ≠ closing) :
    Within opening closing (depth + 1) (closing :: text) ↔ Within opening closing depth text := by
  rw [within_cons]
  refine forall₂_congr fun front _ => ?_
  rw [List.count_cons_self, List.count_cons_of_ne apart.symm]
  omega

theorem not_within_closing (apart : opening ≠ closing) :
    ¬ Within opening closing 0 (closing :: text) := by
  rw [within_cons]
  intro within
  have first := within [] List.nil_prefix
  rw [List.count_cons_self, List.count_cons_of_ne apart.symm] at first
  simp at first

theorem within_other (unopened : c ≠ opening) (unclosed : c ≠ closing) :
    Within opening closing depth (c :: text) ↔ Within opening closing depth text := by
  rw [within_cons]
  refine forall₂_congr fun front _ => ?_
  rw [List.count_cons_of_ne unopened, List.count_cons_of_ne unclosed]

/-- Brackets are balanced if none is closed too early and as many are closed as were open. -/
theorem balanced_iff (apart : opening ≠ closing) : balanced opening closing depth text = true ↔
    Within opening closing depth text ∧ text.count closing = text.count opening + depth := by
  fun_induction balanced opening closing depth text with
  | case1 depth => simp [within_nil, eq_comm]
  | case2 depth rest ih =>
    rw [ih, within_opening apart, List.count_cons_self, List.count_cons_of_ne apart,
      Nat.add_right_comm, Nat.add_assoc]
  | case3 rest => simp [not_within_closing apart]
  | case4 rest depth other ih =>
    rw [ih, within_closing apart, List.count_cons_self, List.count_cons_of_ne apart.symm,
      Nat.succ_eq_add_one, ← Nat.add_assoc, Nat.add_right_cancel_iff]
  | case5 depth c rest unopened unclosed ih =>
    rw [ih, within_other unopened unclosed, List.count_cons_of_ne unopened,
      List.count_cons_of_ne unclosed]

end Text

namespace Doclet

variable {depth : Nat} {text inner after : List Char} {value : String}
  {result : Option (List String) × String}

/-! ### The closing brace -/

theorem opening_ne_closing : '\x7b' ≠ '\x7d' := by decide

/-- Behind a balanced text stands the brace that closes the last open one. -/
theorem closingBrace?_append (balanced : Text.balanced '\x7b' '\x7d' depth inner = true) :
    closingBrace? depth (inner ++ '\x7d' :: after) = some (inner, after) := by
  fun_induction Text.balanced '\x7b' '\x7d' depth inner with
  | case1 depth =>
    obtain rfl : depth = 0 := by simpa using balanced
    rfl
  | case2 depth rest ih =>
    simp [closingBrace?, ih balanced]
  | case3 => cases balanced
  | case4 rest depth other ih =>
    simp [closingBrace?, ih balanced]
  | case5 depth c rest unopened unclosed ih =>
    simp [closingBrace?, unopened, unclosed, ih balanced]

theorem exists_of_map_cons {c : Char} {cut : Option (List Char × List Char)}
    (found : (cut.map fun (inner, after) => (c :: inner, after)) = some (inner, after)) :
    ∃ more, inner = c :: more ∧ cut = some (more, after) := by
  obtain ⟨⟨more, behind⟩, same, pieces⟩ := Option.map_eq_some_iff.mp found
  cases pieces
  exact ⟨more, rfl, same⟩

/-- What is cut off in front of a closing brace is balanced. -/
theorem balanced_of_closingBrace? (found : closingBrace? depth text = some (inner, after)) :
    text = inner ++ '\x7d' :: after ∧ Text.balanced '\x7b' '\x7d' depth inner = true := by
  fun_induction closingBrace? depth text generalizing inner with
  | case1 => cases found
  | case2 depth rest ih =>
    obtain ⟨more, rfl, later⟩ := exists_of_map_cons found
    obtain ⟨rfl, balanced⟩ := ih later
    exact ⟨rfl, by simpa [Text.balanced] using balanced⟩
  | case3 rest =>
    cases found
    exact ⟨rfl, rfl⟩
  | case4 rest depth other ih =>
    obtain ⟨more, rfl, later⟩ := exists_of_map_cons found
    obtain ⟨rfl, balanced⟩ := ih later
    exact ⟨rfl, by simpa [Text.balanced] using balanced⟩
  | case5 depth c rest unopened unclosed ih =>
    obtain ⟨more, rfl, later⟩ := exists_of_map_cons found
    obtain ⟨rfl, balanced⟩ := ih later
    exact ⟨rfl, by simpa [Text.balanced, unopened, unclosed] using balanced⟩

/-- No brace is found if those that are open in front of a text stay open throughout. -/
theorem closingBrace?_eq_none_iff :
    closingBrace? depth text = none ↔ Text.Within '\x7b' '\x7d' depth text := by
  fun_induction closingBrace? depth text with
  | case1 => exact iff_of_true rfl Text.within_nil
  | case2 depth rest ih => rw [Option.map_eq_none_iff, ih, Text.within_opening opening_ne_closing]
  | case3 rest => exact iff_of_false nofun (Text.not_within_closing opening_ne_closing)
  | case4 rest depth other ih =>
    rw [Option.map_eq_none_iff, ih, Text.within_closing opening_ne_closing]
  | case5 depth c rest unopened unclosed ih =>
    rw [Option.map_eq_none_iff, ih, Text.within_other unopened unclosed]

theorem splitType_of_brace (begins : Text.trim value.toList = '\x7b' :: text) :
    splitType value = match closingBrace? 0 text with
      | some (inner, after) => (unionNames? (String.ofList inner), String.ofList (Text.trim after))
      | none => (none, String.ofList ('\x7b' :: text)) := by
  unfold splitType
  rw [begins]
  rfl

theorem splitType_of_bare (other : (Text.trim value.toList).head? ≠ some '\x7b') :
    splitType value = (none, String.ofList (Text.trim value.toList)) := by
  unfold splitType
  split
  next begins => exact absurd (by rw [begins]; rfl) other
  next => rfl

/-! ### The count of open braces -/

/-- What comes of counting open braces: a result, or what is left of a text where a brace would be
closed though none is open. -/
abbrev Counted := Except (List Char)

namespace Counted

/-- The number of open braces when one is closed in front of `rest`. -/
def close (rest : List Char) : Nat → Counted Nat
  | 0 => .error rest
  | opened + 1 => .ok opened

/-- Cuts a text behind the brace that leaves none open; in front of it `opened` braces are open, and
`seen` is what was read, reversed. -/
def cut (opened : Nat) (seen : List Char) :
    List Char → Counted (Option (List Char × List Char))
  | [] => return none
  | c :: rest =>
    if c = '\x7b' then cut (opened + 1) (c :: seen) rest
    else if c = '\x7d' then do
      let opened ← close rest opened
      if opened = 0 then return some (seen.reverse, rest)
      else cut opened (c :: seen) rest
    else cut opened (c :: seen) rest

/-- Takes a type in braces off the front of a value. -/
def splitType (value : String) : Counted (Option (List String) × String) :=
  let text := Text.trim value.toList
  if text.head? = some '\x7b' then do
    match ← cut 0 [] text with
    | some (front, after) =>
      return (unionNames? (String.ofList front.tail), String.ofList (Text.trim after))
    | none => return (none, String.ofList text)
  else return (none, String.ofList text)

/-- What has been read of a text stands in front of what is cut off the rest. -/
def behind (seen : List Char) (cut : Option (List Char × List Char)) :
    Option (List Char × List Char) :=
  cut.map fun (inner, after) => (seen.reverse ++ inner, after)

theorem behind_map_cons (c : Char) (seen : List Char) (cut : Option (List Char × List Char)) :
    behind seen (cut.map fun (inner, after) => (c :: inner, after)) = behind (c :: seen) cut := by
  simp [behind, Function.comp_def]

/-- While a brace is open the count goes on, up to the brace that closes the last one. -/
theorem cut_eq (depth : Nat) (seen text : List Char) :
    cut (depth + 1) seen text = .ok (behind seen (closingBrace? depth text)) := by
  -- one brace more is open than `depth`: wherever one is closed, there is one to close
  fun_induction closingBrace? depth text generalizing seen with
  | case1 => rfl
  | case2 depth rest ih => rw [cut, if_pos rfl, ih, behind_map_cons]
  | case3 rest =>
    rw [cut, if_neg opening_ne_closing.symm, if_pos rfl]
    simp [close, behind, bind, Except.bind, pure, Except.pure]
  | case4 rest depth other ih =>
    rw [cut, if_neg other, if_pos rfl, behind_map_cons]
    exact ih ('\x7d' :: seen)
  | case5 depth c rest unopened unclosed ih =>
    rw [cut, if_neg unopened, if_neg unclosed, ih, behind_map_cons]

example : cut 0 [] ['\x7d', 'a'] = .error ['a'] := rfl

/-- The brace in front of a type is open when the rest is read. -/
theorem cut_opening (rest : List Char) : cut 0 [] ('\x7b' :: rest) =
    .ok (behind ['\x7b'] (closingBrace? 0 rest)) :=
  cut_eq 0 ['\x7b'] rest

theorem splitType_eq (value : String) :
    Counted.splitType value = .ok (Doclet.splitType value) := by
  unfold Counted.splitType
  dsimp only
  split
  next begins =>
    obtain ⟨rest, text⟩ := List.head?_eq_some_iff.mp begins
    rw [text, cut_opening, splitType_of_brace text]
    cases closingBrace? 0 rest <;> rfl
  next other => rw [splitType_of_bare other]; rfl

end Counted

/-! ### Values -/

/-- How a value is taken apart that has no blanks at its ends. -/
inductive Splits : List Char → Option (List String) × String → Prop where
  /-- The first brace is closed behind a text in which the braces are balanced. -/
  | enclosed {inner after : List Char} (within : Text.Within '\x7b' '\x7d' 0 inner)
    (closed : inner.count '\x7d' = inner.count '\x7b') :
    Splits ('\x7b' :: (inner ++ '\x7d' :: after))
      (unionNames? (String.ofList inner), String.ofList (Text.trim after))
  /-- The first brace stays open up to the end. -/
  | unclosed {rest : List Char} (within : Text.Within '\x7b' '\x7d' 0 rest) :
    Splits ('\x7b' :: rest) (none, String.ofList ('\x7b' :: rest))
  | bare {text : List Char} (other : text.head? ≠ some '\x7b') :
    Splits text (none, String.ofList text)

theorem Splits.splitType_eq (splits : Splits text result)
    (same : Text.trim value.toList = text) : splitType value = result := by
  cases splits with
  | @enclosed inner after within closed =>
    have balanced := (Text.balanced_iff opening_ne_closing).mpr ⟨within, closed⟩
    rw [splitType_of_brace same, closingBrace?_append balanced]
  | unclosed within => rw [splitType_of_brace same, closingBrace?_eq_none_iff.mpr within]
  | bare other => rw [splitType_of_bare (same ▸ other), same]

theorem splits_splitType (value : String) :
    Splits (Text.trim value.toList) (splitType value) := by
  by_cases begins : (Text.trim value.toList).head? = some '\x7b'
  · obtain ⟨rest, text⟩ := List.head?_eq_some_iff.mp begins
    rw [splitType_of_brace text, text]
    cases cut : closingBrace? 0 rest with
    | none => exact .unclosed (closingBrace?_eq_none_iff.mp cut)
    | some pieces =>
      obtain ⟨rfl, balanced⟩ := balanced_of_closingBrace? cut
      obtain ⟨within, closed⟩ := (Text.balanced_iff opening_ne_closing).mp balanced
      exact .enclosed within closed
  · rw [splitType_of_bare begins]
    exact .bare begins

/-- The count of open braces never falls below zero, and a value is taken apart at the brace that
closes its first one, if there is one. -/
theorem splitType_counted (value : String) : Counted.splitType value = .ok (splitType value) ∧
    ∀ result, splitType value = result ↔ Splits (Text.trim value.toList) result :=
  ⟨Counted.splitType_eq value, fun _ => ⟨fun same => same ▸ splits_splitType value,
    fun splits => splits.splitType_eq rfl⟩⟩

example : splitType " \x7b\x7ba: b|c\x7d|d\x7d e \x7d" =
    (some ["\x7ba: b", "c\x7d", "d"], "e \x7d") := by
  decide +kernel

end Doclet

end Doclets
