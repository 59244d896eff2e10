/-!
Lists of pairs read as maps in insertion order. A key stands at most once in a list made by
`insert`; writing to a key that is there keeps its place.
-/

namespace Doclets.Ledger

variable {κ α β : Type} [DecidableEq κ]

/-- The value written under `key`. -/
def get? (key : κ) : List (κ × α) → Option α
  | [] => none
  | (k, v) :: rest => if k = key then some v else get? key rest

def contains (key : κ) (entries : List (κ × α)) : Bool := (get? key entries).isSome

/-- Applies `f` to the value under `key`, or adds the key at the end. -/
def alter (key : κ) (f : Option α → α) : List (κ × α) → List (κ × α)
  | [] => [(key, f none)]
  | (k, v) :: rest => if k = key then (k, f (some v)) :: rest else (k, v) :: alter key f rest

/-- Writes `value` under `key`, in the place the key has, or at the end. -/
def insert (key : κ) (value : α) (entries : List (κ × α)) : List (κ × α) :=
  alter key (fun _ => value) entries

def erase (key : κ) (entries : List (κ × α)) : List (κ × α) :=
  entries.filter fun entry => entry.1 ≠ key

/-- The list stored under `key`; an absent key stands for the empty list. -/
def listAt (key : κ) (entries : List (κ × List β)) : List β := (get? key entries).getD []

/-- Adds `value` at the end of the list under `key`. -/
def push (key : κ) (value : β) (entries : List (κ × List β)) : List (κ × List β) :=
  alter key (fun old => old.getD [] ++ [value]) entries

theorem mem_of_get? {key : κ} {value : α} {entries : List (κ × α)}
    (found : get? key entries = some value) : (key, value) ∈ entries := by
  induction entries with
  | nil => cases found
  | cons entry rest ih =>
    obtain ⟨k, v⟩ := entry
    unfold get? at found
    split at found
    next same =>
      cases found
      exact same ▸ List.mem_cons_self
    next => exact List.mem_cons_of_mem _ (ih found)

@[simp] theorem get?_alter_self (key : κ) (f : Option α → α) (entries : List (κ × α)) :
    get? key (alter key f entries) = some (f (get? key entries)) := by
  induction entries with
  | nil => simp [alter, get?]
  | cons entry rest ih =>
    obtain ⟨k, v⟩ := entry
    by_cases h : k = key <;> simp [alter, get?, h, ih]

theorem get?_alter_of_ne {key other : κ} (h : other ≠ key) (f : Option α → α)
    (entries : List (κ × α)) : get? other (alter key f entries) = get? other entries := by
  induction entries with
  | nil => simp [alter, get?, h.symm]
  | cons entry rest ih =>
    obtain ⟨k, v⟩ := entry
    by_cases hk : k = key
    · subst hk
      simp [alter, get?, h.symm]
    · by_cases ho : k = other
      · subst ho
        simp [alter, get?, hk]
      · simp [alter, get?, hk, ho, ih]

@[simp] theorem get?_insert_self (key : κ) (value : α) (entries : List (κ × α)) :
    get? key (insert key value entries) = some value := get?_alter_self _ _ _

theorem get?_insert_of_ne {key other : κ} (h : other ≠ key) (value : α) (entries : List (κ × α)) :
    get? other (insert key value entries) = get? other entries := get?_alter_of_ne h _ _

@[simp] theorem get?_erase_self (key : κ) (entries : List (κ × α)) :
    get? key (erase key entries) = none := by
  induction entries with
  | nil => rfl
  | cons entry rest ih =>
    by_cases h : entry.1 = key
    · simpa [erase, h] using ih
    · simpa [erase, h, get?] using ih

theorem get?_erase_of_ne {key other : κ} (h : other ≠ key) (entries : List (κ × α)) :
    get? other (erase key entries) = get? other entries := by
  induction entries with
  | nil => rfl
  | cons entry rest ih =>
    by_cases hk : entry.1 = key
    · have hne : entry.1 ≠ other := fun e => h (e.symm.trans hk)
      simpa [erase, hk, get?, hne, Ne.symm h] using ih
    · by_cases ho : entry.1 = other
      · simp [erase, get?, ho, h]
      · simpa [erase, hk, get?, ho] using ih

@[simp] theorem listAt_push_self (key : κ) (value : β) (entries : List (κ × List β)) :
    listAt key (push key value entries) = listAt key entries ++ [value] := by
  simp [listAt, push]

theorem listAt_push_of_ne {key other : κ} (h : other ≠ key) (value : β)
    (entries : List (κ × List β)) : listAt other (push key value entries) = listAt other entries := by
  simp [listAt, push, get?_alter_of_ne h]

/-- Whatever holds of all old values, and of what is written, holds of all values. -/
theorem forall_mem_alter {P : α → Prop} {key : κ} {f : Option α → α} {entries : List (κ × α)}
    (old : ∀ entry ∈ entries, P entry.2) (written : ∀ value, P (f value)) :
    ∀ entry ∈ alter key f entries, P entry.2 := by
  induction entries with
  | nil => simpa [alter] using written none
  | cons entry rest ih =>
    obtain ⟨k, v⟩ := entry
    have tail := ih fun entry member => old entry (List.mem_cons_of_mem _ member)
    have head : P v := old (k, v) List.mem_cons_self
    by_cases h : k = key
    · simpa [alter, h, written] using fun a b member => old (a, b) (List.mem_cons_of_mem _ member)
    · simpa [alter, h, head] using fun a b member => tail (a, b) member

end Doclets.Ledger
