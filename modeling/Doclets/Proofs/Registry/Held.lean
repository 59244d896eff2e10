import Doclets.Registry.FollowUp

/-!
The ids that are kept. A doclet is asked for by its id long after the id was given out: from the
results, their look-ups and the registrations, and from what remains to be done for a symbol. All of
these only ever keep ids of doclets that are stored, and no doclet is ever taken out.
-/

namespace Doclets

/-! ### Lists under keys -/

namespace Ledger

variable {κ β : Type} [DecidableEq κ] {key : κ} {b : β} {entries : List (κ × List β)}

/-- All that is stored under any key. -/
def values (entries : List (κ × List β)) : List β := entries.flatMap Prod.snd

theorem mem_values_of_mem_listAt (listed : b ∈ listAt key entries) : b ∈ values entries := by
  unfold listAt at listed
  cases found : get? key entries with
  | none => simp [found] at listed
  | some list =>
    rw [found] at listed
    exact List.mem_flatMap.mpr ⟨_, mem_of_get? found, listed⟩

theorem mem_values_alter {f : Option (List β) → List β}
    (listed : b ∈ values (alter key f entries)) :
    b ∈ values entries ∨ b ∈ f (get? key entries) := by
  induction entries with
  | nil => simpa [values, alter, get?] using listed
  | cons entry rest ih =>
    obtain ⟨k, list⟩ := entry
    unfold alter at listed
    unfold get?
    by_cases same : k = key
    · rw [if_pos same] at listed ⊢
      rcases List.mem_append.mp listed with written | old
      · exact Or.inr written
      · exact Or.inl (List.mem_append_right _ old)
    · rw [if_neg same] at listed ⊢
      rcases List.mem_append.mp listed with old | other
      · exact Or.inl (List.mem_append_left _ old)
      · exact (ih other).imp_left (List.mem_append_right _)

theorem mem_values_push {new : β} (listed : b ∈ values (push key new entries)) :
    b ∈ values entries ∨ b = new := by
  rcases mem_values_alter listed with old | written
  · exact Or.inl old
  · rcases List.mem_append.mp written with old | last
    · exact Or.inl (mem_values_of_mem_listAt old)
    · exact Or.inr (List.mem_singleton.mp last)

theorem mem_values_erase (listed : b ∈ values (erase key entries)) : b ∈ values entries := by
  obtain ⟨entry, kept, inside⟩ := List.mem_flatMap.mp listed
  exact List.mem_flatMap.mpr ⟨entry, (List.mem_filter.mp kept).1, inside⟩

end Ledger

/-! ### Where ids are kept -/

/-- The ids that what remains to be done for a symbol will ask for. -/
def FollowUp.held : FollowUp → List DocletId
  | .trackName scope => [scope]
  | .joinEnum | .joinClass => []

def Index.held (x : Index) : List DocletId :=
  Ledger.values x.longname ++ Ledger.values x.memberof ++ Ledger.values x.documented ++ x.borrowed

def History.held {κ : Type} [Ord κ] (h : History κ) : List DocletId :=
  h.entries.toList.flatMap fun entry => entry.2.toList

namespace Registry

/-- Every id that a registry keeps. -/
def held (r : Registry) : List DocletId :=
  r.global :: (r.results.toList ++ r.index.held ++ r.byNode.held ++ r.byLongname.held)

/-- Every id that is kept is that of a stored doclet. -/
def Bounded (r : Registry) : Prop := ∀ id ∈ r.held, id < r.doclets.size

/-- What remains to be done will ask for stored doclets only. -/
def Supports (r : Registry) (pending : List FollowUp) : Prop :=
  ∀ followUp ∈ pending, ∀ id ∈ followUp.held, id < r.doclets.size

end Registry

section

variable {κ : Type} [Ord κ] [Std.TransOrd κ] [Std.LawfulEqOrd κ] {h : History κ} {key : κ}
  {id other : DocletId}

theorem History.mem_held : id ∈ h.held ↔ ∃ key, id ∈ h.all key := by
  constructor
  · intro kept
    obtain ⟨⟨key, ids⟩, entry, inside⟩ := List.mem_flatMap.mp kept
    refine ⟨key, ?_⟩
    rw [all, Std.TreeMap.mem_toList_iff_getElem?_eq_some.mp entry]
    exact inside
  · rintro ⟨key, registered⟩
    unfold all at registered
    split at registered
    next ids found =>
      exact List.mem_flatMap.mpr
        ⟨(key, ids), Std.TreeMap.mem_toList_iff_getElem?_eq_some.mpr found, registered⟩
    next => cases registered

theorem History.mem_held_put (kept : id ∈ (h.put key other).held) : id ∈ h.held ∨ id = other := by
  obtain ⟨k, registered⟩ := mem_held.mp kept
  rcases mem_all_put.mp registered with old | ⟨_, new⟩
  · exact Or.inl (mem_held.mpr ⟨k, old⟩)
  · exact Or.inr new

theorem History.mem_held_of_latest? (found : h.latest? key = some id) : id ∈ h.held := by
  rw [latest?_eq_getLast?] at found
  exact mem_held.mpr ⟨key, List.mem_of_getLast? found⟩

end

namespace Index

variable {x : Index} {id other : DocletId} {d : Doclet}

theorem mem_held : id ∈ x.held ↔ id ∈ Ledger.values x.longname ∨ id ∈ Ledger.values x.memberof ∨
    id ∈ Ledger.values x.documented ∨ id ∈ x.borrowed := by
  simp only [held, List.mem_append, or_assoc]

theorem mem_held_add (kept : id ∈ (x.add other d).held) : id ∈ x.held ∨ id = other := by
  rw [mem_held] at kept ⊢
  rcases kept with longname | memberof | documented | borrowed
  · exact (Ledger.mem_values_push longname).imp_left Or.inl
  · cases parent : d.memberof with
    | none =>
      simp only [add, parent] at memberof
      exact Or.inl (Or.inr (Or.inl memberof))
    | some parent' =>
      simp only [add, parent] at memberof
      exact (Ledger.mem_values_push memberof).imp_left fun old => Or.inr (Or.inl old)
  · unfold add at documented
    dsimp only at documented
    split at documented
    · exact Or.inl (Or.inr (Or.inr (Or.inl documented)))
    · exact (Ledger.mem_values_push documented).imp_left fun old => Or.inr (Or.inr (Or.inl old))
  · unfold add at borrowed
    dsimp only at borrowed
    split at borrowed
    · rcases List.mem_append.mp borrowed with old | new
      · exact Or.inl (Or.inr (Or.inr (Or.inr old)))
      · exact Or.inr (List.mem_singleton.mp new)
    · exact Or.inl (Or.inr (Or.inr (Or.inr borrowed)))

theorem mem_documented_refile (kept : id ∈ Ledger.values (x.refile other d).documented) :
    id ∈ Ledger.values x.documented ∨ id = other := by
  have filed {ids : List DocletId} (listed : id ∈ ids)
      (known : ids ⊆ (x.documentedAt d.longname).filter (· ≠ other) ++ [other]) :
      id ∈ Ledger.values x.documented ∨ id = other := by
    rcases List.mem_append.mp (known listed) with old | new
    · exact Or.inl (Ledger.mem_values_of_mem_listAt (List.mem_filter.mp old).1)
    · exact Or.inr (List.mem_singleton.mp new)
  unfold refile at kept
  dsimp only at kept
  generalize written : (if d.undocumented then _ else _ : List DocletId) = ids at kept
  have known : ids ⊆ (x.documentedAt d.longname).filter (· ≠ other) ++ [other] := by
    rw [← written]
    split
    · exact List.subset_append_left _ _
    · exact List.Subset.refl _
  split at kept
  · exact Or.inl (Ledger.mem_values_erase kept)
  · rcases Ledger.mem_values_alter kept with old | new
    · exact Or.inl old
    · exact filed new known

theorem mem_held_refile (kept : id ∈ (x.refile other d).held) : id ∈ x.held ∨ id = other := by
  rw [mem_held] at kept ⊢
  rcases kept with longname | memberof | documented | borrowed
  · exact Or.inl (Or.inl longname)
  · exact Or.inl (Or.inr (Or.inl memberof))
  · exact (mem_documented_refile documented).imp_left fun old => Or.inr (Or.inr (Or.inl old))
  · exact Or.inl (Or.inr (Or.inr (Or.inr borrowed)))

end Index

namespace Registry

variable {r s : Registry} {id : DocletId}

theorem mem_held : id ∈ r.held ↔ id = r.global ∨ id ∈ r.results ∨ id ∈ r.index.held ∨
    id ∈ r.byNode.held ∨ id ∈ r.byLongname.held := by
  simp only [held, List.mem_cons, List.mem_append, Array.mem_toList_iff, or_assoc]

theorem supports_nil (r : Registry) : r.Supports [] := fun _ none => nomatch none

theorem Supports.grow {pending : List FollowUp} (h : r.Supports pending)
    (size : r.doclets.size ≤ s.doclets.size) : s.Supports pending :=
  fun followUp waiting id held => Nat.lt_of_lt_of_le (h followUp waiting id held) size

theorem bounded_empty : empty.Bounded := by
  intro id kept
  have first : id = 0 := by
    rcases mem_held.mp kept with global | result | indexed | node | longname
    · exact global
    · simp [empty] at result
    · cases indexed
    · refine (History.mem_held_put node).resolve_left fun old => ?_
      obtain ⟨key, registered⟩ := History.mem_held.mp old
      simp at registered
    · refine (History.mem_held_put longname).resolve_left fun old => ?_
      obtain ⟨key, registered⟩ := History.mem_held.mp old
      simp at registered
  rw [first]
  decide

namespace Bounded

variable (h : r.Bounded)

include h

theorem global : r.global < r.doclets.size := h _ (mem_held.mpr (Or.inl rfl))

theorem result (listed : id ∈ r.results) : id < r.doclets.size :=
  h id (mem_held.mpr (Or.inr (Or.inl listed)))

theorem indexed (kept : id ∈ r.index.held) : id < r.doclets.size :=
  h id (mem_held.mpr (Or.inr (Or.inr (Or.inl kept))))

theorem ofNode {t : Tree} {node : NodeRef} (found : r.idOfNode? t node = some id) :
    id < r.doclets.size :=
  h id (mem_held.mpr
    (Or.inr (Or.inr (Or.inr (Or.inl (History.mem_held_of_latest? found))))))

theorem ofLongname {longname : String} (found : r.idOfLongname? longname = some id) :
    id < r.doclets.size :=
  h id (mem_held.mpr
    (Or.inr (Or.inr (Or.inr (Or.inr (History.mem_held_of_latest? found))))))

theorem longname {l : String} (listed : id ∈ Ledger.listAt l r.index.longname) :
    id < r.doclets.size :=
  h.indexed (Index.mem_held.mpr (Or.inl (Ledger.mem_values_of_mem_listAt listed)))

theorem member {parent : String} (listed : id ∈ r.index.membersOf parent) : id < r.doclets.size :=
  h.indexed (Index.mem_held.mpr (Or.inr (Or.inl (Ledger.mem_values_of_mem_listAt listed))))

theorem documented {l : String} (listed : id ∈ r.index.documentedAt l) : id < r.doclets.size :=
  h.indexed (Index.mem_held.mpr
    (Or.inr (Or.inr (Or.inl (Ledger.mem_values_of_mem_listAt listed)))))

theorem borrowed (listed : id ∈ r.index.borrowed) : id < r.doclets.size :=
  h.indexed (Index.mem_held.mpr (Or.inr (Or.inr (Or.inr listed))))

/-- Nothing is taken out, and wherever ids are kept only that of one stored doclet is added. -/
theorem of_holders (size : r.doclets.size ≤ s.doclets.size) (bound : id < s.doclets.size)
    (global : s.global = r.global) (results : ∀ i ∈ s.results, i ∈ r.results ∨ i = id)
    (index : ∀ i ∈ s.index.held, i ∈ r.index.held ∨ i = id)
    (byNode : ∀ i ∈ s.byNode.held, i ∈ r.byNode.held ∨ i = id)
    (byLongname : ∀ i ∈ s.byLongname.held, i ∈ r.byLongname.held ∨ i = id) : s.Bounded := by
  intro i kept
  have known : i ∈ r.held ∨ i = id := by
    simp only [mem_held, or_assoc] at kept ⊢
    rcases kept with same | result | indexed | node | longname
    · exact Or.inl (same.trans global)
    · exact (results i result).elim (Or.inr ∘ Or.inl) fun new => by simp [new]
    · exact (index i indexed).elim (Or.inr ∘ Or.inr ∘ Or.inl) fun new => by simp [new]
    · exact (byNode i node).elim (Or.inr ∘ Or.inr ∘ Or.inr ∘ Or.inl) fun new => by simp [new]
    · exact (byLongname i longname).elim (Or.inr ∘ Or.inr ∘ Or.inr ∘ Or.inr ∘ Or.inl)
        fun new => by simp [new]
  rcases known with old | new
  · exact Nat.lt_of_lt_of_le (h i old) size
  · exact new ▸ bound

theorem nextUnit : r.nextUnit.2.Bounded := h

theorem withoutRequests :
    ({ r with index := { r.index with borrowed := [] } } : Registry).Bounded := by
  refine h.of_holders (Nat.le_refl _) h.global rfl (fun _ => Or.inl) (fun i kept => Or.inl ?_)
    (fun _ => Or.inl) (fun _ => Or.inl)
  rw [Index.mem_held] at kept ⊢
  exact kept.imp_right (Or.imp_right (Or.imp_right fun none => nomatch none))

theorem insert (d : Doclet) : (r.insert d).2.Bounded := by
  intro i kept
  rw [doclets_size_insert]
  exact Nat.lt_succ_of_lt (h i kept)

theorem modify (id : DocletId) (f : Doclet → Doclet) : (r.modify id f).Bounded := by
  intro i kept
  rw [doclets_size_modify]
  exact h i kept

theorem addResult (bound : id < r.doclets.size) : (r.addResult id).Bounded :=
  h.of_holders (Nat.le_refl _) bound rfl (fun _ => Array.mem_push.mp)
    (fun _ => Index.mem_held_add) (fun _ => Or.inl) (fun _ => Or.inl)

theorem addDoclet (d : Doclet) : (r.addDoclet d).2.Bounded := by
  refine (h.insert d).addResult ?_
  rw [doclets_size_insert]
  exact Nat.lt_succ_self _

theorem setUndocumented (bound : id < r.doclets.size) (undocumented : Bool) :
    (r.setUndocumented id undocumented).Bounded :=
  (h.modify id fun d => { d with undocumented := undocumented }).of_holders (Nat.le_refl _)
    (by simpa [Registry.setUndocumented] using bound) rfl (fun _ => Or.inl)
    (fun _ => Index.mem_held_refile) (fun _ => Or.inl) (fun _ => Or.inl)

theorem register (bound : id < r.doclets.size) (key : ScopeKey) : (r.register key id).Bounded :=
  h.of_holders (Nat.le_refl _) bound rfl (fun _ => Or.inl) (fun _ => Or.inl)
    (fun _ => History.mem_held_put) (fun _ => History.mem_held_put)

end Bounded

end Registry

end Doclets
