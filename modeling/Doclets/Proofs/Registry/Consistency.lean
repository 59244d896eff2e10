import Doclets.Registry

/-!
The look-ups of a registry say what its results say, and every operation on doclets keeps it so.
Doclets may change after they became results; what counts is that none of the fields they are filed
by changes unnoticed.
-/

namespace Doclets

/-- Two versions of a doclet that are filed under the same keys. -/
structure Doclet.FiledAlike (d e : Doclet) : Prop where
  longname : d.longname = e.longname
  memberof : d.memberof = e.memberof
  undocumented : d.undocumented = e.undocumented

namespace Registry

/-- The results are stored once each, and the look-ups by key agree with them. -/
structure Filed (r : Registry) : Prop where
  valid : ∀ id ∈ r.results, id < r.doclets.size
  nodup : r.results.toList.Nodup
  longname : ∀ l, Ledger.listAt l r.index.longname =
    r.results.toList.filter fun id => (r.doclet id).longname = l
  memberof : ∀ m, r.index.membersOf m =
    r.results.toList.filter fun id => (r.doclet id).memberof = some m
  documented_nodup : ∀ l, (r.index.documentedAt l).Nodup
  mem_documented : ∀ l id, id ∈ r.index.documentedAt l ↔
    id ∈ r.results ∧ (r.doclet id).longname = l ∧ (r.doclet id).undocumented = false
  documented_ne_nil : ∀ entry ∈ r.index.documented, entry.2 ≠ []
  named : ∀ l, ∀ id ∈ r.byLongname.all l, id < r.doclets.size ∧ (r.doclet id).longname = l

/-- All look-ups agree with the results, that for pending requests to borrow as well. -/
structure Consistent (r : Registry) : Prop extends Filed r where
  borrowed : r.index.borrowed = r.results.toList.filter fun id => (r.doclet id).hasBorrows

/-- Registrations lead to stored doclets, and whatever has documentation is a result. -/
structure Anchored (r : Registry) : Prop where
  stored : ∀ key, ∀ id ∈ r.byNode.all key, id < r.doclets.size
  documented : ∀ id < r.doclets.size, (r.doclet id).undocumented = false → id ∈ r.results

variable {r : Registry} {id : DocletId} {d : Doclet} {f : Doclet → Doclet}

theorem mem_results_addDoclet {other : DocletId} : other ∈ (r.addDoclet d).2.results ↔
    other ∈ r.results ∨ other = r.doclets.size := by
  rw [← Array.mem_toList_iff, results_addDoclet]
  simp

theorem doclet_addDoclet_of_lt {other : DocletId} (old : other < r.doclets.size) :
    (r.addDoclet d).2.doclet other = r.doclet other := by
  rw [doclet_addDoclet, if_neg (Nat.ne_of_lt old)]

theorem doclet_addDoclet_self : (r.addDoclet d).2.doclet r.doclets.size = d := by
  rw [doclet_addDoclet, if_pos rfl]

/-- What is said of all results after a doclet was added. -/
theorem Filed.filter_addDoclet (h : r.Filed) (p : Doclet → Bool) :
    (r.addDoclet d).2.results.toList.filter (fun id => p ((r.addDoclet d).2.doclet id)) =
      r.results.toList.filter (fun id => p (r.doclet id)) ++
        if p d then [r.doclets.size] else [] := by
  rw [results_addDoclet, List.filter_append]
  congr 1
  · apply List.filter_congr
    intro other member
    rw [doclet_addDoclet_of_lt (h.valid other (Array.mem_toList_iff.mp member))]
  · simp [List.filter_cons, doclet_addDoclet_self]

theorem Filed.addDoclet (h : r.Filed) (d : Doclet) : (r.addDoclet d).2.Filed where
  valid other member := by
    rw [doclets_size_addDoclet]
    rcases mem_results_addDoclet.mp member with old | new
    · exact Nat.lt_succ_of_lt (h.valid other old)
    · exact new ▸ Nat.lt_succ_self _
  nodup := by
    rw [results_addDoclet, List.nodup_append]
    refine ⟨h.nodup, by simp, ?_⟩
    intro old member new last same
    have bound := h.valid old (Array.mem_toList_iff.mp member)
    rw [List.mem_singleton] at last
    exact Nat.ne_of_lt bound (same.trans last)
  longname l := by
    rw [index_addDoclet, Index.longname_add, h.longname,
      h.filter_addDoclet fun d => d.longname = l]
    simp
  memberof m := by
    rw [index_addDoclet, Index.membersOf_add, h.memberof,
      h.filter_addDoclet fun d => d.memberof = some m]
    simp
  documented_nodup l := by
    rw [index_addDoclet, Index.documentedAt_add, List.nodup_append]
    refine ⟨h.documented_nodup l, by split <;> simp, ?_⟩
    intro old member new last same
    have bound := h.valid old ((h.mem_documented l old).mp member).1
    split at last
    · rw [List.mem_singleton] at last
      exact Nat.ne_of_lt bound (same.trans last)
    · simp at last
  mem_documented l other := by
    rw [index_addDoclet, Index.documentedAt_add, List.mem_append, h.mem_documented,
      mem_results_addDoclet]
    by_cases new : other = r.doclets.size
    · subst new
      have fresh : r.doclets.size ∉ r.results := fun member =>
        Nat.lt_irrefl _ (h.valid _ member)
      rw [doclet_addDoclet_self]
      split <;> simp_all
    · rw [doclet_addDoclet, if_neg new]
      split <;> simp [new]
  documented_ne_nil := by
    rw [index_addDoclet]
    exact Index.documented_add_ne_nil _ _ _ h.documented_ne_nil
  named l other member := by
    rw [byLongname_addDoclet] at member
    obtain ⟨bound, same⟩ := h.named l other member
    rw [doclets_size_addDoclet, doclet_addDoclet_of_lt bound]
    exact ⟨Nat.lt_succ_of_lt bound, same⟩

theorem Consistent.addDoclet (h : r.Consistent) (d : Doclet) : (r.addDoclet d).2.Consistent where
  toFiled := h.toFiled.addDoclet d
  borrowed := by
    rw [index_addDoclet, Index.borrowed_add, h.borrowed, h.filter_addDoclet Doclet.hasBorrows]

theorem Anchored.addDoclet (h : r.Anchored) (d : Doclet) : (r.addDoclet d).2.Anchored where
  stored key other member := by
    rw [doclets_size_addDoclet]
    exact Nat.lt_succ_of_lt (h.stored key other member)
  documented other bound shown := by
    rw [doclets_size_addDoclet] at bound
    rw [mem_results_addDoclet]
    by_cases new : other = r.doclets.size
    · exact Or.inr new
    · have old : other < r.doclets.size := Nat.lt_of_le_of_ne (Nat.le_of_lt_succ bound) new
      rw [doclet_addDoclet_of_lt old] at shown
      exact Or.inl (h.documented other old shown)

/-! ### Changing doclets -/

theorem filedAlike_modify (alike : ∀ d, (f d).FiledAlike d) (other : DocletId) :
    ((r.modify id f).doclet other).FiledAlike (r.doclet other) := by
  rw [doclet_modify]
  split
  · exact alike _
  · exact ⟨rfl, rfl, rfl⟩

theorem Filed.modify (h : r.Filed) (alike : ∀ d, (f d).FiledAlike d) : (r.modify id f).Filed where
  valid := by simpa using h.valid
  nodup := h.nodup
  longname l := by
    simpa only [results_modify, index_modify, (filedAlike_modify alike _).longname]
      using h.longname l
  memberof m := by
    simpa only [results_modify, index_modify, (filedAlike_modify alike _).memberof]
      using h.memberof m
  documented_nodup := h.documented_nodup
  mem_documented l other := by
    simpa only [results_modify, index_modify, (filedAlike_modify alike _).longname,
      (filedAlike_modify alike _).undocumented] using h.mem_documented l other
  documented_ne_nil := h.documented_ne_nil
  named l other member := by
    rw [doclets_size_modify, (filedAlike_modify alike _).longname]
    exact h.named l other member

theorem Consistent.modify (h : r.Consistent) (alike : ∀ d, (f d).FiledAlike d)
    (requests : ∀ d, (f d).borrowed = d.borrowed) : (r.modify id f).Consistent where
  toFiled := h.toFiled.modify alike
  borrowed := by
    have same (other : DocletId) :
        ((r.modify id f).doclet other).hasBorrows = (r.doclet other).hasBorrows := by
      rw [doclet_modify]
      split
      · simp only [Doclet.hasBorrows, requests]
      · rfl
    simpa only [results_modify, index_modify, same] using h.borrowed

theorem Anchored.modify (h : r.Anchored) (alike : ∀ d, (f d).FiledAlike d) :
    (r.modify id f).Anchored where
  stored key other member := by simpa using h.stored key other member
  documented other bound shown := by
    rw [doclets_size_modify] at bound
    rw [(filedAlike_modify alike _).undocumented] at shown
    exact h.documented other bound shown

/-! ### Gaining and losing documentation -/

theorem doclet_setUndocumented (r : Registry) (id other : DocletId) (hidden : Bool) :
    (r.setUndocumented id hidden).doclet other =
      if id = other ∧ other < r.doclets.size then { r.doclet other with undocumented := hidden }
      else r.doclet other :=
  doclet_modify r id other fun d => { d with undocumented := hidden }

theorem doclet_setUndocumented_self (r : Registry) (hidden : Bool) (stored : id < r.doclets.size) :
    (r.setUndocumented id hidden).doclet id = { r.doclet id with undocumented := hidden } :=
  r.doclet_modify_self _ stored

theorem doclet_setUndocumented_of_ne (r : Registry) (hidden : Bool) {other : DocletId}
    (apart : id ≠ other) : (r.setUndocumented id hidden).doclet other = r.doclet other :=
  r.doclet_modify_of_ne _ apart

theorem results_setUndocumented (r : Registry) (id : DocletId) (hidden : Bool) :
    (r.setUndocumented id hidden).results = r.results := rfl

theorem index_setUndocumented (r : Registry) (id : DocletId) (hidden : Bool) :
    (r.setUndocumented id hidden).index =
      r.index.refile id ((r.setUndocumented id hidden).doclet id) := rfl

/-- A doclet keeps all keys but its documentation. -/
theorem doclet_setUndocumented_alike (r : Registry) (id other : DocletId) (hidden : Bool) :
    let d := (r.setUndocumented id hidden).doclet other
    d.longname = (r.doclet other).longname ∧ d.memberof = (r.doclet other).memberof ∧
      d.borrowed = (r.doclet other).borrowed := by
  simp only [doclet_setUndocumented]
  split <;> exact ⟨rfl, rfl, rfl⟩

theorem Filed.setUndocumented (h : r.Filed) (result : id ∈ r.results) (hidden : Bool) :
    (r.setUndocumented id hidden).Filed where
  valid := by simpa [Registry.setUndocumented] using h.valid
  nodup := h.nodup
  longname l := by
    simp only [(doclet_setUndocumented_alike r id _ hidden).1]
    exact h.longname l
  memberof m := by
    simp only [(doclet_setUndocumented_alike r id _ hidden).2.1]
    exact h.memberof m
  documented_nodup l := by
    rw [index_setUndocumented]
    by_cases own : l = ((r.setUndocumented id hidden).doclet id).longname
    · subst own
      rw [Index.documentedAt_refile_self, List.nodup_append]
      refine ⟨(h.documented_nodup _).filter _, by split <;> simp, ?_⟩
      intro old member new last same
      split at last
      · simp at last
      · rw [List.mem_singleton] at last
        simp [same, last] at member
    · rw [Index.documentedAt_refile_of_ne _ _ _ own]
      exact h.documented_nodup l
  mem_documented l other := by
    have own := r.doclet_setUndocumented_self hidden (h.valid id result)
    rw [index_setUndocumented, own, results_setUndocumented]
    by_cases same : l = (r.doclet id).longname
    · subst same
      rw [Index.documentedAt_refile_self, List.mem_append, List.mem_filter, h.mem_documented]
      by_cases this : other = id
      · subst this
        rw [own]
        cases hidden <;> simp [result]
      · rw [r.doclet_setUndocumented_of_ne hidden (Ne.symm this)]
        split <;> simp [this]
    · rw [Index.documentedAt_refile_of_ne _ _ { r.doclet id with undocumented := hidden } same,
        h.mem_documented]
      by_cases this : other = id
      · subst this
        simp [own, Ne.symm same]
      · rw [r.doclet_setUndocumented_of_ne hidden (Ne.symm this)]
  documented_ne_nil := by
    rw [index_setUndocumented]
    exact Index.documented_refile_ne_nil _ _ _ h.documented_ne_nil
  named l other member := by
    rw [(doclet_setUndocumented_alike r id other hidden).1]
    simpa [Registry.setUndocumented] using h.named l other member

theorem Consistent.setUndocumented (h : r.Consistent) (result : id ∈ r.results)
    (hidden : Bool) : (r.setUndocumented id hidden).Consistent where
  toFiled := h.toFiled.setUndocumented result hidden
  borrowed := by
    simp only [Doclet.hasBorrows, (doclet_setUndocumented_alike r id _ hidden).2.2]
    exact h.borrowed

theorem Anchored.setUndocumented (h : r.Anchored) (result : id ∈ r.results) (hidden : Bool) :
    (r.setUndocumented id hidden).Anchored where
  stored key other member := by
    simpa [Registry.setUndocumented] using h.stored key other member
  documented other bound shown := by
    by_cases this : other = id
    · exact this ▸ result
    · rw [r.doclet_setUndocumented_of_ne hidden (Ne.symm this)] at shown
      exact h.documented other (by simpa [Registry.setUndocumented] using bound) shown

/-! ### Registrations -/

theorem Filed.register (h : r.Filed) (bound : id < r.doclets.size) (key : ScopeKey) :
    (r.register key id).Filed where
  valid := h.valid
  nodup := h.nodup
  longname := h.longname
  memberof := h.memberof
  documented_nodup := h.documented_nodup
  mem_documented := h.mem_documented
  documented_ne_nil := h.documented_ne_nil
  named l other member := by
    change other ∈ (r.byLongname.put (r.doclet id).longname id).all l at member
    rcases History.mem_all_put.mp member with old | ⟨own, rfl⟩
    · exact h.named l other old
    · exact ⟨bound, own⟩

theorem Consistent.register (h : r.Consistent) (bound : id < r.doclets.size) (key : ScopeKey) :
    (r.register key id).Consistent :=
  ⟨h.toFiled.register bound key, h.borrowed⟩

theorem Anchored.register (h : r.Anchored) (bound : id < r.doclets.size) (key : ScopeKey) :
    (r.register key id).Anchored where
  stored other old member := by
    change old ∈ (r.byNode.put key id).all other at member
    rcases History.mem_all_put.mp member with before | ⟨_, rfl⟩
    · exact h.stored other old before
    · exact bound
  documented := h.documented

/-- What is said of all results after a doclet was stored that is no result. -/
theorem Filed.filter_insert (h : r.Filed) (d : Doclet) (p : Doclet → Bool) :
    r.results.toList.filter (fun id => p ((r.insert d).2.doclet id)) =
      r.results.toList.filter fun id => p (r.doclet id) := by
  apply List.filter_congr
  intro other member
  rw [r.doclet_insert_of_lt d (h.valid other (Array.mem_toList_iff.mp member))]

/-- A doclet without documentation may be stored without being a result. -/
theorem Filed.insert (h : r.Filed) (d : Doclet) : (r.insert d).2.Filed where
  valid other member := by
    rw [doclets_size_insert]
    exact Nat.lt_succ_of_lt (h.valid other member)
  nodup := h.nodup
  longname l := (h.longname l).trans (h.filter_insert d fun e => e.longname = l).symm
  memberof m := (h.memberof m).trans (h.filter_insert d fun e => e.memberof = some m).symm
  documented_nodup := h.documented_nodup
  mem_documented l other := by
    rw [show (r.insert d).2.index = r.index from rfl, h.mem_documented,
      show (r.insert d).2.results = r.results from rfl]
    refine and_congr_right fun member => ?_
    rw [r.doclet_insert_of_lt d (h.valid other member)]
  documented_ne_nil := h.documented_ne_nil
  named l other member := by
    obtain ⟨bound, same⟩ := h.named l other member
    rw [doclets_size_insert, r.doclet_insert_of_lt d bound]
    exact ⟨Nat.lt_succ_of_lt bound, same⟩

theorem Consistent.insert (h : r.Consistent) (d : Doclet) : (r.insert d).2.Consistent where
  toFiled := h.toFiled.insert d
  borrowed := h.borrowed.trans (h.filter_insert d Doclet.hasBorrows).symm

theorem Anchored.insert (h : r.Anchored) (hidden : d.undocumented = true) :
    (r.insert d).2.Anchored where
  stored key other member := by
    have bound := h.stored key other member
    rw [doclets_size_insert]
    exact Nat.lt_succ_of_lt bound
  documented other bound shown := by
    rw [doclets_size_insert] at bound
    rw [doclet_insert] at shown
    split at shown
    · simp [hidden] at shown
    next new =>
      exact h.documented other (Nat.lt_of_le_of_ne (Nat.le_of_lt_succ bound) new) shown

/-! ### Registries to begin with -/

theorem consistent_empty : empty.Consistent where
  valid := by simp [empty]
  nodup := by simp [empty]
  longname := by simp [empty, Index.empty, Ledger.listAt, Ledger.get?]
  memberof := by simp [empty, Index.empty, Index.membersOf, Ledger.listAt, Ledger.get?]
  documented_nodup := by simp [empty, Index.empty, Index.documentedAt, Ledger.listAt, Ledger.get?]
  mem_documented := by simp [empty, Index.empty, Index.documentedAt, Ledger.listAt, Ledger.get?]
  documented_ne_nil := by simp [empty, Index.empty]
  named l id member := by
    change id ∈ (History.empty.put Longname.global 0).all l at member
    rcases History.mem_all_put.mp member with old | ⟨own, rfl⟩
    · rw [History.all_empty] at old
      cases old
    · exact ⟨Nat.zero_lt_one, own⟩
  borrowed := by simp [empty, Index.empty]

theorem anchored_empty : empty.Anchored where
  stored key id member := by
    change id ∈ (History.empty.put ScopeKey.global 0).all key at member
    rcases History.mem_all_put.mp member with old | ⟨_, rfl⟩
    · rw [History.all_empty] at old
      cases old
    · exact Nat.zero_lt_one
  documented id bound shown := by
    have first : id = 0 := Nat.lt_one_iff.mp bound
    subst first
    cases shown

/-- The registry whose results are the given doclets, in this order. -/
def ofDoclets (doclets : List Doclet) : Registry :=
  doclets.foldl (fun r d => (r.addDoclet d).2) empty

theorem consistent_ofDoclets (doclets : List Doclet) : (ofDoclets doclets).Consistent := by
  unfold ofDoclets
  generalize empty = r, consistent_empty = h
  induction doclets generalizing r with
  | nil => exact h
  | cons d rest ih => exact ih _ (h.addDoclet d)

end Registry

end Doclets
