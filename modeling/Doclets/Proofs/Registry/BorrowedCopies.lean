import Mathlib.Data.List.Forall2
import Doclets.Proofs.Registry.Consistency
import Doclets.Proofs.Text.Pieces
import Doclets.Registry.Borrows

/-!
What borrowing adds: for every pending request, in order, one copy of each doclet that has the
longname asked for when the request is met. A copy is a result from then on, so a later request may
ask for it, and a symbol may borrow from itself.
-/

namespace Doclets

/-! ### One request -/

/-- What an alias says of a copy. Exactly one `#` makes an instance member of it; the name is what
follows the last `#`. -/
inductive Alias : List Char → Scope → List Char → Prop
  | static {name : List Char} : '#' ∉ name → Alias name .static name
  | perInstance {before name : List Char} :
      '#' ∉ before → '#' ∉ name → Alias (before ++ '#' :: name) .perInstance name
  | deeper {before name : List Char} :
      '#' ∈ before → '#' ∉ name → Alias (before ++ '#' :: name) .static name

/-- The alias of a request: the new name if it has one, else the name of the source. In front of it
`prototype.` stands for `#`. -/
inductive Borrow.Asks (b : Borrow) : String → Prop
  | spelled {rest : String} : b.newName.getD b.source = "prototype." ++ rest → Asks b ("#" ++ rest)
  | written : (∀ rest, b.newName.getD b.source ≠ "prototype." ++ rest) →
      Asks b (b.newName.getD b.source)

/-- The copy of `source` that `borrower` gets for a request. -/
structure Doclet.LentAs (copy source : Doclet) (borrower : String) (b : Borrow) : Prop where
  memberof : copy.memberof = some borrower
  named : ∃ name scope own, b.Asks name ∧ Alias name.toList scope own ∧ copy.scope = some scope ∧
    copy.name = some (String.ofList own) ∧
    copy.longname = borrower ++ scope.punctuation ++ String.ofList own
  borrowed : copy.borrowed = none
  others : copy = { source with
    memberof := copy.memberof
    scope := copy.scope
    name := copy.name
    longname := copy.longname
    borrowed := copy.borrowed }

/-- The pieces of an alias between its `#` are two exactly if there is one of them. -/
theorem Alias.of_pieces (cs : List Char) :
    Alias cs (if (Text.splitAt '#' cs).length = 2 then .perInstance else .static)
      ((Text.splitAt '#' cs).getLast?.getD []) := by
  by_cases marked : '#' ∈ cs
  · obtain ⟨before, name, rfl, apart⟩ := Text.exists_last_of_mem marked
    have pieces : (Text.splitAt '#' (before ++ '#' :: name)).length =
        (Text.splitAt '#' before).length + 1 := by
      rw [Text.splitAt_append_cons, Text.splitAt_of_notMem apart, List.length_append,
        List.length_singleton]
    have last : (Text.splitAt '#' (before ++ '#' :: name)).getLast?.getD [] = name := by
      rw [Text.splitAt_append_cons, Text.splitAt_of_notMem apart]
      simp
    rw [last, pieces]
    by_cases single : '#' ∈ before
    · have more := mt Text.length_splitAt_eq_one_iff.mp (not_not.mpr single)
      rw [if_neg (by omega)]
      exact .deeper single apart
    · rw [Text.length_splitAt_eq_one_iff.mpr single, if_pos rfl]
      exact .perInstance single apart
  · rw [Text.splitAt_of_notMem marked]
    exact .static marked

theorem Borrow.exists_asks (b : Borrow) : ∃ name, b.Asks name ∧
    b.target = (if (Text.splitAt '#' name.toList).length = 2 then .perInstance else .static,
      String.ofList ((Text.splitAt '#' name.toList).getLast?.getD [])) := by
  cases spelled : Text.after? "prototype." (b.newName.getD b.source) with
  | some rest =>
    refine ⟨"#" ++ rest, .spelled (Text.after?_eq_some_iff.mp spelled), ?_⟩
    simp only [target, spelled]
  | none =>
    refine ⟨b.newName.getD b.source, .written fun rest same => ?_, ?_⟩
    · rw [Text.after?_eq_some_iff.mpr same] at spelled
      cases spelled
    · simp only [target, spelled]

theorem Doclet.lentAs_lentTo (source : Doclet) (borrower : String) (b : Borrow) :
    (source.lentTo borrower b.target.1 b.target.2).LentAs source borrower b where
  memberof := rfl
  named := by
    obtain ⟨name, asked, target⟩ := b.exists_asks
    have called := Alias.of_pieces name.toList
    rw [target]
    exact ⟨name, _, _, asked, called, rfl, rfl, rfl⟩
  borrowed := rfl
  others := rfl

/-- What a doclet asks for itself does not matter to those who borrow it. -/
theorem Doclet.LentAs.congr {copy source other : Doclet} {borrower : String} {b : Borrow}
    (h : copy.LentAs source borrower b)
    (same : { source with borrowed := none } = { other with borrowed := none }) :
    copy.LentAs other borrower b where
  memberof := h.memberof
  named := h.named
  borrowed := h.borrowed
  others := by
    have fields := congrArg (fun d : Doclet => { d with
      memberof := copy.memberof
      scope := copy.scope
      name := copy.name
      longname := copy.longname
      borrowed := copy.borrowed }) same
    exact h.others.trans fields

/-! ### Requests one after the other -/

/-- The copies that requests, each with the longname of its borrower, add to the doclets `held` when
they are met one after the other. A request gets a copy of every doclet with the longname it asks
for, in order, and these copies are held from then on. -/
inductive Lent : List Doclet → List (String × Borrow) → List Doclet → Prop
  | done {held : List Doclet} : Lent held [] []
  | next {held copies later : List Doclet} {borrower : String} {b : Borrow}
      {rest : List (String × Borrow)} :
      List.Forall₂ (fun source copy => Doclet.LentAs copy source borrower b)
        (held.filter fun d => d.longname = b.source) copies →
      Lent (held ++ copies) rest later → Lent held ((borrower, b) :: rest) (copies ++ later)

namespace Lent

variable {held copies later : List Doclet} {requests others : List (String × Borrow)}

theorem append (first : Lent held requests copies) (second : Lent (held ++ copies) others later) :
    Lent held (requests ++ others) (copies ++ later) := by
  induction first with
  | done => simpa using second
  | next met _ ih =>
    rw [List.cons_append, List.append_assoc]
    exact .next met (ih (by simpa using second))

theorem borrowed (h : Lent held requests copies) : ∀ copy ∈ copies, copy.borrowed = none := by
  induction h with
  | done => simp
  | next met _ ih =>
    intro copy member
    rcases List.mem_append.mp member with own | rest
    · obtain ⟨k, inside, rfl⟩ := List.mem_iff_getElem.mp own
      exact (met.get (met.length_eq ▸ inside) inside).borrowed
    · exact ih copy rest

end Lent

/-- The requests of a doclet, each with the longname of the borrower. -/
def Doclet.asks (d : Doclet) : List (String × Borrow) := (d.borrowed.getD []).map (d.longname, ·)

/-- A doclet that asks for nothing. -/
def Doclet.withoutRequests (d : Doclet) : Doclet := { d with borrowed := none }

theorem Doclet.withoutRequests_eq_self {d : Doclet} (none : d.borrowed = none) :
    d.withoutRequests = d := by
  cases d
  cases none
  rfl

theorem forall₂_lentAs_congr {held other copies : List Doclet} {borrower : String} {b : Borrow}
    (same : held.map Doclet.withoutRequests = other.map Doclet.withoutRequests)
    (met : List.Forall₂ (fun source copy => Doclet.LentAs copy source borrower b)
      (held.filter fun d => d.longname = b.source) copies) :
    List.Forall₂ (fun source copy => Doclet.LentAs copy source borrower b)
      (other.filter fun d => d.longname = b.source) copies := by
  have asked (ds : List Doclet) : (ds.filter fun d => d.longname = b.source).map
      Doclet.withoutRequests =
        (ds.map Doclet.withoutRequests).filter fun d => d.longname = b.source := by
    rw [List.filter_map]
    rfl
  have sources := (asked held).trans (same ▸ (asked other).symm)
  generalize held.filter _ = ds at met sources
  generalize other.filter _ = es at sources
  induction met generalizing es with
  | nil =>
    cases es with
    | nil => exact .nil
    | cons => cases sources
  | cons lent _ ih =>
    cases es with
    | nil => cases sources
    | cons e es =>
      obtain ⟨first, rest⟩ := List.cons.inj sources
      exact .cons (lent.congr first) (ih es rest)

/-- Which requests the doclets themselves have left does not matter. -/
theorem Lent.congr {held other copies : List Doclet} {requests : List (String × Borrow)}
    (h : Lent held requests copies)
    (same : held.map Doclet.withoutRequests = other.map Doclet.withoutRequests) :
    Lent other requests copies := by
  induction h generalizing other with
  | done => exact .done
  | next met _ ih =>
    exact .next (forall₂_lentAs_congr same met) (ih (by rw [List.map_append, List.map_append, same]))

/-! ### The pass over the pending doclets -/

namespace Registry

/-- The requests of doclets, in order. -/
def requests (r : Registry) (borrowers : List DocletId) : List (String × Borrow) :=
  borrowers.flatMap fun id => (r.doclet id).asks

/-- The requests that are pending. -/
def asked (r : Registry) : List (String × Borrow) := r.requests r.index.borrowed

/-- The registry `s` is `r` with the given copies as further results and without the requests of the
given borrowers. -/
structure Lends (r : Registry) (borrowers : List DocletId) (copies : List Doclet)
    (s : Registry) : Prop where
  size : s.doclets.size = r.doclets.size + copies.length
  results : s.results.toList = r.results.toList ++ List.range' r.doclets.size copies.length
  kept : ∀ id < r.doclets.size, s.doclet id =
    if id ∈ borrowers then (r.doclet id).withoutRequests else r.doclet id
  added : ∀ k, ∀ inside : k < copies.length, s.doclet (r.doclets.size + k) = copies[k]
  pending : s.index.borrowed = r.index.borrowed

variable {r s t : Registry} {borrowers others : List DocletId} {copies later : List Doclet}

theorem Lends.refl (r : Registry) : r.Lends [] [] r where
  size := rfl
  results := by simp
  kept _ _ := by simp
  added _ inside := absurd inside (Nat.not_lt_zero _)
  pending := rfl

theorem Lends.trans (first : r.Lends borrowers copies s) (second : s.Lends others later t)
    (old : ∀ id ∈ others, id < r.doclets.size) :
    r.Lends (borrowers ++ others) (copies ++ later) t where
  size := by rw [second.size, first.size, List.length_append, Nat.add_assoc]
  results := by
    rw [second.results, first.results, first.size, List.length_append, List.append_assoc,
      List.range'_append_1]
  kept id bound := by
    rw [second.kept id (by rw [first.size]; omega), first.kept id bound]
    by_cases own : id ∈ borrowers <;> by_cases other : id ∈ others <;>
      simp [own, other, Doclet.withoutRequests]
  added k inside := by
    rw [List.length_append] at inside
    by_cases early : k < copies.length
    · have fresh : r.doclets.size + k ∉ others := fun member => by
        have bound := old _ member
        exact Nat.not_lt.mpr (Nat.le_add_right _ _) bound
      rw [second.kept _ (by rw [first.size]; omega), if_neg fresh, first.added k early,
        List.getElem_append_left early]
    · have place : r.doclets.size + k = s.doclets.size + (k - copies.length) := by
        rw [first.size]
        omega
      rw [place, second.added _ (by omega), List.getElem_append_right (by omega)]
  pending := second.pending.trans first.pending

theorem lends_addDoclet (r : Registry) {d : Doclet} (none : d.borrowed = none) :
    r.Lends [] [d] (r.addDoclet d).2 where
  size := doclets_size_addDoclet r d
  results := results_addDoclet r d
  kept id bound := by
    rw [doclet_addDoclet_of_lt bound]
    simp
  added k inside := by
    obtain rfl : k = 0 := by simpa using inside
    exact doclet_addDoclet_self
  pending := by
    rw [index_addDoclet, Index.borrowed_add]
    simp [Doclet.hasBorrows, none]

theorem lends_modify (r : Registry) (id : DocletId) :
    r.Lends [id] [] (r.modify id fun d => { d with borrowed := none }) where
  size := doclets_size_modify r id _
  results := by simp
  kept other bound := by
    rw [doclet_modify]
    by_cases own : id = other
    · simp [own, bound, Doclet.withoutRequests]
    · simp [own, Ne.symm own]
  added _ inside := absurd inside (Nat.not_lt_zero _)
  pending := rfl

/-- Apart from requests, the results are the old ones and the copies. -/
theorem Lends.map_withoutRequests (h : r.Lends borrowers copies s) (filed : r.Filed) :
    s.resultDoclets.map Doclet.withoutRequests =
      (r.resultDoclets ++ copies).map Doclet.withoutRequests := by
  have old : ∀ id ∈ r.results.toList,
      (s.doclet id).withoutRequests = (r.doclet id).withoutRequests := by
    intro id member
    rw [h.kept id (filed.valid id (Array.mem_toList_iff.mp member))]
    split <;> rfl
  have new : (List.range' r.doclets.size copies.length).map s.doclet = copies := by
    apply List.ext_getElem (by simp)
    intro k _ inside
    simpa using h.added k inside
  simp only [resultDoclets, h.results, List.map_append, new]
  congr 1
  rw [List.map_map, List.map_map]
  exact List.map_congr_left old

/-- The sources of a request, each with its copy. -/
theorem lends_copies (borrower : String) (scope : Scope) (name : String)
    {sources : List DocletId} (bound : ∀ id ∈ sources, id < r.doclets.size) :
    r.Lends [] (sources.map fun id => (r.doclet id).lentTo borrower scope name)
      (sources.foldl (fun r source =>
        (r.addDoclet ((r.doclet source).lentTo borrower scope name)).2) r) := by
  induction sources generalizing r with
  | nil => exact .refl r
  | cons source rest ih =>
    obtain ⟨_, later⟩ := List.forall_mem_cons.mp bound
    have first := lends_addDoclet r (d := (r.doclet source).lentTo borrower scope name) rfl
    have next := ih (r := (r.addDoclet ((r.doclet source).lentTo borrower scope name)).2)
      fun id member => Nat.lt_of_lt_of_le (later id member) (by simp)
    have same : ∀ id ∈ rest, ((r.addDoclet ((r.doclet source).lentTo borrower scope name)).2.doclet
        id).lentTo borrower scope name = (r.doclet id).lentTo borrower scope name := by
      intro id member
      rw [doclet_addDoclet_of_lt (later id member)]
    rw [List.map_congr_left same] at next
    exact first.trans next (by simp)

theorem lends_meet (filed : r.Filed) (borrower : String) (b : Borrow) : ∃ copies,
    List.Forall₂ (fun source copy => Doclet.LentAs copy source borrower b)
      (r.resultDoclets.filter fun d => d.longname = b.source) copies ∧
    r.Lends [] copies (meet borrower r b) := by
  unfold meet
  dsimp only
  rw [filed.longname]
  have bound : ∀ id ∈ r.results.toList.filter fun id => (r.doclet id).longname = b.source,
      id < r.doclets.size := fun id member =>
    filed.valid id (Array.mem_toList_iff.mp (List.mem_filter.mp member).1)
  refine ⟨_, ?_, lends_copies borrower b.target.1 b.target.2 bound⟩
  rw [resultDoclets, List.filter_map, List.forall₂_map_left_iff, List.forall₂_map_right_iff]
  exact List.forall₂_same.mpr fun id _ => Doclet.lentAs_lentTo _ borrower b

theorem filed_meet (filed : r.Filed) (borrower : String) (b : Borrow) :
    (meet borrower r b).Filed := by
  unfold meet
  dsimp only
  generalize Ledger.listAt b.source r.index.longname = sources
  induction sources generalizing r with
  | nil => exact filed
  | cons source rest ih => exact ih (filed.addDoclet _)

/-- The requests of one borrower. -/
theorem lends_requests (filed : r.Filed) (borrower : String) (requests : List Borrow) : ∃ copies,
    Lent r.resultDoclets (requests.map (borrower, ·)) copies ∧
    r.Lends [] copies (requests.foldl (meet borrower) r) ∧
    (requests.foldl (meet borrower) r).Filed := by
  induction requests generalizing r with
  | nil => exact ⟨[], .done, .refl r, filed⟩
  | cons b rest ih =>
    obtain ⟨copies, met, first⟩ := lends_meet filed borrower b
    obtain ⟨later, lent, next, done⟩ := ih (filed_meet filed borrower b)
    exact ⟨copies ++ later, .next met (lent.congr (first.map_withoutRequests filed)),
      first.trans next (by simp), done⟩

theorem lends_meetAll (filed : r.Filed) (borrower : DocletId) : ∃ copies,
    Lent r.resultDoclets (r.requests [borrower]) copies ∧
    r.Lends [borrower] copies (r.meetAll borrower) ∧ (r.meetAll borrower).Filed := by
  unfold meetAll
  cases asked : (r.doclet borrower).borrowed with
  | none =>
    refine ⟨[], by simpa [requests, Doclet.asks, asked] using Lent.done, ?_, filed⟩
    refine { Lends.refl r with kept := fun id _ => ?_ }
    dsimp only
    split
    next own => rw [List.mem_singleton.mp own, Doclet.withoutRequests_eq_self asked]
    next => rfl
  | some list =>
    have dropped := lends_modify r borrower
    have alike : (r.modify borrower fun d => { d with borrowed := none }).Filed :=
      filed.modify fun _ => ⟨rfl, rfl, rfl⟩
    have called : ((r.modify borrower fun d => { d with borrowed := none }).doclet
        borrower).longname = (r.doclet borrower).longname := by
      rw [doclet_modify]
      split <;> rfl
    obtain ⟨copies, lent, met, done⟩ := lends_requests alike (r.doclet borrower).longname list
    dsimp only
    rw [called]
    refine ⟨copies, ?_, dropped.trans met (by simp), done⟩
    have same := dropped.map_withoutRequests filed
    rw [List.append_nil] at same
    simpa [requests, Doclet.asks, asked] using lent.congr same

theorem lends_foldl_meetAll (filed : r.Filed) {pending : List DocletId} (distinct : pending.Nodup)
    (stored : ∀ id ∈ pending, id < r.doclets.size) : ∃ copies,
    Lent r.resultDoclets (r.requests pending) copies ∧
    r.Lends pending copies (pending.foldl meetAll r) := by
  induction pending generalizing r with
  | nil => exact ⟨[], .done, .refl r⟩
  | cons borrower rest ih =>
    obtain ⟨apart, distinct⟩ := List.nodup_cons.mp distinct
    obtain ⟨_, old⟩ := List.forall_mem_cons.mp stored
    obtain ⟨copies, lent, first, done⟩ := lends_meetAll filed borrower
    -- Those behind the first are still stored, and still have their requests.
    have later : ∀ id ∈ rest, (r.meetAll borrower).doclet id = r.doclet id := by
      intro id member
      have other : id ∉ [borrower] := fun own => apart (List.mem_singleton.mp own ▸ member)
      rw [first.kept id (old id member), if_neg other]
    have same : (r.meetAll borrower).requests rest = r.requests rest := by
      unfold requests
      rw [List.flatMap_congr fun id member => by rw [later id member]]
    obtain ⟨others, next, second⟩ := ih done distinct fun id member => by
      rw [first.size]
      exact Nat.lt_add_right _ (old id member)
    rw [same] at next
    refine ⟨copies ++ others, ?_, first.trans second old⟩
    rw [show r.requests (borrower :: rest) = r.requests [borrower] ++ r.requests rest by
      simp [requests]]
    exact lent.append (next.congr (first.map_withoutRequests filed))

/-- What meeting all pending requests does to a registry. -/
structure Borrowed (r s : Registry) (copies : List Doclet) : Prop where
  /-- The requests are met one after the other, those of one borrower in the order it has them. -/
  lent : Lent r.resultDoclets r.asked copies
  /-- The results keep their places, and the copies follow them. -/
  results : s.results.toList = r.results.toList ++ List.range' r.doclets.size copies.length
  stored : s.doclets.size = r.doclets.size + copies.length
  added : ∀ k, ∀ inside : k < copies.length, s.doclet (r.doclets.size + k) = copies[k]
  /-- Of the doclets there were, none changes but for the requests of the borrowers. -/
  kept : ∀ id < r.doclets.size, s.doclet id =
    if id ∈ r.index.borrowed then (r.doclet id).withoutRequests else r.doclet id
  /-- Nothing is pending afterwards. -/
  pending : s.index.borrowed = []
  spent : ∀ d ∈ s.resultDoclets, d.hasBorrows = false
  again : s.resolveBorrows = s

theorem resolveBorrows_eq_self (none : r.index.borrowed = []) : r.resolveBorrows = r := by
  obtain ⟨doclets, results, ⟨longname, memberof, documented, borrowed⟩, _⟩ := r
  cases none
  rfl

/-- The registry with nothing pending, as it is when the first request is met. -/
def taken (r : Registry) : Registry := { r with index := { r.index with borrowed := [] } }

theorem Consistent.pending_lt (h : r.Consistent) : ∀ id ∈ r.index.borrowed, id < r.doclets.size := by
  intro id member
  rw [h.borrowed] at member
  exact h.valid id (Array.mem_toList_iff.mp (List.mem_filter.mp member).1)

theorem Consistent.lends_resolveBorrows (h : r.Consistent) : ∃ copies,
    Lent r.resultDoclets r.asked copies ∧ r.taken.Lends r.index.borrowed copies r.resolveBorrows := by
  have filed : r.taken.Filed := { h.toFiled with }
  have distinct : r.index.borrowed.Nodup := h.borrowed ▸ h.nodup.filter _
  exact lends_foldl_meetAll filed distinct h.pending_lt

theorem Consistent.borrowed_of_lends (h : r.Consistent) (lent : Lent r.resultDoclets r.asked copies)
    (lends : r.taken.Lends r.index.borrowed copies r.resolveBorrows) :
    r.Borrowed r.resolveBorrows copies := by
  have results : r.resolveBorrows.results.toList =
      r.results.toList ++ List.range' r.doclets.size copies.length := lends.results
  have added : ∀ k, ∀ inside : k < copies.length,
      r.resolveBorrows.doclet (r.doclets.size + k) = copies[k] := lends.added
  have kept : ∀ id < r.doclets.size, r.resolveBorrows.doclet id =
      if id ∈ r.index.borrowed then (r.doclet id).withoutRequests else r.doclet id := lends.kept
  have nothing : r.resolveBorrows.index.borrowed = [] := lends.pending
  refine ⟨lent, results, lends.size, added, kept, nothing, ?_, resolveBorrows_eq_self nothing⟩
  intro d member
  obtain ⟨id, listed, rfl⟩ := List.mem_map.mp member
  rw [results, List.mem_append] at listed
  rcases listed with old | new
  · rw [kept id (h.valid id (Array.mem_toList_iff.mp old))]
    split
    · rfl
    next other =>
      rw [h.borrowed, List.mem_filter, not_and] at other
      simpa using other old
  · obtain ⟨low, high⟩ := List.mem_range'_1.mp new
    obtain ⟨k, rfl⟩ := Nat.exists_eq_add_of_le low
    have inside : k < copies.length := Nat.lt_of_add_lt_add_left high
    rw [added k inside, Doclet.hasBorrows, lent.borrowed _ (List.getElem_mem inside)]
    rfl

/-- Meeting all pending requests adds exactly the copies that were asked for, and leaves nothing
pending. -/
theorem borrowed_resolveBorrows (h : r.Consistent) :
    ∃ copies, r.Borrowed r.resolveBorrows copies := by
  obtain ⟨copies, lent, lends⟩ := h.lends_resolveBorrows
  exact ⟨copies, h.borrowed_of_lends lent lends⟩

/-- A symbol that borrows from a later one and from itself, and one that borrows what the first has
borrowed. -/
def borrowersInTurn : Registry :=
  let symbol (longname : String) (borrowed : Option (List Borrow)) : Doclet :=
    { Doclet.empty with longname := longname, name := some longname, borrowed := borrowed }
  ofDoclets [symbol "A" (some [⟨"B", some "b"⟩, ⟨"A", some "prototype.self"⟩]), symbol "B" none,
    symbol "B" none, symbol "C" (some [⟨"A.b", none⟩, ⟨"A.b", some "x#y#z"⟩])]

theorem borrowersInTurn_borrowed :
    (∃ copies, borrowersInTurn.Borrowed borrowersInTurn.resolveBorrows copies) ∧
      borrowersInTurn.resolveBorrows.resultDoclets.map Doclet.longname =
        ["A", "B", "B", "C", "A.b", "A.b", "A#self", "C.A.b", "C.A.b", "C.z", "C.z"] :=
  ⟨borrowed_resolveBorrows (consistent_ofDoclets _), by decide +kernel⟩

end Registry

end Doclets
