import PracticalMicroservice.Foundations.Accesses

/-!
# Transactions under way

Tables with any number of transactions on them, each known by what it is for, the tables it began on
and the accesses it has made. A step begins a transaction, makes an access of one or is done with
one, and committed rows may change from outside. What is kept as long as the transactions keep to a
discipline: the versions of a row are one row, whatever the transactions have read stays there, and
what they have inserted is theirs until their end.
-/

namespace PracticalMicroservice.Foundations

/-! ## What an access does to the tables -/

/-- What performing an access comes to. -/
inductive Versions.Performed {ρ : Type} (v : Versions ρ) (i : Nat) :
    (a : Access ρ) → a.Reply → Versions ρ → Prop
  | read (whose : ρ → Bool) : Performed v i (.select whose) ((v.seenBy i).filter whose) v
  | refused (row : Nat → ρ) (e : DatabaseError) : Performed v i (.insert row) (.error e) v
  | inserted (row : Nat → ρ) :
    Performed v i (.insert row) (.ok (row v.nextKey)) (v.insert i (row v.nextKey))
  | aimed {whose : ρ → Bool} {indices : List Nat} (perm : indices.Perm (v.matching i whose)) :
    Performed v i (.targets whose) indices v
  | missed {index : Nat} {whose : ρ → Bool} {change : ρ → ρ}
    (none_seen : ∀ slot, v.slots[index]? = some slot →
      slot.heldFrom i = false ∧ (slot.seenBy i).filter whose = none) :
    Performed v i (.visit index whose change) none v
  | wrote {index : Nat} {whose : ρ → Bool} {change : ρ → ρ} {slot : Slot ρ} {old : ρ}
    (at_index : v.slots[index]? = some slot) (free : slot.heldFrom i = false)
    (seen : slot.seenBy i = some old) (meant : whose old = true) :
    Performed v i (.visit index whose change) (some (change old)) (v.write i index (change old))
  | committed : Performed v i .commit () (v.commit i)
  | rolledBack : Performed v i .rollback () (v.rollback i)

/-- What becomes of a row as a transaction makes an access. -/
inductive Slot.Became {ρ : Type} (i index : Nat) : Access ρ → Slot ρ → Slot ρ → Prop
  | kept {a : Access ρ} {slot : Slot ρ} (ha : a.ends = false) : Became i index a slot slot
  | wrote {whose : ρ → Bool} {change : ρ → ρ} {slot : Slot ρ} {old : ρ}
    (free : slot.heldFrom i = false) (seen : slot.seenBy i = some old) (meant : whose old = true) :
    Became i index (.visit index whose change) slot { slot with written := some (i, change old) }
  | committed {slot : Slot ρ} : Became i index .commit slot (slot.commit i)
  | rolledBack {slot : Slot ρ} : Became i index .rollback slot (slot.rollback i)

section Performed

variable {ρ : Type} {v v' : Versions ρ} {i : Nat} {a : Access ρ} {reply : a.Reply}

theorem performed_of_perform [Keyed ρ] {order : List Nat}
    (h : v.perform i order a = some (reply, v')) : v.Performed i a reply v' := by
  cases a with
  | select whose =>
    cases h
    exact .read whose
  | insert row =>
    obtain ⟨-, ⟨fields, -, rfl, rfl⟩ | ⟨-, rfl, rfl⟩⟩ := Versions.perform_insert h
    · exact .refused row _
    · exact .inserted row
  | targets whose =>
    obtain ⟨hperm, rfl⟩ := Versions.perform_targets h
    exact .aimed hperm
  | visit index whose change =>
    obtain ⟨rfl, rfl, hnone⟩ | ⟨slot, row, hslot, hfree, hseen, hwhose, rfl, rfl⟩ :=
      Versions.perform_visit h
    · exact .missed hnone
    · exact .wrote hslot hfree hseen hwhose
  | commit =>
    cases h
    exact .committed
  | rollback =>
    cases h
    exact .rolledBack

theorem getElem?_write (index : Nat) (row : ρ) (k : Nat) :
    (v.write i index row).slots[k]? =
      if k = index then v.slots[k]?.map ({ · with written := some (i, row) }) else v.slots[k]? := by
  show (v.slots.modify index _)[k]? = _
  rw [List.getElem?_modify]
  by_cases hk : k = index
  · rw [if_pos hk]
    simp [hk]
  · rw [if_neg hk]
    cases v.slots[k]? <;> simp [Ne.symm hk]

theorem Versions.mem_matching {whose : ρ → Bool} {k : Nat} {slot : Slot ρ} {row : ρ}
    (hk : v.slots[k]? = some slot) (hseen : slot.seenBy i = some row) (hmeant : whose row = true) :
    k ∈ v.matching i whose := by
  obtain ⟨hlt, rfl⟩ := List.getElem?_eq_some_iff.mp hk
  refine List.mem_findIdxs_iff_exists_getElem_pos.mpr ⟨hlt, ?_⟩
  rw [hseen]
  exact hmeant

/-- Every row comes from the row that was in its place, or was inserted. -/
theorem Versions.Performed.came (h : v.Performed i a reply v') {k : Nat} {slot' : Slot ρ}
    (hk : v'.slots[k]? = some slot') :
    (∃ slot, v.slots[k]? = some slot ∧ slot.Became i k a slot') ∨
      (k = v.slots.length ∧ v'.nextKey = v.nextKey + 1 ∧ ∃ row, a = .insert row ∧
        slot' = ⟨none, some (i, row v.nextKey)⟩) := by
  cases h with
  | read whose => exact .inl ⟨slot', hk, .kept rfl⟩
  | refused row e => exact .inl ⟨slot', hk, .kept rfl⟩
  | inserted row =>
    by_cases hlt : k < v.slots.length
    · have hk' : (v.slots ++ [⟨none, some (i, row v.nextKey)⟩])[k]? = some slot' := hk
      rw [List.getElem?_append_left hlt] at hk'
      exact .inl ⟨slot', hk', .kept rfl⟩
    · have hk' : (v.slots ++ [⟨none, some (i, row v.nextKey)⟩])[k]? = some slot' := hk
      rw [List.getElem?_append_right (by omega)] at hk'
      obtain ⟨hlt', rfl⟩ := List.getElem?_eq_some_iff.mp hk'
      rw [List.length_singleton] at hlt'
      refine .inr ⟨by omega, rfl, row, rfl, ?_⟩
      simp
  | aimed _ => exact .inl ⟨slot', hk, .kept rfl⟩
  | missed _ => exact .inl ⟨slot', hk, .kept rfl⟩
  | @wrote index whose change slot old hslot hfree hseen hmeant =>
    rw [getElem?_write] at hk
    by_cases he : k = index
    · subst he
      rw [if_pos rfl, hslot] at hk
      cases hk
      exact .inl ⟨slot, hslot, .wrote hfree hseen hmeant⟩
    · rw [if_neg he] at hk
      exact .inl ⟨slot', hk, .kept rfl⟩
  | committed =>
    have hk' : (v.slots.map (Slot.commit i))[k]? = some slot' := hk
    rw [List.getElem?_map] at hk'
    obtain ⟨slot, hslot, rfl⟩ := Option.map_eq_some_iff.mp hk'
    exact .inl ⟨slot, hslot, .committed⟩
  | rolledBack =>
    have hk' : (v.slots.map (Slot.rollback i))[k]? = some slot' := hk
    rw [List.getElem?_map] at hk'
    obtain ⟨slot, hslot, rfl⟩ := Option.map_eq_some_iff.mp hk'
    exact .inl ⟨slot, hslot, .rolledBack⟩

/-- Every row stays in its place. -/
theorem Versions.Performed.goes (h : v.Performed i a reply v') {k : Nat} {slot : Slot ρ}
    (hk : v.slots[k]? = some slot) : ∃ slot', v'.slots[k]? = some slot' ∧ slot.Became i k a slot' := by
  have hlength : v.slots.length ≤ v'.slots.length := by
    cases h <;>
      simp [Versions.insert, Versions.write, Versions.commit, Versions.rollback]
  obtain ⟨hlt, hget⟩ := List.getElem?_eq_some_iff.mp hk
  have hk' : v'.slots[k]? = some v'.slots[k] := List.getElem?_eq_getElem (by omega)
  rcases h.came hk' with ⟨slot₀, hslot, hbecame⟩ | ⟨he, -⟩
  · obtain rfl := Option.some.inj (hk.symm.trans hslot)
    exact ⟨_, hk', hbecame⟩
  · omega

theorem Versions.Performed.nextKey (h : v.Performed i a reply v') : v.nextKey ≤ v'.nextKey := by
  cases h <;> simp [Versions.insert, Versions.write, Versions.commit, Versions.rollback]

end Performed

section Became

variable {ρ κ : Type} {key : ρ → κ} {i index : Nat} {a : Access ρ} {slot slot' : Slot ρ}

theorem Slot.seenBy_mem {row : ρ} (h : slot.seenBy i = some row) : row ∈ slot.versions := by
  unfold Slot.seenBy at h
  unfold Slot.versions
  split at h
  · rename_i j row' hw
    rw [hw]
    split at h
    · simp [Option.some.inj h]
    · simp [h]
  · simp [h]

theorem Slot.written_mem {row : ρ} {j : Nat} (h : slot.written = some (j, row)) :
    row ∈ slot.versions := by
  unfold Slot.versions
  rw [h]
  simp

theorem Slot.committed_mem {row : ρ} (h : slot.committed = some row) : row ∈ slot.versions := by
  unfold Slot.versions
  rw [h]
  simp

theorem Slot.mem_versions_iff {row : ρ} :
    row ∈ slot.versions ↔ slot.committed = some row ∨ ∃ j, slot.written = some (j, row) := by
  constructor
  · intro h
    unfold Slot.versions at h
    rcases List.mem_append.mp h with h | h
    · exact .inl (Option.mem_toList.mp h)
    · obtain ⟨⟨j, row'⟩, hw, rfl⟩ := Option.map_eq_some_iff.mp (Option.mem_toList.mp h)
      exact .inr ⟨j, hw⟩
  · rintro (h | ⟨j, h⟩)
    · exact Slot.committed_mem h
    · exact Slot.written_mem h

theorem Slot.seenBy_of_written {row : ρ} (h : slot.written = some (i, row)) :
    slot.seenBy i = some row := by
  unfold Slot.seenBy
  rw [h]
  exact if_pos rfl

/-- A transaction that has not written a row sees its committed version. -/
theorem Slot.seenBy_of_not_written (h : ∀ row, slot.written ≠ some (i, row)) :
    slot.seenBy i = slot.committed := by
  unfold Slot.seenBy
  split
  · rename_i j row hw
    refine if_neg fun hj => ?_
    subst hj
    exact h row hw
  · rfl

/-- A committed version changes as its writer commits. -/
theorem Slot.Became.committed_cases (h : slot.Became i index a slot') :
    slot'.committed = slot.committed ∨
      a = .commit ∧ ∃ row, slot.written = some (i, row) ∧ slot' = ⟨some row, none⟩ := by
  cases h with
  | kept _ => exact .inl rfl
  | wrote _ _ _ => exact .inl rfl
  | committed =>
    unfold Slot.commit
    split
    · rename_i j row hw
      split
      · rename_i hj
        subst hj
        exact .inr ⟨rfl, row, hw, rfl⟩
      · exact .inl rfl
    · exact .inl rfl
  | rolledBack => exact .inl Slot.rollback_committed

/-- A version is written by a visit, and is gone with the end of its transaction. -/
theorem Slot.Became.written_cases (h : slot.Became i index a slot') {j : Nat} {row : ρ}
    (hw : slot'.written = some (j, row)) :
    (slot.written = some (j, row) ∧ slot'.committed = slot.committed ∧ (a.ends = true → j ≠ i)) ∨
      ∃ whose change old, a = .visit index whose change ∧ j = i ∧ row = change old ∧
        slot.heldFrom i = false ∧ slot.seenBy i = some old ∧ whose old = true ∧
        slot'.committed = slot.committed := by
  cases h with
  | kept ha => exact .inl ⟨hw, rfl, fun he => Bool.noConfusion (ha.symm.trans he)⟩
  | @wrote whose change slot old hfree hseen hmeant =>
    cases hw
    exact .inr ⟨whose, change, old, rfl, rfl, rfl, hfree, hseen, hmeant, rfl⟩
  | committed =>
    unfold Slot.commit at hw ⊢
    split at hw
    · rename_i k row' hslot
      split at hw
      · cases hw
      · rename_i hk
        rw [hslot] at hw
        cases hw
        exact .inl ⟨hslot, by rw [if_neg hk], fun _ => hk⟩
    · rename_i hslot
      exact nomatch hslot.symm.trans hw
  | rolledBack =>
    unfold Slot.rollback at hw ⊢
    split at hw
    · rename_i k row' hslot
      split at hw
      · cases hw
      · rename_i hk
        rw [hslot] at hw
        cases hw
        exact .inl ⟨hslot, by rw [if_neg hk], fun _ => hk⟩
    · rename_i hslot
      exact nomatch hslot.symm.trans hw

/-- A version outlasts what others do, and what its own transaction does to other rows. -/
theorem Slot.Became.still_written (h : slot.Became i index a slot') {j : Nat} {row : ρ}
    (hw : slot.written = some (j, row)) (ha : a.ends = true → j ≠ i) :
    slot'.written = some (j, row) ∨
      ∃ whose change, a = .visit index whose change ∧ j = i ∧ whose row = true ∧
        slot' = { slot with written := some (i, change row) } := by
  cases h with
  | kept _ => exact .inl hw
  | @wrote whose change slot old hfree hseen hmeant =>
    have hj : j = i := by
      unfold Slot.heldFrom at hfree
      rw [hw] at hfree
      simpa using hfree
    subst hj
    obtain rfl := Option.some.inj ((Slot.seenBy_of_written hw).symm.trans hseen)
    exact .inr ⟨whose, change, rfl, rfl, hmeant, rfl⟩
  | committed =>
    unfold Slot.commit
    rw [hw]
    exact .inl (by simp only [if_neg (ha rfl), hw])
  | rolledBack =>
    unfold Slot.rollback
    rw [hw]
    exact .inl (by simp only [if_neg (ha rfl), hw])

/-- The versions of a row stay versions of that row. -/
theorem Slot.Became.versions (h : slot.Became i index a slot')
    (hkeep : ∀ whose change, a = .visit index whose change →
      ∀ old, whose old = true → key (change old) = key old)
    {row : ρ} (hrow : row ∈ slot'.versions) : ∃ old ∈ slot.versions, key old = key row := by
  unfold Slot.versions at hrow
  rcases List.mem_append.mp hrow with hrow | hrow
  · have hc := Option.mem_toList.mp hrow
    rcases h.committed_cases with he | ⟨-, row', hw, rfl⟩
    · exact ⟨row, Slot.committed_mem (he ▸ hc), rfl⟩
    · obtain rfl := Option.some.inj hc
      exact ⟨row', Slot.written_mem hw, rfl⟩
  · obtain ⟨⟨j, row'⟩, hw, rfl⟩ := Option.map_eq_some_iff.mp (Option.mem_toList.mp hrow)
    rcases h.written_cases hw with ⟨hw, -⟩ | ⟨whose, change, old, ha, -, rfl, -, hseen, hmeant, -⟩
    · exact ⟨row', Slot.written_mem hw, rfl⟩
    · exact ⟨old, Slot.seenBy_mem hseen, (hkeep whose change ha old hmeant).symm⟩

end Became

section After

variable {ρ : Type} {v v' : Versions ρ} {i : Nat} {a : Access ρ} {reply : a.Reply}

/-- A committed version was committed before, or is one its writer has just committed. -/
theorem Versions.Performed.committed_after (h : v.Performed i a reply v') {k : Nat}
    {slot' : Slot ρ} (hk : v'.slots[k]? = some slot') {row : ρ} (hc : slot'.committed = some row) :
    ∃ slot, v.slots[k]? = some slot ∧ (slot.committed = some row ∨
      a = .commit ∧ slot.written = some (i, row) ∧ slot'.written = none) := by
  rcases h.came hk with ⟨slot, hslot, hbecame⟩ | ⟨-, -, f, -, rfl⟩
  · rcases hbecame.committed_cases with he | ⟨ha, row', hw, rfl⟩
    · exact ⟨slot, hslot, .inl (he ▸ hc)⟩
    · obtain rfl := Option.some.inj hc
      exact ⟨slot, hslot, .inr ⟨ha, hw, rfl⟩⟩
  · cases hc

/-- A version under way was under way before, or is one just written or inserted. -/
theorem Versions.Performed.written_after (h : v.Performed i a reply v') {k : Nat}
    {slot' : Slot ρ} (hk : v'.slots[k]? = some slot') {j : Nat} {row : ρ}
    (hw : slot'.written = some (j, row)) :
    (∃ slot, v.slots[k]? = some slot ∧ slot.written = some (j, row) ∧
        slot'.committed = slot.committed) ∨
      (∃ slot whose change old, v.slots[k]? = some slot ∧ a = .visit k whose change ∧ j = i ∧
        row = change old ∧ slot.heldFrom i = false ∧ slot.seenBy i = some old ∧ whose old = true ∧
        slot'.committed = slot.committed) ∨
      (j = i ∧ slot'.committed = none ∧ ∃ f, a = .insert f ∧ row = f v.nextKey) := by
  rcases h.came hk with ⟨slot, hslot, hbecame⟩ | ⟨-, -, f, ha, rfl⟩
  · rcases hbecame.written_cases hw with ⟨hw, hc, -⟩ |
      ⟨whose, change, old, ha, hj, hrow, hfree, hseen, hmeant, hc⟩
    · exact .inl ⟨slot, hslot, hw, hc⟩
    · exact .inr (.inl ⟨slot, whose, change, old, hslot, ha, hj, hrow, hfree, hseen, hmeant, hc⟩)
  · obtain ⟨rfl, rfl⟩ : i = j ∧ f v.nextKey = row := by simpa using hw
    exact .inr (.inr ⟨rfl, rfl, f, ha, rfl⟩)

/-- A committed version is still there, or the one its writer has put in its place. -/
theorem Versions.Performed.commits_over (h : v.Performed i a reply v') {k : Nat}
    {slot : Slot ρ} (hk : v.slots[k]? = some slot) {row : ρ} (hc : slot.committed = some row) :
    ∃ slot', v'.slots[k]? = some slot' ∧ (slot'.committed = some row ∨
      a = .commit ∧ ∃ row', slot.written = some (i, row') ∧ slot'.committed = some row') := by
  obtain ⟨slot', hk', hbecame⟩ := h.goes hk
  rcases hbecame.committed_cases with he | ⟨ha, row', hw, rfl⟩
  · exact ⟨slot', hk', .inl (he.trans hc)⟩
  · exact ⟨_, hk', .inr ⟨ha, row', hw, rfl⟩⟩

end After

/-! ## What an update has still to visit -/

section Due

variable {ρ : Type} {whose : ρ → Bool} {indices : List Nat} {made : Accesses ρ} {k : Nat}

/-- A row of the snapshot that the update has still to visit. -/
def Due (whose : ρ → Bool) (indices : List Nat) (made : Accesses ρ) (k : Nat) : Prop :=
  k ∈ indices ∧ ∀ change reply,
    (⟨.visit k whose change, reply⟩ : (a : Access ρ) × a.Reply) ∉ made

theorem due_nil (hk : k ∈ indices) : Due whose indices [] k := ⟨hk, fun _ _ h => nomatch h⟩

theorem due_cons {a : Access ρ} {reply : a.Reply} (h : Due whose indices made k) :
    Due whose indices (⟨a, reply⟩ :: made) k ∨ ∃ change, a = .visit k whose change := by
  by_cases hvisit : ∃ change, a = .visit k whose change
  · exact .inr hvisit
  · refine .inl ⟨h.1, fun change reply' hm => ?_⟩
    rcases List.mem_cons.mp hm with he | hm
    · exact hvisit ⟨change, (congrArg Sigma.fst he).symm⟩
    · exact h.2 change reply' hm

/-- Once an update has visited its snapshot, nothing of it is due. -/
theorem not_due_visits {change : ρ → ρ} {seen : List (Nat × Option ρ)} (later : Accesses ρ)
    (hall : ∀ index ∈ indices, index ∈ seen.map Prod.fst) :
    ¬ Due whose indices (later ++ visits whose change seen) k := by
  rintro ⟨hk, hunvisited⟩
  obtain ⟨one, hone, rfl⟩ := List.mem_map.mp (hall k hk)
  exact hunvisited change one.2
    (List.mem_append_right _ (List.mem_map.mpr ⟨one, hone, rfl⟩))

end Due

/-! ## Transactions under way -/

/-- What a transaction is for, the tables it began on, and its accesses. -/
structure Undertaking (ρ τ : Type) where
  task : τ
  begun : Versions ρ
  made : Accesses ρ

structure Traffic (ρ τ : Type) where
  tables : Versions ρ
  under : Nat → Option (Undertaking ρ τ)
  /-- The transactions that have committed, newest first. -/
  done : List (Undertaking ρ τ)

/-- What the transactions keep to. -/
structure Discipline (ρ τ κ : Type) where
  /-- What stays the same about a row, and its number in that. -/
  key : ρ → κ
  number : κ → Nat
  /-- The rows there are when a transaction begins. -/
  needs : τ → List κ
  allows : Traffic ρ τ → Nat → Undertaking ρ τ → Access ρ → Prop
  /-- What may happen to a row from outside. -/
  changes : Slot ρ → Slot ρ → Prop

/-- A discipline under which rows stay the rows they are, and a transaction reads before it
writes. -/
structure Discipline.Lawful {ρ τ κ : Type} (d : Discipline ρ τ κ) : Prop where
  inserts : ∀ {c : Traffic ρ τ} {i : Nat} {u : Undertaking ρ τ} {row : Nat → ρ},
    d.allows c i u (.insert row) → ∀ n, d.number (d.key (row n)) = n
  visits : ∀ {c : Traffic ρ τ} {i : Nat} {u : Undertaking ρ τ} {index : Nat} {whose : ρ → Bool}
    {change : ρ → ρ}, d.allows c i u (.visit index whose change) →
      ∀ old, whose old = true → d.key (change old) = d.key old
  selects : ∀ {c : Traffic ρ τ} {i : Nat} {u : Undertaking ρ τ} {whose : ρ → Bool},
    d.allows c i u (.select whose) → ∀ m ∈ u.made, m.1.writes = false
  changes : ∀ {slot slot' : Slot ρ}, d.changes slot slot' →
    slot'.written = slot.written ∧ slot'.committed.map d.key = slot.committed.map d.key

namespace Traffic

variable {ρ τ κ : Type} {d : Discipline ρ τ κ} {c c' : Traffic ρ τ} {i : Nat}

def commits : Access ρ → Bool
  | .commit => true
  | _ => false

/-- One more access of a transaction. -/
def push (u : Undertaking ρ τ) (a : Access ρ) (reply : a.Reply) : Undertaking ρ τ :=
  { u with made := ⟨a, reply⟩ :: u.made }

inductive Step (d : Discipline ρ τ κ) (c : Traffic ρ τ) : Traffic ρ τ → Prop
  | begins {i : Nat} {task : τ} (idle : c.under i = none)
    (needs : ∀ k ∈ d.needs task, k ∈ c.tables.rows.map d.key) :
    Step d c { c with under := moveGhost c.under i (some ⟨task, c.tables, []⟩) }
  | accesses {i : Nat} {u : Undertaking ρ τ} {a : Access ρ} {reply : a.Reply}
    {tables : Versions ρ} (hu : c.under i = some u) (unended : Unended u.made)
    (allowed : d.allows c i u a) (performed : c.tables.Performed i a reply tables) :
    Step d c
      { tables, under := moveGhost c.under i (some (push u a reply))
        done := if commits a then u :: c.done else c.done }
  | retires {i : Nat} (ended : ∀ u, c.under i = some u → ¬ Unended u.made) :
    Step d c { c with under := moveGhost c.under i none }
  | changes {f : Slot ρ → Slot ρ} (allowed : ∀ slot ∈ c.tables.slots, d.changes slot (f slot)) :
    Step d c { c with tables := { c.tables with slots := c.tables.slots.map f } }

/-- The rows there are, by what stays the same about them. -/
def keys (d : Discipline ρ τ κ) (v : Versions ρ) : List κ := v.rows.map d.key

/-- What transactions that keep to a lawful discipline keep. -/
structure Sound (d : Discipline ρ τ κ) (c : Traffic ρ τ) : Prop where
  coherent : ∀ {k : Nat} {slot : Slot ρ}, c.tables.slots[k]? = some slot → ∀ {r r' : ρ},
    r ∈ slot.versions → r' ∈ slot.versions → d.key r = d.key r'
  distinct : ∀ {k k' : Nat} {slot slot' : Slot ρ}, c.tables.slots[k]? = some slot →
    c.tables.slots[k']? = some slot' → ∀ {r r' : ρ}, r ∈ slot.versions → r' ∈ slot'.versions →
    d.number (d.key r) = d.number (d.key r') → k = k'
  numbered : ∀ {k : Nat} {slot : Slot ρ}, c.tables.slots[k]? = some slot → ∀ {r : ρ},
    r ∈ slot.versions → d.number (d.key r) < c.tables.nextKey
  /-- A version is its transaction's until that is over. -/
  held : ∀ {k : Nat} {slot : Slot ρ}, c.tables.slots[k]? = some slot → ∀ {i : Nat} {r : ρ},
    slot.written = some (i, r) →
      ∃ u, c.under i = some u ∧ Unended u.made ∧ ∃ m ∈ u.made, m.1.writes = true
  inserted : ∀ {i : Nat} {u : Undertaking ρ τ}, c.under i = some u → Unended u.made →
    ∀ {row : Nat → ρ} {new : ρ}, ⟨.insert row, .ok new⟩ ∈ u.made →
      ∃ (k : Nat) (slot : Slot ρ) (r : ρ), c.tables.slots[k]? = some slot ∧
        slot.written = some (i, r) ∧ slot.committed = none ∧ d.key r = d.key new
  /-- A version a transaction has left stays until its end, or until it leaves the next. -/
  left : ∀ {i : Nat} {u : Undertaking ρ τ}, c.under i = some u → Unended u.made →
    ∀ {index : Nat} {whose : ρ → Bool} {change : ρ → ρ} {row : ρ},
      ⟨.visit index whose change, some row⟩ ∈ u.made →
        ∃ (slot : Slot ρ) (r : ρ), c.tables.slots[index]? = some slot ∧
          slot.written = some (i, r) ∧ d.key r = d.key row
  needed : ∀ {i : Nat} {u : Undertaking ρ τ}, c.under i = some u →
    ∀ k ∈ d.needs u.task, k ∈ keys d c.tables
  begun : ∀ {i : Nat} {u : Undertaking ρ τ}, c.under i = some u →
    ∀ k ∈ keys d u.begun, k ∈ keys d c.tables
  /-- What a transaction has read is there. -/
  read : ∀ {i : Nat} {u : Undertaking ρ τ}, c.under i = some u →
    ∀ {whose : ρ → Bool} {rows : List ρ}, ⟨.select whose, rows⟩ ∈ u.made →
      ∀ row ∈ rows, d.key row ∈ keys d c.tables

/-! ## What one step keeps -/

theorem mem_keys {v : Versions ρ} {k : κ} :
    k ∈ keys d v ↔ ∃ (index : Nat) (slot : Slot ρ) (row : ρ), v.slots[index]? = some slot ∧
      slot.committed = some row ∧ d.key row = k := by
  unfold keys Versions.rows
  rw [List.mem_map]
  constructor
  · rintro ⟨row, hrow, rfl⟩
    obtain ⟨slot, hslot, hc⟩ := List.mem_filterMap.mp hrow
    obtain ⟨index, hindex⟩ := List.mem_iff_getElem?.mp hslot
    exact ⟨index, slot, row, hindex, hc, rfl⟩
  · rintro ⟨index, slot, row, hindex, hc, rfl⟩
    exact ⟨row, List.mem_filterMap.mpr ⟨slot, List.mem_of_getElem? hindex, hc⟩, rfl⟩

section Access

variable {u : Undertaking ρ τ} {a : Access ρ} {reply : a.Reply} {tables : Versions ρ}

/-- An access leaves every row that is there. -/
theorem keys_access (h : Sound d c) (hp : c.tables.Performed i a reply tables) {k : κ}
    (hk : k ∈ keys d c.tables) :
    k ∈ keys d tables := by
  obtain ⟨index, slot, row, hindex, hc, rfl⟩ := mem_keys.mp hk
  obtain ⟨slot', hindex', hbecame⟩ := hp.goes hindex
  rcases hbecame.committed_cases with he | ⟨-, row', hw, rfl⟩
  · exact mem_keys.mpr ⟨index, slot', row, hindex', he.trans hc, rfl⟩
  · exact mem_keys.mpr ⟨index, _, row', hindex', rfl,
      h.coherent hindex (Slot.written_mem hw) (Slot.committed_mem hc)⟩

/-- Every version comes from one of the same row, or is one just inserted. -/
theorem version_access (hd : d.Lawful) (hallowed : d.allows c i u a)
    (hp : c.tables.Performed i a reply tables) {k : Nat} {slot' : Slot ρ} {r' : ρ}
    (hk : tables.slots[k]? = some slot') (hr : r' ∈ slot'.versions) :
    (∃ slot r, c.tables.slots[k]? = some slot ∧ r ∈ slot.versions ∧ d.key r = d.key r' ∧
        slot.Became i k a slot') ∨
      (k = c.tables.slots.length ∧ d.number (d.key r') = c.tables.nextKey ∧
        tables.nextKey = c.tables.nextKey + 1 ∧ slot' = ⟨none, some (i, r')⟩) := by
  rcases hp.came hk with ⟨slot, hslot, hbecame⟩ | ⟨hlength, hkey, row, rfl, rfl⟩
  · have hkeep : ∀ whose change, a = .visit k whose change →
        ∀ old, whose old = true → d.key (change old) = d.key old := by
      rintro whose change rfl
      exact hd.visits hallowed
    obtain ⟨r, hmem, he⟩ := hbecame.versions hkeep hr
    exact .inl ⟨slot, r, hslot, hmem, he, hbecame⟩
  · obtain rfl : r' = row c.tables.nextKey := by simpa [Slot.versions] using hr
    exact .inr ⟨hlength, hd.inserts hallowed _, hkey, rfl⟩

theorem push_unended (hu : Unended (push u a reply).made) : a.ends = false ∧ Unended u.made :=
  unended_cons.mp hu

/-- What a transaction has written is its own until its end, whoever makes an access. -/
theorem held_access (h : Sound d c) (hu : c.under i = some u) (hunended : Unended u.made)
    (hp : c.tables.Performed i a reply tables) {k : Nat} {slot' : Slot ρ}
    (hk : tables.slots[k]? = some slot') {j : Nat} {r : ρ} (hw : slot'.written = some (j, r)) :
    ∃ u', moveGhost c.under i (some (push u a reply)) j = some u' ∧ Unended u'.made ∧
      ∃ m ∈ u'.made, m.1.writes = true := by
  rcases hp.came hk with ⟨slot, hslot, hbecame⟩ | ⟨-, -, row, rfl, rfl⟩
  · rcases hbecame.written_cases hw with ⟨hold, -, hends⟩ | ⟨whose, change, old, rfl, rfl, -⟩
    · obtain ⟨u₀, hu₀, hopen, m, hm, hwrites⟩ := h.held hslot hold
      by_cases hj : j = i
      · subst hj
        obtain rfl := Option.some.inj (hu.symm.trans hu₀)
        have ha : a.ends = false := Bool.eq_false_iff.mpr fun he => hends he rfl
        exact ⟨_, moveGhost_self _ _ _, unended_cons.mpr ⟨ha, hopen⟩, m,
          List.mem_cons_of_mem _ hm, hwrites⟩
      · exact ⟨u₀, by rw [moveGhost_of_ne hj, hu₀], hopen, m, hm, hwrites⟩
    · exact ⟨_, moveGhost_self _ _ _, unended_cons.mpr ⟨rfl, hunended⟩, _,
        List.mem_cons_self, rfl⟩
  · obtain ⟨rfl, rfl⟩ : i = j ∧ _ = r := by simpa using hw
    exact ⟨_, moveGhost_self _ _ _, unended_cons.mpr ⟨rfl, hunended⟩, _, List.mem_cons_self, rfl⟩

/-- A version under way stays one of that row until its transaction ends, whoever makes an
access. -/
theorem still_written_access (hd : d.Lawful) (hallowed : d.allows c i u a)
    (hp : c.tables.Performed i a reply tables) {k : Nat} {slot : Slot ρ} {j : Nat} {r : ρ}
    (hk : c.tables.slots[k]? = some slot) (hw : slot.written = some (j, r))
    (hends : a.ends = true → j ≠ i) :
    ∃ slot' r', tables.slots[k]? = some slot' ∧ slot'.written = some (j, r') ∧
      slot'.committed = slot.committed ∧ d.key r' = d.key r := by
  obtain ⟨slot', hk', hbecame⟩ := hp.goes hk
  rcases hbecame.still_written hw hends with hw' | ⟨whose, change, rfl, rfl, hmeant, rfl⟩
  · rcases hbecame.committed_cases with he | ⟨rfl, r', hw'', -⟩
    · exact ⟨slot', r, hk', hw', he, rfl⟩
    · have hj : j = i := congrArg Prod.fst (Option.some.inj (hw.symm.trans hw''))
      exact absurd hj (hends rfl)
  · exact ⟨_, change r, hk', rfl, rfl, hd.visits hallowed r hmeant⟩

/-- What a transaction has inserted is there until its end, whoever makes an access. -/
theorem inserted_access (h : Sound d c) (hd : d.Lawful) (hu : c.under i = some u)
    (hallowed : d.allows c i u a) (hp : c.tables.Performed i a reply tables) {j : Nat}
    {u' : Undertaking ρ τ} (hu' : moveGhost c.under i (some (push u a reply)) j = some u')
    (hopen : Unended u'.made) {row : Nat → ρ} {new : ρ}
    (hm : (⟨.insert row, .ok new⟩ : (a : Access ρ) × a.Reply) ∈ u'.made) :
    ∃ (k : Nat) (slot : Slot ρ) (r : ρ), tables.slots[k]? = some slot ∧
      slot.written = some (j, r) ∧ slot.committed = none ∧ d.key r = d.key new := by
  have hstays : ∀ {u₀ : Undertaking ρ τ}, c.under j = some u₀ → Unended u₀.made →
      (a.ends = true → j ≠ i) →
      (⟨.insert row, .ok new⟩ : (a : Access ρ) × a.Reply) ∈ u₀.made →
      ∃ (k : Nat) (slot : Slot ρ) (r : ρ), tables.slots[k]? = some slot ∧
        slot.written = some (j, r) ∧ slot.committed = none ∧ d.key r = d.key new := by
    intro u₀ hu₀ hopen₀ hends hm₀
    obtain ⟨k, slot, r, hk, hw, hc, hkey⟩ := h.inserted hu₀ hopen₀ hm₀
    obtain ⟨slot', r', hk', hw', hc', hr⟩ := still_written_access hd hallowed hp hk hw hends
    exact ⟨k, slot', r', hk', hw', hc'.trans hc, hr.trans hkey⟩
  by_cases hj : j = i
  · subst hj
    rw [moveGhost_self] at hu'
    obtain rfl := Option.some.inj hu'
    obtain ⟨ha, hopen₀⟩ := push_unended hopen
    rcases List.mem_cons.mp hm with he | hm
    · obtain ⟨rfl, hreply⟩ := Sigma.mk.inj he
      cases hreply
      cases hp
      refine ⟨c.tables.slots.length, ⟨none, some (j, row c.tables.nextKey)⟩,
        row c.tables.nextKey, ?_, rfl, rfl, rfl⟩
      exact List.getElem?_concat_length
    · exact hstays hu hopen₀ (fun he => Bool.noConfusion (ha.symm.trans he)) hm
  · rw [moveGhost_of_ne hj] at hu'
    exact hstays hu' hopen (fun _ => hj) hm

/-- What a transaction has left is there until its end, whoever makes an access. -/
theorem left_access (h : Sound d c) (hd : d.Lawful) (hu : c.under i = some u)
    (hallowed : d.allows c i u a) (hp : c.tables.Performed i a reply tables) {j : Nat}
    {u' : Undertaking ρ τ} (hu' : moveGhost c.under i (some (push u a reply)) j = some u')
    (hopen : Unended u'.made) {index : Nat} {whose : ρ → Bool} {change : ρ → ρ} {row : ρ}
    (hm : (⟨.visit index whose change, some row⟩ : (a : Access ρ) × a.Reply) ∈ u'.made) :
    ∃ (slot : Slot ρ) (r : ρ), tables.slots[index]? = some slot ∧ slot.written = some (j, r) ∧
      d.key r = d.key row := by
  have hstays : ∀ {u₀ : Undertaking ρ τ}, c.under j = some u₀ → Unended u₀.made →
      (a.ends = true → j ≠ i) →
      (⟨.visit index whose change, some row⟩ : (a : Access ρ) × a.Reply) ∈ u₀.made →
      ∃ (slot : Slot ρ) (r : ρ), tables.slots[index]? = some slot ∧ slot.written = some (j, r) ∧
        d.key r = d.key row := by
    intro u₀ hu₀ hopen₀ hends hm₀
    obtain ⟨slot, r, hk, hw, hkey⟩ := h.left hu₀ hopen₀ hm₀
    obtain ⟨slot', r', hk', hw', -, hr⟩ := still_written_access hd hallowed hp hk hw hends
    exact ⟨slot', r', hk', hw', hr.trans hkey⟩
  by_cases hj : j = i
  · subst hj
    rw [moveGhost_self] at hu'
    obtain rfl := Option.some.inj hu'
    obtain ⟨ha, hopen₀⟩ := push_unended hopen
    rcases List.mem_cons.mp hm with he | hm
    · obtain ⟨rfl, hreply⟩ := Sigma.mk.inj he
      cases hreply
      cases hp with
      | @wrote _ _ _ slot old hslot _ _ _ =>
        refine ⟨{ slot with written := some (j, change old) }, change old, ?_, rfl, rfl⟩
        rw [getElem?_write, if_pos rfl, hslot]
        rfl
    · exact hstays hu hopen₀ (fun he => Bool.noConfusion (ha.symm.trans he)) hm
  · rw [moveGhost_of_ne hj] at hu'
    exact hstays hu' hopen (fun _ => hj) hm

/-- A transaction that reads has not written yet: it reads committed rows. -/
theorem read_access (h : Sound d c) (hd : d.Lawful) (hu : c.under i = some u)
    {whose : ρ → Bool} (hallowed : d.allows c i u (.select whose)) {row : ρ}
    (hrow : row ∈ (c.tables.seenBy i).filter whose) : row ∈ c.tables.rows := by
  obtain ⟨slot, hslot, hseen⟩ := List.mem_filterMap.mp (List.mem_filter.mp hrow).1
  obtain ⟨k, hk⟩ := List.mem_iff_getElem?.mp hslot
  have hnot : ∀ r, slot.written ≠ some (i, r) := by
    intro r hw
    obtain ⟨u', hu', -, m, hm, hwrites⟩ := h.held hk hw
    obtain rfl := Option.some.inj (hu.symm.trans hu')
    exact Bool.noConfusion ((hd.selects hallowed m hm).symm.trans hwrites)
  rw [Slot.seenBy_of_not_written hnot] at hseen
  exact List.mem_filterMap.mpr ⟨slot, hslot, hseen⟩

theorem Sound.access (h : Sound d c) (hd : d.Lawful) (hu : c.under i = some u)
    (hunended : Unended u.made) (hallowed : d.allows c i u a)
    (hp : c.tables.Performed i a reply tables) (done : List (Undertaking ρ τ)) :
    Sound d { tables, under := moveGhost c.under i (some (push u a reply)), done } := by
  have hkeys : ∀ k ∈ keys d c.tables, k ∈ keys d tables := fun k hk => keys_access h hp hk
  have hunder : ∀ {j : Nat} {u' : Undertaking ρ τ},
      moveGhost c.under i (some (push u a reply)) j = some u' →
      ∃ u₀, c.under j = some u₀ ∧ u'.task = u₀.task ∧ u'.begun = u₀.begun ∧
        ∀ m ∈ u'.made, m ∈ u₀.made ∨ (j = i ∧ u₀ = u ∧ m = ⟨a, reply⟩) := by
    intro j u' hu'
    by_cases hj : j = i
    · subst hj
      rw [moveGhost_self] at hu'
      obtain rfl := Option.some.inj hu'
      refine ⟨u, hu, rfl, rfl, fun m hm => ?_⟩
      rcases List.mem_cons.mp hm with rfl | hm
      · exact .inr ⟨rfl, rfl, rfl⟩
      · exact .inl hm
    · rw [moveGhost_of_ne hj] at hu'
      exact ⟨u', hu', rfl, rfl, fun m hm => .inl hm⟩
  constructor
  · intro k slot hk r r' hr hr'
    rcases version_access hd hallowed hp hk hr with ⟨slot₀, r₀, hk₀, hr₀, he, -⟩ | ⟨-, -, -, rfl⟩
    · rcases version_access hd hallowed hp hk hr' with ⟨slot₁, r₁, hk₁, hr₁, he', -⟩ |
        ⟨hlength, -, -, -⟩
      · obtain rfl := Option.some.inj (hk₀.symm.trans hk₁)
        exact he.symm.trans ((h.coherent hk₀ hr₀ hr₁).trans he')
      · have hlt := (List.getElem?_eq_some_iff.mp hk₀).1
        omega
    · obtain rfl : r' = r := by simpa [Slot.versions] using hr'
      rfl
  · intro k k' slot slot' hk hk' r r' hr hr' he
    rcases version_access hd hallowed hp hk hr with ⟨slot₀, r₀, hk₀, hr₀, he₀, -⟩ |
      ⟨hlength, hnumber, -, -⟩
    · rcases version_access hd hallowed hp hk' hr' with ⟨slot₁, r₁, hk₁, hr₁, he₁, -⟩ |
        ⟨-, hnumber, -, -⟩
      · exact h.distinct hk₀ hk₁ hr₀ hr₁ (by rw [he₀, he₁, he])
      · have hlt := h.numbered hk₀ hr₀
        rw [he₀] at hlt
        omega
    · rcases version_access hd hallowed hp hk' hr' with ⟨slot₁, r₁, hk₁, hr₁, he₁, -⟩ |
        ⟨hlength', -, -, -⟩
      · have hlt := h.numbered hk₁ hr₁
        rw [he₁] at hlt
        omega
      · omega
  · intro k slot hk r hr
    rcases version_access hd hallowed hp hk hr with ⟨slot₀, r₀, hk₀, hr₀, he₀, -⟩ |
      ⟨-, hnumber, hkey, -⟩
    · have hlt := h.numbered hk₀ hr₀
      have hle := hp.nextKey
      rw [he₀] at hlt
      exact Nat.lt_of_lt_of_le hlt hle
    · show _ < tables.nextKey
      omega
  · intro k slot hk j r hw
    exact held_access h hu hunended hp hk hw
  · intro j u' hu' hopen row new hm
    exact inserted_access h hd hu hallowed hp hu' hopen hm
  · intro j u' hu' hopen index whose change row hm
    exact left_access h hd hu hallowed hp hu' hopen hm
  · intro j u' hu' k hk
    obtain ⟨u₀, hu₀, htask, -⟩ := hunder hu'
    exact hkeys k (h.needed hu₀ k (htask ▸ hk))
  · intro j u' hu' k hk
    obtain ⟨u₀, hu₀, -, hbegun, -⟩ := hunder hu'
    exact hkeys k (h.begun hu₀ k (hbegun ▸ hk))
  · intro j u' hu' whose rows hm row hrow
    obtain ⟨u₀, hu₀, -, -, hmade⟩ := hunder hu'
    rcases hmade _ hm with hm | ⟨rfl, rfl, he⟩
    · exact hkeys _ (h.read hu₀ hm row hrow)
    · obtain ⟨rfl, hreply⟩ := Sigma.mk.inj he
      cases hreply
      cases hp
      exact List.mem_map.mpr ⟨row, read_access h hd hu hallowed hrow, rfl⟩

end Access

theorem Sound.begin (h : Sound d c) {task : τ} (hidle : c.under i = none)
    (hneeds : ∀ k ∈ d.needs task, k ∈ keys d c.tables) :
    Sound d { c with under := moveGhost c.under i (some ⟨task, c.tables, []⟩) } := by
  have hunder : ∀ {j : Nat} {u : Undertaking ρ τ},
      moveGhost c.under i (some ⟨task, c.tables, []⟩) j = some u →
      c.under j = some u ∨ u = ⟨task, c.tables, []⟩ := by
    intro j u hu
    by_cases hj : j = i
    · rw [hj, moveGhost_self] at hu
      exact .inr (Option.some.inj hu).symm
    · rw [moveGhost_of_ne hj] at hu
      exact .inl hu
  refine ⟨h.coherent, h.distinct, h.numbered, ?_, ?_, ?_, ?_, ?_, ?_⟩
  · intro k slot hk j r hw
    obtain ⟨u, hu, hrest⟩ := h.held hk hw
    have hj : j ≠ i := fun he => nomatch (he ▸ hidle).symm.trans hu
    exact ⟨u, (moveGhost_of_ne hj).trans hu, hrest⟩
  · intro j u hu hopen row new hm
    rcases hunder hu with hu | rfl
    · exact h.inserted hu hopen hm
    · cases hm
  · intro j u hu hopen index whose change row hm
    rcases hunder hu with hu | rfl
    · exact h.left hu hopen hm
    · cases hm
  · intro j u hu k hk
    rcases hunder hu with hu | rfl
    · exact h.needed hu k hk
    · exact hneeds k hk
  · intro j u hu k hk
    rcases hunder hu with hu | rfl
    · exact h.begun hu k hk
    · exact hk
  · intro j u hu whose rows hm
    rcases hunder hu with hu | rfl
    · exact h.read hu hm
    · cases hm

theorem Sound.retire (h : Sound d c) (hover : ∀ u, c.under i = some u → ¬ Unended u.made) :
    Sound d { c with under := moveGhost c.under i none } := by
  have hunder : ∀ {j : Nat} {u : Undertaking ρ τ}, moveGhost c.under i none j = some u →
      c.under j = some u := by
    intro j u hu
    by_cases hj : j = i
    · rw [hj, moveGhost_self] at hu
      cases hu
    · rwa [moveGhost_of_ne hj] at hu
  refine ⟨h.coherent, h.distinct, h.numbered, ?_, fun hu => h.inserted (hunder hu),
    fun hu => h.left (hunder hu), fun hu => h.needed (hunder hu), fun hu => h.begun (hunder hu), fun hu => h.read (hunder hu)⟩
  intro k slot hk j r hw
  obtain ⟨u, hu, hopen, hrest⟩ := h.held hk hw
  have hj : j ≠ i := fun he => hover u (he ▸ hu) hopen
  exact ⟨u, (moveGhost_of_ne hj).trans hu, hopen, hrest⟩

/-- A row changed from outside is the row it was. -/
theorem version_change (hd : d.Lawful) {slot slot' : Slot ρ} (hc : d.changes slot slot') {r' : ρ}
    (hr : r' ∈ slot'.versions) : ∃ r ∈ slot.versions, d.key r = d.key r' := by
  obtain ⟨hw, hkey⟩ := hd.changes hc
  unfold Slot.versions at hr
  rcases List.mem_append.mp hr with hr | hr
  · rw [Option.mem_toList.mp hr] at hkey
    obtain ⟨r, hr', he⟩ := Option.map_eq_some_iff.mp hkey.symm
    exact ⟨r, Slot.committed_mem hr', he⟩
  · rw [hw] at hr
    exact ⟨r', List.mem_append_right _ hr, rfl⟩

theorem keys_change (hd : d.Lawful) {f : Slot ρ → Slot ρ}
    (hf : ∀ slot ∈ c.tables.slots, d.changes slot (f slot)) {k : κ} (hk : k ∈ keys d c.tables) :
    k ∈ keys d { c.tables with slots := c.tables.slots.map f } := by
  obtain ⟨index, slot, row, hindex, hc, rfl⟩ := mem_keys.mp hk
  obtain ⟨-, hkey⟩ := hd.changes (hf slot (List.mem_of_getElem? hindex))
  rw [hc] at hkey
  obtain ⟨row', hrow', he⟩ := Option.map_eq_some_iff.mp hkey
  refine mem_keys.mpr ⟨index, f slot, row', ?_, hrow', he⟩
  exact List.getElem?_map.trans (congrArg (Option.map f) hindex)

theorem Sound.change (h : Sound d c) (hd : d.Lawful) {f : Slot ρ → Slot ρ}
    (hf : ∀ slot ∈ c.tables.slots, d.changes slot (f slot)) :
    Sound d { c with tables := { c.tables with slots := c.tables.slots.map f } } := by
  have hat : ∀ {k : Nat} {slot' : Slot ρ}, (c.tables.slots.map f)[k]? = some slot' →
      ∃ slot, c.tables.slots[k]? = some slot ∧ d.changes slot slot' := by
    intro k slot' hk
    rw [List.getElem?_map] at hk
    obtain ⟨slot, hslot, rfl⟩ := Option.map_eq_some_iff.mp hk
    exact ⟨slot, hslot, hf slot (List.mem_of_getElem? hslot)⟩
  refine ⟨?_, ?_, ?_, ?_, ?_, ?_, fun hu k hk => keys_change hd hf (h.needed hu k hk),
    fun hu k hk => keys_change hd hf (h.begun hu k hk),
    fun hu _ _ hm row hrow => keys_change hd hf (h.read hu hm row hrow)⟩
  · intro k slot hk r r' hr hr'
    obtain ⟨slot₀, hk₀, hc⟩ := hat hk
    obtain ⟨r₀, hr₀, he⟩ := version_change hd hc hr
    obtain ⟨r₁, hr₁, he'⟩ := version_change hd hc hr'
    exact he.symm.trans ((h.coherent hk₀ hr₀ hr₁).trans he')
  · intro k k' slot slot' hk hk' r r' hr hr' he
    obtain ⟨slot₀, hk₀, hc⟩ := hat hk
    obtain ⟨slot₁, hk₁, hc'⟩ := hat hk'
    obtain ⟨r₀, hr₀, he₀⟩ := version_change hd hc hr
    obtain ⟨r₁, hr₁, he₁⟩ := version_change hd hc' hr'
    exact h.distinct hk₀ hk₁ hr₀ hr₁ (by rw [he₀, he₁, he])
  · intro k slot hk r hr
    obtain ⟨slot₀, hk₀, hc⟩ := hat hk
    obtain ⟨r₀, hr₀, he⟩ := version_change hd hc hr
    exact he ▸ h.numbered hk₀ hr₀
  · intro k slot hk j r hw
    obtain ⟨slot₀, hk₀, hc⟩ := hat hk
    exact h.held hk₀ ((hd.changes hc).1 ▸ hw)
  · intro j u hu hopen row new hm
    obtain ⟨k, slot, r, hk, hw, hc, he⟩ := h.inserted hu hopen hm
    have hk' : (c.tables.slots.map f)[k]? = some (f slot) :=
      List.getElem?_map.trans (congrArg (Option.map f) hk)
    obtain ⟨hw', hkey⟩ := hd.changes (hf slot (List.mem_of_getElem? hk))
    rw [hc] at hkey
    exact ⟨k, f slot, r, hk', hw'.trans hw, Option.map_eq_none_iff.mp hkey, he⟩
  · intro j u hu hopen index whose change row hm
    obtain ⟨slot, r, hk, hw, he⟩ := h.left hu hopen hm
    have hk' : (c.tables.slots.map f)[index]? = some (f slot) :=
      List.getElem?_map.trans (congrArg (Option.map f) hk)
    exact ⟨f slot, r, hk', (hd.changes (hf slot (List.mem_of_getElem? hk))).1.trans hw, he⟩

/-- Every step keeps the tables sound. -/
theorem Sound.step (h : Sound d c) (hd : d.Lawful) (hs : Step d c c') : Sound d c' := by
  cases hs with
  | begins hidle hneeds => exact h.begin hidle hneeds
  | accesses hu hunended hallowed hp => exact h.access hd hu hunended hallowed hp _
  | retires hover => exact h.retire hover
  | changes hf => exact h.change hd hf

/-- Every step leaves the rows that are there. -/
theorem Sound.keys_step (h : Sound d c) (hd : d.Lawful) (hs : Step d c c') {k : κ}
    (hk : k ∈ keys d c.tables) : k ∈ keys d c'.tables := by
  cases hs with
  | begins _ _ => exact hk
  | accesses _ _ _ hp => exact keys_access h hp hk
  | retires _ => exact hk
  | changes hf => exact keys_change hd hf hk

/-- Tables with nothing under way. -/
theorem sound_start {v : Versions ρ} (hquiet : ∀ slot ∈ v.slots, slot.written = none)
    (hdistinct : (v.rows.map (d.number ∘ d.key)).Nodup)
    (hnumbered : ∀ row ∈ v.rows, d.number (d.key row) < v.nextKey) :
    Sound d { tables := v, under := fun _ => none, done := [] } := by
  have hversion : ∀ {k : Nat} {slot : Slot ρ}, v.slots[k]? = some slot → ∀ {r : ρ},
      r ∈ slot.versions → slot.committed = some r := by
    intro k slot hk r hr
    unfold Slot.versions at hr
    rw [hquiet slot (List.mem_of_getElem? hk)] at hr
    simpa using hr
  have hapart : v.slots.Pairwise fun slot slot' => ∀ r, slot.committed = some r →
      ∀ r', slot'.committed = some r' → d.number (d.key r) ≠ d.number (d.key r') := by
    have hrows := List.pairwise_map.mp hdistinct
    exact List.pairwise_filterMap.mp hrows
  have hat := List.pairwise_iff_getElem.mp hapart
  constructor
  · intro k slot hk r r' hr hr'
    obtain rfl := Option.some.inj ((hversion hk hr).symm.trans (hversion hk hr'))
    rfl
  · intro k k' slot slot' hk hk' r r' hr hr' he
    obtain ⟨hlt, rfl⟩ := List.getElem?_eq_some_iff.mp hk
    obtain ⟨hlt', rfl⟩ := List.getElem?_eq_some_iff.mp hk'
    rcases Nat.lt_trichotomy k k' with hkk | hkk | hkk
    · exact absurd he (hat k k' hlt hlt' hkk r (hversion hk hr) r' (hversion hk' hr'))
    · exact hkk
    · exact absurd he.symm (hat k' k hlt' hlt hkk r' (hversion hk' hr') r (hversion hk hr))
  · intro k slot hk r hr
    exact hnumbered r (List.mem_filterMap.mpr
      ⟨slot, List.mem_of_getElem? hk, hversion hk hr⟩)
  · intro k slot hk i r hw
    exact nomatch (hquiet slot (List.mem_of_getElem? hk)).symm.trans hw
  · exact fun hu => nomatch hu
  · exact fun hu => nomatch hu
  · exact fun hu => nomatch hu
  · exact fun hu => nomatch hu
  · exact fun hu => nomatch hu

end Traffic

end PracticalMicroservice.Foundations
