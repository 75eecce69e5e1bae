import PracticalMicroservice.Foundations.Statements
import PracticalMicroservice.Foundations.Threads
import Mathlib.Data.List.Basic

/-!
# Transactions side by side

READ COMMITTED, as PostgreSQL has it. A statement sees the rows that were committed when it began,
and what its own transaction has written. An update takes such a snapshot and then visits its rows
in some order: it waits for a row that another transaction has written, and tries its `where` again
on the version it finds. An insert waits for the end of a transaction whose row it may repeat.
-/

namespace PracticalMicroservice.Foundations

/-- The versions of a row: the committed one, and the one a transaction has put in its place. -/
structure Slot (ρ : Type) where
  committed : Option ρ
  written : Option (Nat × ρ)

namespace Slot

variable {ρ : Type}

/-- The version a transaction sees. -/
def seenBy (i : Nat) (slot : Slot ρ) : Option ρ :=
  match slot.written with
  | some (j, row) => if j = i then some row else slot.committed
  | none => slot.committed

def versions (slot : Slot ρ) : List ρ :=
  slot.committed.toList ++ (slot.written.map Prod.snd).toList

/-- Another transaction has written the row and is not over. -/
def heldFrom (i : Nat) (slot : Slot ρ) : Bool :=
  match slot.written with
  | some (j, _) => j ≠ i
  | none => false

def commit (i : Nat) (slot : Slot ρ) : Slot ρ :=
  match slot.written with
  | some (j, row) => if j = i then { committed := some row, written := none } else slot
  | none => slot

def rollback (i : Nat) (slot : Slot ρ) : Slot ρ :=
  match slot.written with
  | some (j, _) => if j = i then { slot with written := none } else slot
  | none => slot

end Slot

structure Versions (ρ : Type) where
  /-- In the order of their insertion. A row whose insert was taken back leaves an empty one. -/
  slots : List (Slot ρ)
  nextKey : Nat

/-- What a transaction does to the rows, piece by piece. -/
inductive Access (ρ : Type) : Type
  | select (whose : ρ → Bool)
  | insert (row : Nat → ρ)
  /-- The snapshot of an update. -/
  | targets (whose : ρ → Bool)
  /-- The update reaches a row of its snapshot. -/
  | visit (index : Nat) (whose : ρ → Bool) (change : ρ → ρ)
  | commit
  | rollback

abbrev Access.Reply {ρ : Type} : Access ρ → Type
  | select _ => List ρ
  | insert _ => Except DatabaseError ρ
  | targets _ => List Nat
  | visit _ _ _ => Option ρ
  | commit | rollback => Unit

namespace Versions

variable {ρ : Type}

/-- The rows a statement finds that begins now, in a new transaction. -/
def rows (v : Versions ρ) : List ρ := v.slots.filterMap Slot.committed

def seenBy (v : Versions ρ) (i : Nat) : List ρ := v.slots.filterMap (Slot.seenBy i)

/-- Where the rows are that a `where` matches. -/
def matching (v : Versions ρ) (i : Nat) (whose : ρ → Bool) : List Nat :=
  v.slots.findIdxs fun slot => (slot.seenBy i).any whose

def insert (v : Versions ρ) (i : Nat) (new : ρ) : Versions ρ where
  slots := v.slots ++ [{ committed := none, written := some (i, new) }]
  nextKey := v.nextKey + 1

def write (v : Versions ρ) (i index : Nat) (row : ρ) : Versions ρ :=
  { v with slots := v.slots.modify index fun slot => { slot with written := some (i, row) } }

def commit (v : Versions ρ) (i : Nat) : Versions ρ :=
  { v with slots := v.slots.map (Slot.commit i) }

def rollback (v : Versions ρ) (i : Nat) : Versions ρ :=
  { v with slots := v.slots.map (Slot.rollback i) }

/-- An insert has to wait for another transaction. -/
def awaits [Keyed ρ] (v : Versions ρ) (i : Nat) (new : ρ) : Bool :=
  v.slots.any fun slot =>
    slot.heldFrom i && slot.versions.any fun old => (Keyed.clash new old).isSome

/-- An access of a transaction, if it has not to wait. `order` is the one its update goes by. -/
def perform [Keyed ρ] (v : Versions ρ) (i : Nat) (order : List Nat) :
    (access : Access ρ) → Option (access.Reply × Versions ρ)
  | .select whose => some ((v.seenBy i).filter whose, v)
  | .insert row =>
    let new := row v.nextKey
    if v.awaits i new then none
    else match Store.clashes (v.seenBy i) new with
      | some fields => some (.error (.P2002 fields), v)
      | none => some (.ok new, v.insert i new)
  | .targets whose => if order.Perm (v.matching i whose) then some (order, v) else none
  | .visit index whose change =>
    match v.slots[index]? with
    | none => some (none, v)
    | some slot =>
      if slot.heldFrom i then none
      else match (slot.seenBy i).filter whose with
        | some row => some (some (change row), v.write i index (change row))
        | none => some (none, v)
  | .commit => some ((), v.commit i)
  | .rollback => some ((), v.rollback i)

end Versions

/-! ## Transactions as programs of accesses -/

abbrev Session (ρ : Type) : Type → Type := Program (Access ρ) Access.Reply

namespace Session

variable {ρ α : Type}

def access (a : Access ρ) : Session ρ a.Reply := Program.request a

/-- The rows of an update, one after the other. -/
def visitAll (whose : ρ → Bool) (change : ρ → ρ) : List Nat → Session ρ (List ρ)
  | [] => return []
  | index :: more => do
    let row : Option ρ ← access (.visit index whose change)
    let rows ← visitAll whose change more
    return row.toList ++ rows

def statement : (st : Statement ρ) → Session ρ (Statement.Reply ρ st)
  | .select whose => do
    let rows : List ρ ← access (.select whose)
    return .ok rows
  | .insert row => do
    let reply : Except DatabaseError ρ ← access (.insert row)
    return reply.map fun row => [row]
  | .update whose change => do
    let indices : List Nat ← access (.targets whose)
    let rows ← visitAll whose change indices
    return .ok rows

/-- `$transaction`: its statements, and their end. -/
def transact (tx : Transaction ρ α) : Session ρ (Except DatabaseError α) := do
  match ← Program.interpret statement tx.run with
  | .ok a =>
    access .commit
    return .ok a
  | .error e =>
    access .rollback
    return .error e

end Session

/-- Transactions on one database, and what else may happen to it. -/
def readCommitted {ρ M : Type} [Keyed ρ] (move : M → Versions ρ → Option (Versions ρ)) :
    Machine (Access ρ) Access.Reply (Versions ρ) (List Nat) M where
  perform i order access v := v.perform i order access
  move := move

/-! ## What the accesses do -/

namespace Slot

variable {ρ : Type} {i : Nat} {slot : Slot ρ}

/-- What a transaction sees is what its commit leaves. -/
@[simp] theorem commit_committed : (slot.commit i).committed = slot.seenBy i := by
  unfold commit seenBy
  split
  · split
    · rfl
    · rfl
  · rfl

@[simp] theorem rollback_committed : (slot.rollback i).committed = slot.committed := by
  unfold rollback
  split
  · split
    · rfl
    · rfl
  · rfl

theorem commit_written (h : slot.heldFrom i = false) : (slot.commit i).written = none := by
  unfold heldFrom at h
  unfold commit
  split at h
  · rename_i j row hw
    have hj : j = i := by simpa using h
    simp only [if_pos hj]
  · rename_i hw
    simp only [hw]

theorem rollback_written (h : slot.heldFrom i = false) : (slot.rollback i).written = none := by
  unfold heldFrom at h
  unfold rollback
  split at h
  · rename_i j row hw
    have hj : j = i := by simpa using h
    simp only [if_pos hj]
  · rename_i hw
    simp only [hw]

theorem seenBy_of_written_none (h : slot.written = none) : slot.seenBy i = slot.committed := by
  unfold seenBy
  rw [h]

end Slot

namespace Versions

variable {ρ : Type} {v v' : Versions ρ} {i : Nat}

@[simp] theorem rows_commit : (v.commit i).rows = v.seenBy i := by
  unfold rows commit seenBy
  rw [List.filterMap_map]
  exact congrArg (v.slots.filterMap ·) (funext fun slot => Slot.commit_committed)

@[simp] theorem rows_rollback : (v.rollback i).rows = v.rows := by
  unfold rows rollback
  rw [List.filterMap_map]
  exact congrArg (v.slots.filterMap ·) (funext fun slot => Slot.rollback_committed)

@[simp] theorem rows_insert (new : ρ) : (v.insert i new).rows = v.rows := by
  unfold rows insert
  rw [List.filterMap_append]
  exact List.append_nil _

theorem committed_write (index : Nat) (row : ρ) :
    (v.write i index row).slots.map Slot.committed = v.slots.map Slot.committed := by
  refine List.ext_getElem? fun n => ?_
  show ((v.slots.modify index _).map Slot.committed)[n]? = _
  rw [List.getElem?_map, List.getElem?_map, List.getElem?_modify]
  cases v.slots[n]? with
  | none => rfl
  | some slot =>
    show some (Slot.committed (if index = n then _ else slot)) = some slot.committed
    split <;> rfl

@[simp] theorem rows_write (index : Nat) (row : ρ) : (v.write i index row).rows = v.rows := by
  have h : ∀ slots : List (Slot ρ), slots.filterMap Slot.committed =
      (slots.map Slot.committed).filterMap id := fun slots => by
    rw [List.filterMap_map]
    rfl
  unfold rows
  rw [h, h, committed_write]

variable [Keyed ρ] {order : List Nat}

theorem perform_insert {row : Nat → ρ} {reply : Except DatabaseError ρ}
    (h : v.perform i order (.insert row) = some (reply, v')) :
    v.awaits i (row v.nextKey) = false ∧
      ((∃ fields, Store.clashes (v.seenBy i) (row v.nextKey) = some fields ∧
          reply = .error (.P2002 fields) ∧ v' = v) ∨
        (Store.clashes (v.seenBy i) (row v.nextKey) = none ∧ reply = .ok (row v.nextKey) ∧
          v' = v.insert i (row v.nextKey))) := by
  simp only [perform] at h
  split at h
  · cases h
  · rename_i hfree
    refine ⟨Bool.eq_false_iff.mpr hfree, ?_⟩
    split at h
    · rename_i fields hclash
      cases h
      exact .inl ⟨fields, hclash, rfl, rfl⟩
    · rename_i hclash
      cases h
      exact .inr ⟨hclash, rfl, rfl⟩

theorem perform_targets {whose : ρ → Bool} {reply : List Nat}
    (h : v.perform i order (.targets whose) = some (reply, v')) :
    reply.Perm (v.matching i whose) ∧ v' = v := by
  simp only [perform] at h
  split at h
  · rename_i hp
    cases h
    exact ⟨hp, rfl⟩
  · cases h

/-- A visit finds nothing to change, or writes the newest version of the row. -/
theorem perform_visit {index : Nat} {whose : ρ → Bool} {change : ρ → ρ} {reply : Option ρ}
    (h : v.perform i order (.visit index whose change) = some (reply, v')) :
    (reply = none ∧ v' = v ∧ ∀ slot, v.slots[index]? = some slot →
      slot.heldFrom i = false ∧ (slot.seenBy i).filter whose = none) ∨
    ∃ slot row, v.slots[index]? = some slot ∧ slot.heldFrom i = false ∧
      slot.seenBy i = some row ∧ whose row = true ∧ reply = some (change row) ∧
      v' = v.write i index (change row) := by
  simp only [perform] at h
  split at h
  · rename_i hnone
    cases h
    exact .inl ⟨rfl, rfl, fun slot hs => nomatch hnone.symm.trans hs⟩
  · rename_i slot hslot
    split at h
    · cases h
    · rename_i hfree
      have hfree' := Bool.eq_false_iff.mpr hfree
      split at h
      · rename_i row hrow
        cases h
        obtain ⟨hseen, hwhose⟩ := Option.filter_eq_some_iff.mp hrow
        exact .inr ⟨slot, row, hslot, hfree', hseen, hwhose, rfl, rfl⟩
      · rename_i hrow
        cases h
        refine .inl ⟨rfl, rfl, fun slot' hs => ?_⟩
        obtain rfl := Option.some.inj (hslot.symm.trans hs)
        exact ⟨hfree', hrow⟩

/-- What a transaction does shows to no other before it commits. -/
theorem rows_perform {a : Access ρ} {reply : a.Reply} (h : v.perform i order a = some (reply, v'))
    (ha : a ≠ .commit) : v'.rows = v.rows := by
  cases a with
  | select whose =>
    cases h
    rfl
  | insert row =>
    obtain ⟨-, ⟨_, -, -, rfl⟩ | ⟨-, -, rfl⟩⟩ := perform_insert h
    · rfl
    · exact rows_insert _
  | targets whose =>
    obtain ⟨-, rfl⟩ := perform_targets h
    rfl
  | visit index whose change =>
    obtain ⟨-, rfl, -⟩ | ⟨slot, row, -, -, -, -, -, rfl⟩ := perform_visit h
    · rfl
    · exact rows_write _ _
  | commit => exact absurd rfl ha
  | rollback =>
    cases h
    exact rows_rollback

end Versions

/-! ## A transaction with nothing beside it -/

section Alone

variable {ρ α : Type} [Keyed ρ] {v : Versions ρ} {i : Nat}

/-- The order of the table. -/
def Access.order (v : Versions ρ) (i : Nat) : Access ρ → List Nat
  | targets whose => v.matching i whose
  | _ => []

def Versions.alone (i : Nat) (a : Access ρ) (v : Versions ρ) : Option (a.Reply × Versions ρ) :=
  v.perform i (a.order v i) a

/-- The rows as a transaction that holds all there is to hold sees them are those of a store. -/
structure Versions.Shows (v : Versions ρ) (i : Nat) (s : Store ρ) : Prop where
  free : ∀ slot ∈ v.slots, slot.heldFrom i = false
  rows : v.seenBy i = s.rows
  key : v.nextKey = s.nextKey

end Alone

section Visits

variable {ρ : Type} {i : Nat}

/-- The version a visit leaves. -/
def Slot.visited (i : Nat) (whose : ρ → Bool) (change : ρ → ρ) (slot : Slot ρ) : Slot ρ :=
  match (slot.seenBy i).filter whose with
  | some row => { slot with written := some (i, change row) }
  | none => slot

theorem Slot.seenBy_visited (whose : ρ → Bool) (change : ρ → ρ) (slot : Slot ρ) :
    (slot.visited i whose change).seenBy i =
      (slot.seenBy i).map fun row => if whose row then change row else row := by
  unfold visited
  cases hs : slot.seenBy i with
  | none => exact hs
  | some row =>
    rw [Option.filter_some]
    by_cases hw : whose row = true
    · rw [if_pos hw]
      simp [Slot.seenBy, hw]
    · rw [if_neg hw]
      simp [hs, hw]

theorem Slot.heldFrom_visited (whose : ρ → Bool) (change : ρ → ρ) {slot : Slot ρ}
    (h : slot.heldFrom i = false) : (slot.visited i whose change).heldFrom i = false := by
  unfold visited
  split
  · simp [heldFrom]
  · exact h

/-- Replacing the versions seen is an update of the rows seen. -/
theorem seenBy_visited (whose : ρ → Bool) (change : ρ → ρ) (slots : List (Slot ρ)) :
    (slots.map (Slot.visited i whose change)).filterMap (Slot.seenBy i) =
      (slots.filterMap (Slot.seenBy i)).map fun row => if whose row then change row else row := by
  rw [List.filterMap_map, List.map_filterMap]
  exact congrArg (slots.filterMap ·) (funext fun slot => slot.seenBy_visited whose change)

theorem modify_append_length {α : Type} (xs ys : List α) (a : α) (f : α → α) :
    (xs ++ a :: ys).modify xs.length f = xs ++ f a :: ys := by
  induction xs with
  | nil => rfl
  | cons x xs ih => exact congrArg (x :: ·) ih

variable [Keyed ρ]

/-- A visit that finds its row. -/
theorem visit_alone {whose : ρ → Bool} {change : ρ → ρ} {key : Nat} {done slots : List (Slot ρ)}
    {slot : Slot ρ} {row : ρ} (hfree : slot.heldFrom i = false) (hseen : slot.seenBy i = some row)
    (hwhose : whose row = true) :
    Versions.alone i (.visit done.length whose change) ⟨done ++ slot :: slots, key⟩ =
      some (some (change row), ⟨done ++ slot.visited i whose change :: slots, key⟩) := by
  have hfilter : (slot.seenBy i).filter whose = some row := by
    rw [hseen, Option.filter_some, if_pos hwhose]
  have hslot : (done ++ slot :: slots)[done.length]? = some slot := by simp
  simp only [Versions.alone, Versions.perform, Slot.visited, Versions.write, hslot, hfree, hfilter,
    Bool.false_eq_true, if_false, modify_append_length]

/-- The visits of an update change each row it matches, and answer with them. -/
theorem visitAll_alone (whose : ρ → Bool) (change : ρ → ρ) (key : Nat)
    (done slots : List (Slot ρ)) (hfree : ∀ slot ∈ slots, slot.heldFrom i = false) :
    (Session.visitAll whose change
        (slots.findIdxs (fun slot => (slot.seenBy i).any whose) done.length)).tryExec
        (Versions.alone i) ⟨done ++ slots, key⟩ =
      some (((slots.filterMap (Slot.seenBy i)).filter whose).map change,
        ⟨done ++ slots.map (Slot.visited i whose change), key⟩) := by
  induction slots generalizing done with
  | nil =>
    simp only [List.findIdxs_nil, List.append_nil, List.map_nil, List.filterMap_nil,
      List.filter_nil]
    rfl
  | cons slot slots ih =>
    have hrest := ih (done ++ [slot.visited i whose change])
      fun s hs => hfree s (List.mem_cons_of_mem _ hs)
    rw [List.length_append, List.length_singleton, List.append_assoc, List.append_assoc] at hrest
    rw [List.findIdxs_cons]
    by_cases hany : (slot.seenBy i).any whose = true
    · obtain ⟨row, hseen, hwhose⟩ := (Option.any_eq_true _ _).mp hany
      rw [if_pos hany, Session.visitAll, Program.tryExec_bind, Session.access,
        Program.tryExec_request, visit_alone (hfree slot List.mem_cons_self) hseen hwhose]
      dsimp only [Option.bind]
      rw [Program.tryExec_bind]
      have hrest' := hrest
      rw [List.singleton_append, List.singleton_append] at hrest'
      rw [hrest', List.filterMap_cons_some hseen, List.filter_cons_of_pos hwhose]
      rfl
    · rw [if_neg hany]
      have hmiss : ∀ row, slot.seenBy i = some row → ¬ whose row = true := fun row hseen hwhose =>
        hany ((Option.any_eq_true _ _).mpr ⟨row, hseen, hwhose⟩)
      have hvisited : slot.visited i whose change = slot := by
        unfold Slot.visited
        rw [Option.filter_eq_none_iff.mpr hmiss]
      rw [hvisited, List.singleton_append, List.singleton_append] at hrest
      rw [hrest, List.map_cons, hvisited]
      cases hseen : slot.seenBy i with
      | none => rw [List.filterMap_cons_none hseen]
      | some row =>
        rw [List.filterMap_cons_some hseen, List.filter_cons_of_neg (hmiss row hseen)]

end Visits

section Alone

variable {ρ α : Type} [Keyed ρ] {v : Versions ρ} {i : Nat} {s : Store ρ}

theorem Versions.Shows.awaits (h : v.Shows i s) (new : ρ) : v.awaits i new = false := by
  unfold Versions.awaits
  rw [List.any_eq_false]
  intro slot hslot
  rw [h.free slot hslot, Bool.false_and]
  exact Bool.false_ne_true

theorem statement_alone (h : v.Shows i s) (st : Statement ρ) :
    ∃ v', (Session.statement st).tryExec (Versions.alone i) v = some ((Store.exec st s).1, v') ∧
      v'.Shows i (Store.exec st s).2 ∧ v'.rows = v.rows := by
  cases st with
  | select whose =>
    refine ⟨v, ?_, h, rfl⟩
    rw [Session.statement, Program.tryExec_bind, Session.access, Program.tryExec_request]
    show some (Except.ok ((v.seenBy i).filter whose), v) = _
    rw [h.rows]
    rfl
  | insert row =>
    rw [Session.statement, Program.tryExec_bind, Session.access, Program.tryExec_request]
    simp only [Versions.alone, Versions.perform, Store.exec]
    rw [h.awaits, h.rows, h.key]
    simp only [Bool.false_eq_true, if_false]
    cases hclash : Store.clashes s.rows (row s.nextKey) with
    | some fields => exact ⟨v, rfl, h, rfl⟩
    | none =>
      refine ⟨v.insert i (row s.nextKey), rfl, ⟨?_, ?_, congrArg (· + 1) h.key⟩,
        Versions.rows_insert _⟩
      · intro slot hslot
        rcases List.mem_append.mp hslot with hslot | hslot
        · exact h.free slot hslot
        · obtain rfl := List.mem_singleton.mp hslot
          simp [Slot.heldFrom]
      · show (v.slots ++ _).filterMap _ = s.rows ++ _
        rw [List.filterMap_append, show v.slots.filterMap (Slot.seenBy i) = s.rows from h.rows]
        simp [Slot.seenBy]
  | update whose change =>
    rw [Session.statement, Program.tryExec_bind, Session.access, Program.tryExec_request]
    have htargets : Versions.alone i (.targets whose) v = some (v.matching i whose, v) :=
      if_pos (List.Perm.refl _)
    rw [htargets]
    dsimp only [Option.bind]
    rw [Program.tryExec_bind]
    have hvisits : (Session.visitAll whose change (v.matching i whose)).tryExec
        (Versions.alone i) v = some (((v.seenBy i).filter whose).map change,
          ⟨v.slots.map (Slot.visited i whose change), v.nextKey⟩) :=
      visitAll_alone whose change v.nextKey [] v.slots h.free
    rw [hvisits, h.rows]
    refine ⟨⟨v.slots.map (Slot.visited i whose change), v.nextKey⟩, rfl, ⟨?_, ?_, h.key⟩, ?_⟩
    · intro slot hslot
      obtain ⟨old, hold, rfl⟩ := List.mem_map.mp hslot
      exact Slot.heldFrom_visited whose change (h.free old hold)
    · show (v.slots.map _).filterMap (Slot.seenBy i) = _
      rw [seenBy_visited, show v.slots.filterMap (Slot.seenBy i) = s.rows from h.rows]
      rfl
    · show (v.slots.map _).filterMap Slot.committed = _
      rw [List.filterMap_map]
      refine congrArg (v.slots.filterMap ·) (funext fun slot => ?_)
      show (slot.visited i whose change).committed = slot.committed
      unfold Slot.visited
      split <;> rfl

theorem interpret_alone {p : Program (Statement ρ) (Statement.Reply ρ) α} (h : v.Shows i s) :
    ∃ v', (Program.interpret Session.statement p).tryExec (Versions.alone i) v =
        some ((p.exec Store.exec s).1, v') ∧
      v'.Shows i (p.exec Store.exec s).2 ∧ v'.rows = v.rows := by
  induction p generalizing v s with
  | done a => exact ⟨v, rfl, h, rfl⟩
  | perform st next ih =>
    obtain ⟨mid, hmid, hshows, hrows⟩ := statement_alone h st
    obtain ⟨v', hv', hshows', hrows'⟩ := ih (Store.exec st s).1 hshows
    refine ⟨v', ?_, hshows', hrows'.trans hrows⟩
    show (Session.statement st >>= _ : Session ρ α).tryExec _ _ = _
    rw [Program.tryExec_bind, hmid]
    exact hv'

/-- A transaction with nothing beside it does what it does at once. -/
theorem transact_alone (tx : Transaction ρ α) (h : v.Shows i s)
    (hquiet : ∀ slot ∈ v.slots, slot.written = none) :
    ∃ v', (Session.transact tx).tryExec (Versions.alone i) v = some ((s.atomically tx).1, v') ∧
      v'.rows = (s.atomically tx).2.rows ∧ v'.nextKey = (s.run tx).2.nextKey ∧
      ∀ slot ∈ v'.slots, slot.written = none := by
  obtain ⟨mid, hmid, hshows, hrows⟩ := interpret_alone (p := tx.run) h
  have hseen : v.rows = s.rows := by
    rw [← h.rows]
    exact List.filterMap_congr fun slot hs => (Slot.seenBy_of_written_none (hquiet slot hs)).symm
  unfold Session.transact
  rw [Program.tryExec_bind, hmid]
  have hat : s.atomically tx =
      ((tx.run.exec Store.exec s).1, s.settle (tx.run.exec Store.exec s)) := rfl
  have hran : s.run tx = tx.run.exec Store.exec s := rfl
  rw [hat, hran]
  have hkept : ∀ {f : Slot ρ → Slot ρ},
      (∀ slot, slot.heldFrom i = false → (f slot).written = none) →
        ∀ slot ∈ mid.slots.map f, slot.written = none := by
    intro f hf slot hslot
    obtain ⟨old, hold, rfl⟩ := List.mem_map.mp hslot
    exact hf old (hshows.free old hold)
  cases hr : tx.run.exec Store.exec s with
  | mk r s' =>
    rw [hr] at hshows
    cases r with
    | ok a =>
      refine ⟨mid.commit i, rfl, ?_, hshows.key, hkept fun slot => Slot.commit_written⟩
      rw [Versions.rows_commit]
      exact hshows.rows
    | error e =>
      refine ⟨mid.rollback i, rfl, ?_, hshows.key, hkept fun slot => Slot.rollback_written⟩
      rw [Versions.rows_rollback, hrows]
      exact hseen

end Alone

/-! ## A transaction, analysed access by access -/

theorem Program.interpret_bind {C C' : Type} {R : C → Type} {R' : C' → Type} {α β : Type}
    {handle : (command : C) → Program C' R' (R command)} (p : Program C R α)
    (f : α → Program C R β) :
    (p >>= f).interpret handle = p.interpret handle >>= fun a => (f a).interpret handle := by
  show (p.bind f).interpret handle = (p.interpret handle).bind _
  induction p with
  | done a => rfl
  | perform command next ih =>
    show (handle command).bind _ = ((handle command).bind _).bind _
    rw [Program.bind_bind]
    exact congrArg _ (funext ih)

section Stated

variable {ρ σ α β : Type} {k : Contract (Access ρ) Access.Reply σ}

/-- From `s`, the statements of a transaction end in `ok` when it returns and in `err` when it
throws, before its own end. -/
def Stated (k : Contract (Access ρ) Access.Reply σ) (tx : Transaction ρ α) (ok : α → σ → Prop)
    (err : DatabaseError → σ → Prop) (s : σ) : Prop :=
  Meets k (Program.interpret Session.statement tx.run) (outcome ok err) s

variable {ok : α → σ → Prop} {err : DatabaseError → σ → Prop} {s : σ}

theorem stated_bind {tx : Transaction ρ β} {f : β → Transaction ρ α} :
    Stated k (tx >>= f) ok err s ↔
      Stated k tx (fun b s' => Stated k (f b) ok err s') err s := by
  have h : Stated k (tx >>= f) ok err s ↔
      Meets k (Program.interpret Session.statement (tx.run >>= ExceptT.bindCont f))
        (outcome ok err) s := Iff.rfl
  rw [h, Program.interpret_bind, meets_bind]
  refine ⟨fun h => h.mono fun r s' hr => ?_, fun h => h.mono fun r s' hr => ?_⟩
  · cases r with
    | ok b => exact hr
    | error e => exact hr
  · cases r with
    | ok b => exact hr
    | error e => exact hr

theorem Stated.mono {tx : Transaction ρ α} {ok' : α → σ → Prop} {err' : DatabaseError → σ → Prop}
    (h : Stated k tx ok err s) (hok : ∀ a s', ok a s' → ok' a s')
    (herr : ∀ e s', err e s' → err' e s') : Stated k tx ok' err' s := by
  refine Meets.mono h fun r s' hr => ?_
  cases r with
  | ok a => exact hok a s' hr
  | error e => exact herr e s' hr

theorem stated_findMany {whose : ρ → Bool} {ok : List ρ → σ → Prop} :
    Stated k (Transaction.findMany whose) ok err s ↔
      k.allows (.select whose) s ∧
        ∀ rows s', k.replies (.select whose) s rows s' → ok rows s' := Iff.rfl

theorem stated_create {row : Nat → ρ} {ok : ρ → σ → Prop}
    (ha : k.allows (.insert row) s)
    (hok : ∀ new s', k.replies (.insert row) s (.ok new) s' → ok new s')
    (herr : ∀ e s', k.replies (.insert row) s (.error e) s' → err e s') :
    Stated k (Transaction.create row) ok err s := by
  refine ⟨ha, fun reply s' hr => ?_⟩
  cases reply with
  | ok new => exact hok new s' hr
  | error e => exact herr e s' hr

/-- A transaction, from its statements: it commits when they return and rolls back when they
throw. -/
theorem meets_transact {tx : Transaction ρ α} {post : Except DatabaseError α → σ → Prop}
    (h : Stated k tx
      (fun a s' => k.allows .commit s' ∧
        ∀ u s'', k.replies .commit s' u s'' → post (.ok a) s'')
      (fun e s' => k.allows .rollback s' ∧
        ∀ u s'', k.replies .rollback s' u s'' → post (.error e) s'') s) :
    Meets k (Session.transact tx) post s := by
  unfold Session.transact
  rw [meets_bind]
  refine Meets.mono h fun r s' hr => ?_
  cases r with
  | ok a => exact hr
  | error e => exact hr

end Stated

/-! ## Transactions that only insert -/

namespace Slot

variable {ρ : Type}

/-- The version a transaction has written. -/
def writtenBy (i : Nat) (slot : Slot ρ) : Option ρ :=
  match slot.written with
  | some (j, row) => if j = i then some row else none
  | none => none

/-- A row that is being written is not there yet. -/
def Fresh (slot : Slot ρ) : Prop := slot.written.isSome = true → slot.committed = none

variable {i j : Nat} {slot : Slot ρ} {row : ρ}

theorem written_of_writtenBy (h : slot.writtenBy i = some row) : slot.written = some (i, row) := by
  unfold writtenBy at h
  split at h
  · rename_i j row' hw
    split at h
    · rename_i hj
      rw [hw, hj, Option.some.inj h]
    · cases h
  · cases h

theorem mem_versions : row ∈ slot.versions ↔
    slot.committed = some row ∨ ∃ i, slot.writtenBy i = some row := by
  unfold versions
  rw [List.mem_append, Option.mem_toList, Option.mem_toList]
  refine or_congr Iff.rfl ⟨fun h => ?_, fun ⟨i, h⟩ => ?_⟩
  · obtain ⟨⟨i, row'⟩, hw, rfl⟩ := Option.map_eq_some_iff.mp h
    refine ⟨i, ?_⟩
    unfold writtenBy
    rw [hw]
    exact if_pos rfl
  · rw [written_of_writtenBy h]
    rfl

theorem seenBy_eq_some (hf : slot.Fresh) :
    slot.seenBy i = some row ↔ slot.committed = some row ∨ slot.writtenBy i = some row := by
  unfold seenBy writtenBy
  split
  · rename_i j row' hw
    have hnone := hf (by rw [hw]; rfl)
    rw [hnone]
    split
    · exact ⟨.inr, fun h => h.resolve_left (fun hc => nomatch hc)⟩
    · exact ⟨fun h => (nomatch h), fun h => h.elim (fun hc => nomatch hc) fun hc => nomatch hc⟩
  · exact ⟨.inl, fun h => h.resolve_right (fun hc => nomatch hc)⟩

theorem versions_commit_subset : (slot.commit i).versions ⊆ slot.versions := by
  intro row hrow
  unfold commit at hrow
  split at hrow
  · rename_i j row' hw
    split at hrow
    · have : row = row' := by simpa [versions] using hrow
      subst this
      simp [versions, hw]
    · exact hrow
  · exact hrow

theorem versions_rollback_subset : (slot.rollback i).versions ⊆ slot.versions := by
  intro row hrow
  unfold rollback at hrow
  split at hrow
  · split at hrow
    · unfold versions at hrow ⊢
      exact List.mem_append_left _ (by simpa using hrow)
    · exact hrow
  · exact hrow

theorem fresh_commit (h : slot.Fresh) : (slot.commit i).Fresh := by
  unfold commit
  split
  · split
    · intro hw
      cases hw
    · exact h
  · exact h

theorem fresh_rollback (h : slot.Fresh) : (slot.rollback i).Fresh := by
  unfold rollback
  split
  · split
    · intro hw
      cases hw
    · exact h
  · exact h

theorem writtenBy_commit :
    (slot.commit i).writtenBy j = if j = i then none else slot.writtenBy j := by
  obtain ⟨committed, _ | ⟨k, row⟩⟩ := slot
  · simp [commit, writtenBy]
  · by_cases hk : k = i
    · subst hk
      by_cases hj : j = k
      · simp [commit, writtenBy, hj]
      · simp [commit, writtenBy, hj, Ne.symm hj]
    · by_cases hj : j = i
      · simp [commit, writtenBy, hj, hk]
      · simp [commit, writtenBy, hj, hk]

theorem writtenBy_rollback :
    (slot.rollback i).writtenBy j = if j = i then none else slot.writtenBy j := by
  obtain ⟨committed, _ | ⟨k, row⟩⟩ := slot
  · simp [rollback, writtenBy]
  · by_cases hk : k = i
    · subst hk
      by_cases hj : j = k
      · simp [rollback, writtenBy, hj]
      · simp [rollback, writtenBy, hj, Ne.symm hj]
    · by_cases hj : j = i
      · simp [rollback, writtenBy, hj, hk]
      · simp [rollback, writtenBy, hj, hk]

end Slot

namespace Versions

variable {ρ : Type} {v : Versions ρ} {i j : Nat} {row : ρ}

/-- What a transaction has written and not yet committed, in order. -/
def writtenBy (v : Versions ρ) (i : Nat) : List ρ := v.slots.filterMap (Slot.writtenBy i)

/-- Every version there is of any row. -/
def versions (v : Versions ρ) : List ρ := v.slots.flatMap Slot.versions

def InsertOnly (v : Versions ρ) : Prop := ∀ slot ∈ v.slots, slot.Fresh

theorem mem_versions : row ∈ v.versions ↔ row ∈ v.rows ∨ ∃ i, row ∈ v.writtenBy i := by
  unfold versions rows writtenBy
  simp only [List.mem_flatMap, List.mem_filterMap, Slot.mem_versions]
  constructor
  · rintro ⟨slot, hslot, hc | ⟨i, hw⟩⟩
    · exact .inl ⟨slot, hslot, hc⟩
    · exact .inr ⟨i, slot, hslot, hw⟩
  · rintro (⟨slot, hslot, hc⟩ | ⟨i, slot, hslot, hw⟩)
    · exact ⟨slot, hslot, .inl hc⟩
    · exact ⟨slot, hslot, .inr ⟨i, hw⟩⟩

theorem mem_seenBy (h : v.InsertOnly) :
    row ∈ v.seenBy i ↔ row ∈ v.rows ∨ row ∈ v.writtenBy i := by
  unfold seenBy rows writtenBy
  simp only [List.mem_filterMap]
  constructor
  · rintro ⟨slot, hslot, hs⟩
    rcases (Slot.seenBy_eq_some (h slot hslot)).mp hs with hc | hw
    · exact .inl ⟨slot, hslot, hc⟩
    · exact .inr ⟨slot, hslot, hw⟩
  · rintro (⟨slot, hslot, hc⟩ | ⟨slot, hslot, hw⟩)
    · exact ⟨slot, hslot, (Slot.seenBy_eq_some (h slot hslot)).mpr (.inl hc)⟩
    · exact ⟨slot, hslot, (Slot.seenBy_eq_some (h slot hslot)).mpr (.inr hw)⟩

theorem insertOnly_insert (h : v.InsertOnly) (new : ρ) : (v.insert i new).InsertOnly := by
  intro slot hslot
  rcases List.mem_append.mp hslot with hslot | hslot
  · exact h slot hslot
  · obtain rfl := List.mem_singleton.mp hslot
    exact fun _ => rfl

theorem insertOnly_commit (h : v.InsertOnly) : (v.commit i).InsertOnly := by
  intro slot hslot
  obtain ⟨old, hold, rfl⟩ := List.mem_map.mp hslot
  exact Slot.fresh_commit (h old hold)

theorem insertOnly_rollback (h : v.InsertOnly) : (v.rollback i).InsertOnly := by
  intro slot hslot
  obtain ⟨old, hold, rfl⟩ := List.mem_map.mp hslot
  exact Slot.fresh_rollback (h old hold)

theorem writtenBy_insert (new : ρ) :
    (v.insert i new).writtenBy j = v.writtenBy j ++ if i = j then [new] else [] := by
  unfold writtenBy insert
  rw [List.filterMap_append]
  refine congrArg (_ ++ ·) ?_
  by_cases hj : i = j
  · simp [Slot.writtenBy, hj]
  · simp [Slot.writtenBy, hj]

theorem writtenBy_commit :
    (v.commit i).writtenBy j = if j = i then [] else v.writtenBy j := by
  unfold writtenBy commit
  rw [List.filterMap_map]
  by_cases hj : j = i
  · rw [if_pos hj]
    refine List.filterMap_eq_nil_iff.mpr fun slot _ => ?_
    exact Slot.writtenBy_commit.trans (if_pos hj)
  · rw [if_neg hj]
    refine List.filterMap_congr fun slot _ => ?_
    exact Slot.writtenBy_commit.trans (if_neg hj)

theorem writtenBy_rollback :
    (v.rollback i).writtenBy j = if j = i then [] else v.writtenBy j := by
  unfold writtenBy rollback
  rw [List.filterMap_map]
  by_cases hj : j = i
  · rw [if_pos hj]
    refine List.filterMap_eq_nil_iff.mpr fun slot _ => ?_
    exact Slot.writtenBy_rollback.trans (if_pos hj)
  · rw [if_neg hj]
    refine List.filterMap_congr fun slot _ => ?_
    exact Slot.writtenBy_rollback.trans (if_neg hj)

theorem mem_versions_insert {new : ρ} :
    row ∈ (v.insert i new).versions ↔ row ∈ v.versions ∨ row = new := by
  unfold versions insert
  rw [List.flatMap_append, List.mem_append]
  simp [Slot.versions]

theorem versions_commit_subset : (v.commit i).versions ⊆ v.versions := by
  intro row hrow
  obtain ⟨slot, hslot, hrow⟩ := List.mem_flatMap.mp hrow
  obtain ⟨old, hold, rfl⟩ := List.mem_map.mp hslot
  exact List.mem_flatMap.mpr ⟨old, hold, Slot.versions_commit_subset hrow⟩

theorem versions_rollback_subset : (v.rollback i).versions ⊆ v.versions := by
  intro row hrow
  obtain ⟨slot, hslot, hrow⟩ := List.mem_flatMap.mp hrow
  obtain ⟨old, hold, rfl⟩ := List.mem_map.mp hslot
  exact List.mem_flatMap.mpr ⟨old, hold, Slot.versions_rollback_subset hrow⟩

/-- No version of a row repeats one of another in a unique column. -/
def Unique [Keyed ρ] (v : Versions ρ) : Prop :=
  v.slots.Pairwise fun slot slot' => ∀ row ∈ slot.versions, ∀ row' ∈ slot'.versions,
    Keyed.clash row' row = none

variable [Keyed ρ]

/-- An insert that goes through repeats no version there is, whoever has written it. -/
theorem clash_eq_none (hf : v.InsertOnly) {new : ρ} (ha : v.awaits i new = false)
    (hc : Store.clashes (v.seenBy i) new = none) (hrow : row ∈ v.versions) :
    Keyed.clash new row = none := by
  obtain ⟨slot, hslot, hversion⟩ := List.mem_flatMap.mp hrow
  by_cases hheld : slot.heldFrom i = true
  · have hany := List.any_eq_false.mp ha slot hslot
    rw [hheld, Bool.true_and] at hany
    have hnone := List.any_eq_false.mp (Bool.eq_false_iff.mpr hany) row hversion
    exact Option.not_isSome_iff_eq_none.mp hnone
  · have hseen : row ∈ v.seenBy i := by
      refine (mem_seenBy hf).mpr ?_
      rcases Slot.mem_versions.mp hversion with hcommitted | ⟨j, hw⟩
      · exact .inl (List.mem_filterMap.mpr ⟨slot, hslot, hcommitted⟩)
      · refine .inr (List.mem_filterMap.mpr ⟨slot, hslot, ?_⟩)
        have hji : j = i := by
          by_contra hne
          refine hheld ?_
          unfold Slot.heldFrom
          rw [Slot.written_of_writtenBy hw]
          simpa using hne
        exact hji ▸ hw
    exact List.findSome?_eq_none_iff.mp hc row hseen

theorem unique_insert (h : v.Unique) {new : ρ}
    (hnew : ∀ row ∈ v.versions, Keyed.clash new row = none) : (v.insert i new).Unique := by
  refine List.pairwise_append.mpr ⟨h, List.pairwise_singleton _ _, ?_⟩
  intro slot hslot slot' hslot' row hrow row' hrow'
  obtain rfl := List.mem_singleton.mp hslot'
  have : row' = new := by simpa [Slot.versions] using hrow'
  subst this
  exact hnew row (List.mem_flatMap.mpr ⟨slot, hslot, hrow⟩)

theorem unique_commit (h : v.Unique) : (v.commit i).Unique :=
  List.pairwise_map.mpr (h.imp fun hab row hrow row' hrow' =>
    hab row (Slot.versions_commit_subset hrow) row' (Slot.versions_commit_subset hrow'))

theorem unique_rollback (h : v.Unique) : (v.rollback i).Unique :=
  List.pairwise_map.mpr (h.imp fun hab row hrow row' hrow' =>
    hab row (Slot.versions_rollback_subset hrow) row' (Slot.versions_rollback_subset hrow'))

/-- Versions in different places do not repeat each other. -/
theorem Unique.clash (h : v.Unique) {slot slot' : Slot ρ} {row' : ρ} (hslot : slot ∈ v.slots)
    (hslot' : slot' ∈ v.slots) (hne : slot ≠ slot') (hrow : row ∈ slot.versions)
    (hrow' : row' ∈ slot'.versions) :
    Keyed.clash row row' = none ∨ Keyed.clash row' row = none := by
  have hall : ∀ slots : List (Slot ρ), slots.Pairwise (fun slot slot' => ∀ row ∈ slot.versions,
      ∀ row' ∈ slot'.versions, Keyed.clash row' row = none) → slot ∈ slots → slot' ∈ slots →
      Keyed.clash row row' = none ∨ Keyed.clash row' row = none := by
    intro slots hp
    induction hp with
    | nil => exact fun hs => nomatch hs
    | cons hfirst _ ih =>
      intro hs hs'
      rcases List.mem_cons.mp hs with rfl | hm <;> rcases List.mem_cons.mp hs' with rfl | hm'
      · exact absurd rfl hne
      · exact .inr (hfirst slot' hm' row hrow row' hrow')
      · exact .inl (hfirst slot hm row' hrow' row hrow)
      · exact ih hm hm'
  exact hall v.slots h hslot hslot'

theorem Unique.clash_written (h : v.Unique) {row' : ρ} (hij : i ≠ j) (hrow : row ∈ v.writtenBy i)
    (hrow' : row' ∈ v.writtenBy j) :
    Keyed.clash row row' = none ∨ Keyed.clash row' row = none := by
  obtain ⟨slot, hslot, hw⟩ := List.mem_filterMap.mp hrow
  obtain ⟨slot', hslot', hw'⟩ := List.mem_filterMap.mp hrow'
  refine h.clash hslot hslot' ?_ (Slot.mem_versions.mpr (.inr ⟨i, hw⟩))
    (Slot.mem_versions.mpr (.inr ⟨j, hw'⟩))
  rintro rfl
  have hsame := (Slot.written_of_writtenBy hw).symm.trans (Slot.written_of_writtenBy hw')
  exact hij (congrArg Prod.fst (Option.some.inj hsame))

theorem Unique.clash_committed (h : v.Unique) (hf : v.InsertOnly) {row' : ρ}
    (hrow : row ∈ v.writtenBy i) (hrow' : row' ∈ v.rows) :
    Keyed.clash row row' = none ∨ Keyed.clash row' row = none := by
  obtain ⟨slot, hslot, hw⟩ := List.mem_filterMap.mp hrow
  obtain ⟨slot', hslot', hc⟩ := List.mem_filterMap.mp hrow'
  refine h.clash hslot hslot' ?_ (Slot.mem_versions.mpr (.inr ⟨i, hw⟩))
    (Slot.mem_versions.mpr (.inl hc))
  rintro rfl
  have hnone := hf slot hslot (by rw [Slot.written_of_writtenBy hw]; rfl)
  exact nomatch hnone.symm.trans hc

theorem Unique.eq_or_clash (h : v.Unique) {row' : ρ} (hrow : row ∈ v.rows) (hrow' : row' ∈ v.rows) :
    row = row' ∨ Keyed.clash row row' = none ∨ Keyed.clash row' row = none := by
  obtain ⟨slot, hslot, hc⟩ := List.mem_filterMap.mp hrow
  obtain ⟨slot', hslot', hc'⟩ := List.mem_filterMap.mp hrow'
  by_cases hne : slot = slot'
  · subst hne
    exact .inl (Option.some.inj (hc.symm.trans hc'))
  · exact .inr (h.clash hslot hslot' hne (Slot.mem_versions.mpr (.inl hc))
      (Slot.mem_versions.mpr (.inl hc')))

end Versions

end PracticalMicroservice.Foundations
