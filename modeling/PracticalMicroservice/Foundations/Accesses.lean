import PracticalMicroservice.Foundations.Histories
import PracticalMicroservice.Foundations.ReadCommitted

/-!
# What a transaction has accessed

A transaction analysed access by access, against the contract whose ghost state is the accesses it has
made, with what each of them found. A program whose commands are programs of other commands is
analysed a command at a time.
-/

namespace PracticalMicroservice.Foundations

section Interpret

variable {C C' : Type} {R : C → Type} {R' : C' → Type} {σ σ' α : Type} {k : Contract C R σ}
  {k' : Contract C' R' σ'} {handle : (command : C) → Program C' R' (R command)}

/-- A program keeps to a contract when each of its commands is performed by a program that does,
with the ghost states of the two going side by side. -/
theorem Meets.interpret {p : Program C R α} {post : α → σ → Prop} {g : σ} {g' : σ'}
    (h : Meets k p post g) (rel : σ → σ' → Prop)
    (hhandle : ∀ command g g', k.allows command g → rel g g' →
      Meets k' (handle command) (fun reply g'' => ∃ g₁, rel g₁ g'' ∧ k.replies command g reply g₁) g')
    (hrel : rel g g') :
    Meets k' (p.interpret handle) (fun a g'' => ∃ g₁, rel g₁ g'' ∧ post a g₁) g' := by
  induction p generalizing g g' with
  | done a => exact ⟨g, hrel, h⟩
  | perform command next ih =>
    refine meets_bind.mpr ((hhandle command g g' h.1 hrel).mono ?_)
    rintro reply g'' ⟨g₁, hrel', hr⟩
    exact ih reply (h.2 reply g₁ hr) hrel'

end Interpret

/-! ## The accesses of a transaction -/

/-- The accesses of a transaction with what each of them found, newest first. -/
abbrev Accesses (ρ : Type) := History (Access ρ) Access.Reply

namespace Access

variable {ρ : Type}

def ends : Access ρ → Bool
  | commit | rollback => true
  | _ => false

/-- An access that leaves a version of a row. -/
def writes : Access ρ → Bool
  | insert _ | visit _ _ _ => true
  | _ => false

/-- What an access can find. -/
def Sound : (a : Access ρ) → a.Reply → Prop
  | select whose, rows => ∀ row ∈ rows, whose row = true
  | insert row, reply => ∀ new, reply = .ok new → ∃ key, new = row key
  | visit _ whose change, reply => ∀ row, reply = some row → ∃ old, whose old = true ∧ row = change old
  | targets _, indices => indices.Nodup
  | commit, _ | rollback, _ => True

theorem sound_perform [Keyed ρ] {v v' : Versions ρ} {i : Nat} {order : List Nat} {a : Access ρ}
    {reply : a.Reply} (h : v.perform i order a = some (reply, v')) : a.Sound reply := by
  cases a with
  | select whose =>
    cases h
    exact fun row hrow => (List.mem_filter.mp hrow).2
  | insert row =>
    rintro new rfl
    obtain ⟨-, ⟨_, -, he, -⟩ | ⟨-, he, -⟩⟩ := Versions.perform_insert h
    · cases he
    · exact ⟨_, Except.ok.inj he⟩
  | visit index whose change =>
    rintro row rfl
    obtain ⟨he, -⟩ | ⟨slot, old, -, -, -, hw, he, -⟩ := Versions.perform_visit h
    · cases he
    · exact ⟨old, hw, Option.some.inj he⟩
  | targets whose => exact (Versions.perform_targets h).1.nodup_iff.mpr List.nodup_findIdxs
  | commit => trivial
  | rollback => trivial

end Access

section Accesses

variable {ρ T α β : Type} {allows : T → Accesses ρ → Access ρ → Prop} {task : T}
  {past : Accesses ρ}

/-- Nothing of the transaction comes after its end. -/
def Unended (made : Accesses ρ) : Prop := ∀ m ∈ made, m.1.ends = false

theorem unended_nil : Unended ([] : Accesses ρ) := fun _ h => nomatch h

theorem unended_cons {a : Access ρ} {reply : a.Reply} :
    Unended (⟨a, reply⟩ :: past) ↔ a.ends = false ∧ Unended past := List.forall_mem_cons

/-- The visits of an update, with what each of them wrote. -/
def visits (whose : ρ → Bool) (change : ρ → ρ) (seen : List (Nat × Option ρ)) : Accesses ρ :=
  seen.map fun one => ⟨.visit one.1 whose change, one.2⟩

/-- A transaction has left this version of a row. -/
def Left (made : Accesses ρ) (row : ρ) : Prop :=
  ∃ index whose change, (⟨.visit index whose change, some row⟩ : (a : Access ρ) × a.Reply) ∈ made

/-- An update has taken its snapshot and visited its rows. -/
def Updated (whose : ρ → Bool) (change : ρ → ρ) (before after : Accesses ρ) : Prop :=
  ∃ (indices : List Nat) (seen : List (Nat × Option ρ)),
    after = visits whose change seen ++ ⟨.targets whose, indices⟩ :: before ∧
      ∀ index ∈ indices, index ∈ seen.map Prod.fst

theorem Unended.visits (h : Unended past) (whose : ρ → Bool) (change : ρ → ρ)
    (seen : List (Nat × Option ρ)) : Unended (visits whose change seen ++ past) := by
  intro m hm
  rcases List.mem_append.mp hm with hm | hm
  · obtain ⟨one, -, rfl⟩ := List.mem_map.mp hm
    rfl
  · exact h m hm

/-- A transaction makes the accesses that are allowed, until its end. -/
def untilEnd (allows : T → Accesses ρ → Access ρ → Prop) (task : T) (past : Accesses ρ)
    (a : Access ρ) : Prop := Unended past ∧ allows task past a

/-- The visits of an update, one after the other. -/
theorem meets_visitAll {whose : ρ → Bool} {change : ρ → ρ} {before : Accesses ρ}
    {indices : List Nat} {seen : List (Nat × Option ρ)} (hbefore : Unended before)
    (hnodup : indices.Nodup) (hunseen : ∀ index ∈ indices, index ∉ seen.map Prod.fst)
    (hallow : ∀ seen index, index ∉ seen.map Prod.fst →
      allows task (visits whose change seen ++ before) (.visit index whose change)) :
    Meets (recounting (untilEnd allows) Access.Sound) (Session.visitAll whose change indices)
      (fun rows g => g.1 = task ∧ ∃ more : List (Nat × Option ρ),
        g.2 = visits whose change (more ++ seen) ++ before ∧
          (∀ index ∈ indices, index ∈ more.map Prod.fst) ∧
          ∀ row ∈ rows, ∃ index old, whose old = true ∧ row = change old ∧ (index, some row) ∈ more)
      (task, visits whose change seen ++ before) := by
  induction indices generalizing seen with
  | nil => exact ⟨rfl, [], rfl, fun _ h => (nomatch h), fun _ h => nomatch h⟩
  | cons index rest ih =>
    obtain ⟨hnew, hrest⟩ := List.nodup_cons.mp hnodup
    have hindex := hunseen index List.mem_cons_self
    refine meets_bind.mpr ⟨⟨hbefore.visits whose change seen, hallow seen index hindex⟩, ?_⟩
    rintro reply _ ⟨hsound, rfl⟩
    have hunseen' : ∀ i ∈ rest, i ∉ ((index, reply) :: seen).map Prod.fst := by
      intro i hi hseen
      rcases List.mem_cons.mp hseen with rfl | hseen
      · exact hnew hi
      · exact hunseen i (List.mem_cons_of_mem _ hi) hseen
    refine meets_bind.mpr (Meets.mono (ih hrest hunseen') ?_)
    rintro rows ⟨_, _⟩ ⟨rfl, more, rfl, hall, hrows⟩
    refine ⟨rfl, more ++ [(index, reply)], by simp [List.append_assoc], ?_, ?_⟩
    · intro i hi
      rw [List.map_append, List.mem_append]
      rcases List.mem_cons.mp hi with rfl | hi
      · exact .inr (List.mem_singleton.mpr rfl)
      · exact .inl (hall i hi)
    · intro row hrow
      rcases List.mem_append.mp hrow with hrow | hrow
      · have hreply : reply = some row := Option.mem_toList.mp hrow
        obtain ⟨old, hold, he⟩ := hsound row hreply
        exact ⟨index, old, hold, he, List.mem_append_right _ (hreply ▸ List.mem_singleton_self _)⟩
      · obtain ⟨i, old, hold, he, hm⟩ := hrows row hrow
        exact ⟨i, old, hold, he, List.mem_append_left _ hm⟩

/-! ## A transaction, statement by statement -/

/-- From some accesses, the statements of a transaction make the accesses that are allowed, and end
in `ok` unless it throws. -/
def Accessed (allows : T → Accesses ρ → Access ρ → Prop) (task : T) (tx : Transaction ρ α)
    (ok : α → Accesses ρ → Prop) (past : Accesses ρ) : Prop :=
  Unended past → Stated (recounting (untilEnd allows) Access.Sound) tx
    (fun a g => g.1 = task ∧ Unended g.2 ∧ ok a g.2) (fun _ g => g.1 = task ∧ Unended g.2)
    (task, past)

variable {ok : α → Accesses ρ → Prop}

theorem accessed_pure {a : α} (h : ok a past) :
    Accessed allows task (pure a : Transaction ρ α) ok past := fun hpast => ⟨rfl, hpast, h⟩

theorem accessed_throw {e : DatabaseError} :
    Accessed allows task (throw e : Transaction ρ α) ok past := fun hpast => ⟨rfl, hpast⟩

theorem accessed_bind {tx : Transaction ρ β} {f : β → Transaction ρ α}
    (h : Accessed allows task tx (fun b past' => Accessed allows task (f b) ok past') past) :
    Accessed allows task (tx >>= f) ok past := by
  intro hpast
  refine stated_bind.mpr (Stated.mono (h hpast) ?_ fun _ _ he => he)
  rintro b ⟨_, past'⟩ ⟨rfl, hpast', hb⟩
  exact hb hpast'

theorem Accessed.mono {tx : Transaction ρ α} {ok' : α → Accesses ρ → Prop}
    (h : Accessed allows task tx ok past) (hok : ∀ a past, ok a past → ok' a past) :
    Accessed allows task tx ok' past := fun hpast =>
  Stated.mono (h hpast) (fun a g ha => ⟨ha.1, ha.2.1, hok a g.2 ha.2.2⟩) fun _ _ he => he

theorem accessed_findMany {whose : ρ → Bool} {ok : List ρ → Accesses ρ → Prop}
    (hallow : allows task past (.select whose))
    (h : ∀ rows, (∀ row ∈ rows, whose row = true) → ok rows (⟨.select whose, rows⟩ :: past)) :
    Accessed allows task (Transaction.findMany whose) ok past := by
  intro hpast
  refine stated_findMany.mpr ⟨⟨hpast, hallow⟩, ?_⟩
  rintro rows _ ⟨hsound, rfl⟩
  exact ⟨rfl, unended_cons.mpr ⟨rfl, hpast⟩, h rows hsound⟩

theorem accessed_create {row : Nat → ρ} {ok : ρ → Accesses ρ → Prop}
    (hallow : allows task past (.insert row))
    (h : ∀ key, ok (row key) (⟨.insert row, .ok (row key)⟩ :: past)) :
    Accessed allows task (Transaction.create row) ok past := by
  intro hpast
  refine stated_create ⟨hpast, hallow⟩ ?_ ?_
  · rintro new _ ⟨hsound, rfl⟩
    obtain ⟨key, rfl⟩ := hsound new rfl
    exact ⟨rfl, unended_cons.mpr ⟨rfl, hpast⟩, h key⟩
  · rintro e _ ⟨-, rfl⟩
    exact ⟨rfl, unended_cons.mpr ⟨rfl, hpast⟩⟩

/-- A statement, from the program of its accesses. -/
theorem stated_statement {σ : Type} {k : Contract (Access ρ) Access.Reply σ} {st : Statement ρ}
    {ok : List ρ → σ → Prop} {err : DatabaseError → σ → Prop} {g : σ}
    (h : Meets k (Session.statement st) (outcome ok err) g) :
    Stated k (Transaction.statement st) ok err g := by
  have hrun : Stated k (Transaction.statement st) ok err g =
      Meets k (Session.statement st >>= fun reply => pure reply) (outcome ok err) g := rfl
  rw [hrun, meets_bind]
  exact h

/-- The statement of an update: what it answers with, it has written. -/
theorem accessed_statement {whose : ρ → Bool} {change : ρ → ρ} {ok : List ρ → Accesses ρ → Prop}
    (htargets : allows task past (.targets whose))
    (hvisit : ∀ index indices seen, index ∉ seen.map Prod.fst →
      allows task (visits whose change seen ++ ⟨.targets whose, indices⟩ :: past)
        (.visit index whose change))
    (h : ∀ rows after, Updated whose change past after →
      (∀ row ∈ rows, ∃ old, whose old = true ∧ row = change old ∧ Left after row) → ok rows after) :
    Accessed allows task (Transaction.statement (.update whose change)) ok past := by
  intro hpast
  refine stated_statement (meets_bind.mpr ⟨⟨hpast, htargets⟩, ?_⟩)
  rintro indices _ ⟨hnodup, rfl⟩
  have hopen : Unended (⟨.targets whose, indices⟩ :: past) := unended_cons.mpr ⟨rfl, hpast⟩
  have hall := @meets_visitAll ρ T allows task whose change (⟨.targets whose, indices⟩ :: past)
    indices [] hopen hnodup (fun _ _ => List.not_mem_nil) fun seen index => hvisit index indices seen
  refine meets_bind.mpr (Meets.mono hall ?_)
  rintro rows ⟨_, after⟩ ⟨rfl, more, hafter, hindices, hrows⟩
  rw [List.append_nil] at hafter
  obtain rfl : after = _ := hafter
  refine ⟨rfl, hopen.visits whose change more, h rows _ ⟨indices, more, rfl, hindices⟩ ?_⟩
  intro row hrow
  obtain ⟨index, old, hold, he, hm⟩ := hrows row hrow
  exact ⟨old, hold, he, index, whose, change, List.mem_append_left _ (List.mem_map.mpr ⟨_, hm, rfl⟩)⟩

/-- An update of one row, which it answers with. -/
theorem accessed_update {whose : ρ → Bool} {change : ρ → ρ} {ok : ρ → Accesses ρ → Prop}
    (htargets : allows task past (.targets whose))
    (hvisit : ∀ index indices seen, index ∉ seen.map Prod.fst →
      allows task (visits whose change seen ++ ⟨.targets whose, indices⟩ :: past)
        (.visit index whose change))
    (h : ∀ old after, Updated whose change past after → whose old = true →
      Left after (change old) → ok (change old) after) :
    Accessed allows task (Transaction.update whose change) ok past := by
  refine accessed_bind (accessed_statement htargets hvisit fun rows after hupdated hrows => ?_)
  cases rows with
  | nil => exact accessed_throw
  | cons row rest =>
    obtain ⟨old, hold, rfl, hleft⟩ := hrows row List.mem_cons_self
    exact accessed_pure (h old after hupdated hold hleft)

/-- An update of however many rows. -/
theorem accessed_updateMany {whose : ρ → Bool} {change : ρ → ρ} {ok : Nat → Accesses ρ → Prop}
    (htargets : allows task past (.targets whose))
    (hvisit : ∀ index indices seen, index ∉ seen.map Prod.fst →
      allows task (visits whose change seen ++ ⟨.targets whose, indices⟩ :: past)
        (.visit index whose change))
    (h : ∀ count after, Updated whose change past after → ok count after) :
    Accessed allows task (Transaction.updateMany whose change) ok past :=
  accessed_bind (accessed_statement htargets hvisit fun rows after hupdated _ =>
    accessed_pure (h rows.length after hupdated))

/-- A transaction, from its statements: it commits when they return, and it is over at its end. -/
theorem meets_accessed {tx : Transaction ρ α} {good : α → Accesses ρ → Prop}
    (h : Accessed allows task tx (fun a past' => allows task past' .commit ∧ good a past') [])
    (hrollback : ∀ past', allows task past' .rollback) :
    Meets (recounting (untilEnd allows) Access.Sound) (Session.transact tx)
      (fun r g => g.1 = task ∧ ¬ Unended g.2 ∧
        ∀ a, r = .ok a → ∃ past', g.2 = ⟨.commit, ()⟩ :: past' ∧ good a past')
      (task, []) := by
  have hover : ∀ {a : Access ρ} {reply : a.Reply} {past' : Accesses ρ}, a.ends = true →
      ¬ Unended (⟨a, reply⟩ :: past') := by
    intro a reply past' ha hopen
    exact Bool.noConfusion (ha.symm.trans (unended_cons.mp hopen).1)
  refine meets_transact (Stated.mono (h unended_nil) ?_ ?_)
  · rintro a ⟨_, past'⟩ ⟨rfl, hpast, hcommit, hgood⟩
    refine ⟨⟨hpast, hcommit⟩, ?_⟩
    rintro _ _ ⟨-, rfl⟩
    refine ⟨rfl, hover rfl, ?_⟩
    rintro _ ⟨⟩
    exact ⟨past', rfl, hgood⟩
  · rintro e ⟨_, past'⟩ ⟨rfl, hpast⟩
    refine ⟨⟨hpast, hrollback past'⟩, ?_⟩
    rintro _ _ ⟨-, rfl⟩
    exact ⟨rfl, hover rfl, fun _ hr => nomatch hr⟩

end Accesses

end PracticalMicroservice.Foundations
