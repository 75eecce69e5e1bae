import PracticalMicroservice.Foundations.Undertakings

/-!
# What committed transactions add up to

A row that a transaction has written is its own until it ends, and an update goes by the newest
version of a row. So a value that a row keeps is what the committed transactions have made of it, one
after the other in the order of their commits.
-/

namespace PracticalMicroservice.Foundations

open Traffic

variable {ρ τ κ β : Type}

/-- A value of a row, and what a transaction as a whole makes of it. -/
structure Tally (ρ τ κ β : Type) where
  value : ρ → β
  act : τ → κ → β → β

/-- A transaction has written the row at an index. -/
def WroteAt (made : Accesses ρ) (index : Nat) : Prop :=
  ∃ whose change row, (⟨.visit index whose change, some row⟩ : (a : Access ρ) × a.Reply) ∈ made

theorem WroteAt.push {u : Undertaking ρ τ} {index : Nat} (h : WroteAt u.made index) (a : Access ρ)
    (reply : a.Reply) : WroteAt (Traffic.push u a reply).made index := by
  obtain ⟨whose, change, row, hm⟩ := h
  exact ⟨whose, change, row, List.mem_cons_of_mem _ hm⟩

namespace Tally

variable {d : Discipline ρ τ κ} {c c' : Traffic ρ τ} {t : Tally ρ τ κ β}

/-- The transactions do to the value what they are to do, and do it once. -/
structure Fair (t : Tally ρ τ κ β) (d : Discipline ρ τ κ) : Prop where
  visits : ∀ {c : Traffic ρ τ} {i : Nat} {u : Undertaking ρ τ} {index : Nat} {whose : ρ → Bool}
    {change : ρ → ρ}, d.allows c i u (.visit index whose change) → ∀ old, whose old = true →
      t.value (change old) = t.act u.task (d.key old) (t.value old) ∧
        (WroteAt u.made index → ∀ b, t.act u.task (d.key old) (t.act u.task (d.key old) b) =
          t.act u.task (d.key old) b)
  /-- A row that a transaction leaves alone is not one it was to do something to. -/
  commits : ∀ {c : Traffic ρ τ} {i : Nat} {u : Undertaking ρ τ}, d.allows c i u .commit →
    ∀ key, (∀ row, Left u.made row → d.number (d.key row) ≠ d.number key) →
      ∀ b, t.act u.task key b = b
  changes : ∀ {slot slot' : Slot ρ}, d.changes slot slot' →
    slot'.committed.map t.value = slot.committed.map t.value

/-- What transactions make of a value, the newest of them last. -/
def total (t : Tally ρ τ κ β) (key : κ) (b : β) : List (Undertaking ρ τ) → β
  | [] => b
  | u :: done => t.act u.task key (t.total key b done)

/-- A version under way is what its transaction makes of the committed one. -/
def Pending (t : Tally ρ τ κ β) (d : Discipline ρ τ κ) (c : Traffic ρ τ) : Prop :=
  ∀ (k : Nat) (slot : Slot ρ) (i : Nat) (r r' : ρ), c.tables.slots[k]? = some slot →
    slot.written = some (i, r') → slot.committed = some r →
      ∃ u, c.under i = some u ∧ WroteAt u.made k ∧
        t.value r' = t.act u.task (d.key r) (t.value r)

/-- The row at an index is what the transactions that have committed since make of a value. -/
def Since (t : Tally ρ τ κ β) (d : Discipline ρ τ κ) (before : List (Undertaking ρ τ)) (k : Nat)
    (key : κ) (b : β) (c : Traffic ρ τ) : Prop :=
  ∃ slot r newer, c.tables.slots[k]? = some slot ∧ slot.committed = some r ∧ d.key r = key ∧
    c.done = newer ++ before ∧ t.value r = t.total key b newer

theorem pending_start {v : Versions ρ} (hquiet : ∀ slot ∈ v.slots, slot.written = none)
    {under : Nat → Option (Undertaking ρ τ)} {done : List (Undertaking ρ τ)} :
    t.Pending d { tables := v, under, done } := by
  intro k slot i r r' hk hw
  exact nomatch (hquiet slot (List.mem_of_getElem? hk)).symm.trans hw

section Access

variable {i : Nat} {u : Undertaking ρ τ} {a : Access ρ} {reply : a.Reply} {tables : Versions ρ}
  {done : List (Undertaking ρ τ)}

theorem pending_access (ht : t.Fair d) (hs : Sound d c) (h : t.Pending d c) (hu : c.under i = some u)
    (hallowed : d.allows c i u a) (hp : c.tables.Performed i a reply tables) :
    t.Pending d { tables, under := moveGhost c.under i (some (push u a reply)), done } := by
  intro k slot' j r r' hk hw hc
  obtain ⟨slot, hslot, hc | ⟨-, -, hnone⟩⟩ := hp.committed_after hk hc
  · rcases hp.written_after hk hw with ⟨slot₁, hslot₁, hw, -⟩ |
      ⟨slot₁, whose, change, old, hslot₁, rfl, rfl, rfl, -, hseen, hmeant, -⟩ | ⟨-, hnone, -⟩
    · obtain rfl := Option.some.inj (hslot.symm.trans hslot₁)
      obtain ⟨u₀, hu₀, hwrote, hvalue⟩ := h k slot j r r' hslot hw hc
      by_cases hj : j = i
      · subst hj
        obtain rfl := Option.some.inj (hu.symm.trans hu₀)
        exact ⟨_, moveGhost_self _ _ _, hwrote.push a reply, hvalue⟩
      · exact ⟨u₀, (moveGhost_of_ne hj).trans hu₀, hwrote, hvalue⟩
    · obtain rfl := Option.some.inj (hslot.symm.trans hslot₁)
      obtain ⟨hacts, honce⟩ := ht.visits hallowed old hmeant
      have hkey : d.key old = d.key r :=
        hs.coherent hslot (Slot.seenBy_mem hseen) (Slot.committed_mem hc)
      have hreply : reply = some (change old) := by
        cases hp with
        | missed hnone =>
          obtain ⟨-, hmissed⟩ := hnone slot hslot
          rw [hseen, Option.filter_some, if_pos hmeant] at hmissed
          cases hmissed
        | wrote hslot₂ _ hseen₂ _ =>
          obtain rfl := Option.some.inj (hslot.symm.trans hslot₂)
          exact congrArg (some ∘ change) (Option.some.inj (hseen₂.symm.trans hseen))
      refine ⟨_, moveGhost_self _ _ _,
        ⟨whose, change, change old, hreply ▸ List.mem_cons_self⟩, ?_⟩
      -- the version it goes by is its own, or the committed one
      by_cases hown : ∃ row, slot.written = some (j, row)
      · obtain ⟨row, hown⟩ := hown
        obtain rfl := Option.some.inj ((Slot.seenBy_of_written hown).symm.trans hseen)
        obtain ⟨u₀, hu₀, hwrote, hvalue⟩ := h k slot j r row hslot hown hc
        obtain rfl := Option.some.inj (hu.symm.trans hu₀)
        rw [hacts, hvalue, ← hkey]
        exact honce hwrote _
      · have hsees := Slot.seenBy_of_not_written fun row hrow => hown ⟨row, hrow⟩
        obtain rfl := Option.some.inj ((hc.symm.trans hsees.symm).trans hseen)
        exact hacts
    · exact nomatch hnone.symm.trans ‹slot'.committed = some r›
  · exact nomatch hnone.symm.trans hw

theorem since_access (ht : t.Fair d) (hs : Sound d c) (hp : t.Pending d c)
    {before : List (Undertaking ρ τ)} {k : Nat} {key : κ} {b : β} (h : t.Since d before k key b c)
    (hu : c.under i = some u) (hunended : Unended u.made) (hallowed : d.allows c i u a)
    (hperformed : c.tables.Performed i a reply tables) :
    t.Since d before k key b
      { tables, under := moveGhost c.under i (some (push u a reply))
        done := if commits a then u :: c.done else c.done } := by
  obtain ⟨slot, r, newer, hk, hc, rfl, hdone, hvalue⟩ := h
  obtain ⟨slot', hk', hbecame⟩ := hperformed.goes hk
  cases a with
  | commit =>
    have hadded : u :: c.done = (u :: newer) ++ before := congrArg (u :: ·) hdone
    by_cases hown : ∃ row, slot.written = some (i, row)
    · obtain ⟨row, hown⟩ := hown
      obtain ⟨u₀, hu₀, -, hwritten⟩ := hp k slot i r row hk hown hc
      obtain rfl := Option.some.inj (hu.symm.trans hu₀)
      cases hbecame with
      | kept ha => cases ha
      | committed =>
        refine ⟨_, row, u :: newer, hk', ?_,
          hs.coherent hk (Slot.written_mem hown) (Slot.committed_mem hc), hadded, ?_⟩
        · rw [Slot.commit_committed]
          exact Slot.seenBy_of_written hown
        · rw [hwritten, hvalue]
          rfl
    · have hspared : ∀ row, Left u.made row → d.number (d.key row) ≠ d.number (d.key r) := by
        rintro row ⟨index, whose, change, hm⟩ hnumber
        obtain ⟨slot₁, r₁, hk₁, hw₁, hkey₁⟩ := hs.left hu hunended hm
        obtain rfl : index = k := hs.distinct hk₁ hk (Slot.written_mem hw₁) (Slot.committed_mem hc)
          ((congrArg d.number hkey₁).trans hnumber)
        obtain rfl := Option.some.inj (hk.symm.trans hk₁)
        exact hown ⟨r₁, hw₁⟩
      cases hbecame with
      | kept ha => cases ha
      | committed =>
        refine ⟨_, r, u :: newer, hk', ?_, rfl, hadded, ?_⟩
        · rw [Slot.commit_committed]
          exact (Slot.seenBy_of_not_written fun row hrow => hown ⟨row, hrow⟩).trans hc
        · show t.value r = t.act u.task (d.key r) (t.total (d.key r) b newer)
          rw [ht.commits hallowed (d.key r) hspared, hvalue]
  | select _ | insert _ | targets _ | visit _ _ _ | rollback =>
    rcases hbecame.committed_cases with he | ⟨ha, -⟩
    · exact ⟨slot', r, newer, hk', he.trans hc, rfl, hdone, hvalue⟩
    · cases ha

end Access

/-- A row changed from outside keeps the value. -/
theorem change_value (ht : t.Fair d) (hd : d.Lawful) {slot slot' : Slot ρ} (hc : d.changes slot slot')
    {r' : ρ} (hr : slot'.committed = some r') :
    ∃ r, slot.committed = some r ∧ d.key r = d.key r' ∧ t.value r = t.value r' := by
  have hkey := (hd.changes hc).2
  have hvalue := ht.changes hc
  rw [hr] at hkey hvalue
  obtain ⟨r, hr₀, hk⟩ := Option.map_eq_some_iff.mp hkey.symm
  rw [hr₀] at hvalue
  exact ⟨r, hr₀, hk, (Option.some.inj hvalue).symm⟩

theorem pending_step (ht : t.Fair d) (hd : d.Lawful) (hs : Sound d c) (h : t.Pending d c)
    (hstep : Step d c c') : t.Pending d c' := by
  cases hstep with
  | @begins i task hidle hneeds =>
    intro k slot j r r' hk hw hc
    obtain ⟨u, hu, hrest⟩ := h k slot j r r' hk hw hc
    have hj : j ≠ i := fun he => nomatch (he ▸ hidle).symm.trans hu
    exact ⟨u, (moveGhost_of_ne hj).trans hu, hrest⟩
  | accesses hu _ hallowed hp => exact pending_access ht hs h hu hallowed hp
  | @retires i hended =>
    intro k slot j r r' hk hw hc
    obtain ⟨u, hu, hrest⟩ := h k slot j r r' hk hw hc
    obtain ⟨u₀, hu₀, hopen, -⟩ := hs.held hk hw
    have hj : j ≠ i := fun he => hended u₀ (he ▸ hu₀) hopen
    exact ⟨u, (moveGhost_of_ne hj).trans hu, hrest⟩
  | @changes f hf =>
    intro k slot' j r r' hk hw hc
    have hk₀ : (c.tables.slots.map f)[k]? = some slot' := hk
    rw [List.getElem?_map] at hk₀
    obtain ⟨slot, hslot, rfl⟩ := Option.map_eq_some_iff.mp hk₀
    have hchange := hf slot (List.mem_of_getElem? hslot)
    obtain ⟨r₀, hc₀, hkey, hvalue⟩ := change_value ht hd hchange hc
    obtain ⟨u, hu, hwrote, hwritten⟩ :=
      h k slot j r₀ r' hslot ((hd.changes hchange).1.symm.trans hw) hc₀
    exact ⟨u, hu, hwrote, by rw [hwritten, hkey, hvalue]⟩

theorem since_step (ht : t.Fair d) (hd : d.Lawful) (hs : Sound d c) (hp : t.Pending d c)
    {before : List (Undertaking ρ τ)} {k : Nat} {key : κ} {b : β} (h : t.Since d before k key b c)
    (hstep : Step d c c') : t.Since d before k key b c' := by
  cases hstep with
  | begins _ _ => exact h
  | accesses hu hunended hallowed hperformed =>
    exact since_access ht hs hp h hu hunended hallowed hperformed
  | retires _ => exact h
  | @changes f hf =>
    obtain ⟨slot, r, newer, hk, hc, rfl, hdone, hvalue⟩ := h
    have hk' : (c.tables.slots.map f)[k]? = some (f slot) :=
      List.getElem?_map.trans (congrArg (Option.map f) hk)
    have hchange := hf slot (List.mem_of_getElem? hk)
    have hkept := ht.changes hchange
    rw [hc] at hkept
    obtain ⟨r', hr', -⟩ := Option.map_eq_some_iff.mp hkept
    obtain ⟨r₀, hr₀, hkey, hvalue'⟩ := change_value ht hd hchange hr'
    obtain rfl := Option.some.inj (hc.symm.trans hr₀)
    exact ⟨f slot, r', newer, hk', hr', hkey.symm, hdone, hvalue'.symm.trans hvalue⟩

end Tally

end PracticalMicroservice.Foundations
