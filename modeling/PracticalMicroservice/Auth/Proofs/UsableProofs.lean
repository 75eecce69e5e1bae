import PracticalMicroservice.Auth.Concurrency
import PracticalMicroservice.Auth.Proofs.InterleavingProofs

/-!
# The codes, side by side

Whatever the transactions do, a code that is not outstanding never is again, and is not redeemed. As
long as the replacements of an account's codes of one type keep apart, the newest code is the only one
that can be outstanding.
-/

namespace PracticalMicroservice.Auth

open Foundations (Access Accesses AllSteps Due Pool Slot Traffic Undertaking Unended Updated Versions
  moveGhost moveGhost_of_ne moveGhost_self runs)
open PrismaAuthRepository

/-! ## What a call does to a code -/

theorem Fades.refl (v : Verification) : Fades v v := fun h => ⟨h, id⟩

theorem Fades.trans {v v' v'' : Verification} (h : Fades v v') (h' : Fades v' v'') : Fades v v'' :=
  fun hv => ⟨(h' (h hv).1).1, fun hv'' => (h hv).2 ((h' (h hv).1).2 hv'')⟩

theorem Fades.pending {v v' : Verification} (h : Fades v v') (hv' : v'.status = .PENDING) :
    v.status = .PENDING := by
  by_contra hv
  exact (h hv).1 hv'

theorem Changes.verification {call : Call} {now : Nat} {made : Accesses Row} {v : Verification}
    {row : Row} (h : Changes call now made (.verification v) row) :
    ∃ v', row = .verification v' ∧ Fades v v' := by
  cases h with
  | superseded pending _ _ => exact ⟨_, rfl, fun hv => absurd pending hv⟩
  | @counted _ exhausted _ =>
    refine ⟨_, rfl, fun hv => ?_⟩
    cases exhausted with
    | true => exact ⟨fun h => (nomatch h), fun h => nomatch h⟩
    | false => exact ⟨hv, id⟩
  | mailed _ => exact ⟨_, rfl, fun hv => ⟨hv, id⟩⟩
  | spent pending _ => exact ⟨_, rfl, fun hv => absurd pending hv⟩

/-- A replacement revokes the codes it changes. -/
theorem Changes.superseding {call : Call} {now : Nat} {made : Accesses Row} {v : Verification}
    {row : Row} {of : Nat × VerificationType} (h : Changes call now made (.verification v) row)
    (hof : call.replaces = some of) : ∃ v', row = .verification v' ∧ v'.status ≠ .PENDING := by
  cases h with
  | superseded _ _ _ => exact ⟨_, rfl, fun h => nomatch h⟩
  | counted ofCall =>
    rw [ofCall] at hof
    cases hof
  | mailed ofCall =>
    rw [ofCall] at hof
    cases hof
  | spent _ ofCall =>
    cases call with
    | consumeEmailVerification _ _ _ => cases hof
    | consumePasswordReset _ _ _ _ => cases hof
    | _ => cases ofCall

/-- A code is inserted by a replacement that has visited what is outstanding, or with its account. -/
theorem Inserts.verification {call : Call} {now key : Nat} {made : Accesses Row} {row : Nat → Row}
    {v : Verification} (h : Inserts made now row call) (hv : row key = .verification v) :
    (∀ v', ¬ Inserted made (.verification v')) ∧
      (call.replaces = some (v.authUserId, v.type) ∧
          (∃ change, Updated (Row.isVerification (isPending v.authUserId v.type)) change [] made) ∨
        call.replaces = none ∧ ∃ u : AuthUser, Inserted made (.user u) ∧ u.id = v.authUserId) := by
  cases call with
  | createAuthUserWithVerification user verification =>
    rcases h with ⟨-, hrow⟩ | ⟨u, hu, hnone, hrow⟩
    · obtain ⟨u, he, -⟩ := hrow key
      cases he.symm.trans hv
    · cases (hrow key).symm.trans hv
      exact ⟨hnone, .inr ⟨rfl, u, hu, rfl⟩⟩
  | recordLoginAttempt input =>
    obtain ⟨history, he, -⟩ := h key
    cases he.symm.trans hv
  | replaceVerification authUserId input =>
    obtain ⟨hrow, change, hupdated⟩ := h
    cases (hrow key).symm.trans hv
    refine ⟨?_, .inl ⟨rfl, change, hupdated⟩⟩
    rintro v' ⟨f, hm⟩
    obtain ⟨indices, seen, rfl, -⟩ := hupdated
    rcases List.mem_append.mp hm with hm | hm
    · obtain ⟨one, -, he⟩ := List.mem_map.mp hm
      cases he
    · cases List.mem_singleton.mp hm
  | createRefreshToken input => cases (h.2 key).symm.trans hv
  | rotateRefreshToken currentId next => cases (h.2 key).symm.trans hv
  | _ => exact h.elim

/-- A replacement needs the account. -/
theorem needs_of_replaces {call : Call} {of : Nat × VerificationType} (h : call.replaces = some of) :
    RowKey.user of.1 ∈ call.needs := by
  cases call with
  | replaceVerification authUserId input =>
    obtain rfl := Option.some.inj h
    exact List.mem_singleton_self _
  | _ => cases h

theorem verification_of_key {v v' : Verification}
    (h : (Row.verification v).key = (Row.verification v').key) :
    v.id = v'.id ∧ v.authUserId = v'.authUserId ∧ v.type = v'.type := by
  simpa [Row.key] using h

/-! ## The codes, whatever is done to them -/

/-- The transaction has inserted the code, in place of others or with its account. -/
def Furnishes (u : Transacting) (v : Verification) : Prop :=
  (∃ v₀, Inserted u.made (.verification v₀) ∧ (Row.verification v₀).key = (Row.verification v).key) ∧
    (u.task.1.replaces = some (v.authUserId, v.type) ∨
      u.task.1.replaces = none ∧ ∃ user : AuthUser,
        Inserted u.made (.user user) ∧ user.id = v.authUserId)

/-- What every version of a code keeps, committed or not. -/
structure Coded (c : Traffic Row (Call × Nat)) : Prop where
  fades : ∀ {k : Nat} {slot : Slot Row}, c.tables.slots[k]? = some slot → ∀ {v v' : Verification},
    slot.committed = some (.verification v) → ∀ {i : Nat},
      slot.written = some (i, .verification v') → Fades v v'
  owned : ∀ {k : Nat} {slot : Slot Row}, c.tables.slots[k]? = some slot → ∀ {v : Verification},
    slot.committed = some (.verification v) → .user v.authUserId ∈ c.tables.rows.map Row.key
  issued : ∀ {k : Nat} {slot : Slot Row}, c.tables.slots[k]? = some slot → slot.committed = none →
    ∀ {i : Nat} {v : Verification}, slot.written = some (i, .verification v) →
      ∃ u, c.under i = some u ∧ Furnishes u v
  /-- A transaction inserts one code. -/
  single : ∀ {k k' : Nat} {slot slot' : Slot Row}, c.tables.slots[k]? = some slot →
    c.tables.slots[k']? = some slot' → slot.committed = none → slot'.committed = none →
    ∀ {i : Nat} {v v' : Verification}, slot.written = some (i, .verification v) →
      slot'.written = some (i, .verification v') → k = k'

section Access

variable {ok : Traffic Row (Call × Nat) → Nat → Transacting → Access Row → Prop}
  {c : Traffic Row (Call × Nat)} {i k : Nat} {u : Transacting} {a : Access Row} {reply : a.Reply}
  {tables : Versions Row} {slot' : Slot Row} {v : Verification}

theorem Inserted.push {row : Row} (h : Inserted u.made row) :
    Inserted (Traffic.push u a reply).made row := by
  obtain ⟨f, hm⟩ := h
  exact ⟨f, List.mem_cons_of_mem _ hm⟩

theorem Furnishes.push (h : Furnishes u v) : Furnishes (Traffic.push u a reply) v := by
  obtain ⟨⟨v₀, hinserted, hkey⟩, hwhy⟩ := h
  refine ⟨⟨v₀, hinserted.push, hkey⟩, hwhy.imp_right ?_⟩
  rintro ⟨hnone, user, huser, hid⟩
  exact ⟨hnone, user, huser.push, hid⟩

theorem Furnishes.congr {v' : Verification} (h : Furnishes u v)
    (hkey : (Row.verification v).key = (Row.verification v').key) : Furnishes u v' := by
  obtain ⟨-, haccount, htype⟩ := verification_of_key hkey
  obtain ⟨⟨v₀, hinserted, hkey₀⟩, hwhy⟩ := h
  refine ⟨⟨v₀, hinserted, hkey₀.trans hkey⟩, ?_⟩
  rw [← haccount, ← htype]
  exact hwhy

/-- The versions of a code are versions of that code. -/
theorem version_of_code (hs : Traffic.Sound (discipline ok) c) {slot : Slot Row}
    (hk : c.tables.slots[k]? = some slot) (hv : .verification v ∈ slot.versions) {row : Row}
    (hrow : row ∈ slot.versions) :
    ∃ v₀, row = .verification v₀ ∧ v₀.id = v.id ∧ v₀.authUserId = v.authUserId ∧
      v₀.type = v.type := by
  have hkey : row.key = (Row.verification v).key := hs.coherent hk hrow hv
  cases row with
  | verification v₀ => exact ⟨v₀, rfl, verification_of_key hkey⟩
  | _ => cases hkey

/-- A code that is there was there before the access, or its writer has just committed it: a new one,
or a later version of one that was there. -/
theorem code_before (h : Coded c) (hs : Traffic.Sound (discipline ok) c)
    (hp : c.tables.Performed i a reply tables) (hk : tables.slots[k]? = some slot')
    (hc : slot'.committed = some (.verification v)) :
    ∃ slot, c.tables.slots[k]? = some slot ∧
      (slot.committed = some (.verification v) ∨
        a = .commit ∧ slot.written = some (i, .verification v) ∧ slot'.written = none ∧
          (slot.committed = none ∨ ∃ v₀, slot.committed = some (.verification v₀) ∧
            v₀.id = v.id ∧ v₀.authUserId = v.authUserId ∧ v₀.type = v.type ∧ Fades v₀ v)) := by
  obtain ⟨slot, hslot, hc₀ | ⟨ha, hw, hnone⟩⟩ := hp.committed_after hk hc
  · exact ⟨slot, hslot, .inl hc₀⟩
  · refine ⟨slot, hslot, .inr ⟨ha, hw, hnone, ?_⟩⟩
    cases hc₀ : slot.committed with
    | none => exact .inl rfl
    | some row =>
      obtain ⟨v₀, rfl, hid, haccount, htype⟩ :=
        version_of_code hs hslot (Slot.written_mem hw) (Slot.committed_mem hc₀)
      exact .inr ⟨v₀, rfl, hid, haccount, htype, h.fades hslot hc₀ hw⟩

/-- What a visit makes of a code. -/
theorem code_visited (hfits : Fits u.task u.made a) {slot : Slot Row} {whose : Row → Bool}
    {change : Row → Row} {old : Row} (ha : a = .visit k whose change)
    (hrow : .verification v = change old) (hseen : slot.seenBy i = some old)
    (hmeant : whose old = true) :
    ∃ v₀, old = .verification v₀ ∧ Fades v₀ v ∧ v₀.id = v.id ∧ v₀.authUserId = v.authUserId ∧
      v₀.type = v.type := by
  subst ha
  have hchanges : Changes u.task.1 u.task.2 u.made old (change old) := hfits.1 old hmeant
  have hkey : (Row.verification v).key = old.key := hrow ▸ hchanges.key
  cases old with
  | verification v₀ =>
    obtain ⟨v', he, hfades⟩ := hchanges.verification
    obtain rfl : v = v' := Row.verification.inj (hrow.trans he)
    exact ⟨v₀, rfl, hfades, verification_of_key hkey.symm⟩
  | _ => cases hkey

theorem fades_access (h : Coded c) (hs : Traffic.Sound (discipline ok) c)
    (hfits : Fits u.task u.made a) (hp : c.tables.Performed i a reply tables)
    (hk : tables.slots[k]? = some slot') {v₀ : Verification}
    (hc : slot'.committed = some (.verification v₀)) {j : Nat}
    (hw : slot'.written = some (j, .verification v)) : Fades v₀ v := by
  obtain ⟨slot, hslot, hc₀ | ⟨-, -, hnone, -⟩⟩ := code_before h hs hp hk hc
  · rcases hp.written_after hk hw with ⟨slot₁, hslot₁, hw, -⟩ |
      ⟨slot₁, whose, change, old, hslot₁, ha, rfl, hrow, -, hseen, hmeant, -⟩ | ⟨-, hnone, -⟩
    · obtain rfl := Option.some.inj (hslot.symm.trans hslot₁)
      exact h.fades hslot hc₀ hw
    · obtain rfl := Option.some.inj (hslot.symm.trans hslot₁)
      obtain ⟨v₁, rfl, hfades, -⟩ := code_visited hfits ha hrow hseen hmeant
      refine Fades.trans ?_ hfades
      by_cases hown : ∃ row, slot.written = some (j, row)
      · obtain ⟨row, hrow⟩ := hown
        obtain rfl := Option.some.inj ((Slot.seenBy_of_written hrow).symm.trans hseen)
        exact h.fades hslot hc₀ hrow
      · rw [Slot.seenBy_of_not_written fun row hrow => hown ⟨row, hrow⟩, hc₀] at hseen
        cases hseen
        exact Fades.refl _
    · exact nomatch hnone.symm.trans hc
  · exact nomatch hnone.symm.trans hw

/-- What a transaction has inserted is there once it commits. -/
theorem inserted_commit (hs : Traffic.Sound (discipline ok) c) (hu : c.under i = some u)
    (hunended : Unended u.made) {row : Row} (hinserted : Inserted u.made row) :
    row.key ∈ (c.tables.commit i).rows.map Row.key := by
  obtain ⟨f, hm⟩ := hinserted
  obtain ⟨k', slot, r, hk', hw, -, hkey⟩ := hs.inserted hu hunended hm
  have hk : (c.tables.commit i).slots[k']? = some (slot.commit i) :=
    List.getElem?_map.trans (congrArg (Option.map (Slot.commit i)) hk')
  have hc : (slot.commit i).committed = some r := by
    unfold Slot.commit
    rw [hw]
    exact congrArg Slot.committed (if_pos rfl)
  exact (Traffic.mem_keys (d := discipline ok)).mpr ⟨k', _, r, hk, hc, hkey⟩

theorem owned_access (h : Coded c) (hs : Traffic.Sound (discipline ok) c) (hu : c.under i = some u)
    (hunended : Unended u.made) (hp : c.tables.Performed i a reply tables)
    (hk : tables.slots[k]? = some slot') (hc : slot'.committed = some (.verification v)) :
    .user v.authUserId ∈ tables.rows.map Row.key := by
  obtain ⟨slot, hslot, hc₀ | ⟨rfl, hw, -, hnone | ⟨v₀, hc₀, -, haccount, -⟩⟩⟩ :=
    code_before h hs hp hk hc
  · exact Traffic.keys_access hs hp (h.owned hslot hc₀)
  · obtain ⟨u', hu', -, hreplaces | ⟨-, user, huser, hid⟩⟩ := h.issued hslot hnone hw
    · obtain rfl := Option.some.inj (hu.symm.trans hu')
      exact Traffic.keys_access hs hp (hs.needed hu _ (needs_of_replaces hreplaces))
    · obtain rfl := Option.some.inj (hu.symm.trans hu')
      cases hp
      rw [← hid]
      exact inserted_commit hs hu hunended huser
  · rw [← haccount]
    exact Traffic.keys_access hs hp (h.owned hslot hc₀)

/-- A code under way in a row of its own was so before the access, or is the one just inserted. -/
theorem new_code (hfits : Fits u.task u.made a) (hp : c.tables.Performed i a reply tables)
    (hk : tables.slots[k]? = some slot') (hc : slot'.committed = none) {j : Nat}
    (hw : slot'.written = some (j, .verification v)) :
    (∃ slot v₀, c.tables.slots[k]? = some slot ∧ slot.committed = none ∧
        slot.written = some (j, .verification v₀) ∧
        (Row.verification v₀).key = (Row.verification v).key) ∨
      j = i ∧ k = c.tables.slots.length ∧ (∀ v', ¬ Inserted u.made (.verification v')) ∧
        Furnishes (Traffic.push u a reply) v := by
  rcases hp.came hk with ⟨slot, hslot, hbecame⟩ | ⟨hlength, -, f, rfl, rfl⟩
  · refine .inl ?_
    rcases hbecame.written_cases hw with ⟨hw, he, -⟩ |
      ⟨whose, change, old, ha, rfl, hrow, -, hseen, hmeant, he⟩
    · exact ⟨slot, v, hslot, he.symm.trans hc, hw, rfl⟩
    · obtain ⟨v₀, rfl, -, hid, haccount, htype⟩ := code_visited hfits ha hrow hseen hmeant
      refine ⟨slot, v₀, hslot, he.symm.trans hc, ?_, ?_⟩
      · -- with nothing committed, the version it saw was its own
        by_contra hnot
        have hfree : ∀ row, slot.written ≠ some (j, row) := by
          intro row hw'
          obtain rfl := Option.some.inj ((Slot.seenBy_of_written hw').symm.trans hseen)
          exact hnot hw'
        rw [Slot.seenBy_of_not_written hfree, ← he, hc] at hseen
        cases hseen
      · show RowKey.verification _ _ _ = .verification _ _ _
        rw [hid, haccount, htype]
  · obtain ⟨rfl, hrow⟩ : i = j ∧ f c.tables.nextKey = .verification v := by simpa using hw
    obtain ⟨hnot, hwhy⟩ := Inserts.verification hfits hrow
    refine .inr ⟨rfl, hlength, hnot, ?_⟩
    cases hp with
    | refused _ e =>
      obtain ⟨hlt, -⟩ := List.getElem?_eq_some_iff.mp hk
      exact absurd hlength (Nat.ne_of_lt hlt)
    | inserted _ =>
      refine ⟨⟨v, ⟨f, ?_⟩, rfl⟩, ?_⟩
      · rw [← hrow]
        exact List.mem_cons_self
      · rcases hwhy with ⟨hreplaces, -⟩ | ⟨hnone, user, huser, hid⟩
        · exact .inl hreplaces
        · exact .inr ⟨hnone, user, huser.push, hid⟩

theorem issued_access (h : Coded c) (hu : c.under i = some u) (hfits : Fits u.task u.made a)
    (hp : c.tables.Performed i a reply tables) (hk : tables.slots[k]? = some slot')
    (hc : slot'.committed = none) {j : Nat} (hw : slot'.written = some (j, .verification v)) :
    ∃ u', moveGhost c.under i (some (Traffic.push u a reply)) j = some u' ∧ Furnishes u' v := by
  rcases new_code hfits hp hk hc hw with ⟨slot, v₀, hslot, hnone, hold, hkey⟩ |
    ⟨rfl, -, -, hfurnishes⟩
  · obtain ⟨u', hu', hfurnishes⟩ := h.issued hslot hnone hold
    have hfurnishes' : Furnishes u' v := hfurnishes.congr hkey
    by_cases hj : j = i
    · subst hj
      obtain rfl := Option.some.inj (hu.symm.trans hu')
      exact ⟨_, moveGhost_self _ _ _, hfurnishes'.push⟩
    · exact ⟨u', (moveGhost_of_ne hj).trans hu', hfurnishes'⟩
  · exact ⟨_, moveGhost_self _ _ _, hfurnishes⟩

theorem single_access (h : Coded c) (hu : c.under i = some u) (hfits : Fits u.task u.made a)
    (hp : c.tables.Performed i a reply tables) {k' : Nat} {slot'' : Slot Row}
    (hk : tables.slots[k]? = some slot') (hk' : tables.slots[k']? = some slot'')
    (hc : slot'.committed = none) (hc' : slot''.committed = none) {j : Nat} {v' : Verification}
    (hw : slot'.written = some (j, .verification v))
    (hw' : slot''.written = some (j, .verification v')) : k = k' := by
  have honly : ∀ {k₀ : Nat} {slot : Slot Row} {v₀ : Verification}, c.tables.slots[k₀]? = some slot →
      slot.committed = none → slot.written = some (i, .verification v₀) →
      ¬ ∀ v', ¬ Inserted u.made (.verification v') := by
    intro k₀ slot v₀ hslot hnone hwritten hnot
    obtain ⟨u', hu', ⟨v₁, hinserted, -⟩, -⟩ := h.issued hslot hnone hwritten
    obtain rfl := Option.some.inj (hu.symm.trans hu')
    exact hnot v₁ hinserted
  rcases new_code hfits hp hk hc hw with ⟨slot, v₀, hslot, hnone, hold, -⟩ | ⟨rfl, hlength, hnot, -⟩
  · rcases new_code hfits hp hk' hc' hw' with ⟨slot₁, v₁, hslot₁, hnone₁, hold₁, -⟩ |
      ⟨rfl, -, hnot, -⟩
    · exact h.single hslot hslot₁ hnone hnone₁ hold hold₁
    · exact absurd hnot (honly hslot hnone hold)
  · rcases new_code hfits hp hk' hc' hw' with ⟨slot₁, v₁, hslot₁, hnone₁, hold₁, -⟩ |
      ⟨-, hlength', -, -⟩
    · exact absurd hnot (honly hslot₁ hnone₁ hold₁)
    · exact hlength.trans hlength'.symm

end Access

section Step

variable {ok : Traffic Row (Call × Nat) → Nat → Transacting → Access Row → Prop}
  {c c' : Traffic Row (Call × Nat)} {i : Nat}

theorem Coded.begin (h : Coded c) {task : Call × Nat} (hidle : c.under i = none) :
    Coded { c with under := moveGhost c.under i (some ⟨task, c.tables, []⟩) } where
  fades := h.fades
  owned := h.owned
  issued hk hc j v hw := by
    obtain ⟨u, hu, hfurnishes⟩ := h.issued hk hc hw
    have hj : j ≠ i := fun he => nomatch (he ▸ hidle).symm.trans hu
    exact ⟨u, (moveGhost_of_ne hj).trans hu, hfurnishes⟩
  single := h.single

theorem Coded.retire (h : Coded c) (hs : Traffic.Sound (discipline ok) c)
    (hover : ∀ u, c.under i = some u → ¬ Unended u.made) :
    Coded { c with under := moveGhost c.under i none } where
  fades := h.fades
  owned := h.owned
  issued hk hc j v hw := by
    obtain ⟨u, hu, hfurnishes⟩ := h.issued hk hc hw
    obtain ⟨u', hu', hopen, -⟩ := hs.held hk hw
    have hj : j ≠ i := fun he => hover u' (he ▸ hu') hopen
    exact ⟨u, (moveGhost_of_ne hj).trans hu, hfurnishes⟩
  single := h.single

theorem code_unchanged (hs : Traffic.Sound (discipline ok) c) {f : Slot Row → Slot Row}
    (hf : ∀ slot ∈ c.tables.slots, StatusChanges slot (f slot)) {k : Nat} {slot' : Slot Row}
    (hk : (c.tables.slots.map f)[k]? = some slot') {v : Verification}
    (hv : .verification v ∈ slot'.versions) : c.tables.slots[k]? = some slot' :=
  row_unchanged hs hf hk hv fun _ h => nomatch h

theorem Coded.change (h : Coded c) (hs : Traffic.Sound (discipline ok) c) {f : Slot Row → Slot Row}
    (hf : ∀ slot ∈ c.tables.slots, StatusChanges slot (f slot)) :
    Coded { c with tables := { c.tables with slots := c.tables.slots.map f } } where
  fades hk _ _ hc _ hw := h.fades (code_unchanged hs hf hk (Slot.committed_mem hc)) hc hw
  owned hk _ hc := Traffic.keys_change (lawful ok) hf
    (h.owned (code_unchanged hs hf hk (Slot.committed_mem hc)) hc)
  issued hk hc _ _ hw := h.issued (code_unchanged hs hf hk (Slot.written_mem hw)) hc hw
  single hk hk' hc hc' _ _ _ hw hw' :=
    h.single (code_unchanged hs hf hk (Slot.written_mem hw))
      (code_unchanged hs hf hk' (Slot.written_mem hw')) hc hc' hw hw'

theorem Coded.step (h : Coded c) (hs : Traffic.Sound (discipline ok) c)
    (hstep : Traffic.Step (discipline ok) c c') : Coded c' := by
  cases hstep with
  | begins hidle _ => exact h.begin hidle
  | accesses hu hunended hallowed hp =>
    constructor
    · exact fun hk v v' hc j hw => fades_access h hs hallowed.1 hp hk hc hw
    · exact fun hk v hc => owned_access h hs hu hunended hp hk hc
    · exact fun hk hc j v hw => issued_access h hu hallowed.1 hp hk hc hw
    · exact fun hk hk' hc hc' j v v' hw hw' =>
        single_access h hu hallowed.1 hp hk hk' hc hc' hw hw'
  | retires hover => exact h.retire hs hover
  | changes hf => exact h.change hs hf

/-- A code in a row, which another has faded into. -/
def Faded (k : Nat) (v : Verification) (c : Traffic Row (Call × Nat)) : Prop :=
  Coded c ∧ ∃ slot v', c.tables.slots[k]? = some slot ∧ slot.committed = some (.verification v') ∧
    v'.id = v.id ∧ Fades v v'

theorem faded_step {k : Nat} {v : Verification} (hs : Traffic.Sound (discipline ok) c)
    (h : Faded k v c) (hstep : Traffic.Step (discipline ok) c c') : Faded k v c' := by
  obtain ⟨hcoded, slot, v', hk, hc, hid, hfades⟩ := h
  refine ⟨hcoded.step hs hstep, ?_⟩
  cases hstep with
  | begins _ _ => exact ⟨slot, v', hk, hc, hid, hfades⟩
  | accesses _ _ _ hp =>
    obtain ⟨slot', hk', hc' | ⟨-, row, hw, hc'⟩⟩ := hp.commits_over hk hc
    · exact ⟨slot', v', hk', hc', hid, hfades⟩
    · obtain ⟨v'', rfl, hid', -⟩ :=
        version_of_code hs hk (Slot.committed_mem hc) (Slot.written_mem hw)
      exact ⟨slot', v'', hk', hc', hid'.trans hid, hfades.trans (hcoded.fades hk hc hw)⟩
  | retires _ => exact ⟨slot, v', hk, hc, hid, hfades⟩
  | @changes f hf =>
    have hmapped : (c.tables.slots.map f)[k]? = some (f slot) :=
      List.getElem?_map.trans (congrArg (Option.map f) hk)
    refine ⟨f slot, v', hmapped, ?_, hid, hfades⟩
    rcases hf slot (List.mem_of_getElem? hk) with he | ⟨u, status, hu, -⟩
    · rw [he]
      exact hc
    · cases hc.symm.trans hu

end Step

/-! ## The codes, as long as replacements keep apart -/

/-- A replacement has taken an outstanding code out of use, and holds it. -/
def Superseding (i : Nat) (slot : Slot Row) : Prop :=
  ∃ v, slot.written = some (i, .verification v) ∧ v.status ≠ .PENDING

/-- What the rows keep, and what a replacement under way has done to those it is to supersede. -/
structure Succession (c : Traffic Row (Call × Nat)) : Prop where
  coded : Coded c
  superseded : ∀ {k k' : Nat} {slot slot' : Slot Row}, c.tables.slots[k]? = some slot →
    c.tables.slots[k']? = some slot' → ∀ {v v' : Verification},
      slot.committed = some (.verification v) → slot'.committed = some (.verification v') →
      v.authUserId = v'.authUserId → v.type = v'.type → v.id < v'.id → v.status ≠ .PENDING
  apart : ∀ {i j : Nat} {u u' : Transacting}, c.under i = some u → c.under j = some u' →
    ∀ {of : Nat × VerificationType}, Replacing u of → Replacing u' of → i = j
  /-- From its snapshot on. -/
  clearing : ∀ {i : Nat} {u : Transacting}, c.under i = some u → Unended u.made →
    ∀ {of : Nat × VerificationType}, u.task.1.replaces = some of →
    ∀ {indices : List Nat} {newer older : Accesses Row},
      u.made = newer ++ ⟨.targets (Row.isVerification (isPending of.1 of.2)), indices⟩ :: older →
    ∀ {k : Nat} {slot : Slot Row}, c.tables.slots[k]? = some slot → ∀ {v : Verification},
      slot.committed = some (.verification v) → isPending of.1 of.2 v = true →
      Due (Row.isVerification (isPending of.1 of.2)) indices newer k ∨ Superseding i slot
  /-- From its insert on. -/
  cleared : ∀ {i : Nat} {u : Transacting}, c.under i = some u → Unended u.made →
    ∀ {of : Nat × VerificationType}, u.task.1.replaces = some of → ∀ {b : Verification},
      Inserted u.made (.verification b) →
    ∀ {k : Nat} {slot : Slot Row}, c.tables.slots[k]? = some slot → ∀ {v : Verification},
      slot.committed = some (.verification v) → v.authUserId = of.1 → v.type = of.2 →
      v.id < b.id ∧ (v.status = .PENDING → Superseding i slot)

theorem isPending_iff {authUserId : Nat} {type : VerificationType} {v : Verification} :
    isPending authUserId type v = true ↔
      v.authUserId = authUserId ∧ v.type = type ∧ v.status = .PENDING := by
  simp [isPending]

section Access

variable {c : Traffic Row (Call × Nat)} {i t k : Nat} {u u₀ : Transacting} {a : Access Row}
  {reply : a.Reply} {tables : Versions Row} {slot slot' : Slot Row} {v : Verification}
  {of : Nat × VerificationType}

/-- What a replacement has taken out of use stays so, whoever makes an access. -/
theorem superseding_access (hfits : Fits u.task u.made a)
    (hp : c.tables.Performed t a reply tables) (hends : a.ends = true → i ≠ t)
    (hslot : c.tables.slots[k]? = some slot) (hk : tables.slots[k]? = some slot')
    (h : Superseding i slot) : Superseding i slot' := by
  obtain ⟨v', hw, hstatus⟩ := h
  obtain ⟨slot₁, hk₁, hbecame⟩ := hp.goes hslot
  obtain rfl := Option.some.inj (hk.symm.trans hk₁)
  rcases hbecame.still_written hw hends with hw' | ⟨whose, change, rfl, rfl, hmeant, rfl⟩
  · exact ⟨v', hw', hstatus⟩
  · have hchanges : Changes u.task.1 u.task.2 u.made (.verification v')
        (change (.verification v')) := hfits.1 _ hmeant
    obtain ⟨v'', he, hfades⟩ := hchanges.verification
    exact ⟨v'', by rw [he], (hfades hstatus).1⟩

/-- A replacement that reaches an outstanding code takes it out of use. -/
theorem superseding_visit {change : Row → Row}
    {reply : (Access.visit k (Row.isVerification (isPending of.1 of.2)) change).Reply}
    (hs : Traffic.Sound (discipline MeetsNoOther) c) (hreplaces : u.task.1.replaces = some of)
    (hfits : Fits u.task u.made (.visit k (Row.isVerification (isPending of.1 of.2)) change))
    (hp : c.tables.Performed i (.visit k (Row.isVerification (isPending of.1 of.2)) change) reply
      tables)
    (hslot : c.tables.slots[k]? = some slot) (hk : tables.slots[k]? = some slot')
    (hc : slot.committed = some (.verification v)) (hpending : isPending of.1 of.2 v = true) :
    Superseding i slot' := by
  cases hp with
  | missed hnone =>
    obtain rfl := Option.some.inj (hslot.symm.trans hk)
    have hfilter := (hnone slot hslot).2
    by_cases hown : ∃ row, slot.written = some (i, row)
    · obtain ⟨row, hw⟩ := hown
      obtain ⟨v', rfl, -, haccount, htype⟩ :=
        version_of_code hs hslot (Slot.committed_mem hc) (Slot.written_mem hw)
      refine ⟨v', hw, fun hstatus => ?_⟩
      obtain ⟨hacc, hty, -⟩ := isPending_iff.mp hpending
      have hmeant : isPending of.1 of.2 v' = true :=
        isPending_iff.mpr ⟨haccount.trans hacc, htype.trans hty, hstatus⟩
      rw [Slot.seenBy_of_written hw] at hfilter
      simp [Row.isVerification, hmeant] at hfilter
    · rw [Slot.seenBy_of_not_written fun row hw => hown ⟨row, hw⟩, hc] at hfilter
      simp [Row.isVerification, hpending] at hfilter
  | @wrote index whose change slot₁ old hslot₁ hfree hseen hmeant =>
    obtain rfl := Option.some.inj (hslot.symm.trans hslot₁)
    obtain ⟨v', rfl, -⟩ := version_of_code hs hslot (Slot.committed_mem hc) (Slot.seenBy_mem hseen)
    obtain ⟨v'', he, hstatus⟩ := Changes.superseding (hfits.1 _ hmeant) hreplaces
    rw [Foundations.getElem?_write, if_pos rfl, hslot] at hk
    cases hk
    exact ⟨v'', by rw [he], hstatus⟩

/-- An account under way is not there yet. -/
theorem fresh_account (hs : Traffic.Sound (discipline MeetsNoOther) c) (hu : c.under i = some u)
    (hunended : Unended u.made) {user : AuthUser} (hinserted : Inserted u.made (.user user)) :
    RowKey.user user.id ∉ c.tables.rows.map Row.key := by
  intro hmem
  obtain ⟨f, hm⟩ := hinserted
  obtain ⟨k₁, slot₁, r, hk₁, hw₁, hc₁, hkey⟩ := hs.inserted hu hunended hm
  obtain ⟨k₂, slot₂, r₂, hk₂, hc₂, hkey₂⟩ :=
    (Traffic.mem_keys (d := discipline MeetsNoOther)).mp hmem
  have hsame : (discipline MeetsNoOther).key r = (discipline MeetsNoOther).key r₂ :=
    hkey.trans hkey₂.symm
  obtain rfl : k₁ = k₂ :=
    hs.distinct hk₁ hk₂ (Slot.written_mem hw₁) (Slot.committed_mem hc₂) (congrArg RowKey.id hsame)
  obtain rfl := Option.some.inj (hk₁.symm.trans hk₂)
  exact nomatch hc₁.symm.trans hc₂

/-- While a replacement is under way, no other transaction adds a code of its account and type. -/
theorem no_intruder (h : Succession c) (hs : Traffic.Sound (discipline MeetsNoOther) c)
    (hi : c.under i = some u₀) (hof : Replacing u₀ of) (ht : i ≠ t)
    (hslot : c.tables.slots[k]? = some slot) (hnone : slot.committed = none)
    (hw : slot.written = some (t, .verification v)) (haccount : v.authUserId = of.1)
    (htype : v.type = of.2) : False := by
  obtain ⟨u', hu', ⟨v₀, ⟨f, hm⟩, -⟩, hwhy⟩ := h.coded.issued hslot hnone hw
  obtain ⟨u'', hu'', hopen, -⟩ := hs.held hslot hw
  obtain rfl := Option.some.inj (hu'.symm.trans hu'')
  rcases hwhy with hreplaces | ⟨-, user, ⟨f', hm'⟩, hid⟩
  · rw [haccount, htype] at hreplaces
    have hmade : u'.made.isEmpty = false :=
      List.isEmpty_eq_false_iff_exists_mem.mpr ⟨_, hm⟩
    exact ht (h.apart hi hu' hof ⟨hreplaces, hmade, hopen⟩)
  · -- its account would be another's, and not there yet
    have hthere := hs.needed hi _ (needs_of_replaces hof.1)
    rw [← haccount, ← hid] at hthere
    exact fresh_account hs hu' hopen ⟨f', hm'⟩ hthere

/-- So a code of its account and type is one that was there. -/
theorem code_there (h : Succession c) (hs : Traffic.Sound (discipline MeetsNoOther) c)
    (hi : c.under i = some u₀) (hof : Replacing u₀ of) (hp : c.tables.Performed t a reply tables)
    (hends : a.ends = true → i ≠ t) (hk : tables.slots[k]? = some slot')
    (hc : slot'.committed = some (.verification v)) (haccount : v.authUserId = of.1)
    (htype : v.type = of.2) :
    ∃ slot v₀, c.tables.slots[k]? = some slot ∧ slot.committed = some (.verification v₀) ∧
      v₀.id = v.id ∧ v₀.authUserId = of.1 ∧ v₀.type = of.2 ∧ Fades v₀ v ∧
      (v₀ = v ∨ a = .commit) := by
  obtain ⟨slot, hslot, hc₀ | ⟨ha, hw, -, hnone | ⟨v₀, hc₀, hid, hacc, hty, hfades⟩⟩⟩ :=
    code_before h.coded hs hp hk hc
  · exact ⟨slot, v, hslot, hc₀, rfl, haccount, htype, Fades.refl v, .inl rfl⟩
  · exact (no_intruder h hs hi hof (hends (ha ▸ rfl)) hslot hnone hw haccount htype).elim
  · exact ⟨slot, v₀, hslot, hc₀, hid, hacc.trans haccount, hty.trans htype, hfades, .inr ha⟩

/-- A replacement begins only while no other of its account's codes of the type is under way. -/
theorem apart_access (h : Succession c) (hu : c.under t = some u)
    (hallowed : (discipline MeetsNoOther).allows c t u a) {i j : Nat} {u₁ u₂ : Transacting}
    (hi : moveGhost c.under t (some (Traffic.push u a reply)) i = some u₁)
    (hj : moveGhost c.under t (some (Traffic.push u a reply)) j = some u₂)
    (h₁ : Replacing u₁ of) (h₂ : Replacing u₂ of) : i = j := by
  have halone : ∀ {k : Nat} {u' : Transacting}, k ≠ t → c.under k = some u' → Replacing u' of →
      ¬ Replacing (Traffic.push u a reply) of := by
    intro k u' hk hu' hof hpushed
    obtain ⟨-, hunended⟩ := Traffic.push_unended hpushed.2.2
    cases hmade : u.made with
    | nil => exact hallowed.2 hmade of hpushed.1 k u' hk hu' hof
    | cons m made =>
      have hreplacing : Replacing u of := ⟨hpushed.1, by rw [hmade]; rfl, hunended⟩
      exact hk (h.apart hu' hu hof hreplacing)
  by_cases hit : i = t
  · by_cases hjt : j = t
    · exact hit.trans hjt.symm
    · subst hit
      obtain rfl := Option.some.inj ((moveGhost_self _ _ _).symm.trans hi)
      exact absurd h₁ (halone hjt ((moveGhost_of_ne hjt).symm.trans hj) h₂)
  · by_cases hjt : j = t
    · subst hjt
      obtain rfl := Option.some.inj ((moveGhost_self _ _ _).symm.trans hj)
      exact absurd h₂ (halone hit ((moveGhost_of_ne hit).symm.trans hi) h₁)
    · exact h.apart ((moveGhost_of_ne hit).symm.trans hi) ((moveGhost_of_ne hjt).symm.trans hj) h₁ h₂

/-- What an access leaves of the codes a replacement has still to take out of use. -/
theorem clearing_access (h : Succession c) (hs : Traffic.Sound (discipline MeetsNoOther) c)
    (hu : c.under t = some u) (hallowed : (discipline MeetsNoOther).allows c t u a)
    (hp : c.tables.Performed t a reply tables) (hi : c.under i = some u₀) (hopen : Unended u₀.made)
    (hreplaces : u₀.task.1.replaces = some of) {indices : List Nat} {newer older : Accesses Row}
    (hmade : u₀.made = newer ++ ⟨.targets (Row.isVerification (isPending of.1 of.2)), indices⟩ :: older)
    (hends : a.ends = true → i ≠ t) (hk : tables.slots[k]? = some slot')
    (hc : slot'.committed = some (.verification v)) (hpending : isPending of.1 of.2 v = true) :
    (Due (Row.isVerification (isPending of.1 of.2)) indices newer k ∧
        ¬ (i = t ∧ ∃ change, a = .visit k (Row.isVerification (isPending of.1 of.2)) change)) ∨
      Superseding i slot' := by
  obtain ⟨haccount, htype, hstatus⟩ := isPending_iff.mp hpending
  have hof : Replacing u₀ of := ⟨hreplaces, by rw [hmade]; simp, hopen⟩
  obtain ⟨slot, v₀, hslot, hc₀, -, hacc, hty, hfades, hsame⟩ :=
    code_there h hs hi hof hp hends hk hc haccount htype
  have hpending₀ : isPending of.1 of.2 v₀ = true :=
    isPending_iff.mpr ⟨hacc, hty, hfades.pending hstatus⟩
  rcases h.clearing hi hopen hreplaces hmade hslot hc₀ hpending₀ with hdue | hsuperseding
  · by_cases hvisit : i = t ∧ ∃ change, a = .visit k (Row.isVerification (isPending of.1 of.2)) change
    · obtain ⟨rfl, change, rfl⟩ := hvisit
      obtain rfl := Option.some.inj (hi.symm.trans hu)
      exact .inr (superseding_visit hs hreplaces hallowed.1 hp hslot hk hc₀ hpending₀)
    · exact .inl ⟨hdue, hvisit⟩
  · exact .inr (superseding_access hallowed.1 hp hends hslot hk hsuperseding)

/-- What is outstanding as a replacement takes its snapshot is in it. -/
theorem clearing_start (hs : Traffic.Sound (discipline MeetsNoOther) c) {indices : List Nat}
    (hperm : indices.Perm (c.tables.matching i (Row.isVerification (isPending of.1 of.2))))
    (hk : c.tables.slots[k]? = some slot) (hc : slot.committed = some (.verification v))
    (hpending : isPending of.1 of.2 v = true) :
    Due (Row.isVerification (isPending of.1 of.2)) indices [] k ∨ Superseding i slot := by
  have hin : ∀ {v' : Verification}, slot.seenBy i = some (.verification v') →
      isPending of.1 of.2 v' = true →
      Due (Row.isVerification (isPending of.1 of.2)) indices [] k := fun hseen hv' =>
    Foundations.due_nil (hperm.mem_iff.mpr (Versions.mem_matching hk hseen hv'))
  by_cases hown : ∃ row, slot.written = some (i, row)
  · obtain ⟨row, hw⟩ := hown
    obtain ⟨v', rfl, -, haccount, htype⟩ :=
      version_of_code hs hk (Slot.committed_mem hc) (Slot.written_mem hw)
    obtain ⟨hacc, hty, -⟩ := isPending_iff.mp hpending
    by_cases hstatus : v'.status = .PENDING
    · exact .inl (hin (Slot.seenBy_of_written hw)
        (isPending_iff.mpr ⟨haccount.trans hacc, htype.trans hty, hstatus⟩))
    · exact .inr ⟨v', hw, hstatus⟩
  · refine .inl (hin ?_ hpending)
    rw [Slot.seenBy_of_not_written fun row hw => hown ⟨row, hw⟩, hc]

/-- Once a replacement has inserted its code, the others of the account and type are older, and taken
out of use. -/
theorem cleared_access (h : Succession c) (hs : Traffic.Sound (discipline MeetsNoOther) c)
    (hallowed : (discipline MeetsNoOther).allows c t u a) (hp : c.tables.Performed t a reply tables)
    (hi : c.under i = some u₀) (hopen : Unended u₀.made) (hreplaces : u₀.task.1.replaces = some of)
    {b : Verification} (hinserted : Inserted u₀.made (.verification b))
    (hends : a.ends = true → i ≠ t) (hk : tables.slots[k]? = some slot')
    (hc : slot'.committed = some (.verification v)) (haccount : v.authUserId = of.1)
    (htype : v.type = of.2) :
    v.id < b.id ∧ (v.status = .PENDING → Superseding i slot') := by
  have hof : Replacing u₀ of := by
    obtain ⟨f, hm⟩ := hinserted
    exact ⟨hreplaces, List.isEmpty_eq_false_iff_exists_mem.mpr ⟨_, hm⟩, hopen⟩
  obtain ⟨slot, v₀, hslot, hc₀, hid, hacc, hty, hfades, -⟩ :=
    code_there h hs hi hof hp hends hk hc haccount htype
  obtain ⟨hlt, hcleared⟩ := h.cleared hi hopen hreplaces hinserted hslot hc₀ hacc hty
  refine ⟨hid ▸ hlt, fun hstatus => ?_⟩
  exact superseding_access hallowed.1 hp hends hslot hk (hcleared (hfades.pending hstatus))

/-- The insert of a replacement. -/
theorem cleared_start (h : Succession c) (hs : Traffic.Sound (discipline MeetsNoOther) c)
    (hu : c.under i = some u) (hunended : Unended u.made) (hreplaces : u.task.1.replaces = some of)
    {f : Nat → Row} {b : Verification} (hfits : Fits u.task u.made (.insert f))
    (hb : f c.tables.nextKey = .verification b) (hk : c.tables.slots[k]? = some slot)
    (hc : slot.committed = some (.verification v)) (haccount : v.authUserId = of.1)
    (htype : v.type = of.2) :
    v.id < b.id ∧ (v.status = .PENDING → Superseding i slot) := by
  constructor
  · have hlt : v.id < c.tables.nextKey := hs.numbered hk (Slot.committed_mem hc)
    have hid : (f c.tables.nextKey).id = c.tables.nextKey := Inserts.id hfits _
    rw [hb] at hid
    exact Nat.lt_of_lt_of_eq hlt hid.symm
  · intro hstatus
    rcases (Inserts.verification hfits hb).2 with ⟨hof, change, indices, seen, hmade, hall⟩ |
      ⟨hnone, -⟩
    · obtain rfl := Option.some.inj (hreplaces.symm.trans hof)
      exact (h.clearing hu hunended hof hmade hk hc
        (isPending_iff.mpr ⟨haccount, htype, hstatus⟩)).resolve_left
          (Foundations.not_due_visits [] hall)
    · exact nomatch hnone.symm.trans hreplaces

/-- A code about to be committed is younger than the others of its account and type, and what is
outstanding of them is taken out of use. -/
theorem new_beside (h : Succession c) (hs : Traffic.Sound (discipline MeetsNoOther) c)
    (hu : c.under t = some u) (hunended : Unended u.made) {k' : Nat} {v' : Verification}
    (hslot : c.tables.slots[k]? = some slot) (hnone : slot.committed = none)
    (hw : slot.written = some (t, .verification v)) (hslot' : c.tables.slots[k']? = some slot')
    (hc : slot'.committed = some (.verification v')) (haccount : v'.authUserId = v.authUserId)
    (htype : v'.type = v.type) : v'.id < v.id ∧ (v'.status = .PENDING → Superseding t slot') := by
  obtain ⟨u', hu', ⟨b, hinserted, hkey⟩, hreplaces | ⟨-, user, huser, hid⟩⟩ :=
    h.coded.issued hslot hnone hw
  · obtain rfl := Option.some.inj (hu.symm.trans hu')
    obtain ⟨hid, -⟩ := verification_of_key hkey
    rw [← hid]
    exact h.cleared hu hunended hreplaces hinserted hslot' hc haccount htype
  · obtain rfl := Option.some.inj (hu.symm.trans hu')
    have hthere := h.coded.owned hslot' hc
    rw [haccount, ← hid] at hthere
    exact absurd hthere (fresh_account hs hu hunended huser)

theorem superseded_access (h : Succession c) (hs : Traffic.Sound (discipline MeetsNoOther) c)
    (hu : c.under t = some u) (hunended : Unended u.made)
    (hp : c.tables.Performed t a reply tables) {k' : Nat} {slot'' : Slot Row} {v' : Verification}
    (hk : tables.slots[k]? = some slot') (hk' : tables.slots[k']? = some slot'')
    (hc : slot'.committed = some (.verification v)) (hc' : slot''.committed = some (.verification v'))
    (haccount : v.authUserId = v'.authUserId) (htype : v.type = v'.type) (hlt : v.id < v'.id) :
    v.status ≠ .PENDING := by
  intro hstatus
  have hthere : ∀ {k : Nat} {slot' : Slot Row} {v : Verification}, tables.slots[k]? = some slot' →
      slot'.committed = some (.verification v) → ∃ slot, c.tables.slots[k]? = some slot ∧
        ((∃ v₀, slot.committed = some (.verification v₀) ∧ v₀.id = v.id ∧
            v₀.authUserId = v.authUserId ∧ v₀.type = v.type ∧ Fades v₀ v) ∨
          a = .commit ∧ slot.committed = none ∧ slot.written = some (t, .verification v)) := by
    intro k slot' v hk hc
    obtain ⟨slot, hslot, hc₀ | ⟨ha, hw, -, hnone | ⟨v₀, hc₀, hid, hacc, hty, hfades⟩⟩⟩ :=
      code_before h.coded hs hp hk hc
    · exact ⟨slot, hslot, .inl ⟨v, hc₀, rfl, rfl, rfl, Fades.refl v⟩⟩
    · exact ⟨slot, hslot, .inr ⟨ha, hnone, hw⟩⟩
    · exact ⟨slot, hslot, .inl ⟨v₀, hc₀, hid, hacc, hty, hfades⟩⟩
  obtain ⟨slot, hslot, ⟨v₀, hc₀, hid, hacc, hty, hfades⟩ | ⟨-, hnone, hw⟩⟩ := hthere hk hc
  · obtain ⟨slot₁, hslot₁, ⟨v₁, hc₁, hid₁, hacc₁, hty₁, -⟩ | ⟨rfl, hnone₁, hw₁⟩⟩ := hthere hk' hc'
    · refine h.superseded hslot hslot₁ hc₀ hc₁ ?_ ?_ ?_ (hfades.pending hstatus)
      · rw [hacc, haccount, hacc₁]
      · rw [hty, htype, hty₁]
      · rw [hid, hid₁]
        exact hlt
    · -- the newer code is committed now, with the older one taken out of use
      obtain ⟨-, hsuperseding⟩ := new_beside h hs hu hunended hslot₁ hnone₁ hw₁ hslot hc₀
        (hacc.trans haccount) (hty.trans htype)
      obtain ⟨w, hw, hout⟩ := hsuperseding (hfades.pending hstatus)
      obtain ⟨slot₂, hk₂, hbecame⟩ := hp.goes hslot
      obtain rfl := Option.some.inj (hk.symm.trans hk₂)
      cases hbecame with
      | kept ha => cases ha
      | committed =>
        unfold Slot.commit at hc
        rw [hw] at hc
        simp only [if_true] at hc
        cases hc
        exact hout hstatus
  · obtain ⟨slot₁, hslot₁, ⟨v₁, hc₁, hid₁, hacc₁, hty₁, -⟩ | ⟨-, hnone₁, hw₁⟩⟩ := hthere hk' hc'
    · obtain ⟨hlt', -⟩ := new_beside h hs hu hunended hslot hnone hw hslot₁ hc₁
        (hacc₁.trans haccount.symm) (hty₁.trans htype.symm)
      omega
    · obtain rfl := h.coded.single hslot hslot₁ hnone hnone₁ hw hw₁
      obtain rfl := Option.some.inj (hk.symm.trans hk')
      cases hc.symm.trans hc'
      exact Nat.lt_irrefl _ hlt

end Access

section Step

variable {c c' : Traffic Row (Call × Nat)} {i : Nat}

/-- With transactions that have not begun to access the tables, or without some. -/
theorem Succession.under (h : Succession c) {under : Nat → Option Transacting}
    (hcoded : Coded { c with under })
    (hunder : ∀ {i : Nat} {u : Transacting}, under i = some u → c.under i = some u ∨ u.made = []) :
    Succession { c with under } where
  coded := hcoded
  superseded := h.superseded
  apart hi hj of h₁ h₂ := by
    rcases hunder hi with hi | hnil
    · rcases hunder hj with hj | hnil
      · exact h.apart hi hj h₁ h₂
      · have hmade := h₂.2.1
        rw [hnil] at hmade
        cases hmade
    · have hmade := h₁.2.1
      rw [hnil] at hmade
      cases hmade
  clearing hi hopen of hreplaces indices newer older hmade := by
    rcases hunder hi with hi | hnil
    · exact h.clearing hi hopen hreplaces hmade
    · rw [hnil] at hmade
      exact absurd hmade.symm (by simp)
  cleared hi hopen of hreplaces b hinserted := by
    rcases hunder hi with hi | hnil
    · exact h.cleared hi hopen hreplaces hinserted
    · obtain ⟨f, hm⟩ := hinserted
      rw [hnil] at hm
      cases hm

theorem Succession.change (h : Succession c) (hs : Traffic.Sound (discipline MeetsNoOther) c)
    {f : Slot Row → Slot Row} (hf : ∀ slot ∈ c.tables.slots, StatusChanges slot (f slot)) :
    Succession { c with tables := { c.tables with slots := c.tables.slots.map f } } where
  coded := h.coded.change hs hf
  superseded hk hk' _ _ hc hc' :=
    h.superseded (code_unchanged hs hf hk (Slot.committed_mem hc))
      (code_unchanged hs hf hk' (Slot.committed_mem hc')) hc hc'
  apart := h.apart
  clearing hi hopen _ hreplaces _ _ _ hmade _ _ hk _ hc :=
    h.clearing hi hopen hreplaces hmade (code_unchanged hs hf hk (Slot.committed_mem hc)) hc
  cleared hi hopen _ hreplaces _ hinserted _ _ hk _ hc :=
    h.cleared hi hopen hreplaces hinserted (code_unchanged hs hf hk (Slot.committed_mem hc)) hc

theorem Succession.access {u : Transacting} {a : Access Row} {reply : a.Reply} {tables : Versions Row}
    (h : Succession c) (hs : Traffic.Sound (discipline MeetsNoOther) c) (hu : c.under i = some u)
    (hunended : Unended u.made) (hallowed : (discipline MeetsNoOther).allows c i u a)
    (hp : c.tables.Performed i a reply tables) (done : List Transacting)
    (hcoded : Coded
      { tables, under := moveGhost c.under i (some (Traffic.push u a reply)), done }) :
    Succession { tables, under := moveGhost c.under i (some (Traffic.push u a reply)), done } where
  coded := hcoded
  superseded hk hk' _ _ hc hc' haccount htype hlt :=
    superseded_access h hs hu hunended hp hk hk' hc hc' haccount htype hlt
  apart hi hj _ h₁ h₂ := apart_access h hu hallowed hi hj h₁ h₂
  clearing {j u'} hu' hopen of hreplaces indices newer older hmade k slot' hk v hc hpending := by
    by_cases hj : j = i
    · subst hj
      obtain rfl := Option.some.inj ((moveGhost_self _ _ _).symm.trans hu')
      obtain ⟨ha, -⟩ := Traffic.push_unended hopen
      cases newer with
      | nil =>
        obtain ⟨he, -⟩ := List.cons.inj hmade
        obtain ⟨rfl, hreply⟩ := Sigma.mk.inj he
        cases hreply
        cases hp with
        | aimed hperm => exact clearing_start hs hperm hk hc hpending
      | cons m newer =>
        obtain ⟨rfl, hrest⟩ : (⟨a, reply⟩ : (a : Access Row) × a.Reply) = m ∧ u.made = newer ++
          ⟨.targets (Row.isVerification (isPending of.1 of.2)), indices⟩ :: older :=
            List.cons.inj hmade
        rcases clearing_access h hs hu hallowed hp hu hunended hreplaces hrest
          (fun he => Bool.noConfusion (ha.symm.trans he)) hk hc hpending with ⟨hdue, hnot⟩ | hout
        · exact .inl ((Foundations.due_cons hdue).resolve_right fun hvisit => hnot ⟨rfl, hvisit⟩)
        · exact .inr hout
    · have hu₀ : c.under j = some u' := (moveGhost_of_ne hj).symm.trans hu'
      exact (clearing_access h hs hu hallowed hp hu₀ hopen hreplaces hmade (fun _ => hj) hk hc
        hpending).imp_left And.left
  cleared {j u'} hu' hopen of hreplaces b hinserted k slot' hk v hc haccount htype := by
    by_cases hj : j = i
    · subst hj
      obtain rfl := Option.some.inj ((moveGhost_self _ _ _).symm.trans hu')
      obtain ⟨ha, -⟩ := Traffic.push_unended hopen
      have hends : a.ends = true → j ≠ j := fun he => Bool.noConfusion (ha.symm.trans he)
      obtain ⟨f, hm⟩ := hinserted
      rcases List.mem_cons.mp hm with he | hm
      · obtain ⟨rfl, hreply⟩ := Sigma.mk.inj he
        cases hreply
        obtain ⟨slot, hslot, hc₀ | ⟨ha, -⟩⟩ := hp.committed_after hk hc
        · have hb : f c.tables.nextKey = .verification b := by
            generalize hnew : (Except.ok (Row.verification b) : (Access.insert f).Reply) = r at hp
            cases hp with
            | refused _ e => cases hnew
            | inserted _ => exact (Except.ok.inj hnew).symm
          obtain ⟨hlt, hout⟩ := cleared_start h hs hu hunended hreplaces hallowed.1 hb hslot hc₀
            haccount htype
          exact ⟨hlt, fun hstatus =>
            superseding_access hallowed.1 hp hends hslot hk (hout hstatus)⟩
        · cases ha
      · exact cleared_access h hs hallowed hp hu hunended hreplaces ⟨f, hm⟩ hends hk hc haccount htype
    · have hu₀ : c.under j = some u' := (moveGhost_of_ne hj).symm.trans hu'
      exact cleared_access h hs hallowed hp hu₀ hopen hreplaces hinserted (fun _ => hj) hk hc haccount
        htype

theorem Succession.step (h : Succession c) (hs : Traffic.Sound (discipline MeetsNoOther) c)
    (hstep : Traffic.Step (discipline MeetsNoOther) c c') : Succession c' := by
  have hcoded := h.coded.step hs hstep
  cases hstep with
  | @begins i task hidle _ =>
    refine h.under hcoded fun {j u} hu => ?_
    by_cases hj : j = i
    · subst hj
      obtain rfl := Option.some.inj ((moveGhost_self _ _ _).symm.trans hu)
      exact .inr rfl
    · exact .inl ((moveGhost_of_ne hj).symm.trans hu)
  | accesses hu hunended hallowed hp => exact h.access hs hu hunended hallowed hp _ hcoded
  | @retires i hover =>
    refine h.under hcoded fun {j u} hu => ?_
    by_cases hj : j = i
    · subst hj
      exact nomatch (moveGhost_self _ _ _).symm.trans hu
    · exact .inl ((moveGhost_of_ne hj).symm.trans hu)
  | changes hf => exact h.change hs hf

end Step

/-! ## Along every run -/

section Runs

variable {env : Env} {w : SharedWorld} {s s' : Interleaved} {ls ls' : List Interleaved.Label}

theorem coded_start (hrest : AtRest w.tables) (h : Accounted w.tables.rows) :
    Coded (Interleaved.traffic (Pool.start w)) where
  fades hk _ _ _ _ hw := nomatch (hrest.quiet _ (List.mem_of_getElem? hk)).symm.trans hw
  owned {k slot} hk v hc := by
    obtain ⟨u, hu, hid⟩ := h v (mem_rows_iff.mpr ⟨k, slot, hk, hc⟩)
    exact List.mem_map.mpr ⟨_, hu, congrArg RowKey.user hid⟩
  issued hk _ _ _ hw := nomatch (hrest.quiet _ (List.mem_of_getElem? hk)).symm.trans hw
  single hk _ _ _ _ _ _ hw _ := nomatch (hrest.quiet _ (List.mem_of_getElem? hk)).symm.trans hw

/-- However the transactions of the requests interleave, a code that is not outstanding never is
again, and it is never redeemed unless it was. -/
theorem codes_fade (hrest : AtRest w.tables) (h : Accounted w.tables.rows)
    (hrun : runs (Interleaved.step env) (Pool.start w) ls = some s)
    (hrun' : runs (Interleaved.step env) s ls' = some s') {v : Verification}
    (hv : .verification v ∈ s.world.tables.rows) :
    ∃ v', .verification v' ∈ s'.world.tables.rows ∧ v'.id = v.id ∧ Fades v v' := by
  obtain ⟨horderly, hcoded⟩ : Harmonious env (fun _ _ _ _ => True) s ∧ Coded s.traffic :=
    every_kept (fun _ _ hs hc hstep => hc.step hs hstep) ⟨orderly_start hrest, coded_start hrest h⟩
      hrun
  obtain ⟨k, slot, hk, hc⟩ := mem_rows_iff.mp hv
  have hfaded : Faded k v s.traffic := ⟨hcoded, slot, v, hk, hc, rfl, Fades.refl v⟩
  obtain ⟨-, -, slot', v', hk', hc', hid, hfades⟩ :=
    every_kept (fun _ _ hs hf hstep => faded_step hs hf hstep) ⟨horderly, hfaded⟩ hrun'
  exact ⟨v', mem_rows_iff.mpr ⟨k, slot', hk', hc'⟩, hid, hfades⟩

theorem adaUnverified_atRest : AtRest adaUnverified.tables where
  quiet := by decide
  distinct := by decide
  numbered := by decide

theorem mailedCode_of_mem {v : Verification} (hv : .verification v ∈ adaUnverified.tables.rows) :
    v = mailedCode := by
  simpa [adaUnverified, Versions.rows] using hv

theorem adaUnverified_accounted : Accounted adaUnverified.tables.rows := by
  intro v hv
  obtain rfl := mailedCode_of_mem hv
  exact ⟨{ ada with verified := false }, by decide, rfl⟩

/-- The code that was mailed first, once another has been issued. -/
theorem codes_fade_revoked : ∃ s v,
    runs (Interleaved.step sampleEnv) (Pool.start adaUnverified) (askedForBoth ++ piecewise 1 3) =
      some s ∧
    .verification v ∈ s.world.tables.rows ∧ v.id = 1 ∧ v.status ≠ .PENDING ∧ v.status ≠ .VERIFIED := by
  have hsome : ((runs (Interleaved.step sampleEnv) (Pool.start adaUnverified) askedForBoth).any
      fun s => (runs (Interleaved.step sampleEnv) s (piecewise 1 3)).isSome &&
        decide (.verification { mailedCode with status := .REVOKED } ∈ s.world.tables.rows)) = true := by
    decide +kernel
  obtain ⟨s, hs, hrest⟩ := (Option.any_eq_true _ _).mp hsome
  obtain ⟨hrun', hmem⟩ := (Bool.and_eq_true _ _).mp hrest
  obtain ⟨s', hs'⟩ := Option.isSome_iff_exists.mp hrun'
  obtain ⟨v, hv, hid, hfades⟩ := codes_fade adaUnverified_atRest adaUnverified_accounted hs hs'
    (of_decide_eq_true hmem)
  obtain ⟨hstatus, hverified⟩ := hfades fun h => nomatch h
  refine ⟨s', v, ?_, hv, hid, hstatus, fun h => nomatch hverified h⟩
  rw [Foundations.runs_append, hs]
  exact hs'

theorem mem_trace_of_underway {trace : List Interleaved.Event} {i : Nat} {u : Transacting}
    (h : underway trace i = some u) : ∃ e ∈ trace, e.thread = i := by
  induction trace with
  | nil => cases h
  | cons e trace ih =>
    by_cases he : e.thread = i
    · exact ⟨e, List.mem_cons_self, he⟩
    · unfold underway at h
      rw [if_neg he] at h
      obtain ⟨e', he', hi⟩ := ih h
      exact ⟨e', List.mem_cons_of_mem _ he', hi⟩

theorem meetsNoOther_of_apart {i : Nat} {fate : PieceFate} {a : Access Row} {u : Transacting}
    (h : replacementsApart s (.call i fate)) (ha : s.nextCommand i = some (.access a))
    (hu : underway s.trace i = some u) : MeetsNoOther s.traffic i u a := by
  intro hmade of hof j u' hj hu'
  have halone : ReplacesAlone s i (.access a) := h _ ha
  obtain ⟨e, he, rfl⟩ := mem_trace_of_underway hu'
  exact halone u hu (by rw [hmade]; rfl) of hof e he hj u' hu'

/-- As long as the replacements of an account's codes of one type keep apart, only the newest of its
codes of the type can be outstanding, however the transactions interleave. -/
theorem superseded_always (hrest : AtRest w.tables) (haccounted : Accounted w.tables.rows)
    (h : Superseded w.tables.rows)
    (hall : AllSteps (Interleaved.step env) replacementsApart (Pool.start w) ls)
    (hrun : runs (Interleaved.step env) (Pool.start w) ls = some s) :
    Superseded s.world.tables.rows := by
  have hstart : Succession (Interleaved.traffic (Pool.start w)) :=
    { coded := coded_start hrest haccounted
      superseded := fun hk hk' v v' hc hc' =>
        h v v' (mem_rows_iff.mpr ⟨_, _, hk, hc⟩) (mem_rows_iff.mpr ⟨_, _, hk', hc'⟩)
      apart := fun hi => nomatch hi
      clearing := fun hi => nomatch hi
      cleared := fun hi => nomatch hi }
  have horderly : Harmonious env MeetsNoOther (Pool.start w) := orderly_start hrest
  obtain ⟨-, husable⟩ := traffic_kept (P := Succession)
    (fun _ _ _ _ _ _ hcond ha hu => meetsNoOther_of_apart hcond ha hu)
    (fun _ _ hs hP hstep => hP.step hs hstep) ⟨horderly, hstart⟩ hall hrun
  intro v v' hv hv' haccount htype hlt
  obtain ⟨k, slot, hk, hc⟩ := mem_rows_iff.mp hv
  obtain ⟨k', slot', hk', hc'⟩ := mem_rows_iff.mp hv'
  exact husable.superseded hk hk' hc hc' haccount htype hlt

/-- Replacements of two kinds of code in each other's midst. -/
theorem superseded_always_both : ∃ s,
    runs (Interleaved.step sampleEnv) (Pool.start adaUnverified) (askedForBoth ++ piecewise 1 3) =
      some s ∧ s.world.settled.db.verifications.length = 3 ∧ Superseded s.world.tables.rows := by
  have hsome : ((runs (Interleaved.step sampleEnv) (Pool.start adaUnverified)
      (askedForBoth ++ piecewise 1 3)).any fun s =>
        decide (s.world.settled.db.verifications.length = 3)) = true := by
    decide +kernel
  have hall : AllSteps (Interleaved.step sampleEnv) replacementsApart (Pool.start adaUnverified)
      (askedForBoth ++ piecewise 1 3) := by
    decide +kernel
  obtain ⟨s, hs, hlength⟩ := (Option.any_eq_true _ _).mp hsome
  refine ⟨s, hs, of_decide_eq_true hlength, superseded_always adaUnverified_atRest
    adaUnverified_accounted (fun v v' hv hv' _ _ hlt => ?_) hall hs⟩
  obtain rfl := mailedCode_of_mem hv
  obtain rfl := mailedCode_of_mem hv'
  exact absurd hlt (Nat.lt_irrefl _)

/-- Where two replacements overlap, both new codes are outstanding. -/
example : ((runs (Interleaved.step sampleEnv) (Pool.start adaUnverified) askedForTwice).any fun s =>
    s.world.settled.db.verifications.map (·.status) = [.REVOKED, .PENDING, .PENDING]) = true := by
  decide +kernel

end Runs

end PracticalMicroservice.Auth
