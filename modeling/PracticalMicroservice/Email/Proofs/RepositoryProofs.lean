import PracticalMicroservice.Email.Fencing

/-!
# Proofs: what a call does to one row

A call changes the row of a message, or removes it, by a function of the row alone; rows it writes
anew have ids of their own.
-/

namespace PracticalMicroservice.Email

open Foundations (DatabaseError KeyedTable)
open PrismaEmailRepository

/-- Ids are handed out once. -/
def Database.Sound (db : Database) : Prop :=
  KeyedTable EmailMessage.id db.nextId db.emailMessages

/-- What a call makes of a row that is there. -/
def Call.onRow : Call → EmailMessage → Option EmailMessage
  | .claimCandidates ids workerId now claimTimeoutMs, m =>
    some (if claimable ids now claimTimeoutMs m then lock workerId now m else m)
  | .markSent id provider providerMessageId now, m =>
    some (if m.id = id then sent provider providerMessageId now m else m)
  | .markForRetry id error nextAttemptAt, m =>
    some (if m.id = id then failed error nextAttemptAt m else m)
  | .markDead id error, m => some (if m.id = id then dead error m else m)
  | .requeue id resetAttempts now, m => some (if m.id = id then revived resetAttempts now m else m)
  | .purgeSentBefore cutoff, m => if purgeable cutoff m then none else some m
  | _, m => some m

variable {db : Database} {id : Nat} {row : EmailMessage}

theorem mem_of_message? (h : db.message? id = some row) : row ∈ db.emailMessages ∧ row.id = id := by
  unfold Database.message? at h
  have hid := List.find?_some h
  exact ⟨List.mem_of_find?_eq_some h, of_decide_eq_true hid⟩

theorem Database.Sound.message?_of_mem (hs : db.Sound) (h : row ∈ db.emailMessages) :
    db.message? row.id = some row := by
  cases hf : db.message? row.id with
  | none =>
    have := List.find?_eq_none.mp hf row h
    simp at this
  | some row' =>
    obtain ⟨hm, hid⟩ := mem_of_message? hf
    rw [hs.eq_of_key hm h hid]

/-- A row that is not there is none of the rows. -/
theorem message?_eq_none : db.message? id = none ↔ ∀ m ∈ db.emailMessages, m.id ≠ id := by
  unfold Database.message?
  rw [List.find?_eq_none]
  simp

/-- Changes that keep the ids. -/
theorem message?_changeRows {whose : EmailMessage → Bool} {change : EmailMessage → EmailMessage}
    (hid : ∀ m, (change m).id = m.id) :
    (changeRows whose change db).message? id =
      (db.message? id).map fun m => if whose m then change m else m := by
  have hkeep : ∀ m : EmailMessage, (if whose m then change m else m).id = m.id := by
    intro m
    split
    · exact hid m
    · rfl
  unfold changeRows Database.message?
  rw [List.find?_map]
  congr 2
  funext m
  exact congrArg (fun n => decide (n = id)) (hkeep m)

theorem sound_changeRows {whose : EmailMessage → Bool} {change : EmailMessage → EmailMessage}
    (hid : ∀ m, (change m).id = m.id) (hs : db.Sound) : (changeRows whose change db).Sound := by
  refine KeyedTable.map hs fun m => ?_
  split
  · exact hid m
  · rfl

/-! ## One call -/

section Serve

variable {at_ : Nat} {c : Call}

/-- An update by id that finds no row leaves the rows as the change of them would. -/
theorem updateById_rows {change : EmailMessage → EmailMessage} :
    (updateById id change db).2 = changeRows (·.id = id) change db := by
  unfold updateById
  cases hf : db.message? id with
  | some m => rfl
  | none =>
    unfold changeRows
    have hmap : db.emailMessages.map (fun m => if decide (m.id = id) then change m else m) =
        db.emailMessages := by
      refine List.map_congr_left (fun m hm => ?_) |>.trans (List.map_id _)
      rw [decide_eq_false (message?_eq_none.mp hf m hm)]
      rfl
    rw [hmap]

/-- The tables after an insert: as they were, or with one new row. -/
theorem insert_cases (at_ : Nat) (input : NewEmailRecord) (idempotency : Option IdempotencyRecord)
    (db : Database) :
    (insert at_ input idempotency db).2 = db ∨
      ∃ m keys, m.id = db.nextId ∧ (insert at_ input idempotency db).2 =
        { emailMessages := db.emailMessages ++ [m], idempotencyKeys := keys,
          nextId := db.nextId + 1 } := by
  unfold PrismaEmailRepository.insert
  cases idempotency.bind fun record => findByIdempotencyKey record.key db with
  | some found => exact .inl rfl
  | none => exact .inr ⟨_, _, rfl, rfl⟩

theorem sound_serve (hs : db.Sound) : (c.serve at_ db).2.Sound := by
  have hupdate : ∀ {id : Nat} {change : EmailMessage → EmailMessage},
      (∀ m, (change m).id = m.id) → (updateById id change db).2.Sound := by
    intro id change hid
    rw [updateById_rows]
    exact sound_changeRows hid hs
  cases c with
  | insert input idempotency =>
    show (insert at_ input idempotency db).2.Sound
    obtain he | ⟨m, keys, hid, he⟩ := insert_cases at_ input idempotency db
    · rw [he]
      exact hs
    · rw [he]
      refine ⟨fun a ha => ?_, ?_⟩
      · show a.id < db.nextId + 1
        rcases List.mem_append.mp ha with ha | ha
        · have := hs.below a ha
          omega
        · rw [List.mem_singleton.mp ha]
          omega
      · rw [List.map_append, List.map_singleton]
        refine List.Nodup.append hs.distinct (List.nodup_singleton _) ?_
        intro k hk hk'
        obtain ⟨a, ha, rfl⟩ := List.mem_map.mp hk
        have := hs.below a ha
        rw [List.mem_singleton.mp hk'] at this
        omega
  | claimCandidates ids workerId now claimTimeoutMs => exact sound_changeRows (fun _ => rfl) hs
  | markSent id provider providerMessageId now => exact hupdate fun _ => rfl
  | markForRetry id error nextAttemptAt => exact hupdate fun _ => rfl
  | markDead id error => exact hupdate fun _ => rfl
  | requeue id resetAttempts now => exact hupdate fun _ => rfl
  | purgeSentBefore cutoff =>
    exact ⟨fun a ha => hs.below a (List.mem_filter.mp ha).1,
      hs.distinct.sublist (List.filter_sublist.map _)⟩
  | findByIdempotencyKey key => exact hs
  | findById id => exact hs
  | findCandidates limit now claimTimeoutMs => exact hs
  | findClaimed workerId now => exact hs

/-- What a call makes of a row, found by its id. -/
theorem message?_serve (hs : db.Sound) (h : db.message? id = some row) :
    (c.serve at_ db).2.message? id = c.onRow row := by
  obtain ⟨hmem, hid⟩ := mem_of_message? h
  have hchange : ∀ {whose : EmailMessage → Bool} {change : EmailMessage → EmailMessage},
      (∀ m, (change m).id = m.id) →
      (changeRows whose change db).message? id = some (if whose row then change row else row) := by
    intro whose change hkeep
    rw [message?_changeRows hkeep, h, Option.map_some]
  have hupdate : ∀ {id' : Nat} {change : EmailMessage → EmailMessage},
      (∀ m, (change m).id = m.id) → (updateById id' change db).2.message? id =
        some (if row.id = id' then change row else row) := by
    intro id' change hkeep
    rw [updateById_rows, hchange hkeep]
    simp only [decide_eq_true_eq]
  cases c with
  | insert input idempotency =>
    show (insert at_ input idempotency db).2.message? id = some row
    obtain he | ⟨m, keys, -, he⟩ := insert_cases at_ input idempotency db
    · rw [he]
      exact h
    · rw [he]
      show (db.emailMessages ++ [m]).find? (·.id = id) = some row
      have hfind : db.emailMessages.find? (·.id = id) = some row := h
      rw [List.find?_append, hfind, Option.some_or]
  | claimCandidates ids workerId now claimTimeoutMs => exact hchange fun _ => rfl
  | markSent id' provider providerMessageId now => exact hupdate fun _ => rfl
  | markForRetry id' error nextAttemptAt => exact hupdate fun _ => rfl
  | markDead id' error => exact hupdate fun _ => rfl
  | requeue id' resetAttempts now => exact hupdate fun _ => rfl
  | purgeSentBefore cutoff =>
    have hafter : ((Call.purgeSentBefore cutoff).serve at_ db).2.Sound := sound_serve hs
    show _ = if purgeable cutoff row then none else some row
    by_cases hp : purgeable cutoff row = true
    · rw [if_pos hp]
      refine message?_eq_none.mpr fun m hm he => ?_
      obtain ⟨hm, hkept⟩ := List.mem_filter.mp hm
      rw [hs.eq_of_key hm hmem (he.trans hid.symm), hp] at hkept
      cases hkept
    · rw [if_neg hp, ← hid]
      refine hafter.message?_of_mem (List.mem_filter.mpr ⟨hmem, ?_⟩)
      rw [Bool.eq_false_of_not_eq_true hp]
      rfl
  | findByIdempotencyKey key => exact h
  | findById id' => exact h
  | findCandidates limit now claimTimeoutMs => exact h
  | findClaimed workerId now => exact h

/-- The ids handed out stay handed out. -/
theorem nextId_serve : db.nextId ≤ (c.serve at_ db).2.nextId := by
  have hupdate : ∀ {id : Nat} {change : EmailMessage → EmailMessage},
      db.nextId ≤ (updateById id change db).2.nextId := by
    intro id change
    rw [updateById_rows]
    exact Nat.le_refl _
  cases c with
  | insert input idempotency =>
    show db.nextId ≤ (insert at_ input idempotency db).2.nextId
    obtain he | ⟨m, keys, -, he⟩ := insert_cases at_ input idempotency db
    · rw [he]
    · rw [he]
      exact Nat.le_succ _
  | markSent id provider providerMessageId now => exact hupdate
  | markForRetry id error nextAttemptAt => exact hupdate
  | markDead id error => exact hupdate
  | requeue id resetAttempts now => exact hupdate
  | claimCandidates ids workerId now claimTimeoutMs => exact Nat.le_refl _
  | purgeSentBefore cutoff => exact Nat.le_refl _
  | findByIdempotencyKey key => exact Nat.le_refl _
  | findById id => exact Nat.le_refl _
  | findCandidates limit now claimTimeoutMs => exact Nat.le_refl _
  | findClaimed workerId now => exact Nat.le_refl _

/-- A row that is gone is not written again: no id is handed out twice. -/
theorem message?_serve_gone (hgone : db.message? id = none) (hlt : id < db.nextId) :
    (c.serve at_ db).2.message? id = none := by
  have hchange : ∀ {whose : EmailMessage → Bool} {change : EmailMessage → EmailMessage},
      (∀ m, (change m).id = m.id) → (changeRows whose change db).message? id = none := by
    intro whose change hkeep
    rw [message?_changeRows hkeep, hgone, Option.map_none]
  have hupdate : ∀ {id' : Nat} {change : EmailMessage → EmailMessage},
      (∀ m, (change m).id = m.id) → (updateById id' change db).2.message? id = none := by
    intro id' change hkeep
    rw [updateById_rows, hchange hkeep]
  cases c with
  | insert input idempotency =>
    show (insert at_ input idempotency db).2.message? id = none
    obtain he | ⟨m, keys, hid, he⟩ := insert_cases at_ input idempotency db
    · rw [he]
      exact hgone
    · rw [he]
      refine message?_eq_none.mpr fun m' hm' => ?_
      rcases List.mem_append.mp hm' with hm' | hm'
      · exact message?_eq_none.mp hgone m' hm'
      · rw [List.mem_singleton.mp hm']
        omega
  | claimCandidates ids workerId now claimTimeoutMs => exact hchange fun _ => rfl
  | markSent id' provider providerMessageId now => exact hupdate fun _ => rfl
  | markForRetry id' error nextAttemptAt => exact hupdate fun _ => rfl
  | markDead id' error => exact hupdate fun _ => rfl
  | requeue id' resetAttempts now => exact hupdate fun _ => rfl
  | purgeSentBefore cutoff =>
    refine message?_eq_none.mpr fun m hm => ?_
    exact message?_eq_none.mp hgone m (List.mem_filter.mp hm).1
  | findByIdempotencyKey key => exact hgone
  | findById id' => exact hgone
  | findCandidates limit now claimTimeoutMs => exact hgone
  | findClaimed workerId now => exact hgone

/-! ## Rows under a claim, and rows that were sent -/

theorem Holds.status {message : EmailMessage} (h : Holds db message) :
    db.status? message.id = some .SENDING := by
  obtain ⟨row, hrow, hstatus, -⟩ := h
  unfold Database.status?
  rw [hrow, Option.map_some, hstatus]

/-- A claim holds through every call but those that take it over or end it. -/
theorem Holds.serve {message : EmailMessage} (h : Holds db message) (hs : db.Sound)
    (hclaim : ∀ ids workerId now claimTimeoutMs,
      c = .claimCandidates ids workerId now claimTimeoutMs → ∀ row ∈ db.emailMessages,
        claimable ids now claimTimeoutMs row → row.status = .SENDING → message.id ≠ row.id)
    (hrecord : (Command.repository c).recorded? ≠ some message.id)
    (hrequeue : ∀ id resetAttempts now, c = .requeue id resetAttempts now → message.id ≠ id) :
    Holds (c.serve at_ db).2 message := by
  obtain ⟨row, hrow, hstatus, hby⟩ := h
  obtain ⟨hmem, hid⟩ := mem_of_message? hrow
  have hkept : c.onRow row = some row := by
    cases c with
    | claimCandidates ids workerId now claimTimeoutMs =>
      have hnot : claimable ids now claimTimeoutMs row = false :=
        Bool.eq_false_iff.mpr fun hc => hclaim _ _ _ _ rfl row hmem hc hstatus hid.symm
      simp only [Call.onRow, hnot, Bool.false_eq_true, if_false]
    | markSent id provider providerMessageId now =>
      have hne : row.id ≠ id := fun he => hrecord (congrArg some (he.symm.trans hid))
      simp only [Call.onRow, if_neg hne]
    | markForRetry id error nextAttemptAt =>
      have hne : row.id ≠ id := fun he => hrecord (congrArg some (he.symm.trans hid))
      simp only [Call.onRow, if_neg hne]
    | markDead id error =>
      have hne : row.id ≠ id := fun he => hrecord (congrArg some (he.symm.trans hid))
      simp only [Call.onRow, if_neg hne]
    | requeue id resetAttempts now =>
      have hne : row.id ≠ id := fun he => hrequeue _ _ _ rfl (hid.symm.trans he)
      simp only [Call.onRow, if_neg hne]
    | purgeSentBefore cutoff => simp [Call.onRow, purgeable, hstatus]
    | insert input idempotency => rfl
    | findByIdempotencyKey key => rfl
    | findById id => rfl
    | findCandidates limit now claimTimeoutMs => rfl
    | findClaimed workerId now => rfl
  exact ⟨row, (message?_serve hs hrow).trans hkept, hstatus, hby⟩

/-- A message that was sent, or that was and whose row is gone. -/
def Delivered (db : Database) (id : Nat) : Prop :=
  db.status? id = some .SENT ∨ (db.message? id = none ∧ id < db.nextId)

theorem Delivered.status (h : Delivered db id) :
    db.status? id = some .SENT ∨ db.status? id = none := by
  refine h.imp_right fun hgone => ?_
  unfold Database.status?
  rw [hgone.1, Option.map_none]

/-- No claim holds on it. -/
theorem Delivered.not_holds (h : Delivered db id) {message : EmailMessage} (hid : message.id = id) :
    ¬ Holds db message := by
  intro hh
  have hsending := hh.status
  rw [hid] at hsending
  rcases h.status with hsent | hgone
  · rw [hsent] at hsending
    cases hsending
  · rw [hgone] at hsending
    cases hsending

/-- A sent message stays as it is until it is purged, but for a late outcome and a retry. -/
theorem Delivered.serve (h : Delivered db id) (hs : db.Sound)
    (hrecord : (Command.repository c).recorded? ≠ some id)
    (hrequeue : ∀ id' resetAttempts now, c = .requeue id' resetAttempts now →
      db.status? id' ≠ some .SENT) :
    Delivered (c.serve at_ db).2 id ∧
      ((Command.repository c).claims = true →
        (c.serve at_ db).2.message? id = db.message? id) := by
  rcases h with hsent | ⟨hgone, hlt⟩
  · obtain ⟨row, hrow, hstatus⟩ := Option.map_eq_some_iff.mp hsent
    obtain ⟨hmem, hid⟩ := mem_of_message? hrow
    have hafter : (c.serve at_ db).2.message? id = c.onRow row := message?_serve hs hrow
    have hkeep : c.onRow row = some row ∨
        (c.onRow row = none ∧ (Command.repository c).claims = false) := by
      cases c with
      | claimCandidates ids workerId now claimTimeoutMs =>
        have hnot : claimable ids now claimTimeoutMs row = false := by
          simp [claimable, due, CLAIMABLE_STATUSES, hstatus]
        exact .inl (by simp only [Call.onRow, hnot, Bool.false_eq_true, if_false])
      | markSent id' provider providerMessageId now =>
        have hne : row.id ≠ id' := fun he => hrecord (congrArg some (he.symm.trans hid))
        exact .inl (by simp only [Call.onRow, if_neg hne])
      | markForRetry id' error nextAttemptAt =>
        have hne : row.id ≠ id' := fun he => hrecord (congrArg some (he.symm.trans hid))
        exact .inl (by simp only [Call.onRow, if_neg hne])
      | markDead id' error =>
        have hne : row.id ≠ id' := fun he => hrecord (congrArg some (he.symm.trans hid))
        exact .inl (by simp only [Call.onRow, if_neg hne])
      | requeue id' resetAttempts now =>
        have hne : row.id ≠ id' := by
          rintro rfl
          exact hrequeue _ _ _ rfl (hid ▸ hsent)
        exact .inl (by simp only [Call.onRow, if_neg hne])
      | purgeSentBefore cutoff =>
        by_cases hp : purgeable cutoff row = true
        · exact .inr ⟨if_pos hp, rfl⟩
        · exact .inl (if_neg hp)
      | insert input idempotency => exact .inl rfl
      | findByIdempotencyKey key => exact .inl rfl
      | findById id' => exact .inl rfl
      | findCandidates limit now claimTimeoutMs => exact .inl rfl
      | findClaimed workerId now => exact .inl rfl
    rcases hkeep with hkeep | ⟨hkeep, hclaims⟩
    · rw [hkeep] at hafter
      refine ⟨.inl ?_, fun _ => hafter.trans hrow.symm⟩
      unfold Database.status?
      rw [hafter, Option.map_some, hstatus]
    · rw [hkeep] at hafter
      refine ⟨.inr ⟨hafter, ?_⟩, fun hc => ?_⟩
      · have hlt := hs.below row hmem
        have hle : db.nextId ≤ (c.serve at_ db).2.nextId := nextId_serve
        omega
      · rw [hclaims] at hc
        cases hc
  · have hafter : (c.serve at_ db).2.message? id = none := message?_serve_gone hgone hlt
    have hle : db.nextId ≤ (c.serve at_ db).2.nextId := nextId_serve
    exact ⟨.inr ⟨hafter, by omega⟩, fun _ => hafter.trans hgone.symm⟩

end Serve

end PracticalMicroservice.Email
