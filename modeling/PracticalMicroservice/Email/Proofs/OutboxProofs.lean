import PracticalMicroservice.Email.Outbox

/-!
# Proofs: the outbox as a store

The digest of a payload tells it from every other and is blind to the order of its properties; and
the transaction that enqueues, run with nothing beside it, is the insert of the other models.
-/

namespace PracticalMicroservice.Email

open Foundations (DatabaseError Store Transaction)

/-! ## The fingerprint -/

theorem properties_keys (input : SendEmailInput) :
    (input.properties.map Prod.fst).Nodup := by
  have h : input.properties.map Prod.fst = ["recipient", "subject", "body", "bodyType", "source"] :=
    rfl
  rw [h]
  decide

theorem text_injective : Function.Injective EmailBodyType.text := by
  intro a b h
  cases a <;> cases b <;> simp [EmailBodyType.text] at h ⊢

/-- The properties tell the input. -/
theorem properties_injective {input input' : SendEmailInput}
    (h : input.properties.Perm input'.properties) : input = input' := by
  have hmem : ∀ entry ∈ input.properties, entry ∈ input'.properties := fun _ => h.mem_iff.mp
  have hrecipient := hmem ("recipient", input.recipient) (by simp [SendEmailInput.properties])
  have hsubject := hmem ("subject", input.subject) (by simp [SendEmailInput.properties])
  have hbody := hmem ("body", input.body) (by simp [SendEmailInput.properties])
  have htype := hmem ("bodyType", input.bodyType.text) (by simp [SendEmailInput.properties])
  have hsource := hmem ("source", input.source) (by simp [SendEmailInput.properties])
  simp [SendEmailInput.properties] at hrecipient hsubject hbody htype hsource
  cases input
  cases input'
  simp only at hrecipient hsubject hbody htype hsource
  rw [hrecipient, hsubject, hbody, text_injective htype, hsource]

/-- Two payloads have one digest exactly when they say the same, in whatever order. -/
theorem fingerprint_eq_iff {env : Env} (hinj : Function.Injective env.sha256)
    {input input' : SendEmailInput} {payload payload' : List (String × String)}
    (h : payload.Perm input.properties) (h' : payload'.Perm input'.properties) :
    fingerprint env payload = fingerprint env payload' ↔ input = input' := by
  have hkeys : (payload.map Prod.fst).Nodup :=
    (h.map Prod.fst).nodup_iff.mpr (properties_keys input)
  have hdigest : fingerprint env payload = fingerprint env payload' ↔ payload.Perm payload' :=
    ⟨fun he => (Foundations.Json.canonical_eq_iff hkeys).mp (hinj he),
      fun hp => congrArg env.sha256 ((Foundations.Json.canonical_eq_iff hkeys).mpr hp)⟩
  rw [hdigest]
  refine ⟨fun hp => properties_injective ((h.symm.trans hp).trans h'), fun he => ?_⟩
  subst he
  exact h.trans h'.symm

/-! ## The transaction, run at once -/

/-- The two tables of a store. -/
def tables (s : Store Row) : Database where
  emailMessages := s.rows.filterMap Row.message?
  idempotencyKeys := s.rows.filterMap Row.key?
  nextId := s.nextKey

theorem filterMap_isKey (p : IdempotencyKey → Bool) (rows : List Row) :
    (rows.filter (Row.isKey p)).filterMap Row.key? = (rows.filterMap Row.key?).filter p := by
  induction rows with
  | nil => rfl
  | cons row rows ih =>
    cases row with
    | message m => exact ih
    | key record =>
      by_cases hp : p record = true
      · simpa [Row.isKey, Row.key?, hp] using ih
      · simpa [Row.isKey, Row.key?, hp] using ih

theorem filterMap_isMessage (p : EmailMessage → Bool) (rows : List Row) :
    (rows.filter (Row.isMessage p)).filterMap Row.message? =
      (rows.filterMap Row.message?).filter p := by
  induction rows with
  | nil => rfl
  | cons row rows ih =>
    cases row with
    | key record => exact ih
    | message m =>
      by_cases hp : p m = true
      · simpa [Row.isMessage, Row.message?, hp] using ih
      · simpa [Row.isMessage, Row.message?, hp] using ih

section Insert

variable {s : Store Row}

theorem messages_insert_message (m : EmailMessage) :
    (tables (s.insert (.message m))).emailMessages = (tables s).emailMessages ++ [m] :=
  List.filterMap_append

theorem messages_insert_key (record : IdempotencyKey) :
    (tables (s.insert (.key record))).emailMessages = (tables s).emailMessages :=
  List.filterMap_append.trans (List.append_nil _)

theorem keys_insert_message (m : EmailMessage) :
    (tables (s.insert (.message m))).idempotencyKeys = (tables s).idempotencyKeys :=
  List.filterMap_append.trans (List.append_nil _)

theorem keys_insert_key (record : IdempotencyKey) :
    (tables (s.insert (.key record))).idempotencyKeys = (tables s).idempotencyKeys ++ [record] :=
  List.filterMap_append

end Insert

section AtOnce

variable {s : Store Row} {at_ : Nat} {input : NewEmailRecord}
  {idempotency : Option IdempotencyRecord}

/-- What the database enforces of a store of the two tables. -/
structure Store.Consistent (s : Store Row) : Prop where
  numbered : ∀ m ∈ (tables s).emailMessages, m.id < s.nextKey
  linked : ∀ record ∈ (tables s).idempotencyKeys,
    ((tables s).message? record.emailMessageId).isSome

theorem findRecord_run (h : Store.Consistent s) (key : String) :
    s.run (Outbox.findRecord key) =
      (.ok (PrismaEmailRepository.findByIdempotencyKey key (tables s)), s) := by
  unfold Outbox.findRecord
  rw [Store.run_bind_ok (Store.run_findMany _), filterMap_isKey]
  have hhead := List.head?_filter (p := fun record : IdempotencyKey => decide (record.key = key))
    (l := s.rows.filterMap Row.key?)
  unfold PrismaEmailRepository.findByIdempotencyKey
  show _ = (Except.ok (Option.bind ((s.rows.filterMap Row.key?).find? _) _), s)
  rw [← hhead]
  cases hrecords : (s.rows.filterMap Row.key?).filter fun record => decide (record.key = key) with
  | nil => rfl
  | cons record more =>
    have hrecord : record ∈ (tables s).idempotencyKeys :=
      (List.mem_filter.mp (hrecords ▸ List.mem_cons_self)).1
    obtain ⟨message, hmessage⟩ := Option.isSome_iff_exists.mp (h.linked record hrecord)
    dsimp only
    rw [Store.run_bind_ok (Store.run_findMany _), filterMap_isMessage]
    have hhead' := List.head?_filter
      (p := fun m : EmailMessage => decide (m.id = record.emailMessageId))
      (l := s.rows.filterMap Row.message?)
    have hfind : (s.rows.filterMap Row.message?).find?
        (fun m => decide (m.id = record.emailMessageId)) = some message := hmessage
    rw [hfind] at hhead'
    cases hmessages : (s.rows.filterMap Row.message?).filter
        fun m => decide (m.id = record.emailMessageId) with
    | nil =>
      rw [hmessages] at hhead'
      cases hhead'
    | cons m more' =>
      rw [hmessages] at hhead'
      obtain rfl := Option.some.inj hhead'
      show _ = (Except.ok (Option.bind ((tables s).message? record.emailMessageId) _), s)
      rw [hmessage]
      rfl

theorem existing_run (h : Store.Consistent s) :
    s.run (Outbox.existing idempotency) =
      (.ok (idempotency.bind fun record =>
        PrismaEmailRepository.findByIdempotencyKey record.key (tables s)), s) := by
  cases idempotency with
  | none => rfl
  | some record => exact findRecord_run h record.key

/-- A message can always be written. -/
theorem message_fresh (h : Store.Consistent s) :
    Store.clashes s.rows (.message (Outbox.newMessage at_ input s.nextKey)) = none := by
  unfold Store.clashes
  rw [List.findSome?_eq_none_iff]
  intro row hrow
  cases row with
  | key record => rfl
  | message m =>
    have hlt := h.numbered m (List.mem_filterMap.mpr ⟨_, hrow, rfl⟩)
    refine if_neg fun he => ?_
    have he' : s.nextKey = m.id := he
    omega

/-- So can its key, if there is no such key. -/
theorem key_fresh (h : Store.Consistent s) {record : IdempotencyRecord}
    (hnone : PrismaEmailRepository.findByIdempotencyKey record.key (tables s) = none) :
    Store.clashes (s.rows ++ [.message (Outbox.newMessage at_ input s.nextKey)])
      (.key (Outbox.newKey record (Outbox.newMessage at_ input s.nextKey))) = none := by
  unfold Store.clashes
  rw [List.findSome?_eq_none_iff]
  intro row hrow
  rcases List.mem_append.mp hrow with hrow | hrow
  · cases row with
    | message m => rfl
    | key old =>
      have hold : old ∈ (tables s).idempotencyKeys := List.mem_filterMap.mpr ⟨_, hrow, rfl⟩
      obtain ⟨m, hm⟩ := Option.isSome_iff_exists.mp (h.linked old hold)
      have hlt := h.numbered m (List.mem_of_find?_eq_some hm)
      have hid : m.id = old.emailMessageId := by simpa using List.find?_some hm
      show (if record.key = old.key then _ else if s.nextKey = old.emailMessageId then _ else _) = _
      rw [if_neg, if_neg (by omega)]
      intro hkey
      unfold PrismaEmailRepository.findByIdempotencyKey at hnone
      cases hfind : (tables s).idempotencyKeys.find? (·.key = record.key) with
      | none => exact absurd hkey.symm (by simpa using List.find?_eq_none.mp hfind old hold)
      | some found =>
        obtain ⟨m', hm'⟩ := Option.isSome_iff_exists.mp
          (h.linked found (List.mem_of_find?_eq_some hfind))
        rw [hfind] at hnone
        have hnone' : Option.bind ((tables s).message? found.emailMessageId) _ = none := hnone
        rw [hm'] at hnone'
        cases hnone'
  · obtain rfl := List.mem_singleton.mp hrow
    rfl

/-- Run at once, the transaction answers as `insert` does, and writes the same rows. -/
theorem insert_atomically (h : Store.Consistent s) :
    (s.atomically (Outbox.insert at_ input idempotency)).1 =
        .ok (PrismaEmailRepository.insert at_ input idempotency (tables s)).1 ∧
      (tables (s.atomically (Outbox.insert at_ input idempotency)).2).emailMessages =
        (PrismaEmailRepository.insert at_ input idempotency (tables s)).2.emailMessages ∧
      (tables (s.atomically (Outbox.insert at_ input idempotency)).2).idempotencyKeys =
        (PrismaEmailRepository.insert at_ input idempotency (tables s)).2.idempotencyKeys := by
  have hrun : ∀ {r : Except DatabaseError EnqueueOutcome × Store Row},
      s.run (Outbox.insert at_ input idempotency) = r →
      s.atomically (Outbox.insert at_ input idempotency) = (r.1, s.settle r) := by
    rintro r rfl
    rfl
  unfold PrismaEmailRepository.insert
  cases hfound : idempotency.bind fun record =>
      PrismaEmailRepository.findByIdempotencyKey record.key (tables s) with
  | some found =>
    obtain ⟨message, fingerprint⟩ := found
    have hreplay : s.run (Outbox.insert at_ input idempotency) =
        (.ok { message, replayed := true, storedFingerprint := some fingerprint }, s) := by
      unfold Outbox.insert
      rw [Store.run_bind_ok (existing_run h), hfound]
      rfl
    rw [hrun hreplay]
    exact ⟨rfl, rfl, rfl⟩
  | none =>
    have hmessage : s.run (Outbox.createMessage at_ input) =
        (.ok (Outbox.newMessage at_ input s.nextKey),
          s.insert (.message (Outbox.newMessage at_ input s.nextKey))) := by
      unfold Outbox.createMessage
      rw [Store.run_bind_ok (Store.run_create (message_fresh h))]
      rfl
    cases idempotency with
    | none =>
      have hinsert : s.run (Outbox.insert at_ input none) = (.ok
          { message := Outbox.newMessage at_ input s.nextKey, replayed := false
            storedFingerprint := none },
          s.insert (.message (Outbox.newMessage at_ input s.nextKey))) := by
        unfold Outbox.insert
        rw [Store.run_bind_ok (existing_run h)]
        dsimp only [Option.bind_none]
        rw [Store.run_bind_ok hmessage]
        rfl
      rw [hrun hinsert]
      refine ⟨rfl, messages_insert_message _, ?_⟩
      exact (keys_insert_message _).trans (List.append_nil _).symm
    | some record =>
      have hnone : PrismaEmailRepository.findByIdempotencyKey record.key (tables s) = none := hfound
      have hkey : (s.insert (.message (Outbox.newMessage at_ input s.nextKey))).run
          (Outbox.createKey (Outbox.newMessage at_ input s.nextKey) (some record)) = (.ok (),
            (s.insert (.message (Outbox.newMessage at_ input s.nextKey))).insert
              (.key (Outbox.newKey record (Outbox.newMessage at_ input s.nextKey)))) := by
        unfold Outbox.createKey
        rw [Store.run_bind_ok (Store.run_create (key_fresh h hnone))]
        rfl
      have hinsert : s.run (Outbox.insert at_ input (some record)) = (.ok
          { message := Outbox.newMessage at_ input s.nextKey, replayed := false
            storedFingerprint := some record.fingerprint },
          (s.insert (.message (Outbox.newMessage at_ input s.nextKey))).insert
            (.key (Outbox.newKey record (Outbox.newMessage at_ input s.nextKey)))) := by
        unfold Outbox.insert
        rw [Store.run_bind_ok (existing_run h), hfound]
        dsimp only
        rw [Store.run_bind_ok hmessage, Store.run_bind_ok hkey]
        rfl
      rw [hrun hinsert]
      refine ⟨rfl, ?_, ?_⟩
      · exact (messages_insert_key _).trans (messages_insert_message _)
      · exact (keys_insert_key _).trans (congrArg (· ++ _) (keys_insert_message _))

end AtOnce

end PracticalMicroservice.Email
