import PracticalMicroservice.Email.Mailing
import PracticalMicroservice.Email.Proofs.RetentionProofs

/-!
# Proofs: what is called sent has been mailed

A delivery hands over a message it took from the outbox, under the key of its row; rows of one key are
rows of one message, at whatever moment they are read. So a mail for a key is the mail of that
message, whoever asked for it and whenever the request arrived.
-/

namespace PracticalMicroservice.Email

open EmailDispatcher (MS_PER_DAY outbound)
open Foundations (Called Extends Meets Pool Recounted Tells recounting runs tells_bind tells_pure
  tells_request)
open PrismaEmailRepository

variable {env : Env} {world : World} {s s' : System} {l : Label}

/-! ## The rows of a key -/

theorem SameMessage.symm {m m' : EmailMessage} (h : SameMessage m m') : SameMessage m' m :=
  ⟨h.id.symm, h.payload.symm, h.maxAttempts.symm, h.createdAt.symm⟩

section Rows

variable {db : Database} {at_ : Nat} {c : Call} {row row' : EmailMessage}

theorem insert_pending (at_ : Nat) (input : NewEmailRecord) (idempotency : Option IdempotencyRecord)
    (db : Database) : (insert at_ input idempotency db).2 = db ∨ ∃ m, m.status = .PENDING ∧
      (insert at_ input idempotency db).2.emailMessages = db.emailMessages ++ [m] := by
  unfold PrismaEmailRepository.insert
  cases idempotency.bind fun record => findByIdempotencyKey record.key db with
  | some found => exact .inl rfl
  | none => exact .inr ⟨_, rfl, rfl⟩

/-- A row after a call is a row before it, changed by the call, or a new one. -/
theorem row_origin (hs : db.Sound) (h : row' ∈ (c.serve at_ db).2.emailMessages) :
    (∃ row ∈ db.emailMessages, c.onRow row = some row') ∨
      (db.nextId ≤ row'.id ∧ row'.status = .PENDING) := by
  have hafter : (c.serve at_ db).2.message? row'.id = some row' :=
    (sound_serve hs).message?_of_mem h
  cases hbefore : db.message? row'.id with
  | some row =>
    rw [message?_serve hs hbefore] at hafter
    exact .inl ⟨row, (mem_of_message? hbefore).1, hafter⟩
  | none =>
    have hnew : db.nextId ≤ row'.id := by
      by_contra hlt
      rw [message?_serve_gone hbefore (by omega)] at hafter
      cases hafter
    refine .inr ⟨hnew, ?_⟩
    have hgone := message?_eq_none.mp hbefore
    have hkept : ∀ {whose : EmailMessage → Bool} {change : EmailMessage → EmailMessage},
        (∀ m, (change m).id = m.id) → row' ∉ (changeRows whose change db).emailMessages := by
      intro whose change hid hmem
      obtain ⟨m, hm, he⟩ := List.mem_map.mp hmem
      refine hgone m hm ?_
      rw [← he]
      split
      · exact (hid m).symm
      · rfl
    have hupdated : ∀ {id : Nat} {change : EmailMessage → EmailMessage},
        (∀ m, (change m).id = m.id) → row' ∉ (updateById id change db).2.emailMessages := by
      intro id change hid
      rw [updateById_rows]
      exact hkept hid
    cases c with
    | insert input idempotency =>
      have h : row' ∈ (insert at_ input idempotency db).2.emailMessages := h
      rcases insert_pending at_ input idempotency db with he | ⟨m, hpending, he⟩
      · rw [he] at h
        exact absurd rfl (hgone row' h)
      · rw [he] at h
        rcases List.mem_append.mp h with hold | hm
        · exact absurd rfl (hgone row' hold)
        · rw [List.mem_singleton.mp hm]
          exact hpending
    | claimCandidates ids workerId now claimTimeoutMs => exact absurd h (hkept fun _ => rfl)
    | markSent id provider providerMessageId now => exact absurd h (hupdated fun _ => rfl)
    | markForRetry id error nextAttemptAt => exact absurd h (hupdated fun _ => rfl)
    | markDead id error => exact absurd h (hupdated fun _ => rfl)
    | requeue id resetAttempts now => exact absurd h (hupdated fun _ => rfl)
    | purgeSentBefore cutoff => exact absurd rfl (hgone row' (List.mem_filter.mp h).1)
    | findByIdempotencyKey key => exact absurd rfl (hgone row' h)
    | findById id => exact absurd rfl (hgone row' h)
    | findCandidates limit now claimTimeoutMs => exact absurd rfl (hgone row' h)
    | findClaimed workerId now => exact absurd rfl (hgone row' h)

/-- A change that does not call a row sent is not what made it so. -/
theorem unchanged_of_sent {p : Prop} [Decidable p] {m : EmailMessage} (hm : m.status ≠ .SENT)
    (h : some (if p then m else row) = some row') (hsent : row'.status = .SENT) : row' = row := by
  obtain rfl := Option.some.inj h
  split at hsent
  · exact absurd hsent hm
  · rename_i hno
    exact if_neg hno

/-- A row is called sent by the one call that marks it, and stays so as it is. -/
theorem onRow_sent (h : c.onRow row = some row') (hsent : row'.status = .SENT) :
    (row.status = .SENT ∧ row'.providerMessageId = row.providerMessageId) ∨
      ∃ provider providerMessageId now, c = .markSent row.id provider providerMessageId now ∧
        row'.providerMessageId = some providerMessageId := by
  cases c with
  | markSent id provider providerMessageId now =>
    have h : some (if row.id = id then sent provider providerMessageId now row else row) =
        some row' := h
    obtain rfl := Option.some.inj h
    by_cases hid : row.id = id
    · rw [if_pos hid] at hsent ⊢
      exact .inr ⟨provider, providerMessageId, now, hid ▸ rfl, rfl⟩
    · rw [if_neg hid] at hsent ⊢
      exact .inl ⟨hsent, rfl⟩
  | claimCandidates ids workerId now claimTimeoutMs =>
    obtain rfl := unchanged_of_sent (by simp [lock]) h hsent
    exact .inl ⟨hsent, rfl⟩
  | markForRetry id error nextAttemptAt =>
    obtain rfl := unchanged_of_sent (by simp [failed]) h hsent
    exact .inl ⟨hsent, rfl⟩
  | markDead id error =>
    obtain rfl := unchanged_of_sent (by simp [dead]) h hsent
    exact .inl ⟨hsent, rfl⟩
  | requeue id resetAttempts now =>
    obtain rfl := unchanged_of_sent (by simp [revived]) h hsent
    exact .inl ⟨hsent, rfl⟩
  | purgeSentBefore cutoff =>
    have h : (if purgeable cutoff row then none else some row) = some row' := h
    split at h
    · cases h
    · obtain rfl := Option.some.inj h
      exact .inl ⟨hsent, rfl⟩
  | insert input idempotency =>
    obtain rfl := Option.some.inj h
    exact .inl ⟨hsent, rfl⟩
  | findByIdempotencyKey key =>
    obtain rfl := Option.some.inj h
    exact .inl ⟨hsent, rfl⟩
  | findById id =>
    obtain rfl := Option.some.inj h
    exact .inl ⟨hsent, rfl⟩
  | findCandidates limit now claimTimeoutMs =>
    obtain rfl := Option.some.inj h
    exact .inl ⟨hsent, rfl⟩
  | findClaimed workerId now =>
    obtain rfl := Option.some.inj h
    exact .inl ⟨hsent, rfl⟩

end Rows

/-! ## What a delivery goes by -/

section Tasks

variable {task : Task} {past : Told}

/-- No other task hands over or marks as sent. -/
theorem handsOver_of_does (htask : ∀ cycle index m, task ≠ .deliver cycle index m)
    {command : Command} (hd : task.Does env command) : HandsOver env task past command := by
  refine ⟨fun message he => ?_, fun id provider providerMessageId now he => ?_⟩
  · subst he
    obtain ⟨cycle, index, m, rfl, -⟩ := deliver_of_handed hd rfl
    exact absurd rfl (htask cycle index m)
  · subst he
    obtain ⟨cycle, index, m, rfl, -⟩ := deliver_of_recorded hd rfl
    exact absurd rfl (htask cycle index m)

/-- Most commands are neither. -/
theorem handsOver_of_ne {command : Command} (hsend : ∀ message, command ≠ .send message)
    (hmark : ∀ id provider providerMessageId now,
      command ≠ .repository (.markSent id provider providerMessageId now)) :
    HandsOver env task past command :=
  ⟨fun message he => absurd he (hsend message),
    fun id provider providerMessageId now he =>
      absurd he (hmark id provider providerMessageId now)⟩

theorem hands_recordFailure {message : EmailMessage} {reason : String} {retryable : Bool} :
    Tells (HandsOver env) Credible task (EmailDispatcher.recordFailure env message reason retryable)
      (fun _ _ => True) (fun _ _ => True) past := by
  unfold EmailDispatcher.recordFailure
  dsimp only
  split
  · refine tells_bind (tells_request (handsOver_of_ne (by simp) (by simp)) fun _ _ => ?_)
    exact tells_pure trivial
  · refine tells_bind (tells_request (handsOver_of_ne (by simp) (by simp)) fun now _ => ?_)
    refine tells_bind (tells_request (handsOver_of_ne (by simp) (by simp)) fun random _ => ?_)
    refine tells_bind (tells_request (handsOver_of_ne (by simp) (by simp)) fun _ _ => ?_)
    exact tells_pure trivial

theorem hands_deliver {cycle index : Nat} {message : EmailMessage} :
    Tells (HandsOver env) Credible (.deliver cycle index message)
      (EmailDispatcher.deliver env message) (fun _ _ => True) (fun _ _ => True) [] := by
  unfold EmailDispatcher.deliver
  have hsend : HandsOver env (.deliver cycle index message) [] (.send (outbound env message)) := by
    refine ⟨fun message' he => ?_, fun _ _ _ _ he => by cases he⟩
    cases he
    exact ⟨cycle, index, message, rfl, rfl⟩
  refine tells_bind (tells_request hsend fun outcome _ => ?_)
  cases outcome with
  | threw crash => exact hands_recordFailure
  | refused reason retryable => exact hands_recordFailure
  | accepted provider providerMessageId =>
    refine tells_bind (tells_request (handsOver_of_ne (by simp) (by simp)) fun now _ => ?_)
    refine tells_bind (tells_request ⟨(fun _ he => by cases he), ?_⟩ fun _ _ => tells_pure trivial)
    intro id provider' providerMessageId' now' he
    cases he
    exact ⟨cycle, index, message, rfl, rfl, List.mem_cons_of_mem _ List.mem_cons_self⟩

/-- The programs of the tasks. -/
theorem hands_run (env : Env) (task : Task) :
    Meets (recounting (HandsOver env) Credible) (task.run env) (fun _ _ => True) (task, []) := by
  have hdoes : ∀ {task : Task}, (∀ cycle index m, task ≠ .deliver cycle index m) →
      ∀ past command, Justified env task past command → HandsOver env task past command :=
    fun htask past command hj => handsOver_of_does htask hj.does
  cases task with
  | deliver cycle index message =>
    exact hands_deliver.meets (fun _ _ _ => trivial) fun _ _ _ => trivial
  | enqueue input idempotencyKey =>
    exact (tells_enqueue.recount (hdoes (by simp))).meets (fun _ _ _ => trivial)
      fun _ _ _ => trivial
  | runOnce workerId =>
    exact (tells_runOnce.recount (hdoes (by simp))).meets (fun _ _ _ => trivial)
      fun _ _ _ => trivial
  | retry id =>
    exact (tells_retry.recount (hdoes (by simp))).meets (fun _ _ _ => trivial) fun _ _ _ => trivial
  | purgeExpired =>
    exact (tells_purgeExpired.recount (hdoes (by simp))).meets (fun _ _ _ => trivial)
      fun _ _ _ => trivial

end Tasks

/-! ## What a run of the service has seen -/

section Seen

variable {m m' : EmailMessage}

/-- What holds of the rows a run has seen, and of what its deliveries go by. -/
structure Attested (env : Env) (world : World) (s : System) : Prop where
  keeping : Keeping env world s
  told : Recounted (Justified env) Credible Concluded s
  handing : Recounted (HandsOver env) Credible (fun _ _ => True) s
  current : ∀ row ∈ s.world.db.emailMessages, s.Seen world row
  before : ∀ e ∈ s.trace, ∀ row ∈ e.before.db.emailMessages, s.Seen world row
  below : ∀ m, s.Seen world m → m.id < s.world.db.nextId
  /-- An id is given to one message, once. -/
  same : ∀ m m', s.Seen world m → s.Seen world m' → m'.id = m.id → SameMessage m m'
  deliveries : ∀ i cycle index m, s.task i = some (.deliver cycle index m) → s.Seen world m

theorem attested_start (h : world.db.Linked) : Attested env world (Pool.start world : System) := by
  have hfirst : ∀ {m : EmailMessage}, System.Seen world (Pool.start world) m →
      m ∈ world.db.emailMessages := by
    rintro m (hm | ⟨e, he, -⟩)
    · exact hm
    · cases he
  refine ⟨keeping_start h, Foundations.recounted_start, Foundations.recounted_start,
    fun row hrow => .inl hrow, fun e he => absurd he List.not_mem_nil,
    fun m hm => h.below m (hfirst hm), fun m m' hm hm' hid => ?_, fun i cycle index m ht => ?_⟩
  · have hrow := h.sound.message?_of_mem (hfirst hm)
    rw [← hid, h.sound.message?_of_mem (hfirst hm')] at hrow
    obtain rfl := Option.some.inj hrow
    exact .refl m'
  · simp [Pool.task, Pool.start] at ht

/-- What a cycle has claimed it has read. -/
theorem Attested.seen_of_batch (h : Attested env world s) {cycle : Nat} (hm : m ∈ s.batch cycle) :
    s.Seen world m := by
  obtain ⟨task, ht⟩ := Foundations.result_eq_some (result_of_batch hm)
  rcases h.told.returned ht _ rfl with ⟨hnil, -⟩ | ⟨workerId, now, rest, hpast, -⟩
  · rw [hnil] at hm
    cases hm
  · have hpast : Foundations.pastOf cycle s.trace = [] ++ _ :: rest := hpast
    obtain ⟨newer, e, older, htrace, -, htold, -⟩ := Foundations.exists_split hpast
    have he : e ∈ s.trace := htrace ▸ List.mem_append_right _ List.mem_cons_self
    obtain ⟨fate, hp⟩ := h.keeping.performed e he
    refine .inr ⟨e, he, ?_⟩
    cases e with
    | mk thread command reply before after =>
      cases htold
      obtain ⟨hbatch, hdb⟩ := perform_findClaimed hp
      show m ∈ after.db.emailMessages
      rw [hdb]
      rw [hbatch] at hm
      exact (mem_findClaimed.mp hm).1

section Call

variable {i : Nat} {fate : Fate} {task : Task} {command : Command} {next : command.Reply → Code}
  {reply : command.Reply}

theorem seen_call (hc : Called machine s s' i fate task command next reply)
    (h : s.Seen world m) : s'.Seen world m := by
  rcases h with hm | ⟨e, he, hm⟩
  · exact .inl hm
  · exact .inr ⟨e, hc.trace ▸ List.mem_cons_of_mem _ he, hm⟩

theorem seen_of_call (hc : Called machine s s' i fate task command next reply)
    (h : s'.Seen world m) : s.Seen world m ∨ m ∈ s'.world.db.emailMessages := by
  rcases h with hm | ⟨e, he, hm⟩
  · exact .inl (.inl hm)
  · rw [hc.trace] at he
    rcases List.mem_cons.mp he with rfl | he
    · exact .inr hm
    · exact .inl (.inr ⟨e, he, hm⟩)

/-- A row there is after a command, by where it comes from. -/
theorem row_called (h : s.world.db.Linked)
    (hc : Called machine s s' i fate task command next reply)
    (hm : m ∈ s'.world.db.emailMessages) :
    (∃ row ∈ s.world.db.emailMessages, SameMessage row m) ∨ s.world.db.nextId ≤ m.id := by
  obtain ⟨-, -, hdb | ⟨c, -, -, hdb⟩⟩ := perform_cases hc.perform
  · rw [hdb] at hm
    exact .inl ⟨m, hm, .refl m⟩
  · rw [hdb] at hm
    rcases row_origin h.sound hm with ⟨row, hrow, hleft⟩ | ⟨hnew, -⟩
    · exact .inl ⟨row, hrow, Call.onRow_same hleft⟩
    · exact .inr hnew

theorem Attested.call (h : Attested env world s) (hkeeping : Keeping env world s')
    (hs : Pool.step machine (Task.run env) s (.call i fate) = some s')
    (hc : Called machine s s' i fate task command next reply) : Attested env world s' := by
  have hnext : s.world.db.nextId ≤ s'.world.db.nextId := by
    obtain ⟨-, -, hdb | ⟨c, -, -, hdb⟩⟩ := perform_cases hc.perform
    · exact Nat.le_of_eq (congrArg Database.nextId hdb.symm)
    · rw [hdb]
      exact nextId_serve
  -- a row of now and a row of before are of one message if their ids are one
  have hsame : ∀ {m m' : EmailMessage}, m ∈ s'.world.db.emailMessages → s.Seen world m' →
      m'.id = m.id → SameMessage m' m := by
    intro m m' hm hm' hid
    rcases row_called h.keeping.tables hc hm with ⟨row, hrow, hleft⟩ | hnew
    · exact (h.same m' row hm' (h.current row hrow) (hid ▸ hleft.id.symm)).trans hleft
    · have hlt := h.below m' hm'
      omega
  have hcurrent : ∀ row ∈ s'.world.db.emailMessages, s'.Seen world row := fun row hrow =>
    .inr ⟨_, hc.trace ▸ List.mem_cons_self, hrow⟩
  refine ⟨hkeeping, h.told.step (told_run env) (fun _ _ _ _ _ _ => credible_of_perform) hs,
    h.handing.step (hands_run env) (fun _ _ _ _ _ _ => credible_of_perform) hs, hcurrent,
    fun e he row hrow => ?_, fun m hm => ?_, fun m m' hm hm' hid => ?_,
    fun j cycle index m ht => ?_⟩
  · rw [hc.trace] at he
    rcases List.mem_cons.mp he with rfl | he
    · exact seen_call hc (h.current row hrow)
    · exact seen_call hc (h.before e he row hrow)
  · rcases seen_of_call hc hm with hold | hnow
    · exact Nat.lt_of_lt_of_le (h.below m hold) hnext
    · exact hkeeping.tables.below m hnow
  · rcases seen_of_call hc hm with hold | hnow
    · rcases seen_of_call hc hm' with hold' | hnow'
      · exact h.same m m' hold hold' hid
      · exact hsame hnow' hold hid.symm
    · rcases seen_of_call hc hm' with hold' | hnow'
      · exact (hsame hnow hold' hid).symm
      · have hrow := hkeeping.tables.sound.message?_of_mem hnow
        rw [← hid, hkeeping.tables.sound.message?_of_mem hnow'] at hrow
        obtain rfl := Option.some.inj hrow
        exact .refl m'
  · rw [hc.task] at ht
    exact seen_call hc (h.deliveries j cycle index m ht)

end Call

theorem attested_step (hs : System.step env s l = some s') (h : Attested env world s) :
    Attested env world s' := by
  have hkeeping := keeping_step hs h.keeping
  obtain ⟨hbegins, hs⟩ := step_eq_some hs
  have htold := h.told.step (told_run env) (fun _ _ _ _ _ _ => credible_of_perform) hs
  have hhanding := h.handing.step (hands_run env) (fun _ _ _ _ _ _ => credible_of_perform) hs
  cases l with
  | spawn task =>
    obtain rfl : { s with threads := s.threads ++ [⟨task, task.run env⟩] } = s' := Option.some.inj hs
    refine ⟨hkeeping, htold, hhanding, h.current, h.before, h.below, h.same,
      fun i cycle index m ht => ?_⟩
    rcases task_spawn ht with hold | ⟨-, rfl⟩
    · exact h.deliveries i cycle index m hold
    · obtain ⟨-, -, hget, -⟩ := hbegins
      exact h.seen_of_batch (List.mem_of_getElem? hget)
  | call i fate =>
    obtain ⟨task, command, next, reply, hc⟩ := Foundations.called_of_call hs
    exact h.call hkeeping hs hc
  | move move =>
    obtain ⟨later, hw, rfl⟩ := Option.map_eq_some_iff.mp hs
    have hdb := (world_of_move hw).1
    refine ⟨hkeeping, htold, hhanding, fun row hrow => ?_, h.before, fun m hm => ?_, h.same,
      h.deliveries⟩
    · have hrow : row ∈ later.db.emailMessages := hrow
      rw [hdb] at hrow
      exact h.current row hrow
    · show m.id < later.db.nextId
      rw [hdb]
      exact h.below m hm

end Seen

/-! ## What Resend is asked for -/

section Wire

variable {resend : Resend} {wire : Wire resend} {m m' : EmailMessage} {seen : EmailMessage → Prop}

/-- One message is handed over in one way. -/
theorem SameMessage.request (h : SameMessage m m') :
    ResendProvider.request (outbound env m') = ResendProvider.request (outbound env m) := by
  have hpayload := h.payload
  unfold EmailMessage.payload at hpayload
  simp only [SendEmailInput.mk.injEq] at hpayload
  obtain ⟨hrecipient, hsubject, hbody, hbodyType, -⟩ := hpayload
  unfold outbound
  rw [h.id, hrecipient, hsubject, hbody, hbodyType]

theorem Mail.Carries.same {mail : Mail} (h : mail.Carries env m) (hs : SameMessage m m') :
    mail.Carries env m' :=
  Eq.trans h hs.request.symm

/-- What Resend has, or may still get, is of messages there are. -/
structure Wire.Orderly (env : Env) (seen : EmailMessage → Prop) (wire : Wire resend) : Prop where
  underWay : ∀ request ∈ wire.underWay, ∃ m, seen m ∧
    request = ResendProvider.request (outbound env m)
  mails : ∀ mail ∈ wire.mails, ∃ m, seen m ∧ mail.Carries env m

theorem Wire.Orderly.mono (h : wire.Orderly env seen) {seen' : EmailMessage → Prop}
    (hseen : ∀ m, seen m → seen' m) : wire.Orderly env seen' where
  underWay request hrequest := by
    obtain ⟨m, hm, he⟩ := h.underWay request hrequest
    exact ⟨m, hseen m hm, he⟩
  mails mail hmail := by
    obtain ⟨m, hm, he⟩ := h.mails mail hmail
    exact ⟨m, hseen m hm, he⟩

/-- A key is the key of one message, so it is never asked for with two contents. -/
theorem Wire.Orderly.repeatable (h : wire.Orderly env seen)
    (hsame : ∀ m m', seen m → seen m' → m'.id = m.id → SameMessage m m') {mail : Mail}
    (hmail : mail ∈ wire.mails) {request : ResendRequest}
    (hrequest : request ∈ wire.underWay ++ wire.mails.map (·.request))
    (hkey : request.idempotencyKey = mail.request.idempotencyKey) : request = mail.request := by
  obtain ⟨m, hm, hcarries⟩ := h.mails mail hmail
  have hof : ∃ m', seen m' ∧ request = ResendProvider.request (outbound env m') := by
    rcases List.mem_append.mp hrequest with hway | hmailed
    · exact h.underWay request hway
    · obtain ⟨other, hother, rfl⟩ := List.mem_map.mp hmailed
      exact h.mails other hother
  obtain ⟨m', hm', rfl⟩ := hof
  rw [hcarries] at hkey ⊢
  have hid : m'.id = m.id := hkey
  exact (hsame m m' hm hm' hid).request

/-- What becomes of a request that arrives. -/
structure Wire.Taken (env : Env) (seen : EmailMessage → Prop) (wire : Wire resend)
    (request : ResendRequest) (response : ResendResponse) (wire' : Wire resend) : Prop where
  orderly : wire'.Orderly env seen
  kept : ∀ mail ∈ wire.mails, mail ∈ wire'.mails
  /-- A mail that is named is the mail that is asked for. -/
  named : ∀ id, ResendProvider.mailId? response = some id →
    ∃ mail ∈ wire'.mails, mail.id = id ∧ mail.request = request

theorem Wire.Orderly.post (hresend : resend.Documented) (h : wire.Orderly env seen)
    (hsame : ∀ m m', seen m → seen m' → m'.id = m.id → SameMessage m m') (hm : seen m)
    (choice : resend.Choice) (now : Nat) :
    wire.Taken env seen (ResendProvider.request (outbound env m))
      (wire.post choice now (ResendProvider.request (outbound env m))).1
      (wire.post choice now (ResendProvider.request (outbound env m))).2 := by
  have hmails : ∀ mail ∈ (wire.post choice now (ResendProvider.request (outbound env m))).2.mails,
      ∃ m, seen m ∧ mail.Carries env m := by
    intro mail hmail
    rcases hresend.asked choice now _ wire.state mail hmail with hold | hnew
    · exact h.mails mail hold
    · exact ⟨m, hm, hnew⟩
  refine ⟨⟨h.underWay, hmails⟩, hresend.keeps choice now _ wire.state, fun id hid => ?_⟩
  obtain ⟨mail, hmail, hnamed, hkey⟩ := hresend.names choice now _ wire.state id hid
  obtain ⟨m', hm', hcarries⟩ := hmails mail hmail
  -- the mail is of a message with the key of this one, so it is of this one
  rw [hcarries] at hkey
  have hone : m'.id = m.id := hkey
  exact ⟨mail, hmail, hnamed, hcarries.same (hsame m m' hm hm' hone).symm⟩

/-- A request that is not waited for any more. -/
theorem Wire.Orderly.giveUp (h : wire.Orderly env seen) (hm : seen m) :
    (wire.giveUp (ResendProvider.request (outbound env m))).Orderly env seen where
  underWay request hrequest := by
    rcases List.mem_cons.mp hrequest with rfl | hold
    · exact ⟨m, hm, rfl⟩
    · exact h.underWay request hold
  mails := h.mails

/-- A response is accepted by the id it has. -/
theorem send_accepted {response : ResendResponse} {provider id : String}
    (h : ResendProvider.send (.ok response) = .accepted provider id) :
    ResendProvider.mailId? response = some id := by
  unfold ResendProvider.send at h
  dsimp only at h
  split at h
  · rename_i id' hid
    obtain ⟨-, rfl⟩ := SendOutcome.accepted.inj h
    exact hid
  · cases h

/-- What becomes of a message that is handed over. -/
theorem handOver_taken (hresend : resend.Documented) {w : Mailing resend} {fate : MailFate resend}
    {outcome : SendOutcome} {wire' : Wire resend} (h : w.wire.Orderly env seen)
    (hsame : ∀ m m', seen m → seen m' → m'.id = m.id → SameMessage m m') (hm : seen m)
    (hover : w.handOver (outbound env m) fate = some (outcome, wire')) :
    wire'.Orderly env seen ∧ (∀ mail ∈ w.wire.mails, mail ∈ wire'.mails) ∧
      ∀ provider id, outcome = .accepted provider id →
        ∃ mail ∈ wire'.mails, mail.id = id ∧ mail.Carries env m := by
  cases fate with
  | here fate => cases hover
  | posted choice =>
    have htaken := h.post hresend hsame hm choice w.outbox.now
    obtain ⟨rfl, rfl⟩ := Prod.mk.inj (Option.some.inj hover)
    exact ⟨htaken.orderly, htaken.kept, fun provider id he => htaken.named id (send_accepted he)⟩
  | answered response =>
    unfold Mailing.handOver at hover
    dsimp only at hover
    split at hover
    · rename_i hnone
      obtain ⟨rfl, rfl⟩ := Prod.mk.inj (Option.some.inj hover)
      refine ⟨h.giveUp hm, fun _ hold => hold, fun provider id he => ?_⟩
      rw [send_accepted he] at hnone
      cases hnone
    · cases hover
  | unheard error =>
    obtain ⟨rfl, rfl⟩ := Prod.mk.inj (Option.some.inj hover)
    exact ⟨h.giveUp hm, fun _ hold => hold, fun provider id he => by cases he⟩

end Wire

/-! ## The service beside Resend -/

section Mailing

variable {resend : Resend} {t t' : MailSystem resend}

theorem performHere_eq_some {i : Nat} {fate : MailFate resend} {command : Command}
    {w w' : Mailing resend} {reply : command.Reply} (h : w.performHere i fate command = some (reply, w')) :
    (∃ fate', machine.perform i fate' command w.outbox = some (reply, w'.outbox)) ∧
      w'.wire = w.wire := by
  unfold Mailing.performHere at h
  split at h
  · rename_i fate
    obtain ⟨⟨reply', outbox⟩, hp, he⟩ := Option.map_eq_some_iff.mp h
    obtain ⟨rfl, rfl⟩ := Prod.mk.inj he
    exact ⟨⟨_, hp⟩, rfl⟩
  · cases h
  · cases h
  · cases h

/-- A command, as the service performs it alone and as it leaves Resend. -/
theorem mailing_perform {i : Nat} {fate : MailFate resend} {command : Command}
    {w w' : Mailing resend} {reply : command.Reply}
    (h : (mailMachine resend).perform i fate command w = some (reply, w')) :
    (∃ fate', machine.perform i fate' command w.outbox = some (reply, w'.outbox)) ∧
      ((w'.wire = w.wire ∧ ∀ message, command ≠ .send message) ∨
        ∃ message outcome, w.handOver message fate = some (outcome, w'.wire) ∧
          (⟨command, reply⟩ : (command : Command) × command.Reply) = ⟨.send message, outcome⟩) := by
  cases command with
  | send message =>
    obtain ⟨⟨outcome, wire⟩, hover, h⟩ := Option.bind_eq_some_iff.mp h
    obtain ⟨⟨reply', outbox⟩, hp, he⟩ := Option.map_eq_some_iff.mp h
    obtain ⟨rfl, rfl⟩ := Prod.mk.inj he
    refine ⟨⟨.sending outcome, hp⟩, .inr ⟨message, outcome, hover, ?_⟩⟩
    unfold machine at hp
    dsimp only at hp
    split at hp
    · cases hp
    · cases hp
      rfl
  | repository c =>
    obtain ⟨hp, he⟩ := performHere_eq_some h
    exact ⟨hp, .inl ⟨he, by simp⟩⟩
  | now =>
    obtain ⟨hp, he⟩ := performHere_eq_some h
    exact ⟨hp, .inl ⟨he, by simp⟩⟩
  | random =>
    obtain ⟨hp, he⟩ := performHere_eq_some h
    exact ⟨hp, .inl ⟨he, by simp⟩⟩

theorem extends_outbox : Extends (mailMachine resend) machine Mailing.outbox where
  perform _ _ _ _ _ _ h := (mailing_perform h).1
  move m w w' h := by
    cases m with
    | here move =>
      obtain ⟨outbox, hw, rfl⟩ := Option.map_eq_some_iff.mp h
      exact .inr ⟨move, hw⟩
    | late request choice =>
      have h : (if request ∈ w.wire.underWay then _ else none) = some w' := h
      split at h
      · obtain rfl := Option.some.inj h
        exact .inl rfl
      · cases h

/-- A step of the two is a step of the service, or does not show there. -/
theorem service_step {l : MailLabel resend} (h : MailSystem.step env t l = some t') :
    t'.service = t.service ∨ ∃ l', System.step env t.service l' = some t'.service := by
  unfold MailSystem.step at h
  split at h
  · rename_i hbegins
    rcases Foundations.pool_step_cases h with ⟨task, rfl, rfl⟩ |
      ⟨i, fate, task, command, next, reply, rfl, hc⟩ | ⟨move, world, rfl, hmove, rfl⟩
    · have hbegins : System.Begins env t.service (.spawn task) := hbegins
      exact .inr ⟨.spawn task, if_pos hbegins⟩
    · obtain ⟨fate', hc'⟩ := hc.over extends_outbox
      have hstep : System.step env t.service (.call i fate') =
          Pool.step machine (Task.run env) t.service (.call i fate') := if_pos trivial
      exact .inr ⟨.call i fate', hstep.trans (Foundations.call_of_called hc')⟩
    · rcases extends_outbox.move _ _ _ hmove with hsame | ⟨move', hmove'⟩
      · refine .inl ?_
        unfold MailSystem.service Pool.over
        dsimp only
        rw [hsame]
      · have hstep : System.step env t.service (.move move') =
            Pool.step machine (Task.run env) t.service (.move move') := if_pos trivial
        refine .inr ⟨.move move', hstep.trans ?_⟩
        show (machine.move move' t.world.outbox).map _ = _
        rw [hmove']
        rfl
  · cases h

/-- What every step preserves. -/
structure Posting (env : Env) (world : World) (t : MailSystem resend) : Prop where
  service : Attested env world t.service
  orderly : t.world.wire.Orderly env (t.service.Seen world)
  /-- A delivery is told of a mail there is. -/
  taken : ∀ e ∈ t.service.trace, ∀ m provider id,
    e.told = ⟨.send (outbound env m), .accepted provider id⟩ →
      ∃ mail ∈ t.world.wire.mails, mail.id = id ∧ mail.Carries env m
  sent : ∀ m, t.service.Seen world m → m.status = .SENT →
    ∃ mail ∈ t.world.wire.mails, mail.Carries env m ∧ m.providerMessageId = some mail.id

theorem posting_start (h : world.db.Linked)
    (hnew : ∀ row ∈ world.db.emailMessages, row.status ≠ .SENT) {state : resend.State}
    (hempty : resend.mails state = []) :
    Posting env world (Pool.start { outbox := world, wire := { state } } : MailSystem resend) where
  service := attested_start h
  orderly := by
    refine ⟨fun _ h => absurd h List.not_mem_nil, fun mail hmail => ?_⟩
    have hmail : mail ∈ resend.mails state := hmail
    rw [hempty] at hmail
    cases hmail
  taken e he := absurd he List.not_mem_nil
  sent m hm hsent := by
    rcases hm with hm | ⟨e, he, -⟩
    · exact absurd hsent (hnew m hm)
    · cases he

section Call

variable {i : Nat} {fate : MailFate resend} {task : Task} {command : Command}
  {next : command.Reply → Code} {reply : command.Reply}

/-- What is called sent after a command was called so before, or a delivery has just been told. -/
theorem Posting.sent_call (h : Posting env world t) {fate' : Fate}
    (hc : Called machine t.service t'.service i fate' task command next reply)
    (hkept : ∀ mail ∈ t.world.wire.mails, mail ∈ t'.world.wire.mails) {m : EmailMessage}
    (hm : t'.service.Seen world m) (hsent : m.status = .SENT) :
    ∃ mail ∈ t'.world.wire.mails, mail.Carries env m ∧ m.providerMessageId = some mail.id := by
  have hbefore : ∀ {m : EmailMessage}, t.service.Seen world m → m.status = .SENT →
      ∃ mail ∈ t'.world.wire.mails, mail.Carries env m ∧ m.providerMessageId = some mail.id := by
    intro m hm hsent
    obtain ⟨mail, hmail, hcarries⟩ := h.sent m hm hsent
    exact ⟨mail, hkept mail hmail, hcarries⟩
  rcases seen_of_call hc hm with hold | hrow
  · exact hbefore hold hsent
  · obtain ⟨-, -, hdb | ⟨c, rfl, -, hdb⟩⟩ := perform_cases hc.perform
    · rw [hdb] at hrow
      exact hbefore (h.service.current m hrow) hsent
    · rw [hdb] at hrow
      rcases row_origin h.service.keeping.tables.sound hrow with ⟨row, hmem, hleft⟩ | ⟨-, hpending⟩
      · have hsame := Call.onRow_same hleft
        have hseen := h.service.current row hmem
        rcases onRow_sent hleft hsent with ⟨hwas, hid⟩ | ⟨provider, id, now, rfl, hid⟩
        · obtain ⟨mail, hmail, hcarries, hnamed⟩ := hbefore hseen hwas
          exact ⟨mail, hmail, hcarries.same hsame, hid.trans hnamed⟩
        · -- the delivery was told of a mail of its message, which is the message of the row
          obtain ⟨cycle, index, m₀, htask, hrowId, htold⟩ :=
            (h.service.handing.allowed hc.thread).2 row.id provider id now rfl
          obtain ⟨e, he, -, htold⟩ := Foundations.mem_pastOf htold
          obtain ⟨mail, hmail, rfl, hcarries⟩ := h.taken e he m₀ provider id htold
          have hdelivered := h.service.deliveries i cycle index m₀ (htask ▸ hc.task_self)
          have hone := h.service.same m₀ row hdelivered hseen hrowId
          exact ⟨mail, hkept mail hmail, (hcarries.same hone).same hsame, hid⟩
      · rw [hpending] at hsent
        cases hsent

theorem Posting.call (hresend : resend.Documented) (h : Posting env world t)
    (hservice : Attested env world t'.service)
    (hc : Called (mailMachine resend) t t' i fate task command next reply) :
    Posting env world t' := by
  obtain ⟨fate', hc'⟩ := hc.over extends_outbox
  have hseen : ∀ m, t.service.Seen world m → t'.service.Seen world m := fun m => seen_call hc'
  have htrace : t'.service.trace = ⟨i, command, reply, t.world.outbox, t'.world.outbox⟩ ::
      t.service.trace := hc'.trace
  -- what becomes of Resend, and what the thread is told of it
  have hwire : t'.world.wire.Orderly env (t.service.Seen world) ∧
      (∀ mail ∈ t.world.wire.mails, mail ∈ t'.world.wire.mails) ∧
      ∀ m provider id, (⟨command, reply⟩ : (command : Command) × command.Reply) =
          ⟨.send (outbound env m), .accepted provider id⟩ →
        ∃ mail ∈ t'.world.wire.mails, mail.id = id ∧ mail.Carries env m := by
    rcases (mailing_perform hc.perform).2 with ⟨he, hno⟩ | ⟨message, outcome, hover, htold⟩
    · rw [he]
      refine ⟨h.orderly, fun _ hold => hold, fun m provider id htold => ?_⟩
      exact absurd (congrArg Sigma.fst htold) (hno _)
    · have hcommand : command = .send message := congrArg Sigma.fst htold
      obtain ⟨cycle, index, m, htask, rfl⟩ :=
        (h.service.handing.allowed hc'.thread).1 message hcommand
      have hm := h.service.deliveries i cycle index m (htask ▸ hc'.task_self)
      obtain ⟨horderly, hkept, htaken⟩ := handOver_taken hresend h.orderly h.service.same hm hover
      refine ⟨horderly, hkept, fun m' provider id htold' => ?_⟩
      rw [htold] at htold'
      obtain ⟨hsend, houtcome⟩ := Sigma.mk.inj htold'
      obtain ⟨mail, hmail, hid, hcarries⟩ := htaken provider id (eq_of_heq houtcome)
      refine ⟨mail, hmail, hid, hcarries.trans ?_⟩
      exact congrArg ResendProvider.request (Command.send.inj hsend)
  obtain ⟨horderly, hkept, htaken⟩ := hwire
  refine ⟨hservice, horderly.mono hseen, fun e he m provider id htold => ?_,
    fun m hm hsent => h.sent_call hc' hkept hm hsent⟩
  rw [htrace] at he
  rcases List.mem_cons.mp he with rfl | he
  · exact htaken m provider id htold
  · obtain ⟨mail, hmail, hmailed⟩ := h.taken e he m provider id htold
    exact ⟨mail, hkept mail hmail, hmailed⟩

end Call

theorem posting_step (hresend : resend.Documented) {l : MailLabel resend}
    (hs : MailSystem.step env t l = some t') (h : Posting env world t) : Posting env world t' := by
  have hservice : Attested env world t'.service := by
    rcases service_step hs with he | ⟨l', hl'⟩
    · rw [he]
      exact h.service
    · exact attested_step hl' h.service
  unfold MailSystem.step at hs
  split at hs
  · rcases Foundations.pool_step_cases hs with ⟨task, rfl, rfl⟩ |
      ⟨i, fate, task, command, next, reply, rfl, hc⟩ | ⟨move, world', rfl, hmove, rfl⟩
    · exact ⟨hservice, h.orderly, h.taken, h.sent⟩
    · exact h.call hresend hservice hc
    · cases move with
      | here move =>
        obtain ⟨outbox, -, rfl⟩ := Option.map_eq_some_iff.mp hmove
        exact ⟨hservice, h.orderly, h.taken, h.sent⟩
      | late request choice =>
        have hmove : (if request ∈ t.world.wire.underWay then _ else none) = some world' := hmove
        split at hmove
        · rename_i hrequest
          obtain rfl := Option.some.inj hmove
          obtain ⟨m, hm, rfl⟩ := h.orderly.underWay request hrequest
          have herased : Wire.Orderly env (t.service.Seen world)
              { t.world.wire with
                underWay := t.world.wire.underWay.erase (ResendProvider.request (outbound env m)) } :=
            ⟨fun request hmem => h.orderly.underWay request (List.mem_of_mem_erase hmem),
              h.orderly.mails⟩
          have htaken := herased.post hresend h.service.same hm choice t.world.outbox.now
          refine ⟨hservice, htaken.orderly, fun e he m provider id htold => ?_,
            fun m hm hsent => ?_⟩
          · obtain ⟨mail, hmail, hmailed⟩ := h.taken e he m provider id htold
            exact ⟨mail, htaken.kept mail hmail, hmailed⟩
          · obtain ⟨mail, hmail, hmailed⟩ := h.sent m hm hsent
            exact ⟨mail, htaken.kept mail hmail, hmailed⟩
        · cases hmove
  · cases hs

/-- Whatever becomes of the requests to Resend, and whoever repeats them: what was accepted is mailed
as it was accepted, or waits in the outbox; what is called sent was mailed; and a key is asked for with
one content. -/
theorem outbox_posts (env : Env) {resend : Resend} (hresend : resend.Documented) {world : World}
    (hlinked : world.db.Linked) (hnew : ∀ row ∈ world.db.emailMessages, row.status ≠ .SENT)
    {state : resend.State} (hempty : resend.mails state = []) {ls : List (MailLabel resend)}
    {t : MailSystem resend}
    (hrun : runs (MailSystem.step env) (Pool.start { outbox := world, wire := { state } }) ls =
      some t) : Posted env world t := by
  have h : Posting env world t := Foundations.invariant_of_steps
    (fun _ _ _ hs hp => posting_step hresend hs hp) hrun (posting_start hlinked hnew hempty)
  have hcurrent := h.service.current
  refine ⟨fun i result hr => ?_, fun row hrow hsent => h.sent row (hcurrent row hrow) hsent,
    h.orderly.mails,
    fun mail hmail request hrequest hkey =>
      h.orderly.repeatable h.service.same hmail hrequest hkey⟩
  have hr : t.service.result i = some (.enqueued (.ok result)) := hr
  obtain ⟨task, ht⟩ := Foundations.result_eq_some hr
  obtain ⟨x, hx, hstored⟩ := h.service.keeping.recounted.returned ht result rfl
  obtain ⟨e, he, -, rfl⟩ := Foundations.mem_pastOf hx
  obtain ⟨fate, hp⟩ := h.service.keeping.performed e he
  rcases h.service.keeping.rows _ (.inr ⟨e, he, mem_of_stored hp hstored⟩) with
    ⟨row, hrow, hsame⟩ | ⟨e', he', row, hbefore, hsame, hexpired, -⟩
  · by_cases hsent : row.status = .SENT
    · obtain ⟨mail, hmail, hcarries, -⟩ := h.sent row (hcurrent row hrow) hsent
      exact .inl ⟨mail, hmail, hcarries.same hsame.symm⟩
    · exact .inr ⟨row, hrow, hsame, hsent⟩
  · have hseen := h.service.before e' he' row (mem_of_message? hbefore).1
    obtain ⟨mail, hmail, hcarries, -⟩ := h.sent row hseen hexpired.sent
    exact .inl ⟨mail, hmail, hcarries.same hsame.symm⟩

/-- Resend as it is documented to be: a key is taken once in a day, a request that repeats it is
answered with the mail there is, and one that repeats it for something else is refused. -/
def takeDaily (id : String) (now : Nat) (request : ResendRequest) (taken : List (Nat × Mail)) :
    ResendResponse × List (Nat × Mail) :=
  match taken.find? fun (at_, mail) =>
      mail.request.idempotencyKey = request.idempotencyKey ∧ now < at_ + MS_PER_DAY with
  | some (_, mail) =>
    if mail.request = request then ({ status := 200, id := some mail.id, statusText := "OK" }, taken)
    else
      ({ status := 409, name := some "invalid_idempotent_request", statusText := "Conflict" }, taken)
  | none =>
    ({ status := 200, id := some id, statusText := "OK" }, (now, { id, request }) :: taken)

def dailyResend : Resend where
  State := List (Nat × Mail)
  Choice := String
  mails := List.map (·.2)
  post := takeDaily

/-- A request is answered with the mail there is, or refused, or it is a new mail. -/
theorem takeDaily_cases (id : String) (now : Nat) (request : ResendRequest)
    (taken : List (Nat × Mail)) :
    (∃ at_ mail, (at_, mail) ∈ taken ∧ mail.request = request ∧
      takeDaily id now request taken =
        ({ status := 200, id := some mail.id, statusText := "OK" }, taken)) ∨
    (∃ response, ResendProvider.mailId? response = none ∧
      takeDaily id now request taken = (response, taken)) ∨
    takeDaily id now request taken =
      ({ status := 200, id := some id, statusText := "OK" }, (now, { id, request }) :: taken) := by
  unfold takeDaily
  split
  · rename_i at_ mail hfound
    by_cases hrequest : mail.request = request
    · rw [if_pos hrequest]
      exact .inl ⟨at_, mail, List.mem_of_find?_eq_some hfound, hrequest, rfl⟩
    · rw [if_neg hrequest]
      exact .inr (.inl ⟨_, rfl, rfl⟩)
  · exact .inr (.inr rfl)

theorem mailId?_ok {id id' statusText : String}
    (h : ResendProvider.mailId? { status := 200, id := some id, statusText } = some id') :
    id = id' := by
  unfold ResendProvider.mailId? at h
  rw [if_pos (by simp)] at h
  exact Option.some.inj (Option.filter_eq_some_iff.mp h).1

theorem documented_dailyResend : dailyResend.Documented where
  keeps := by
    intro id now request (taken : List (Nat × Mail)) mail hmail
    show mail ∈ (takeDaily id now request taken).2.map (·.2)
    rcases takeDaily_cases id now request taken with ⟨at_, old, -, -, he⟩ | ⟨response, -, he⟩ | he
    · rw [he]
      exact hmail
    · rw [he]
      exact hmail
    · rw [he]
      exact List.mem_cons_of_mem _ hmail
  asked := by
    intro id now request (taken : List (Nat × Mail)) mail hmail
    have hmail : mail ∈ (takeDaily id now request taken).2.map (·.2) := hmail
    rcases takeDaily_cases id now request taken with ⟨at_, old, -, -, he⟩ | ⟨response, -, he⟩ | he
    · rw [he] at hmail
      exact .inl hmail
    · rw [he] at hmail
      exact .inl hmail
    · rw [he] at hmail
      rcases List.mem_cons.mp hmail with rfl | hold
      · exact .inr rfl
      · exact .inl hold
  names := by
    intro id now request (taken : List (Nat × Mail)) id' hid
    have hid : ResendProvider.mailId? (takeDaily id now request taken).1 = some id' := hid
    show ∃ mail ∈ (takeDaily id now request taken).2.map (·.2), _
    rcases takeDaily_cases id now request taken with ⟨at_, old, hold, hrequest, he⟩ |
      ⟨response, hno, he⟩ | he
    · rw [he] at hid ⊢
      exact ⟨old, List.mem_map.mpr ⟨_, hold, rfl⟩, mailId?_ok hid, congrArg _ hrequest⟩
    · rw [he, hno] at hid
      cases hid
    · rw [he] at hid ⊢
      exact ⟨_, List.mem_cons_self, mailId?_ok hid, rfl⟩

/-- A mail is taken late and asked for again: the first request is not answered in time, arrives when
nobody waits for it, and its message is handed over once more. -/
def mailedLate : List (MailLabel dailyResend) :=
  [.spawn (.enqueue greeting none), .call 0 (.here .served), .spawn (.runOnce "a")] ++
    List.replicate 4 (.call 1 (.here .served)) ++
    [.spawn (.deliver 1 0 (claimedBy "a" 0 1)), .call 2 (.unheard (some "timeout")),
      .call 2 (.here .served), .call 2 (.here (.drawn 0)), .call 2 (.here .served),
      .move (.late (ResendProvider.request (outbound sampleEnv welcome)) "re_1"),
      .move (.here (.tick 2000)), .spawn (.runOnce "a")] ++
    List.replicate 4 (.call 3 (.here .served))

/-- The message as the second cycle read it back. -/
def claimedAgain : EmailMessage :=
  { claimedBy "a" 2000 2 with
    nextAttemptAt := 1000, lastError := some "Resend request failed: timeout" }

def mailedOnce : List (MailLabel dailyResend) :=
  mailedLate ++ [.spawn (.deliver 3 0 claimedAgain), .call 4 (.posted "re_2"),
    .call 4 (.here .served), .call 4 (.here .served)]

theorem outbox_posts_late :
    ∃ t, runs (MailSystem.step sampleEnv)
        (Pool.start { outbox := emptyWorld, wire := { state := [] } }) mailedOnce = some t ∧
      t.world.wire.mails.map (·.id) = ["re_1"] ∧
      t.world.outbox.db.emailMessages.map (·.providerMessageId) = [some "re_1"] ∧
      Posted sampleEnv emptyWorld t := by
  have hrun : (runs (MailSystem.step sampleEnv)
      (Pool.start { outbox := emptyWorld, wire := { state := [] } }) mailedOnce).any
      (fun t => t.world.wire.mails.map (·.id) = ["re_1"] ∧
        t.world.outbox.db.emailMessages.map (·.providerMessageId) = [some "re_1"]) = true := by
    decide +kernel
  obtain ⟨t, ht, hall⟩ := (Option.any_eq_true _ _).mp hrun
  obtain ⟨hmails, hrows⟩ := of_decide_eq_true hall
  have hlinked : emptyWorld.db.Linked := ⟨by decide, by decide, by decide, by decide⟩
  exact ⟨t, ht, hmails, hrows,
    outbox_posts sampleEnv documented_dailyResend hlinked (by decide) rfl ht⟩

end Mailing

end PracticalMicroservice.Email
