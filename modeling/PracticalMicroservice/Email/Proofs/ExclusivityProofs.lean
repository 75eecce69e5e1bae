import PracticalMicroservice.Email.Proofs.AttemptProofs
import PracticalMicroservice.Email.Proofs.FencingProofs
import PracticalMicroservice.Email.Proofs.ScheduleProofs

/-!
# Proofs: claims are exclusive while they outlast the work

A claim is known by its worker and its time, and told apart from every other; so what a cycle reads
back it has claimed itself. While the cycle is at work the claim is not stale yet, so no other takes
it over, and every delivery finds its row as it was read.
-/

namespace PracticalMicroservice.Email

open Foundations (Accounted AllSteps Called Performed Pool runs)
open PrismaEmailRepository (claimable findClaimed)

variable {env : Env} {claimMs : Nat} {s s' : System} {k k' : Clocked} {l : Label}

/-! ## Claims in the trace -/

theorem ClaimsRow.stands {e : Event} {id : Nat} (h : ClaimsRow e id) : Stands e :=
  ⟨h.1, .inr fun he => h.2 (congrArg (·.message? id) he)⟩

theorem stands_of_claimed {e : Event} {claim : String × Nat} (h : claimed? e.told = some claim) :
    Stands e :=
  ⟨claims_of_claimed h, .inl (Option.isSome_iff_exists.mpr ⟨claim, h⟩)⟩

/-- What a claim locks its rows with. -/
theorem lockedFor_of_claimed {e : Event} {workerId : String} {now : Nat}
    (h : claimed? e.told = some (workerId, now)) :
    e.command.lockedFor = (some workerId, some now) := by
  obtain ⟨thread, command, reply, before, after⟩ := e
  unfold Foundations.Event.told claimed? at h
  split at h
  · rename_i ids workerId' at_ claimTimeoutMs done heq
    cases heq
    cases h
    rfl
  · cases h

/-- A claim changes only rows it names. -/
theorem named_of_claimsRow {i : Nat} {fate : Fate} {ids : List Nat} {workerId : String}
    {now claimTimeoutMs id : Nat} {w w' : World}
    {reply : (Command.repository (.claimCandidates ids workerId now claimTimeoutMs)).Reply}
    (hp : machine.perform i fate
      (.repository (.claimCandidates ids workerId now claimTimeoutMs)) w = some (reply, w'))
    (hne : w'.db.message? id ≠ w.db.message? id) :
    ∃ row, w.db.message? id = some row ∧ claimable ids now claimTimeoutMs row = true := by
  obtain ⟨-, -, hdb | ⟨c, hcommand, -, hdb⟩⟩ := perform_cases hp
  · rw [hdb] at hne
    exact absurd rfl hne
  · cases hcommand
    have hafter : w'.db.message? id = (w.db.message? id).map fun m =>
        if claimable ids now claimTimeoutMs m then PrismaEmailRepository.lock workerId now m
        else m := by
      rw [hdb]
      exact message?_changeRows fun _ => rfl
    cases hrow : w.db.message? id with
    | none =>
      rw [hafter, hrow] at hne
      exact absurd rfl hne
    | some row =>
      refine ⟨row, rfl, ?_⟩
      by_contra hfree
      rw [hafter, hrow, Option.map_some, if_neg hfree] at hne
      exact hne rfl

/-- No thread claims twice. -/
theorem claims_once {tasks : Nat → Option Task} {trace : List Event}
    (h : Accounted tasks (Justified env) Credible trace) :
    trace.Pairwise fun e e' => e.command.claims = true → e'.command.claims = true →
      e'.thread ≠ e.thread := by
  induction trace with
  | nil => exact List.Pairwise.nil
  | cons e trace ih =>
    obtain ⟨⟨task, -, hj⟩, -, hrest⟩ := h
    refine List.Pairwise.cons (fun e' he' hclaims hclaims' hsame => ?_) (ih hrest)
    obtain ⟨ids, workerId, now, claimTimeoutMs, hcommand⟩ := claim_of_claims hclaims
    obtain ⟨-, -, -, hnone⟩ := hj.claims ids workerId now claimTimeoutMs hcommand
    have hpast := hnone e'.told (hsame ▸ Foundations.mem_pastOf_of_mem he')
    rw [show e'.told.1 = e'.command from rfl, hclaims'] at hpast
    cases hpast

/-- Members of a list that are told apart in pairs are one when they are not. -/
theorem eq_of_pairwise {α : Type} {R : α → α → Prop} {xs : List α} (h : xs.Pairwise R) {a b : α}
    (ha : a ∈ xs) (hb : b ∈ xs) (hab : ¬ R a b) (hba : ¬ R b a) : a = b := by
  induction xs with
  | nil => cases ha
  | cons x xs ih =>
    obtain ⟨hx, hrest⟩ := List.pairwise_cons.mp h
    rcases List.mem_cons.mp ha with rfl | ha'
    · rcases List.mem_cons.mp hb with rfl | hb
      · rfl
      · exact absurd (hx b hb) hab
    · rcases List.mem_cons.mp hb with rfl | hb'
      · exact absurd (hx a ha') hba
      · exact ih hrest ha' hb'

/-! ## What paced steps with claims told apart preserve -/

structure Owned (env : Env) (s : System) : Prop extends Orderly env s where
  performed : Performed machine s
  apart : s.trace.Pairwise fun e e' => Stands e → Stands e' →
    e.command.lockedFor ≠ e'.command.lockedFor
  backed : ∀ row ∈ s.world.db.emailMessages, row.status = .SENDING → Backed s.trace row
  /-- What a cycle has read goes back to a claim. -/
  read : ∀ cycle, ∀ message ∈ s.batch cycle,
    ∃ e ∈ s.trace, ClaimsRow e message.id ∧ e.command.lockedFor = message.lockedFor
  /-- Until a cycle has its batch, its claims are there to be read. -/
  unread : ∀ e ∈ s.trace, ∀ id, ClaimsRow e id → e.thread ∉ s.world.stopped →
    s.result e.thread = none → ∃ row, s.world.db.message? id = some row ∧
      row.status = .SENDING ∧ row.lockedFor = e.command.lockedFor
  whole : ∀ e ∈ s.trace, ∀ id, ClaimsRow e id → ∀ messages,
    s.result e.thread = some (.claimed (.ok messages)) →
    ∃ message ∈ messages, message.id = id ∧ message.lockedFor = e.command.lockedFor

theorem owned_start {world : World} (hs : world.db.Sound)
    (hfree : ∀ row ∈ world.db.emailMessages, row.status ≠ .SENDING) :
    Owned env (Pool.start world : System) where
  toOrderly := orderly_start hs
  performed := Foundations.performed_start
  apart := List.Pairwise.nil
  backed row hrow hsending := absurd hsending (hfree row hrow)
  read cycle message h := by simp [System.batch, Pool.result, Pool.start] at h
  unread _ he := nomatch he
  whole _ he := nomatch he

section Owned

/-- Two claims with one lock are one. -/
theorem Owned.claim_eq (h : Owned env s) {e e' : Event} (he : e ∈ s.trace) (he' : e' ∈ s.trace)
    (hs : Stands e) (hs' : Stands e') (hlock : e.command.lockedFor = e'.command.lockedFor) :
    e = e' :=
  eq_of_pairwise h.apart he he' (fun hne => hne hs hs' hlock) fun hne => hne hs' hs hlock.symm

/-- What a cycle has read it claimed, in the one claim it made. -/
theorem Owned.own (h : Owned env s) {cycle : Nat} {message : EmailMessage}
    (hm : message ∈ s.batch cycle) :
    ∃ e ∈ s.trace, e.thread = cycle ∧ ClaimsRow e message.id ∧
      e.command.lockedFor = message.lockedFor := by
  obtain ⟨e, he, hclaims, hlock⟩ := h.read cycle message hm
  obtain ⟨workerId, now, ⟨e₀, he₀, hcycle, hclaim⟩, hlocked, -⟩ :=
    (h.batches cycle _ (result_of_batch hm)).resolve_left (List.ne_nil_of_mem hm)
  obtain ⟨hby, hat⟩ := hlocked message hm
  have hsame : e = e₀ := by
    refine h.claim_eq he he₀ hclaims.stands (stands_of_claimed hclaim) ?_
    rw [hlock, lockedFor_of_claimed hclaim, EmailMessage.lockedFor, hby, hat]
  exact ⟨e, he, hsame ▸ hcycle, hclaims, hlock⟩

theorem Owned.once (h : Owned env s) {cycle cycle' : Nat} {message message' : EmailMessage}
    (hm : message ∈ s.batch cycle) (hm' : message' ∈ s.batch cycle')
    (hlock : message.lockedFor = message'.lockedFor) : cycle = cycle' := by
  obtain ⟨e, he, rfl, hclaims, hlocked⟩ := h.own hm
  obtain ⟨e', he', rfl, hclaims', hlocked'⟩ := h.own hm'
  rw [h.claim_eq he he' hclaims.stands hclaims'.stands (by rw [hlocked, hlocked', hlock])]

/-- What accounts for a claim: it names no more than a batch, and its time is one its thread was
told. -/
theorem Owned.justified (h : Owned env s) {e : Event} (he : e ∈ s.trace) {ids : List Nat}
    {workerId : String} {now claimTimeoutMs : Nat}
    (hcommand : e.command = .repository (.claimCandidates ids workerId now claimTimeoutMs)) :
    ids.length ≤ env.DISPATCHER_BATCH_SIZE ∧
      ∃ e' ∈ s.trace, e'.thread = e.thread ∧ clock? e'.told = some now := by
  obtain ⟨newer, older, ht⟩ := List.append_of_mem he
  obtain ⟨⟨task, -, hj⟩, -⟩ := h.recounted.accounted.split ht
  obtain ⟨hsize, -, ⟨x, hx, hclock⟩, -⟩ := hj.claims ids workerId now claimTimeoutMs hcommand
  obtain ⟨e', he', hthread, rfl⟩ := Foundations.mem_pastOf hx
  refine ⟨hsize, e', ?_, hthread, hclock⟩
  rw [ht]
  exact List.mem_append_right _ (List.mem_cons_of_mem _ he')

/-- A batch is no longer than what was asked for. -/
theorem Owned.size (h : Owned env s) (cycle : Nat) :
    (s.batch cycle).length ≤ env.DISPATCHER_BATCH_SIZE := by
  by_cases hne : s.batch cycle = []
  · rw [hne]
    exact Nat.zero_le _
  · obtain ⟨message, hm⟩ := List.exists_mem_of_ne_nil _ hne
    obtain ⟨workerId, now, ⟨e₀, he₀, hcycle, hclaim⟩, hlocked, hnodup⟩ :=
      (h.batches cycle _ (result_of_batch hm)).resolve_left hne
    obtain ⟨ids, workerId', now', claimTimeoutMs, hcommand⟩ :=
      claim_of_claims (claims_of_claimed hclaim : e₀.command.claims = true)
    obtain ⟨hsize, -⟩ := h.justified he₀ hcommand
    have hsubset : (s.batch cycle).map (·.id) ⊆ ids := by
      intro id hid
      obtain ⟨m, hmem, rfl⟩ := List.mem_map.mp hid
      obtain ⟨e, he, -, hclaims, hlock⟩ := h.own hmem
      obtain ⟨hby, hat⟩ := hlocked m hmem
      have hsame : e = e₀ := by
        refine h.claim_eq he he₀ hclaims.stands (stands_of_claimed hclaim) ?_
        rw [hlock, lockedFor_of_claimed hclaim, EmailMessage.lockedFor, hby, hat]
      subst hsame
      obtain ⟨fate, hp⟩ := h.performed e he
      obtain ⟨thread, command, reply, before, after⟩ := e
      obtain rfl : command = _ := hcommand
      obtain ⟨row, hrow, hfree⟩ := named_of_claimsRow hp hclaims.2
      obtain ⟨-, hid⟩ := mem_of_message? hrow
      unfold claimable at hfree
      rw [Bool.and_eq_true] at hfree
      exact hid ▸ of_decide_eq_true hfree.1
    have hle := (hnodup.subperm hsubset).length_le
    rw [List.length_map] at hle
    exact Nat.le_trans hle hsize

end Owned

theorem Owned.spawn {task : Task} (h : Owned env s) (ho : Orderly env s')
    (hs : Pool.step machine (Task.run env) s (.spawn task) = some s') : Owned env s' := by
  have hperformed := h.performed.step hs
  obtain rfl : { s with threads := s.threads ++ [⟨task, task.run env⟩] } = s' := Option.some.inj hs
  have hlt : ∀ e ∈ s.trace, e.thread < s.threads.length := by
    intro e he
    obtain ⟨task, ht⟩ := h.toBatched.known he
    exact lt_of_task ht
  refine ⟨ho, hperformed, h.apart, h.backed, fun cycle message hm => ?_,
    fun e he id hclaims hlive hout => ?_, fun e he id hclaims messages hr => ?_⟩
  · have hr := result_spawn_of_batch (List.ne_nil_of_mem hm) (result_of_batch hm)
    refine h.read cycle message ?_
    rw [batch_of_result hr]
    exact hm
  · rw [Foundations.result_spawn _ (hlt e he)] at hout
    exact h.unread e he id hclaims hlive hout
  · rw [Foundations.result_spawn _ (hlt e he)] at hr
    exact h.whole e he id hclaims messages hr

theorem Owned.move {m : Move} (h : Owned env s) (ho : Orderly env s')
    (hs : Pool.step machine (Task.run env) s (.move m) = some s') : Owned env s' := by
  have hperformed := h.performed.step hs
  obtain ⟨world, hw, rfl⟩ := Option.map_eq_some_iff.mp hs
  obtain ⟨hdb, hstopped⟩ := world_of_move hw
  refine ⟨ho, hperformed, h.apart, ?_, h.read, fun e he id hclaims hlive hout => ?_, h.whole⟩
  · show ∀ row ∈ world.db.emailMessages, _
    rw [hdb]
    exact h.backed
  · show ∃ row, world.db.message? id = some row ∧ _
    rw [hdb]
    exact h.unread e he id hclaims (fun hs => hlive (hstopped _ hs)) hout

section Call

variable {i : Nat} {fate : Fate} {task : Task} {command : Command} {next : command.Reply → Code}
  {reply : command.Reply}

/-- A claim that took effect or was answered is told apart from those before. -/
theorem Owned.apart_call (h : Owned env s) (hapart : s.Apart i fate command)
    (hcalled : Called machine s s' i fate task command next reply) :
    s'.trace.Pairwise fun e e' => Stands e → Stands e' →
      e.command.lockedFor ≠ e'.command.lockedFor := by
  rw [hcalled.trace]
  refine List.Pairwise.cons (fun e he hstands hstands' hlock => ?_) h.apart
  obtain ⟨ids, workerId, now, claimTimeoutMs, rfl⟩ := claim_of_claims hstands.1
  have heffect : fate.takesEffect = true := by
    rcases hstands.2 with hanswered | hchanged
    · obtain ⟨⟨workerId', now'⟩, hclaim⟩ := Option.isSome_iff_exists.mp hanswered
      obtain ⟨rfl, -⟩ := served_of_claimed hcalled.perform hclaim
      rfl
    · obtain ⟨-, -, hdb | ⟨c, -, heffect, -⟩⟩ := perform_cases hcalled.perform
      · exact absurd hdb hchanged
      · exact heffect
  exact hapart heffect e he hlock.symm hstands'

theorem Owned.read_call (h : Owned env s) (hb' : Batched env s')
    (hcalled : Called machine s s' i fate task command next reply) {cycle : Nat}
    {message : EmailMessage} (hm : message ∈ s'.batch cycle) :
    ∃ e ∈ s'.trace, ClaimsRow e message.id ∧ e.command.lockedFor = message.lockedFor := by
  have hmark : ∃ e ∈ s.trace, ClaimsRow e message.id ∧ e.command.lockedFor = message.lockedFor := by
    by_cases hci : cycle = i
    · subst hci
      obtain ⟨t, ht⟩ := Foundations.result_eq_some (result_of_batch hm)
      rw [hcalled.getElem?, if_pos rfl] at ht
      have hn : next reply = .done (.claimed (.ok (s'.batch cycle))) :=
        congrArg Foundations.Thread.program (Option.some.inj ht)
      rcases readBack_of_done hb'.recounted hcalled hn with ⟨hnil, -⟩ |
        ⟨workerId, now, hback, -, -⟩
      · exact absurd hnil (List.ne_nil_of_mem hm)
      · rw [hback] at hm
        obtain ⟨hmem, hheld⟩ := mem_findClaimed.mp hm
        unfold PrismaEmailRepository.heldBy at hheld
        rw [Bool.and_eq_true, Bool.and_eq_true] at hheld
        obtain ⟨e, he, hlock⟩ := h.backed message hmem (of_decide_eq_true hheld.1.1)
        obtain ⟨hsince, hclaims⟩ := List.mem_filter.mp he
        exact ⟨e, sinceRequeue_sublist.subset hsince, of_decide_eq_true hclaims, hlock⟩
    · rw [batch_congr (hcalled.result_of_ne hci)] at hm
      exact h.read cycle message hm
  obtain ⟨e, he, hclaims, hlock⟩ := hmark
  refine ⟨e, ?_, hclaims, hlock⟩
  rw [hcalled.trace]
  exact List.mem_cons_of_mem _ he

/-- What a cycle has claimed it reads back. -/
theorem Owned.whole_call (h : Owned env s) (hb' : Batched env s')
    (hcalled : Called machine s s' i fate task command next reply) {e : Event}
    (he : e ∈ s'.trace) {id : Nat} (hclaims : ClaimsRow e id) {messages : List EmailMessage}
    (hr : s'.result e.thread = some (.claimed (.ok messages))) :
    ∃ message ∈ messages, message.id = id ∧ message.lockedFor = e.command.lockedFor := by
  obtain ⟨hlive, -, -⟩ := perform_cases hcalled.perform
  by_cases hthread : e.thread = i
  · obtain ⟨t, ht⟩ := Foundations.result_eq_some hr
    rw [hcalled.getElem?, if_pos hthread] at ht
    have hn : next reply = .done (.claimed (.ok messages)) :=
      congrArg Foundations.Thread.program (Option.some.inj ht)
    rcases readBack_of_done hb'.recounted hcalled hn with ⟨-, hnone⟩ |
      ⟨workerId, now, hback, -, e₀, he₀, hthread₀, hclaim⟩
    · rw [ClaimsRow, hnone e he hthread] at hclaims
      exact absurd hclaims.1 (by simp)
    · have he₀' : e₀ ∈ s'.trace := by
        rw [hcalled.trace]
        exact List.mem_cons_of_mem _ he₀
      have honce := claims_once hb'.recounted.accounted
      have hsame : e = e₀ := eq_of_pairwise honce he he₀'
        (fun hne => hne hclaims.1 (claims_of_claimed hclaim) (hthread₀.trans hthread.symm))
        fun hne => hne (claims_of_claimed hclaim) hclaims.1 (hthread.trans hthread₀.symm)
      subst hsame
      have hout : s.result e.thread = none := by
        rw [hthread]
        exact hcalled.result_self
      obtain ⟨row, hrow, hsending, hlock⟩ := h.unread e he₀ id hclaims (hthread ▸ hlive) hout
      obtain ⟨hmem, hid⟩ := mem_of_message? hrow
      refine ⟨row, ?_, hid, hlock⟩
      rw [lockedFor_of_claimed hclaim] at hlock
      obtain ⟨hby, hat⟩ := Prod.mk.inj hlock
      rw [hback]
      refine mem_findClaimed.mpr ⟨hmem, ?_⟩
      simp [PrismaEmailRepository.heldBy, hsending, hby, hat]
  · rw [hcalled.result_of_ne hthread] at hr
    rw [hcalled.trace] at he
    rcases List.mem_cons.mp he with rfl | he
    · exact absurd rfl hthread
    · exact h.whole e he id hclaims messages hr

end Call

/-! ## Claims that are not stale -/

/-- A row locked not too long ago is not claimed. -/
theorem not_claimable_of_fresh {row : EmailMessage} {ids : List Nat} {now claimTimeoutMs at_ : Nat}
    (hsending : row.status = .SENDING) (hat : row.lockedAt = some at_)
    (hfresh : now ≤ at_ + claimTimeoutMs) : claimable ids now claimTimeoutMs row = false := by
  have hdue : PrismaEmailRepository.due now claimTimeoutMs row = false := by
    unfold PrismaEmailRepository.due
    rw [hsending, hat]
    have hstale : ¬ at_ < now - claimTimeoutMs := by omega
    simp [CLAIMABLE_STATUSES, hstale]
  unfold claimable
  rw [hdue, Bool.and_false]

structure Running (env : Env) (claimMs : Nat) (k : Clocked) : Prop where
  owned : Owned env k.system
  scheduled : Scheduled env claimMs k

section Running

/-- The time of a claim: after its cycle began, and no later than now. -/
theorem Running.claim_time (h : Running env claimMs k) {e : Event} (he : e ∈ k.system.trace)
    {id : Nat} (hclaims : ClaimsRow e id) :
    ∃ workerId at_, e.command.lockedFor = (some workerId, some at_) ∧
      ∀ began, k.began[e.thread]? = some began → began ≤ at_ := by
  obtain ⟨ids, workerId, at_, claimTimeoutMs, hcommand⟩ := claim_of_claims hclaims.1
  obtain ⟨-, e', he', hthread, hclock⟩ := h.owned.justified he hcommand
  refine ⟨workerId, at_, by rw [hcommand]; rfl, fun began hb => ?_⟩
  exact (h.scheduled.told e' he' at_ hclock).1 began (hthread ▸ hb)

/-- A claim about to be made is made at a time that has come, and goes by the settings. -/
theorem Running.claiming (h : Running env claimMs k) {i : Nat} {task : Task} {ids : List Nat}
    {workerId : String} {now claimTimeoutMs : Nat}
    {next : (Command.repository (.claimCandidates ids workerId now claimTimeoutMs)).Reply → Code}
    (ht : k.system.threads[i]? = some ⟨task, .perform _ next⟩) :
    now ≤ k.system.world.now ∧ claimTimeoutMs = env.DISPATCHER_CLAIM_TIMEOUT_MS := by
  obtain ⟨-, htimeout, ⟨x, hx, hclock⟩, -⟩ :=
    (h.owned.recounted.allowed ht).claims ids workerId now claimTimeoutMs rfl
  obtain ⟨e, he, -, rfl⟩ := Foundations.mem_pastOf hx
  exact ⟨(h.scheduled.told e he now hclock).2, htimeout⟩

variable
  (hfit : claimMs + env.rounds * env.EMAIL_PROVIDER_TIMEOUT_MS ≤ env.DISPATCHER_CLAIM_TIMEOUT_MS)

include hfit

/-- A claim that is still to be read back is not stale. -/
theorem Running.fresh_unread (h : Running env claimMs k) {e : Event} (he : e ∈ k.system.trace)
    {id : Nat} (hclaims : ClaimsRow e id) (hlive : e.thread ∉ k.system.world.stopped)
    (hout : k.system.result e.thread = none) :
    ∃ workerId at_, e.command.lockedFor = (some workerId, some at_) ∧
      k.system.world.now ≤ at_ + env.DISPATCHER_CLAIM_TIMEOUT_MS := by
  obtain ⟨workerId, at_, hlocked, hfrom⟩ := h.claim_time he hclaims
  obtain ⟨newer, older, ht⟩ := List.append_of_mem he
  obtain ⟨⟨task, htask, hj⟩, -⟩ := h.owned.recounted.accounted.split ht
  obtain ⟨workerId', rfl⟩ := runOnce_of_claims hj.does hclaims.1
  have hnext : (k.system.nextCommand e.thread).isSome := by
    obtain ⟨⟨t, program⟩, hget, -⟩ := Option.map_eq_some_iff.mp htask
    unfold Pool.result at hout
    unfold Pool.nextCommand
    rw [hget] at hout ⊢
    cases program with
    | perform command next => rfl
    | done a => cases hout
  have hib : e.thread < k.began.length := by
    rw [h.scheduled.length]
    exact lt_of_task htask
  have hget : k.began[e.thread]? = some k.began[e.thread] := List.getElem?_eq_getElem hib
  have htime := h.scheduled.onTime e.thread (lt_of_task htask) hlive hnext _ htask claimMs rfl _ hget
  have hbegan := hfrom _ hget
  exact ⟨workerId, at_, hlocked, by omega⟩

/-- A claim that is still to be read back stays on its row. -/
theorem Running.unread_call {i : Nat} {fate : Fate} {task : Task} {command : Command}
    {next : command.Reply → Code} {reply : command.Reply} (h : Running env claimMs k)
    (hapart : k.system.Apart i fate command)
    (hcalled : Called machine k.system s' i fate task command next reply) {e : Event}
    (he : e ∈ s'.trace) {id : Nat} (hclaims : ClaimsRow e id)
    (hlive : e.thread ∉ k.system.world.stopped) (hout : s'.result e.thread = none) :
    ∃ row, s'.world.db.message? id = some row ∧ row.status = .SENDING ∧
      row.lockedFor = e.command.lockedFor := by
  rw [hcalled.trace] at he
  rcases List.mem_cons.mp he with rfl | hold
  · obtain ⟨ids, workerId, now, claimTimeoutMs, rfl⟩ := claim_of_claims hclaims.1
    obtain ⟨row, hrow, hfree⟩ := named_of_claimsRow hcalled.perform hclaims.2
    refine ⟨PrismaEmailRepository.lock workerId now row, ?_, rfl, rfl⟩
    obtain ⟨-, -, hdb | ⟨c, hcommand, -, hdb⟩⟩ := perform_cases hcalled.perform
    · exact absurd (congrArg (·.message? id) hdb) hclaims.2
    · cases hcommand
      have hafter : ((Call.claimCandidates ids workerId now claimTimeoutMs).serve
          k.system.world.now k.system.world.db).2.message? id =
          (Call.claimCandidates ids workerId now claimTimeoutMs).onRow row :=
        message?_serve h.owned.sound hrow
      rw [hdb, hafter]
      exact congrArg some (if_pos hfree)
  · have hbefore := hcalled.result_none hout
    obtain ⟨row, hrow, hsending, hlock⟩ := h.owned.unread e hold id hclaims hlive hbefore
    obtain ⟨hmem, rfl⟩ := mem_of_message? hrow
    have hholds : Holds k.system.world.db row := ⟨row, hrow, hsending, rfl, rfl⟩
    obtain ⟨hi, -, hdb | ⟨c, rfl, heffect, hdb⟩⟩ := perform_cases hcalled.perform
    · rw [hdb]
      exact ⟨row, hrow, hsending, hlock⟩
    · obtain ⟨row', hrow', hsending', hby, hat⟩ : Holds s'.world.db row := by
        rw [hdb]
        refine hholds.serve h.owned.sound ?_ (fun hrecorded => ?_) ?_
        · rintro ids workerId now claimTimeoutMs rfl row' hmem' hfree hsending' hid
          obtain rfl := h.owned.sound.eq_of_key hmem hmem' hid
          obtain ⟨workerId', at_, hlocked, hfresh⟩ := h.fresh_unread hfit hold hclaims hlive hbefore
          obtain ⟨hnow, rfl⟩ := h.claiming hcalled.thread
          rw [hlocked] at hlock
          rw [not_claimable_of_fresh hsending' (Prod.mk.inj hlock).2 (by omega)] at hfree
          cases hfree
        · -- an outcome is recorded of what a cycle has read, and this claim was not read yet
          obtain ⟨cycle, index, message, rfl, hid⟩ :=
            deliver_of_recorded (h.owned.recounted.allowed hcalled.thread).does hrecorded
          have hpending : message ∈ k.system.pending i := by
            rw [pending_deliver hcalled.thread]
            exact List.mem_singleton_self _
          obtain ⟨row', hrow', -, hby, hat⟩ := h.owned.held i hi message hpending
          obtain rfl : row = row' := Option.some.inj (hrow.symm.trans (hid ▸ hrow'))
          have hget := (h.owned.inTurn i cycle index message hcalled.task_self).2
          obtain ⟨e', he', rfl, hclaims', hlock'⟩ := h.owned.own (List.mem_of_getElem? hget)
          have hsame : e = e' := by
            refine h.owned.claim_eq hold he' hclaims.stands hclaims'.stands ?_
            rw [← hlock, hlock', EmailMessage.lockedFor, EmailMessage.lockedFor, hby, hat]
          rw [hsame, result_of_batch (List.mem_of_getElem? hget)] at hbefore
          cases hbefore
        · rintro id resetAttempts now rfl rfl
          have hretry := hapart heffect _ hholds.status
          simp [RETRYABLE_STATUSES] at hretry
      refine ⟨row', hrow', hsending', ?_⟩
      rw [← hlock, EmailMessage.lockedFor, EmailMessage.lockedFor, hby, hat]

variable (hc : 0 < env.DISPATCHER_CONCURRENCY)

include hc

/-- While a cycle is at work the claims on its batch are not stale. -/
theorem Running.fresh_working (h : Running env claimMs k) {cycle : Nat} {message : EmailMessage}
    (hw : k.system.Working cycle) (hm : message ∈ k.system.batch cycle) :
    ∃ at_, message.lockedAt = some at_ ∧
      k.system.world.now ≤ at_ + env.DISPATCHER_CLAIM_TIMEOUT_MS := by
  obtain ⟨e, he, rfl, hclaims, hlock⟩ := h.owned.own hm
  obtain ⟨workerId, at_, hlocked, hfrom⟩ := h.claim_time he hclaims
  have hib : e.thread < k.began.length := by
    rw [h.scheduled.length]
    exact lt_of_batch hm
  have hget : k.began[e.thread]? = some k.began[e.thread] := List.getElem?_eq_getElem hib
  have hlong := h.scheduled.working h.owned.toBatched hc (h.owned.size e.thread) hw
    (List.ne_nil_of_mem hm) hget
  have hbegan := hfrom _ hget
  refine ⟨at_, ?_, by omega⟩
  rw [hlocked] at hlock
  exact (Prod.mk.inj hlock).2.symm

/-- Nor is the claim of a delivery that is under way. -/
theorem Running.fresh_pending (h : Running env claimMs k) {i : Nat} {message : EmailMessage}
    (hi : i ∉ k.system.world.stopped) (hm : message ∈ k.system.pending i) :
    ∃ at_, message.lockedAt = some at_ ∧
      k.system.world.now ≤ at_ + env.DISPATCHER_CLAIM_TIMEOUT_MS := by
  obtain ⟨cycle, index, hget, hplace⟩ := place_of_pending h.owned.inTurn hm
  refine h.fresh_working hfit hc ⟨i, hi, List.ne_nil_of_mem hm, ?_⟩ (List.mem_of_getElem? hget)
  rcases hplace with ht | ⟨rfl, -⟩
  · exact .inr ⟨_, ht, decide_eq_true rfl⟩
  · exact .inl rfl

/-- Steps with claims told apart are timely. -/
theorem Running.timely (h : Running env claimMs k) {i : Nat} {fate : Fate} {task : Task}
    {command : Command} {next : command.Reply → Code}
    (ht : k.system.threads[i]? = some ⟨task, .perform command next⟩)
    (hapart : k.system.Apart i fate command) : k.system.Timely i fate command := by
  unfold System.Timely
  split
  · rename_i ids workerId now claimTimeoutMs
    refine ⟨fun _ row hrow hfree hsending message hm hid => ?_, ?_⟩
    · obtain ⟨j, hj, hpending⟩ := mem_underWay.mp hm
      obtain ⟨at_, hat, hfresh⟩ := h.fresh_pending hfit hc hj hpending
      obtain ⟨row', hrow', -, -, hlocked⟩ := h.owned.held j hj message hpending
      obtain rfl : row = row' := by
        rw [hid, h.owned.sound.message?_of_mem hrow] at hrow'
        exact Option.some.inj hrow'
      obtain ⟨hnow, rfl⟩ := h.claiming ht
      rw [not_claimable_of_fresh hsending (hlocked.trans hat) (by omega)] at hfree
      cases hfree
    · rintro rfl e he hclaim
      exact hapart rfl e he (lockedFor_of_claimed hclaim) (stands_of_claimed hclaim)
  · exact hapart
  · trivial

/-- One step of a paced run with claims told apart. -/
theorem running_step (h : Running env claimMs k) (hpaced : k.Paced env claimMs l)
    (hapart : k.Apart l) (hs : k.step env l = some k') : Running env claimMs k' := by
  obtain ⟨hstep, -⟩ := clocked_step hs
  have htimely : Pool.calls System.Timely k.system l := by
    cases l with
    | spawn task => trivial
    | move m => trivial
    | call i fate =>
      intro command hcommand
      obtain ⟨task, next, ht⟩ := Foundations.nextCommand_eq_some hcommand
      exact h.timely hfit hc ht (hapart command hcommand)
  have horderly := orderly_step htimely hstep h.owned.toOrderly
  have hscheduled := scheduled_step hc hpaced hs h.owned.toBatched horderly.toBatched h.scheduled
  refine ⟨?_, hscheduled⟩
  obtain ⟨-, hpool⟩ := step_eq_some hstep
  cases l with
  | spawn task => exact h.owned.spawn horderly hpool
  | move m => exact h.owned.move horderly hpool
  | call i fate =>
    obtain ⟨task, command, next, reply, hcalled⟩ := Foundations.called_of_call hpool
    have hone := hapart command hcalled.nextCommand
    obtain ⟨-, hstopped, -⟩ := perform_cases hcalled.perform
    refine ⟨horderly, h.owned.performed.step hpool, h.owned.apart_call hone hcalled,
      fun row hrow => backed_call h.owned.sound horderly.sound h.owned.backed hcalled hrow,
      fun cycle message hm => h.owned.read_call horderly.toBatched hcalled hm,
      fun e he id hclaims hlive => ?_,
      fun e he id hclaims messages => h.owned.whole_call horderly.toBatched hcalled he hclaims⟩
    rw [hstopped] at hlive
    exact h.unread_call hfit hone hcalled he hclaims hlive

/-- What holds of every state of such a run. -/
theorem Running.exclusive (h : Running env claimMs k) : Exclusive env k.system where
  own cycle message hm := h.owned.own hm
  whole := h.owned.whole
  once cycle cycle' message hm message' hm' _ hlock := h.owned.once hm hm' hlock
  alone i hi j hj message hm message' hm' hid :=
    h.owned.toOrderly.distinct hi hj hm hm' hid
  kept cycle hw message hm hholds l s' e hs htrace hclaims := by
    obtain ⟨-, hpool⟩ := step_eq_some hs
    have hnot : k.system.trace ≠ e :: k.system.trace := fun he => by
      have := congrArg List.length he
      rw [List.length_cons] at this
      omega
    cases l with
    | spawn task =>
      obtain rfl : _ = s' := Option.some.inj hpool
      exact hnot htrace
    | move m =>
      obtain ⟨world, hw, rfl⟩ := Option.map_eq_some_iff.mp hpool
      exact hnot htrace
    | call i fate =>
      obtain ⟨task, command, next, reply, hcalled⟩ := Foundations.called_of_call hpool
      obtain ⟨rfl, -⟩ := List.cons.inj (hcalled.trace.symm.trans htrace)
      obtain ⟨ids, workerId, now, claimTimeoutMs, rfl⟩ := claim_of_claims hclaims.1
      obtain ⟨row, hrow, hfree⟩ := named_of_claimsRow hcalled.perform hclaims.2
      obtain ⟨row', hrow', hsending, -, hlocked⟩ := hholds
      obtain rfl : row = row' := Option.some.inj (hrow.symm.trans hrow')
      obtain ⟨at_, hat, hfresh⟩ := h.fresh_working hfit hc hw hm
      obtain ⟨hnow, rfl⟩ := h.claiming hcalled.thread
      rw [not_claimable_of_fresh hsending (hlocked.trans hat) (by omega)] at hfree
      cases hfree

end Running

/-- Where the claim timeout covers the rounds of a batch, and no worker claims twice at one time,
claims are exclusive in every paced run. -/
theorem claims_exclusive (env : Env) (henv : env.Accepted) {claimMs : Nat}
    (hfit : claimMs + env.rounds * env.EMAIL_PROVIDER_TIMEOUT_MS ≤ env.DISPATCHER_CLAIM_TIMEOUT_MS)
    {world : World} (hsound : world.db.Sound)
    (hfree : ∀ row ∈ world.db.emailMessages, row.status ≠ .SENDING)
    (hstopped : world.stopped = []) {ls : List Label} {k : Clocked}
    (hpaced : AllSteps (Clocked.step env) (Clocked.Paced env claimMs) (Clocked.start world) ls)
    (hapart : AllSteps (Clocked.step env) Clocked.Apart (Clocked.start world) ls)
    (hrun : runs (Clocked.step env) (Clocked.start world) ls = some k) :
    Exclusive env k.system := by
  have hc : 0 < env.DISPATCHER_CONCURRENCY := henv.concurrency.1
  have hstart : Running env claimMs (Clocked.start world) :=
    ⟨owned_start hsound hfree, scheduled_start hstopped⟩
  have hrunning := Foundations.invariant_of_allSteps
    (fun _ _ _ hok hs hp => running_step hfit hc hp hok.1 hok.2 hs) (hpaced.and hapart) hrun hstart
  exact hrunning.exclusive hfit hc

theorem sampleEnv_accepted : sampleEnv.Accepted :=
  ⟨by decide +kernel, by decide, by decide, by decide, by decide, by decide, by decide⟩

theorem claims_exclusive_orphan :
    ∃ k, runs (Clocked.step sampleEnv) (Clocked.start sampleWorld) orphanClaimed = some k ∧
      (k.system.batch 2).map (·.id) = [0] ∧ Exclusive sampleEnv k.system := by
  have hrun : (runs (Clocked.step sampleEnv) (Clocked.start sampleWorld) orphanClaimed).any
      (fun k => (k.system.batch 2).map (·.id) = [0]) = true := by
    decide +kernel
  obtain ⟨k, hk, hbatch⟩ := (Option.any_eq_true _ _).mp hrun
  exact ⟨k, hk, of_decide_eq_true hbatch,
    @claims_exclusive sampleEnv sampleEnv_accepted 0 (by decide) sampleWorld sampleWorld_sound
      (by decide) rfl _ _ (by decide +kernel) (by decide +kernel) hk⟩

/-- Two cycles of one worker claim at one time: one the timer starts, and one a request. -/
def twins : List Label :=
  [.spawn (.runOnce "a"), .spawn (.runOnce "a"), .call 0 .served, .call 1 .served,
    .call 0 .served, .call 1 .served, .call 0 .served, .call 1 .served, .call 0 .served,
    .call 1 .served]

/-- Settings `env.ts` accepts: the claim outlasts one send, and a batch is two in a row. -/
def slowEnv : Env :=
  { sampleEnv with
    DISPATCHER_BATCH_SIZE := 2, DISPATCHER_CONCURRENCY := 1, DISPATCHER_CLAIM_TIMEOUT_MS := 15000 }

/-- Another message that is due. -/
def reminder : EmailMessage := { welcome with id := 1, subject := "Reminder" }

def pairWorld : World where
  db := { emailMessages := [welcome, reminder], idempotencyKeys := [], nextId := 2 }
  now := 0
  stopped := []

/-- The first send takes its time; the second is under way when its claim goes stale, and another
worker takes it. -/
def slowly : List Label :=
  claiming 0 "a" ++ [.spawn (.deliver 0 0 (claimedBy "a" 0 1)), .move (.tick 10000)] ++
    accepting 1 ++ [.spawn (.deliver 0 1 { claimedBy "a" 0 1 with id := 1, subject := "Reminder" }),
      .move (.tick 5001)] ++ claiming 3 "b"

/-- Two cycles can have one claim, and two workers one message, on settings that are accepted. -/
theorem claims_shared :
    (sampleEnv.Accepted ∧ ∃ k, AllSteps (Clocked.step sampleEnv) (Clocked.Paced sampleEnv 0)
        (Clocked.start sampleWorld) twins ∧
      runs (Clocked.step sampleEnv) (Clocked.start sampleWorld) twins = some k ∧
      ¬ Exclusive sampleEnv k.system) ∧
    (slowEnv.Accepted ∧ ∃ k, AllSteps (Clocked.step slowEnv) (Clocked.Paced slowEnv 0)
        (Clocked.start pairWorld) slowly ∧
      runs (Clocked.step slowEnv) (Clocked.start pairWorld) slowly = some k ∧
      ¬ Exclusive slowEnv k.system) := by
  have htwins : (runs (Clocked.step sampleEnv) (Clocked.start sampleWorld) twins).any (fun k =>
      ∃ message ∈ k.system.batch 0, message ∈ k.system.batch 1) = true := by
    decide +kernel
  have hslowly : (runs (Clocked.step slowEnv) (Clocked.start pairWorld) slowly).any (fun k =>
      k.system.world.stopped = [] ∧ ∃ message ∈ k.system.pending 2,
        ∃ message' ∈ k.system.pending 3, message.id = message'.id) = true := by
    decide +kernel
  refine ⟨⟨sampleEnv_accepted, ?_⟩, ⟨?_, ?_⟩⟩
  · obtain ⟨k, hk, hboth⟩ := (Option.any_eq_true _ _).mp htwins
    obtain ⟨message, hm, hm'⟩ := of_decide_eq_true hboth
    refine ⟨k, by decide +kernel, hk, fun h => ?_⟩
    have hsame := h.once 0 1 message hm message hm' rfl rfl
    cases hsame
  · exact ⟨by decide +kernel, by decide, by decide, by decide, by decide, by decide, by decide⟩
  · obtain ⟨k, hk, hboth⟩ := (Option.any_eq_true _ _).mp hslowly
    obtain ⟨hlive, message, hm, message', hm', hid⟩ := of_decide_eq_true hboth
    refine ⟨k, by decide +kernel, hk, fun h => ?_⟩
    have hdead : ∀ i, i ∉ k.system.world.stopped := fun i hi => by
      rw [hlive] at hi
      cases hi
    have hsame := h.alone 2 (hdead 2) 3 (hdead 3) message hm message' hm' hid
    cases hsame

end PracticalMicroservice.Email
