import PracticalMicroservice.Email.Proofs.AttemptProofs
import PracticalMicroservice.Email.Proofs.RetentionProofs

/-!
# Proofs: no message is stuck

From any state a run goes on to where a message is sent: the clock moves until the row is due, cycles
claim what is due until one has the row, and the messages of its batch are delivered up to it. Every
task is run on its own, with a provider that accepts what it is handed.
-/

namespace PracticalMicroservice.Email

open Foundations (Pool Program Reaches runs)
open PrismaEmailRepository

variable {env : Env} {s s' : System} {world : World}

/-! ## A task on its own -/

/-- Every command is served, and every message accepted. -/
def kindly : Command → Fate
  | .repository _ | .now => .served
  | .random => .drawn 0
  | .send _ => .sending (.accepted "resend" "accepted")

/-- A thread of a process that lives performs a program as the world does. -/
theorem tryExec_machine {i : Nat} {p : Code} {w w' : World} {a : Answer} (hi : i ∉ w.stopped)
    (h : p.tryExec (fun c w => w.perform (kindly c) c) w = some (a, w')) :
    p.tryExec (fun c w => machine.perform i (kindly c) c w) w = some (a, w') := by
  induction p generalizing w with
  | done b => exact h
  | perform command next ih =>
    obtain ⟨⟨reply, mid⟩, hp, hrest⟩ := Option.bind_eq_some_iff.mp h
    have hp : machine.perform i (kindly command) command w = some (reply, mid) :=
      (if_neg hi).trans hp
    obtain ⟨-, hstopped, -⟩ := perform_cases hp
    exact Option.bind_eq_some_iff.mpr ⟨(reply, mid), hp, ih reply (hstopped ▸ hi) hrest⟩

/-- Nothing that is yet to begin has its process dead. -/
def Quiet (s : System) : Prop := ∀ i ∈ s.world.stopped, i < s.threads.length

/-- A task begins and runs to its end. -/
theorem reaches_task (env : Env) (kind : Label → Prop) (task : Task) (hquiet : Quiet s)
    (hb : s.Begins env (.spawn task)) (hspawn : kind (.spawn task)) (hcall : ∀ i fate, kind (.call i fate)) {a : Answer} {w : World}
    (he : (task.run env).tryExec (fun c w => w.perform (kindly c) c) s.world = some (a, w)) :
    ∃ s', Reaches (System.step env) kind s s' ∧ s'.threads = s.threads ++ [⟨task, .done a⟩] ∧
      s'.world = w := by
  have hstep : System.step env s (.spawn task) =
      some { s with threads := s.threads ++ [⟨task, task.run env⟩] } := if_pos hb
  have hget : (s.threads ++ [⟨task, task.run env⟩])[s.threads.length]? =
      some ⟨task, task.run env⟩ := by
    rw [List.getElem?_append_right (Nat.le_refl _), Nat.sub_self]
    rfl
  have hlive : s.threads.length ∉ s.world.stopped := fun hi => Nat.lt_irrefl _ (hquiet _ hi)
  obtain ⟨s', hreach, hthreads, hworld⟩ := Foundations.reaches_alone machine
    (System.step env) kind kindly (fun _ _ => if_pos trivial)
    (fun fate => hcall s.threads.length fate)
    (s := { s with threads := s.threads ++ [⟨task, task.run env⟩] }) hget
    (tryExec_machine hlive he)
  refine ⟨s', (Reaches.of_step hspawn hstep).trans hreach, ?_, hworld⟩
  rw [hthreads, List.set_append_right _ _ (Nat.le_refl _), Nat.sub_self]
  rfl

theorem exec_deliver (cycle index : Nat) (message : EmailMessage) (w : World) :
    ((Task.deliver cycle index message).run env).tryExec (fun c w => w.perform (kindly c) c) w =
      some (.delivered (.ok .sent),
        { w with db := (updateById message.id (sent "resend" "accepted" w.now) w.db).2 }) := rfl

/-- The tables once a cycle has claimed the first rows that are due. -/
def claimedDb (env : Env) (workerId : String) (w : World) : Database :=
  claimCandidates ((findCandidates env.DISPATCHER_BATCH_SIZE w.now env.DISPATCHER_CLAIM_TIMEOUT_MS
    w.db).map (·.id)) workerId w.now env.DISPATCHER_CLAIM_TIMEOUT_MS w.db

theorem exec_claimDue {limit claimTimeoutMs : Nat} (workerId : String) {w : World}
    (h : findCandidates limit w.now claimTimeoutMs w.db ≠ []) {db : Database}
    (hdb : db = claimCandidates ((findCandidates limit w.now claimTimeoutMs w.db).map (·.id))
      workerId w.now claimTimeoutMs w.db) :
    (EmailDispatcher.claimDue limit workerId claimTimeoutMs w.now).run.tryExec
        (fun c w => w.perform (kindly c) c) w =
      some (.ok (findClaimed workerId w.now db), { w with db }) := by
  have hread : (Promise.repository (.findCandidates limit w.now claimTimeoutMs)).run.tryExec
      (fun c w => w.perform (kindly c) c) w =
      some (.ok (findCandidates limit w.now claimTimeoutMs w.db), w) := rfl
  unfold EmailDispatcher.claimDue
  rw [Foundations.Fallible.tryExec_bind_ok hread, hdb]
  cases hc : findCandidates limit w.now claimTimeoutMs w.db with
  | nil => exact absurd hc h
  | cons candidate more => rfl

theorem exec_runOnce (workerId : String) {w : World}
    (h : findCandidates env.DISPATCHER_BATCH_SIZE w.now env.DISPATCHER_CLAIM_TIMEOUT_MS w.db ≠ []) :
    ((Task.runOnce workerId).run env).tryExec (fun c w => w.perform (kindly c) c) w =
      some (.claimed (.ok (findClaimed workerId w.now (claimedDb env workerId w))),
        { w with db := claimedDb env workerId w }) := by
  have hnow : Promise.now.run.tryExec (fun c w => w.perform (kindly c) c) w = some (.ok w.now, w) :=
    rfl
  show ((EmailDispatcher.runOnce env workerId).run >>= fun r => pure (Answer.claimed r)).tryExec
    (fun c w => w.perform (kindly c) c) w = _
  rw [Program.tryExec_bind, EmailDispatcher.runOnce, Foundations.Fallible.tryExec_bind_ok hnow,
    exec_claimDue workerId h rfl]
  rfl

theorem exec_retry {w : World} {id : Nat} {row : EmailMessage} (h : w.db.message? id = some row)
    (hdead : row.status = .DEAD) :
    ((Task.retry id).run env).tryExec (fun c w => w.perform (kindly c) c) w =
      some (.retried (.ok (revived true w.now row)),
        { w with db := changeRows (·.id = id) (revived true w.now) w.db }) := by
  have hread : (Promise.repository (.findById id)).run.tryExec
      (fun c w => w.perform (kindly c) c) w = some (.ok (w.db.message? id), w) := rfl
  have hfound : (EmailService.getById id).run.tryExec (fun c w => w.perform (kindly c) c) w =
      some (.ok row, w) := by
    rw [EmailService.getById, Foundations.Fallible.tryExec_bind_ok hread, h]
    rfl
  have hrequeue : (Promise.repository (.requeue id true w.now)).run.tryExec
      (fun c w => w.perform (kindly c) c) w = some (.ok (revived true w.now row),
        { w with db := changeRows (·.id = id) (revived true w.now) w.db }) := by
    have hupdate : updateById id (revived true w.now) w.db =
        (.ok (revived true w.now row), changeRows (·.id = id) (revived true w.now) w.db) := by
      unfold updateById
      rw [h]
    show (Promise.unpack ((updateById id (revived true w.now) w.db).1.mapError toAppError)).run.tryExec
      (fun c w => World.perform (kindly c) c w)
      { w with db := (updateById id (revived true w.now) w.db).2 } = _
    rw [hupdate]
    rfl
  have hback : (Promise.now >>= fun now => Promise.repository (.requeue id true now) :
        Promise EmailMessage).run.tryExec (fun c w => w.perform (kindly c) c) w =
      some (.ok (revived true w.now row),
        { w with db := changeRows (·.id = id) (revived true w.now) w.db }) := hrequeue
  show ((EmailService.retry id).run >>= fun r => pure (Answer.retried r)).tryExec
    (fun c w => w.perform (kindly c) c) w = _
  have hstatus : row.status ∈ RETRYABLE_STATUSES := by
    rw [hdead]
    decide
  rw [Program.tryExec_bind, EmailService.retry, Foundations.Fallible.tryExec_bind_ok hfound,
    if_pos hstatus]
  refine (congrArg (fun r => Option.bind r _) hback).trans ?_
  rfl

/-! ## What holds wherever a run leads -/

structure Sane (s : System) : Prop where
  sound : s.world.db.Sound
  stamped : s.world.db.Stamped
  /-- Every delivery is of a cycle there is. -/
  born : ∀ i cycle index message, s.task i = some (.deliver cycle index message) →
    cycle < s.threads.length

theorem sane_step {l : Label} (hs : System.step env s l = some s') (h : Sane s) : Sane s' := by
  obtain ⟨hb, hs⟩ := step_eq_some hs
  cases l with
  | spawn task =>
    obtain rfl : { s with threads := s.threads ++ [⟨task, task.run env⟩] } = s' :=
      Option.some.inj hs
    refine ⟨h.sound, h.stamped, fun i cycle index message ht => ?_⟩
    rw [List.length_append]
    rcases task_spawn ht with hold | ⟨-, rfl⟩
    · exact Nat.lt_add_right _ (h.born i cycle index message hold)
    · obtain ⟨-, -, hget, -⟩ := hb
      exact Nat.lt_add_right _ (lt_of_batch (List.mem_of_getElem? hget))
  | call i fate =>
    obtain ⟨task, command, next, reply, hc⟩ := Foundations.called_of_call hs
    refine ⟨?_, fun row' hrow' hsending => ?_, fun j cycle index message ht => ?_⟩
    · obtain ⟨-, -, hdb | ⟨c, -, -, hdb⟩⟩ := perform_cases hc.perform
      · rw [hdb]
        exact h.sound
      · rw [hdb]
        exact sound_serve h.sound
    · rcases affects_of_called hc hrow' with hold | ⟨c, -, -, ⟨row, hrow, ha⟩ | hnew⟩
      · exact h.stamped row' hold hsending
      · cases ha with
        | kept => exact h.stamped _ hrow hsending
        | claimed ids workerId now claimTimeoutMs call free => rfl
        | retried error nextAttemptAt call => cases hsending
        | ended _ final unclaimed attempts id limit =>
          rw [hsending] at final
          rcases final with hsent | hdead
          · cases hsent
          · cases hdead
        | requeued resetAttempts now call => cases hsending
      · rw [hnew.status] at hsending
        cases hsending
    · rw [hc.task] at ht
      rw [hc.length]
      exact h.born j cycle index message ht
  | move m =>
    obtain ⟨later, hw, rfl⟩ := Option.map_eq_some_iff.mp hs
    have hdb := (world_of_move hw).1
    refine ⟨?_, ?_, h.born⟩
    · show later.db.Sound
      rw [hdb]
      exact h.sound
    · show later.db.Stamped
      rw [hdb]
      exact h.stamped

theorem Sane.reaches {kind : Label → Prop} (h : Sane s) (hr : Reaches (System.step env) kind s s') : Sane s' := by
  obtain ⟨ls, -, hrun⟩ := hr
  exact Foundations.invariant_of_steps (fun _ _ _ hs hp => sane_step hs hp) hrun h

/-- Threads begin until no process that is yet to begin has died. -/
theorem reaches_quiet (env : Env) (kind : Label → Prop) (hspawn : kind (.spawn .purgeExpired))
    (s : System) :
    ∃ s', Reaches (System.step env) kind s s' ∧ Quiet s' ∧ s'.world = s.world := by
  obtain ⟨bound, hbound⟩ : ∃ bound, ∀ i ∈ s.world.stopped, i < bound := by
    induction s.world.stopped with
    | nil => exact ⟨0, fun i hi => absurd hi List.not_mem_nil⟩
    | cons j rest ih =>
      obtain ⟨bound, h⟩ := ih
      refine ⟨max (j + 1) bound, fun i hi => ?_⟩
      rcases List.mem_cons.mp hi with rfl | hi
      · omega
      · have := h i hi
        omega
  induction hn : bound - s.threads.length generalizing s with
  | zero =>
    refine ⟨s, .refl, fun i hi => ?_, rfl⟩
    have := hbound i hi
    omega
  | succ n ih =>
    have hstep : System.step env s (.spawn .purgeExpired) =
        some { s with threads := s.threads ++ [⟨.purgeExpired, Task.purgeExpired.run env⟩] } :=
      if_pos trivial
    obtain ⟨s', hreach, hquiet, hworld⟩ :=
      ih { s with threads := s.threads ++ [⟨.purgeExpired, Task.purgeExpired.run env⟩] } hbound
        (by rw [List.length_append, List.length_singleton]; omega)
    exact ⟨s', (Reaches.of_step hspawn hstep).trans hreach, hquiet, hworld⟩

theorem Quiet.extend (h : Quiet s) {t : Thread} (hthreads : s'.threads = s.threads ++ [t])
    (hstopped : s'.world.stopped = s.world.stopped) : Quiet s' := by
  intro i hi
  rw [hstopped] at hi
  rw [hthreads, List.length_append]
  exact Nat.lt_add_right _ (h i hi)

/-! ## The batch, delivered -/

/-- A delivery that has begun and ended moves the cursor, and nothing else. -/
theorem cursor_extend {cycle index : Nat} {message : EmailMessage} {a : Answer}
    (hthreads : s'.threads = s.threads ++ [⟨.deliver cycle index message, .done a⟩]) :
    s'.cursor cycle = s.cursor cycle + 1 ∧ s'.inFlight cycle = s.inFlight cycle := by
  unfold System.cursor System.inFlight
  rw [hthreads, List.map_append, List.countP_append, List.countP_append]
  constructor
  · simp [Task.deliversFor]
  · simp [Foundations.Thread.next]

theorem message?_sent {db : Database} {id n now : Nat} {provider providerMessageId : String} :
    (updateById id (sent provider providerMessageId now) db).2.message? n =
      (db.message? n).map fun m => if m.id = id then sent provider providerMessageId now m else m := by
  have hchange : (changeRows (·.id = id) (sent provider providerMessageId now) db).message? n = _ :=
    message?_changeRows fun _ => rfl
  rw [updateById_rows, hchange]
  simp only [decide_eq_true_eq]

/-- A message in the batch of a cycle that lives is delivered, after those before it. -/
theorem reaches_sent (kind : Label → Prop) (hconcurrency : 0 < env.DISPATCHER_CONCURRENCY)
    (hspawn : ∀ cycle index message, kind (.spawn (.deliver cycle index message)))
    (hcall : ∀ i fate, kind (.call i fate)) {cycle k : Nat} {message : EmailMessage} {s : System}
    (hquiet : Quiet s) (hlive : cycle ∉ s.world.stopped)
    (hget : (s.batch cycle)[s.cursor cycle + k]? = some message) (hidle : s.inFlight cycle = 0)
    (hrow : (s.world.db.message? message.id).isSome) :
    ∃ s', Reaches (System.step env) kind s s' ∧
      s'.world.db.status? message.id = some .SENT := by
  induction k generalizing s with
  | zero =>
    have hb : s.Begins env (.spawn (.deliver cycle (s.cursor cycle) message)) :=
      ⟨hlive, rfl, hget, hidle ▸ hconcurrency⟩
    obtain ⟨s', hreach, hthreads, hworld⟩ := reaches_task env kind _ hquiet hb (hspawn _ _ _)
      hcall (exec_deliver cycle (s.cursor cycle) message s.world)
    refine ⟨s', hreach, ?_⟩
    obtain ⟨row, hfound⟩ := Option.isSome_iff_exists.mp hrow
    have hid := (mem_of_message? hfound).2
    unfold Database.status?
    rw [hworld, message?_sent, hfound, Option.map_some, if_pos hid]
    rfl
  | succ k ih =>
    obtain ⟨first, hfirst⟩ : ∃ first, (s.batch cycle)[s.cursor cycle]? = some first := by
      have hlt := (List.getElem?_eq_some_iff.mp hget).1
      exact ⟨_, List.getElem?_eq_getElem (by omega)⟩
    have hb : s.Begins env (.spawn (.deliver cycle (s.cursor cycle) first)) :=
      ⟨hlive, rfl, hfirst, hidle ▸ hconcurrency⟩
    obtain ⟨mid, hreach, hthreads, hworld⟩ := reaches_task env kind _ hquiet hb (hspawn _ _ _)
      hcall (exec_deliver cycle (s.cursor cycle) first s.world)
    obtain ⟨hcursor, hflight⟩ := cursor_extend hthreads
    have hstopped : mid.world.stopped = s.world.stopped := by rw [hworld]
    have hbatch : mid.batch cycle = s.batch cycle := by
      refine batch_congr ?_
      unfold Pool.result
      rw [hthreads, List.getElem?_append_left (lt_of_batch (List.mem_of_getElem? hget))]
    have hkept : (mid.world.db.message? message.id).isSome := by
      rw [hworld, message?_sent, Option.isSome_map]
      exact hrow
    obtain ⟨s', hlater, hsent⟩ := ih (s := mid) (hquiet.extend hthreads hstopped)
      (by rw [hstopped]; exact hlive)
      (by rw [hbatch, hcursor, Nat.add_assoc, Nat.add_comm 1 k]; exact hget)
      (hflight.trans hidle) hkept
    exact ⟨s', hreach.trans hlater, hsent⟩

/-! ## Cycles, until one has the row -/

/-- Members of a kind that lose it are counted no more. -/
theorem countP_lost {α : Type} {p q : α → Bool} {f : α → α} (hq : ∀ a, q a = true → p a = true)
    (hf : ∀ a, p (f a) = false) (xs : List α) :
    (xs.map fun a => if q a then f a else a).countP p + xs.countP q = xs.countP p := by
  induction xs with
  | nil => rfl
  | cons a xs ih =>
    rw [List.map_cons, List.countP_cons, List.countP_cons, List.countP_cons]
    by_cases ha : q a = true
    · rw [if_pos ha, if_pos ha, if_pos (hq a ha), hf a, if_neg Bool.false_ne_true]
      omega
    · rw [if_neg ha, if_neg ha]
      omega

section Claim

variable {workerId : String} {row : EmailMessage}

theorem due_lock {now claimTimeoutMs : Nat} (m : EmailMessage) :
    due now claimTimeoutMs (lock workerId now m) = false := by
  have hpast : ¬ now < now - claimTimeoutMs := by omega
  simp [due, lock, CLAIMABLE_STATUSES, hpast]

theorem mem_findCandidates {limit now claimTimeoutMs : Nat} {db : Database}
    (h : row ∈ findCandidates limit now claimTimeoutMs db) :
    row ∈ db.emailMessages ∧ due now claimTimeoutMs row = true := by
  have hmem := List.mem_of_mem_take h
  unfold byNextAttempt at hmem
  rw [List.mem_insertionSort, List.mem_filter] at hmem
  exact hmem

/-- What is due makes a cycle claim something. -/
theorem findCandidates_ne_nil {limit now claimTimeoutMs : Nat} {db : Database} (hlimit : 0 < limit)
    (hrow : row ∈ db.emailMessages) (hdue : due now claimTimeoutMs row = true) :
    findCandidates limit now claimTimeoutMs db ≠ [] := by
  have hmem : row ∈ byNextAttempt (db.emailMessages.filter (due now claimTimeoutMs)) := by
    unfold byNextAttempt
    rw [List.mem_insertionSort, List.mem_filter]
    exact ⟨hrow, hdue⟩
  unfold findCandidates
  rw [Ne, List.take_eq_nil_iff, not_or]
  exact ⟨Nat.ne_of_gt hlimit, List.ne_nil_of_mem hmem⟩

/-- A cycle leaves fewer rows due. -/
theorem countP_claimedDb (workerId : String) {w : World}
    (h : findCandidates env.DISPATCHER_BATCH_SIZE w.now env.DISPATCHER_CLAIM_TIMEOUT_MS w.db ≠ []) :
    (claimedDb env workerId w).emailMessages.countP (due w.now env.DISPATCHER_CLAIM_TIMEOUT_MS) <
      w.db.emailMessages.countP (due w.now env.DISPATCHER_CLAIM_TIMEOUT_MS) := by
  obtain ⟨candidate, hcandidate⟩ := List.exists_mem_of_ne_nil _ h
  obtain ⟨hmem, hdue⟩ := mem_findCandidates hcandidate
  have hclaimable : claimable ((findCandidates env.DISPATCHER_BATCH_SIZE w.now
      env.DISPATCHER_CLAIM_TIMEOUT_MS w.db).map (·.id)) w.now env.DISPATCHER_CLAIM_TIMEOUT_MS
      candidate = true := by
    unfold claimable
    rw [Bool.and_eq_true, decide_eq_true_eq]
    exact ⟨List.mem_map_of_mem hcandidate, hdue⟩
  have hpos := List.countP_pos_iff.mpr ⟨candidate, hmem, hclaimable⟩
  have hcount := countP_lost (p := due w.now env.DISPATCHER_CLAIM_TIMEOUT_MS)
    (f := lock workerId w.now)
    (fun m hm => ((Bool.and_eq_true _ _).mp hm).2) due_lock w.db.emailMessages
      (q := claimable ((findCandidates env.DISPATCHER_BATCH_SIZE w.now
        env.DISPATCHER_CLAIM_TIMEOUT_MS w.db).map (·.id)) w.now env.DISPATCHER_CLAIM_TIMEOUT_MS)
  unfold claimedDb claimCandidates changeRows
  dsimp only
  omega

/-- A new cycle has delivered nothing yet. -/
theorem cursor_new (h : Sane s) {t : Thread} (ht : ∀ cycle, t.task.deliversFor cycle = false)
    (hthreads : s'.threads = s.threads ++ [t]) :
    s'.cursor s.threads.length = 0 ∧ s'.inFlight s.threads.length = 0 := by
  have hnone : ∀ u ∈ s'.threads, u.task.deliversFor s.threads.length = false := by
    intro u hu
    rw [hthreads] at hu
    rcases List.mem_append.mp hu with hold | hnew
    · obtain ⟨i, hi⟩ := List.getElem?_of_mem hold
      cases htask : u.task with
      | deliver cycle index message =>
        have hlt := h.born i cycle index message (by unfold Pool.task; rw [hi, Option.map_some, htask])
        exact decide_eq_false (Nat.ne_of_lt hlt)
      | enqueue input idempotencyKey => rfl
      | runOnce workerId => rfl
      | retry id => rfl
      | purgeExpired => rfl
    · rw [List.mem_singleton.mp hnew]
      exact ht _
  unfold System.cursor System.inFlight
  rw [List.countP_map, List.countP_eq_zero, List.countP_eq_zero]
  refine ⟨fun u hu => ?_, fun u hu => ?_⟩
  · rw [Function.comp_apply, hnone u hu]
    exact Bool.false_ne_true
  · rw [hnone u hu]
    exact Bool.false_ne_true

/-- A row that is due is claimed by some cycle to come. -/
theorem reaches_claimed (kind : Label → Prop) (hbatch : 0 < env.DISPATCHER_BATCH_SIZE)
    (hspawn : kind (.spawn (.runOnce workerId))) (hcall : ∀ i fate, kind (.call i fate))
    {s : System} (hsane : Sane s) (hquiet : Quiet s) (hrow : row ∈ s.world.db.emailMessages)
    (hdue : due s.world.now env.DISPATCHER_CLAIM_TIMEOUT_MS row = true) :
    ∃ s' cycle, Reaches (System.step env) kind s s' ∧ Quiet s' ∧ cycle ∉ s'.world.stopped ∧
      s'.cursor cycle = 0 ∧ s'.inFlight cycle = 0 ∧
      (∃ message ∈ s'.batch cycle, message.id = row.id) ∧
      (s'.world.db.message? row.id).isSome := by
  induction hn : s.world.db.emailMessages.countP
    (due s.world.now env.DISPATCHER_CLAIM_TIMEOUT_MS) using Nat.strongRecOn generalizing s with
  | ind n ih =>
    have hfound := findCandidates_ne_nil hbatch hrow hdue
    obtain ⟨mid, hreach, hthreads, hworld⟩ := reaches_task env kind (.runOnce workerId)
      hquiet trivial hspawn hcall (exec_runOnce workerId hfound)
    have hstopped : mid.world.stopped = s.world.stopped := by rw [hworld]
    have hquiet' := hquiet.extend hthreads hstopped
    have hsane' := hsane.reaches hreach
    have hafter : mid.world.db.emailMessages = s.world.db.emailMessages.map fun m =>
        if claimable ((findCandidates env.DISPATCHER_BATCH_SIZE s.world.now
          env.DISPATCHER_CLAIM_TIMEOUT_MS s.world.db).map (·.id)) s.world.now
          env.DISPATCHER_CLAIM_TIMEOUT_MS m then lock workerId s.world.now m else m := by
      rw [hworld]
      rfl
    by_cases hid : row.id ∈ (findCandidates env.DISPATCHER_BATCH_SIZE s.world.now
        env.DISPATCHER_CLAIM_TIMEOUT_MS s.world.db).map (·.id)
    · have hlocked : lock workerId s.world.now row ∈ mid.world.db.emailMessages := by
        rw [hafter]
        refine List.mem_map.mpr ⟨row, hrow, if_pos ?_⟩
        unfold claimable
        rw [Bool.and_eq_true, decide_eq_true_eq]
        exact ⟨hid, hdue⟩
      have hresult : mid.result s.threads.length = some (.claimed (.ok
          (findClaimed workerId s.world.now mid.world.db))) := by
        unfold Pool.result
        rw [hthreads, List.getElem?_append_right (Nat.le_refl _), Nat.sub_self, hworld]
        rfl
      obtain ⟨hcursor, hflight⟩ := cursor_new hsane (fun _ => rfl) hthreads
      refine ⟨mid, s.threads.length, hreach, hquiet', ?_, hcursor, hflight,
        ⟨lock workerId s.world.now row, ?_, rfl⟩, ?_⟩
      · rw [hstopped]
        exact fun hi => Nat.lt_irrefl _ (hquiet _ hi)
      · rw [batch_of_result hresult]
        exact mem_findClaimed.mpr ⟨hlocked, by simp [heldBy, lock]⟩
      · exact Option.isSome_iff_exists.mpr
          ⟨lock workerId s.world.now row, hsane'.sound.message?_of_mem hlocked⟩
    · -- the cycle had others before it, which are due no more
      have hstays : row ∈ mid.world.db.emailMessages := by
        rw [hafter]
        refine List.mem_map.mpr ⟨row, hrow, if_neg fun hclaimed => hid ?_⟩
        unfold claimable at hclaimed
        rw [Bool.and_eq_true, decide_eq_true_eq] at hclaimed
        exact hclaimed.1
      have hfewer := countP_claimedDb workerId hfound
      obtain ⟨s', cycle, hlater, hrest⟩ := ih _ (by rw [hworld, ← hn]; exact hfewer) hsane' hquiet'
        hstays (by rw [hworld]; exact hdue) rfl
      exact ⟨s', cycle, hreach.trans hlater, hrest⟩

end Claim

/-! ## From any state -/

/-- The time comes at which a row that is not sent is due, or an operator sees to it. -/
theorem reaches_due (env : Env) (kind : Label → Prop) {row : EmailMessage} (htick : ∀ ms, kind (.move (.tick ms)))
    (hcall : ∀ i fate, kind (.call i fate))
    (hretry : row.status = .DEAD → kind (.spawn (.retry row.id))) {s : System} (hsane : Sane s)
    (hquiet : Quiet s) (hrow : row ∈ s.world.db.emailMessages) (hunsent : row.status ≠ .SENT) :
    ∃ s' row', Reaches (System.step env) kind s s' ∧ Quiet s' ∧
      row' ∈ s'.world.db.emailMessages ∧ row'.id = row.id ∧
      due s'.world.now env.DISPATCHER_CLAIM_TIMEOUT_MS row' = true := by
  have hwait : ∀ ms, due (s.world.now + ms) env.DISPATCHER_CLAIM_TIMEOUT_MS row = true →
      ∃ s' row', Reaches (System.step env) kind s s' ∧ Quiet s' ∧
        row' ∈ s'.world.db.emailMessages ∧ row'.id = row.id ∧
        due s'.world.now env.DISPATCHER_CLAIM_TIMEOUT_MS row' = true := by
    intro ms hdue
    have hstep : System.step env s (.move (.tick ms)) =
        some { s with world := { s.world with now := s.world.now + ms } } := if_pos trivial
    exact ⟨_, row, .of_step (htick ms) hstep, hquiet, hrow, rfl, hdue⟩
  cases hstatus : row.status with
  | PENDING =>
    refine hwait row.nextAttemptAt ?_
    simp [due, CLAIMABLE_STATUSES, hstatus]
  | FAILED =>
    refine hwait row.nextAttemptAt ?_
    simp [due, CLAIMABLE_STATUSES, hstatus]
  | SENDING =>
    obtain ⟨lockedAt, hlocked⟩ := Option.isSome_iff_exists.mp (hsane.stamped row hrow hstatus)
    refine hwait (lockedAt + env.DISPATCHER_CLAIM_TIMEOUT_MS + 1) ?_
    simp only [due, hstatus, hlocked, Option.any_some, Bool.or_eq_true, Bool.and_eq_true,
      decide_eq_true_eq]
    exact .inr ⟨trivial, by omega⟩
  | SENT => exact absurd hstatus hunsent
  | DEAD =>
    have hfound := hsane.sound.message?_of_mem hrow
    obtain ⟨s', hreach, hthreads, hworld⟩ := reaches_task env kind (.retry row.id)
      hquiet trivial (hretry hstatus) hcall (exec_retry hfound hstatus)
    refine ⟨s', revived true s.world.now row, hreach,
      hquiet.extend hthreads (by rw [hworld]), ?_, rfl, ?_⟩
    · rw [hworld]
      exact List.mem_map.mpr ⟨row, hrow, if_pos (decide_eq_true rfl)⟩
    · rw [hworld]
      simp [due, revived, unlock, CLAIMABLE_STATUSES]

/-- Whatever has crashed, failed or been given up, every message can still be sent; and unless it is
dead, nobody has to attend to it. -/
theorem no_message_stuck (env : Env) (hbatch : 0 < env.DISPATCHER_BATCH_SIZE)
    (hconcurrency : 0 < env.DISPATCHER_CONCURRENCY) {world : World} (hsound : world.db.Sound)
    (hstamped : world.db.Stamped) {ls : List Label} {s : System}
    (hrun : runs (System.step env) (Pool.start world) ls = some s) :
    ∀ row ∈ s.world.db.emailMessages, ∃ s', s'.world.db.status? row.id = some .SENT ∧
      Reaches (System.step env) (fun l => row.status = .DEAD ∨ Unattended l) s s' := by
  intro row hrow
  have hsane : Sane s := Foundations.invariant_of_steps (fun _ _ _ hs hp => sane_step hs hp) hrun
    ⟨hsound, hstamped, fun i cycle index message h => by simp [Pool.task, Pool.start] at h⟩
  by_cases hsent : row.status = .SENT
  · refine ⟨s, ?_, .refl⟩
    unfold Database.status?
    rw [hsane.sound.message?_of_mem hrow, Option.map_some, hsent]
  · have hcall : ∀ i fate, row.status = .DEAD ∨ Unattended (.call i fate) :=
      fun _ _ => .inr trivial
    obtain ⟨quiet, hreach, hquiet, hworld⟩ := reaches_quiet env
      (fun l => row.status = .DEAD ∨ Unattended l) (.inr trivial) s
    obtain ⟨waited, row', hwait, hquiet', hrow', hid, hdue⟩ := reaches_due env
      (fun l => row.status = .DEAD ∨ Unattended l) (fun _ => .inr trivial) hcall .inl
      (hsane.reaches hreach) hquiet (hworld ▸ hrow) hsent
    obtain ⟨claimed, cycle, hclaim, hquiet'', hlive, hcursor, hflight, ⟨message, hmem, hmid⟩,
      hthere⟩ := reaches_claimed (fun l => row.status = .DEAD ∨ Unattended l) hbatch
        (show row.status = .DEAD ∨ Unattended (.spawn (.runOnce "dispatcher")) from .inr trivial)
        hcall ((hsane.reaches hreach).reaches hwait) hquiet' hrow' hdue
    obtain ⟨k, hk⟩ := List.getElem?_of_mem hmem
    obtain ⟨s', hdeliver, hdone⟩ := reaches_sent (fun l => row.status = .DEAD ∨ Unattended l)
      hconcurrency (fun _ _ _ => .inr trivial) hcall hquiet'' hlive
      (by rw [hcursor, Nat.zero_add]; exact hk) hflight (hmid ▸ hthere)
    refine ⟨s', ?_, ((hreach.trans hwait).trans hclaim).trans hdeliver⟩
    rw [← hid, ← hmid]
    exact hdone

/-- A worker dies with a claim. -/
def orphaned : List Label := claiming 0 "a" ++ [.move (.stop 0)]

/-- Its message is sent all the same, with nobody to attend to it. -/
theorem no_message_stuck_orphaned :
    ∃ s, runs (System.step sampleEnv) (Pool.start sampleWorld) orphaned = some s ∧
      s.world.db.status? 0 = some .SENDING ∧ ∃ s', s'.world.db.status? 0 = some .SENT ∧
        Reaches (System.step sampleEnv) Unattended s s' := by
  have hrun : (runs (System.step sampleEnv) (Pool.start sampleWorld) orphaned).any
      (fun s => s.world.db.emailMessages = [claimedBy "a" 0 1]) = true := by
    decide +kernel
  obtain ⟨s, hs, hall⟩ := (Option.any_eq_true _ _).mp hrun
  have hrows := of_decide_eq_true hall
  have hstamped : sampleWorld.db.Stamped := by
    unfold Database.Stamped
    decide
  obtain ⟨s', hsent, hreach⟩ := no_message_stuck sampleEnv (by decide) (by decide)
    ⟨by decide, by decide⟩ hstamped hs (claimedBy "a" 0 1) (by rw [hrows]; exact List.mem_singleton_self _)
  refine ⟨s, hs, ?_, s', hsent, hreach.mono fun l hl => hl.resolve_left ?_⟩
  · unfold Database.status? Database.message?
    rw [hrows]
    rfl
  · exact fun hdead => absurd hdead (by decide)

end PracticalMicroservice.Email
