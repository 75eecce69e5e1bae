import PracticalMicroservice.Email.Proofs.HistoryProofs
import PracticalMicroservice.Email.Proofs.SystemProofs

/-!
# Proofs: batches

A worker claims at one time only once, so what a cycle reads back is its own: every place of its
batch is a row it stamped, and is delivered by one thread.
-/

namespace PracticalMicroservice.Email

open Foundations (Called Pool Recounted)
open PrismaEmailRepository (findClaimed heldBy)

/-- The messages of a batch were claimed at one time, by one answered claim of the cycle. -/
def ClaimedBy (trace : List Event) (cycle : Nat) (messages : List EmailMessage) : Prop :=
  ∃ workerId now,
    (∃ e ∈ trace, e.thread = cycle ∧ claimed? e.told = some (workerId, now)) ∧
    (∀ m ∈ messages, m.lockedBy = some workerId ∧ m.lockedAt = some now) ∧
    (messages.map (·.id)).Nodup

/-- What holds of the batches while claims are told apart. -/
structure Batched (env : Env) (s : System) : Prop where
  sound : s.world.db.Sound
  recounted : Recounted (Justified env) Credible Concluded s
  alone : ∀ e ∈ s.trace, ∀ e' ∈ s.trace, ∀ claim, claimed? e.told = some claim →
    claimed? e'.told = some claim → e.thread = e'.thread
  batches : ∀ cycle messages, s.result cycle = some (.claimed (.ok messages)) →
    messages = [] ∨ ClaimedBy s.trace cycle messages
  inTurn : InTurn s

variable {env : Env} {s s' : System} {l : Label}

theorem batched_start {world : World} (hs : world.db.Sound) :
    Batched env (Pool.start world : System) where
  sound := hs
  recounted := Foundations.recounted_start
  alone _ he := nomatch he
  batches cycle messages h := by simp [Pool.result, Pool.start] at h
  inTurn i cycle index message h := by simp [Pool.task, Pool.start] at h

/-! ## A task begins -/

section Spawn

variable {task : Task}

/-- A thread that has begun has no batch yet. -/
theorem batch_of_new {messages : List EmailMessage}
    (h : task.run env = .done (.claimed (.ok messages))) : messages = [] := by
  have hmeets := told_run env task
  rw [h] at hmeets
  rcases hmeets messages rfl with ⟨hnil, -⟩ | ⟨workerId, now, rest, hpast, -⟩
  · exact hnil
  · cases hpast

theorem task_spawn {i : Nat} {t : Task}
    (h : Pool.task { s with threads := s.threads ++ [⟨task, task.run env⟩] } i = some t) :
    s.task i = some t ∨ (i = s.threads.length ∧ t = task) := by
  unfold Pool.task at h ⊢
  obtain ⟨thread, hget, rfl⟩ := Option.map_eq_some_iff.mp h
  rcases Nat.lt_or_ge i s.threads.length with hlt | hge
  · left
    rw [List.getElem?_append_left hlt] at hget
    rw [hget]
    rfl
  · right
    rw [List.getElem?_append_right hge] at hget
    have hlen := (List.getElem?_eq_some_iff.mp hget).1
    rw [List.length_singleton] at hlen
    obtain rfl : i = s.threads.length := by omega
    rw [Nat.sub_self] at hget
    cases hget
    exact ⟨rfl, rfl⟩

theorem result_spawn_of_batch {cycle : Nat} {messages : List EmailMessage} (hne : messages ≠ [])
    (h : Pool.result { s with threads := s.threads ++ [⟨task, task.run env⟩] } cycle =
      some (.claimed (.ok messages))) : s.result cycle = some (.claimed (.ok messages)) := by
  rcases Nat.lt_or_ge cycle s.threads.length with hlt | hge
  · rw [← h]
    exact (Foundations.result_spawn _ hlt).symm
  · obtain ⟨t, ht⟩ := Foundations.result_eq_some h
    rw [List.getElem?_append_right hge] at ht
    have hlen := (List.getElem?_eq_some_iff.mp ht).1
    rw [List.length_singleton] at hlen
    obtain rfl : cycle = s.threads.length := by omega
    rw [Nat.sub_self] at ht
    have hrun : task.run env = .done (.claimed (.ok messages)) :=
      congrArg Foundations.Thread.program (Option.some.inj ht)
    exact absurd (batch_of_new hrun) hne

/-- A batch that is there stays as it is. -/
theorem batch_spawn {cycle index : Nat} {message : EmailMessage}
    (h : (s.batch cycle)[index]? = some message) :
    System.batch { s with threads := s.threads ++ [⟨task, task.run env⟩] } cycle =
      s.batch cycle := by
  have hr := result_of_batch (List.mem_of_getElem? h)
  obtain ⟨t, ht⟩ := Foundations.result_eq_some hr
  exact batch_congr (Foundations.result_spawn _ (List.getElem?_eq_some_iff.mp ht).1)

theorem Batched.spawn (h : Batched env s) (hb : s.Begins env (.spawn task))
    (hs : Pool.step machine (Task.run env) s (.spawn task) = some s') : Batched env s' := by
  have hrec := h.recounted.step (told_run env) (fun _ _ _ _ _ _ => credible_of_perform) hs
  obtain rfl : { s with threads := s.threads ++ [⟨task, task.run env⟩] } = s' := Option.some.inj hs
  refine ⟨h.sound, hrec, h.alone, fun cycle messages hr => ?_, ?_⟩
  · by_cases hne : messages = []
    · exact .inl hne
    · exact h.batches cycle messages (result_spawn_of_batch hne hr)
  · intro i cycle index message ht
    rw [List.map_append]
    rcases task_spawn ht with hold | ⟨rfl, rfl⟩
    · obtain ⟨hcount, hget⟩ := h.inTurn i cycle index message hold
      have hlt : i < (s.threads.map (·.task)).length :=
        (List.getElem?_eq_some_iff.mp (task_get hold)).1
      rw [List.take_append_of_le_length (by omega), batch_spawn hget]
      exact ⟨hcount, hget⟩
    · obtain ⟨-, hcursor, hget, -⟩ := hb
      refine ⟨?_, by rw [batch_spawn hget]; exact hget⟩
      rw [List.take_append_of_le_length (by rw [List.length_map]), List.take_of_length_le
        (by rw [List.length_map])]
      exact hcursor

/-- What a thread may deliver once another has begun: what it could before, or what is left of the
batch of a cycle that lives. -/
theorem pending_spawn (hb : s.Begins env (.spawn task)) {i : Nat} {message : EmailMessage}
    (hm : message ∈ System.pending { s with threads := s.threads ++ [⟨task, task.run env⟩] } i) :
    (i < s.threads.length ∧ message ∈ s.pending i) ∨
      ∃ cycle, cycle ∉ s.world.stopped ∧ message ∈ (s.batch cycle).drop (s.cursor cycle) := by
  rcases mem_pending hm with ⟨cycle, index, command, next, ht⟩ | hrest
  · have htask : Pool.task { s with threads := s.threads ++ [⟨task, task.run env⟩] } i =
        some (.deliver cycle index message) := by
      unfold Pool.task
      rw [ht]
      rfl
    rcases task_spawn htask with hold | ⟨rfl, rfl⟩
    · have hlt := (List.getElem?_eq_some_iff.mp (task_get hold)).1
      rw [List.length_map] at hlt
      rw [List.getElem?_append_left hlt] at ht
      refine .inl ⟨hlt, ?_⟩
      rw [pending_deliver ht]
      exact List.mem_singleton_self _
    · obtain ⟨hstop, hcursor, hget, -⟩ := hb
      refine .inr ⟨cycle, hstop, ?_⟩
      rw [hcursor]
      refine List.mem_of_getElem? (i := 0) ?_
      rw [List.getElem?_drop]
      exact hget
  · have hmem := List.mem_of_mem_drop hrest
    have hr := result_spawn_of_batch (List.ne_nil_of_mem hmem) (result_of_batch hmem)
    obtain ⟨t, ht⟩ := Foundations.result_eq_some hr
    refine .inl ⟨(List.getElem?_eq_some_iff.mp ht).1, ?_⟩
    rw [pending_cycle hr]
    have hle : s.cursor i ≤
        System.cursor { s with threads := s.threads ++ [⟨task, task.run env⟩] } i := by
      unfold System.cursor
      rw [List.map_append, List.countP_append]
      exact Nat.le_add_right _ _
    exact List.drop_subset_drop_left _ hle hrest

end Spawn

/-! ## A command is performed -/

section Call

variable {i : Nat} {fate : Fate} {task : Task} {command : Command} {next : command.Reply → Code}
  {reply : command.Reply}

/-- A batch a cycle ends with is what its last command read. -/
theorem readBack_of_done (h : Recounted (Justified env) Credible Concluded s')
    (hc : Called machine s s' i fate task command next reply) {messages : List EmailMessage}
    (hn : next reply = .done (.claimed (.ok messages))) :
    (messages = [] ∧ ∀ e ∈ s'.trace, e.thread = i → e.command.claims = false) ∨
      ∃ workerId now, messages = findClaimed workerId now s.world.db ∧
        s'.world.db = s.world.db ∧
        ∃ e ∈ s.trace, e.thread = i ∧ claimed? e.told = some (workerId, now) := by
  have ht : s'.threads[i]? = some ⟨task, .done (.claimed (.ok messages))⟩ := by
    rw [hc.getElem?, if_pos rfl, hn]
  have hpost := h.returned ht
  rcases hpost messages rfl with ⟨hnil, hnone⟩ | ⟨workerId, now, rest, hpast, x, hx, hclaim⟩
  · exact .inl ⟨hnil, fun e he hi => hnone e.told (hi ▸ Foundations.mem_pastOf_of_mem he)⟩
  · rw [hc.pastOf_self] at hpast
    obtain ⟨hhead, rfl⟩ := List.cons.inj hpast
    cases hhead
    obtain ⟨hmessages, hdb⟩ := perform_findClaimed hc.perform
    obtain ⟨e, he, hthread, rfl⟩ := Foundations.mem_pastOf hx
    exact .inr ⟨workerId, now, hmessages, hdb, e, he, hthread, hclaim⟩

theorem mem_findClaimed {workerId : String} {now : Nat} {db : Database} {m : EmailMessage} :
    m ∈ findClaimed workerId now db ↔ m ∈ db.emailMessages ∧ heldBy workerId now m = true := by
  unfold findClaimed PrismaEmailRepository.byNextAttempt
  rw [List.mem_insertionSort, List.mem_filter]

/-- The rows read back are each under the claim they were read by. -/
theorem holds_of_findClaimed {workerId : String} {now : Nat} {db : Database} (hs : db.Sound)
    {m : EmailMessage} (hm : m ∈ findClaimed workerId now db) :
    Holds db m ∧ m.lockedBy = some workerId ∧ m.lockedAt = some now := by
  obtain ⟨hmem, hheld⟩ := mem_findClaimed.mp hm
  unfold heldBy at hheld
  rw [Bool.and_eq_true, Bool.and_eq_true, decide_eq_true_eq, decide_eq_true_eq,
    decide_eq_true_eq] at hheld
  obtain ⟨⟨hstatus, hby⟩, hat⟩ := hheld
  exact ⟨⟨m, hs.message?_of_mem hmem, hstatus, rfl, rfl⟩, hby, hat⟩

theorem nodup_findClaimed {workerId : String} {now : Nat} {db : Database} (hs : db.Sound) :
    ((findClaimed workerId now db).map (·.id)).Nodup := by
  have hp : (findClaimed workerId now db).Perm (db.emailMessages.filter (heldBy workerId now)) :=
    List.perm_insertionSort _ _
  rw [(hp.map _).nodup_iff]
  exact hs.distinct.sublist (List.filter_sublist.map _)

/-- What a thread may deliver after a command: what it could before, if the command was not the last
of its own, or what was read back. -/
theorem pending_call (h : Recounted (Justified env) Credible Concluded s')
    (hc : Called machine s s' i fate task command next reply) {j : Nat} {message : EmailMessage}
    (hm : message ∈ s'.pending j) :
    (message ∈ s.pending j ∧ (j = i → ∃ command' next', next reply = .perform command' next')) ∨
      (j = i ∧ ∃ workerId now, message ∈ findClaimed workerId now s.world.db ∧
        s'.world.db = s.world.db) := by
  rcases mem_pending hm with ⟨cycle, index, command', next', ht⟩ | hrest
  · rw [hc.getElem?] at ht
    by_cases hji : j = i
    · subst hji
      rw [if_pos rfl] at ht
      obtain ⟨rfl, hn⟩ := Foundations.Thread.mk.inj (Option.some.inj ht)
      refine .inl ⟨?_, fun _ => ⟨command', next', hn⟩⟩
      rw [pending_deliver hc.thread]
      exact List.mem_singleton_self _
    · rw [if_neg hji] at ht
      refine .inl ⟨?_, fun he => absurd he hji⟩
      rw [pending_deliver ht]
      exact List.mem_singleton_self _
  · have hr := result_of_batch (List.mem_of_mem_drop hrest)
    by_cases hji : j = i
    · subst hji
      obtain ⟨t, ht⟩ := Foundations.result_eq_some hr
      rw [hc.getElem?, if_pos rfl] at ht
      have hn : next reply = .done (.claimed (.ok (s'.batch j))) :=
        congrArg Foundations.Thread.program (Option.some.inj ht)
      rcases readBack_of_done h hc hn with ⟨hnil, -⟩ | ⟨workerId, now, hback, hsame, -⟩
      · rw [hnil] at hrest
        simp at hrest
      · rw [hback] at hrest
        exact .inr ⟨rfl, workerId, now, List.mem_of_mem_drop hrest, hsame⟩
    · rw [hc.result_of_ne hji] at hr
      refine .inl ⟨?_, fun he => absurd he hji⟩
      have hcursor : s'.cursor j = s.cursor j := by
        unfold System.cursor
        rw [hc.tasks]
      rw [pending_cycle hr, ← hcursor]
      exact hrest

/-- The claim is the first of its worker at its time. -/
def System.Singly (s : System) (_thread : Nat) (fate : Fate) : Command → Prop
  | .repository (.claimCandidates _ workerId now _) =>
    fate = .served → ∀ e ∈ s.trace, claimed? e.told ≠ some (workerId, now)
  | _ => True

theorem Batched.call (h : Batched env s) (hsingly : s.Singly i fate command)
    (hs : Pool.step machine (Task.run env) s (.call i fate) = some s')
    (hc : Called machine s s' i fate task command next reply) : Batched env s' := by
  have hrec := h.recounted.step (told_run env) (fun _ _ _ _ _ _ => credible_of_perform) hs
  obtain ⟨-, -, hdb⟩ := perform_cases hc.perform
  refine ⟨?_, hrec, ?_, fun cycle messages hr => ?_, ?_⟩
  · rcases hdb with hdb | ⟨c, -, -, hdb⟩
    · rw [hdb]
      exact h.sound
    · rw [hdb]
      exact sound_serve h.sound
  · have hfirst : ∀ claim, claimed? ⟨command, reply⟩ = some claim →
        ∀ e ∈ s.trace, claimed? e.told ≠ some claim := by
      rintro ⟨workerId, now⟩ hclaim
      obtain ⟨rfl, ids, claimTimeoutMs, rfl⟩ := served_of_claimed hc.perform hclaim
      exact hsingly rfl
    intro e he e' he' claim hclaim hclaim'
    rw [hc.trace] at he he'
    rcases List.mem_cons.mp he with rfl | he
    · rcases List.mem_cons.mp he' with rfl | he'
      · rfl
      · exact absurd hclaim' (hfirst claim hclaim e' he')
    · rcases List.mem_cons.mp he' with rfl | he'
      · exact absurd hclaim (hfirst claim hclaim' e he)
      · exact h.alone e he e' he' claim hclaim hclaim'
  · by_cases hci : cycle = i
    · subst hci
      obtain ⟨t, ht⟩ := Foundations.result_eq_some hr
      rw [hc.getElem?, if_pos rfl] at ht
      have hn : next reply = .done (.claimed (.ok messages)) :=
        congrArg Foundations.Thread.program (Option.some.inj ht)
      rcases readBack_of_done hrec hc hn with ⟨hnil, -⟩ |
        ⟨workerId, now, rfl, -, e, he, hthread, hclaim⟩
      · exact .inl hnil
      · refine .inr ⟨workerId, now, ⟨e, ?_, hthread, hclaim⟩, fun m hm => ?_,
          nodup_findClaimed h.sound⟩
        · rw [hc.trace]
          exact List.mem_cons_of_mem _ he
        · exact (holds_of_findClaimed h.sound hm).2
    · rw [hc.result_of_ne hci] at hr
      refine (h.batches cycle messages hr).imp_right ?_
      rintro ⟨workerId, now, ⟨e, he, hclaim⟩, hrest⟩
      refine ⟨workerId, now, ⟨e, ?_, hclaim⟩, hrest⟩
      rw [hc.trace]
      exact List.mem_cons_of_mem _ he
  · intro j cycle index message ht
    rw [hc.task] at ht
    obtain ⟨hcount, hget⟩ := h.inTurn j cycle index message ht
    have hr := result_of_batch (List.mem_of_getElem? hget)
    have hne : cycle ≠ i := by
      rintro rfl
      rw [hc.result_self] at hr
      cases hr
    rw [hc.tasks, batch_congr (hc.result_of_ne hne)]
    exact ⟨hcount, hget⟩

end Call

/-- A move of the world leaves the tables alone. -/
theorem world_of_move {m : Move} {w w' : World} (h : World.move m w = some w') :
    w'.db = w.db ∧ ∀ i ∈ w.stopped, i ∈ w'.stopped := by
  cases m with
  | tick ms =>
    cases h
    exact ⟨rfl, fun i hi => hi⟩
  | stop thread =>
    cases h
    exact ⟨rfl, fun i hi => List.mem_cons_of_mem _ hi⟩

theorem Batched.move (h : Batched env s) {m : Move}
    (hs : Pool.step machine (Task.run env) s (.move m) = some s') : Batched env s' := by
  have hrec := h.recounted.step (told_run env) (fun _ _ _ _ _ _ => credible_of_perform) hs
  obtain ⟨world, hw, rfl⟩ := Option.map_eq_some_iff.mp hs
  refine ⟨?_, hrec, h.alone, h.batches, h.inTurn⟩
  show world.db.Sound
  rw [(world_of_move hw).1]
  exact h.sound

/-! ## One thread for a claim -/

section Place

variable {cycle cycle' index index' : Nat} {message message' : EmailMessage}

/-- Two places with a row under one claim are one place. -/
theorem Batched.place (h : Batched env s) (hb : (s.batch cycle)[index]? = some message)
    (hb' : (s.batch cycle')[index']? = some message') (hid : message.id = message'.id)
    (hby : message.lockedBy = message'.lockedBy) (hat : message.lockedAt = message'.lockedAt) :
    cycle = cycle' ∧ index = index' := by
  have hmem := List.mem_of_getElem? hb
  have hmem' := List.mem_of_getElem? hb'
  obtain ⟨workerId, now, ⟨e, he, hcycle, hclaim⟩, hlocked, hnodup⟩ :=
    (h.batches cycle _ (result_of_batch hmem)).resolve_left (List.ne_nil_of_mem hmem)
  obtain ⟨workerId', now', ⟨e', he', hcycle', hclaim'⟩, hlocked', -⟩ :=
    (h.batches cycle' _ (result_of_batch hmem')).resolve_left (List.ne_nil_of_mem hmem')
  have hworker : some workerId = some workerId' := by
    rw [← (hlocked message hmem).1, hby, (hlocked' message' hmem').1]
  have hnow : some now = some now' := by
    rw [← (hlocked message hmem).2, hat, (hlocked' message' hmem').2]
  cases hworker
  cases hnow
  have hcc : cycle = cycle' := by
    rw [← hcycle, ← hcycle']
    exact h.alone e he e' he' _ hclaim hclaim'
  subst hcc
  refine ⟨rfl, (List.getElem?_inj ?_ hnodup).mp ?_⟩
  · rw [List.length_map]
    exact (List.getElem?_eq_some_iff.mp hb).1
  · rw [List.getElem?_map, List.getElem?_map, hb, hb', Option.map_some, Option.map_some, hid]

end Place

end PracticalMicroservice.Email
