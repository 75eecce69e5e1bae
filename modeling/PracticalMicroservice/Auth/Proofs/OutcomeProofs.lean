import PracticalMicroservice.Auth.Outcomes
import PracticalMicroservice.Auth.Proofs.GuessProofs

/-!
# The outcome of a code over whole runs
-/

namespace PracticalMicroservice.Auth

open Foundations (AllSteps Called Grown KeyedTable Lasting Pool Store runs)
open PrismaAuthRepository

/-- A row after a call: a code that was settled is settled as it was, unless the call burns it. -/
structure Steady (c : Call) (v v' : Verification) : Prop where
  id : v'.id = v.id
  status : v.status ≠ .PENDING →
    v'.status = v.status ∨ burns v.id (.repository c) = true ∧ v'.status = .EXPIRED

theorem lasting_steady (c : Call) : Lasting Verification.id (Steady c) where
  refl _ := ⟨rfl, fun _ => .inl rfl⟩
  trans {v v' v''} h h' := by
    refine ⟨h'.id.trans h.id, fun hv => ?_⟩
    have hburns : burns v'.id (.repository c) = burns v.id (.repository c) := by rw [h.id]
    rcases h.status hv with hsame | ⟨hburn, hexpired⟩
    · have hlater := h'.status (by rw [hsame]; exact hv)
      rwa [hsame, hburns] at hlater
    · have hlater := h'.status (by rw [hexpired]; simp)
      rw [hexpired] at hlater
      rcases hlater with hstill | ⟨-, hagain⟩
      · exact .inr ⟨hburn, hstill⟩
      · exact .inr ⟨hburn, hagain⟩
  key h := h.id

/-- No write but the one that burns a code changes the outcome of one. -/
theorem steady_of_writes {c : Call} {v v' : Verification} (h : Writes c v v') :
    Steady c v v' := by
  cases c with
  | registerVerificationAttempt id exhausted =>
    obtain ⟨hid, rfl⟩ := h
    refine ⟨rfl, fun hv => ?_⟩
    cases exhausted with
    | false => exact .inl rfl
    | true => exact .inr ⟨by simp [burns, hid], rfl⟩
  | replaceVerification authUserId input =>
    obtain ⟨hp, rfl⟩ := h
    exact ⟨rfl, fun hv => absurd (of_decide_eq_true hp).2.2 hv⟩
  | consumeEmailVerification id authUserId at_ =>
    obtain ⟨-, hp, rfl⟩ := h
    exact ⟨rfl, fun hv => absurd hp hv⟩
  | consumePasswordReset id authUserId passwordHash at_ =>
    obtain ⟨-, hp, rfl⟩ := h
    exact ⟨rfl, fun hv => absurd hp hv⟩
  | attachVerificationEmail id emailMessageId =>
    obtain ⟨-, rfl⟩ := h
    exact ⟨rfl, fun _ => .inl rfl⟩
  | _ => cases h

section

variable {env : Env} {s s' : System} {fate : Fate} {i : Nat} {task : Task} {command : Command}
  {next : command.Reply → Code} {reply : command.Reply}

theorem statusOf_eq {db : Database}
    (hk : KeyedTable Verification.id db.nextKey db.verifications) {v : Verification}
    (hv : v ∈ db.verifications) : db.statusOf v.id = some v.status := by
  rw [Database.statusOf, verification?_eq hk hv]
  rfl

theorem mem_of_statusOf {db : Database} {id : Nat} {status : VerificationStatus}
    (h : db.statusOf id = some status) : ∃ v ∈ db.verifications, v.id = id ∧ v.status = status := by
  obtain ⟨v, hv, hstatus⟩ := Option.map_eq_some_iff.mp h
  exact ⟨v, List.mem_of_find?_eq_some hv, by simpa using List.find?_some hv, hstatus⟩

/-- A code settled before a command is settled the same way after it. -/
theorem statusOf_call (hk : KeyedTable Verification.id s.world.db.nextKey s.world.db.verifications)
    (hc : Called (machine env) s s' i fate task command next reply)
    (hok : burnsPending s i fate command) {id : Nat} {status : VerificationStatus}
    (hid : s.world.db.statusOf id = some status) :
    ∃ status', s'.world.db.statusOf id = some status' ∧ (status ≠ .PENDING → status' = status) := by
  have hp := perform_of_called hc
  obtain ⟨v, hv, rfl, rfl⟩ := mem_of_statusOf hid
  have hk' := (codes_call hc).keyed lasting_code hk
  obtain ⟨v', hv', hsame⟩ := (codes_call hc).mem hv
  refine ⟨v'.status, by rw [← hsame.id]; exact statusOf_eq hk' hv', fun hsettled => ?_⟩
  have hunchanged : s'.world.db = s.world.db → v'.status = v.status := by
    intro hdb
    rw [hdb] at hv'
    rw [hk.eq_of_key hv' hv hsame.id]
  rcases perform_db hp with hdb | ⟨c, rfl, hdb⟩
  · exact hunchanged hdb
  · by_cases hrefused : fate.isRefused = true
    · exact hunchanged (db_of_refused hrefused hp)
    · have hgrown := codes_after_writes (lasting_steady c) s.world.db s.world.now c
        fun _ _ => steady_of_writes
      rw [← hdb] at hgrown
      have hsteady := hgrown.row (lasting_steady c) hk hv hv' hsame.id
      rcases hsteady.status hsettled with hkept | ⟨hburn, hexpired⟩
      · exact hkept
      · rcases hok (by simpa using hrefused) v hv hburn with hpending | hburnt
        · exact absurd hpending hsettled
        · rw [hexpired, hburnt]

/-! ## The invariant -/

/-- What holds of the codes and of what the trace has shown. -/
structure Settling (s : System) : Prop where
  rows : KeyedTable Verification.id s.world.db.nextKey s.world.db.verifications
  settled : SettledOnce s

theorem settling_start {world : World}
    (hk : KeyedTable Verification.id world.db.nextKey world.db.verifications) :
    Settling (Pool.start world) where
  rows := hk
  settled :=
    { fromPending := fun _ he => nomatch he
      once := fun _ => List.Pairwise.nil
      kept := fun _ he => nomatch he }

/-- A code that settles was pending, so nothing settled it before. -/
theorem Settling.call (h : Settling s)
    (hc : Called (machine env) s s' i fate task command next reply)
    (hok : burnsPending s i fate command) : Settling s' := by
  have hfrom : ∀ id, Settles ⟨i, command, reply, s.world, s'.world⟩ id →
      s.world.db.statusOf id = some .PENDING ∧
        ∃ status, s'.world.db.statusOf id = some status ∧
          (status = .VERIFIED ∨ status = .REVOKED ∨ status = .EXPIRED) := by
    rintro id ⟨hsome, hchange⟩
    obtain ⟨status, hstatus⟩ := Option.isSome_iff_exists.mp hsome
    obtain ⟨status', hstatus', hkept⟩ := statusOf_call h.rows hc hok hstatus
    have hne : status' ≠ status := by
      intro heq
      refine hchange ?_
      exact hstatus'.trans ((congrArg some heq).trans hstatus.symm)
    have hpending : status = .PENDING := by
      by_contra hsettled
      exact hne (hkept hsettled)
    rw [hpending] at hstatus hne
    refine ⟨hstatus, status', hstatus', ?_⟩
    cases status' with
    | PENDING => exact absurd rfl hne
    | VERIFIED => exact .inl rfl
    | REVOKED => exact .inr (.inl rfl)
    | EXPIRED => exact .inr (.inr rfl)
  -- what an older event settled is settled still
  have hkeeps : ∀ e ∈ s.trace, ∀ id, Settles e id →
      s'.world.db.statusOf id = e.after.db.statusOf id ∧
        s.world.db.statusOf id ≠ some .PENDING := by
    intro e he id hsettles
    obtain ⟨-, status, hstatus, hfinal⟩ := h.settled.fromPending e he id hsettles
    have hnow := (h.settled.kept e he id hsettles).trans hstatus
    obtain ⟨status', hstatus', hkept⟩ := statusOf_call h.rows hc hok hnow
    have hne : status ≠ .PENDING := by
      rcases hfinal with rfl | rfl | rfl <;> simp
    refine ⟨by rw [hstatus', hkept hne, hstatus], fun hpending => hne ?_⟩
    rw [hnow] at hpending
    exact Option.some.inj hpending
  refine ⟨(codes_call hc).keyed lasting_code h.rows, fun e he id hsettles => ?_, fun id => ?_,
    fun e he id hsettles => ?_⟩
  · rw [hc.trace] at he
    rcases List.mem_cons.mp he with rfl | he
    · exact hfrom id hsettles
    · exact h.settled.fromPending e he id hsettles
  · rw [hc.trace]
    refine List.pairwise_cons.mpr ⟨fun e he hboth => ?_, h.settled.once id⟩
    exact (hkeeps e he id hboth.2).2 (hfrom id hboth.1).1
  · rw [hc.trace] at he
    rcases List.mem_cons.mp he with rfl | he
    · rfl
    · exact (hkeeps e he id hsettles).1

theorem Settling.step (h : Settling s) {l : Label} (hok : Pool.calls burnsPending s l)
    (hs : System.step env s l = some s') : Settling s' := by
  rcases Foundations.pool_step_cases hs with ⟨task, -, rfl⟩ |
    ⟨i, fate, task, command, next, reply, rfl, hc⟩ | ⟨move, world, -, hmove, rfl⟩
  · exact ⟨h.rows, h.settled.fromPending, h.settled.once, h.settled.kept⟩
  · exact h.call hc (hok command hc.nextCommand)
  · have hkeep : world.db.verifications = s.world.db.verifications ∧
        world.db.nextKey = s.world.db.nextKey := by
      cases move with
      | tick ms =>
        cases hmove
        exact ⟨rfl, rfl⟩
      | setStatus id status =>
        cases hmove
        exact ⟨verifications_update_user _ _, rfl⟩
    have hstatus : ∀ id, world.db.statusOf id = s.world.db.statusOf id := by
      intro id
      unfold Database.statusOf Database.verification?
      rw [hkeep.1]
    refine ⟨?_, h.settled.fromPending, h.settled.once, fun e he id hsettles => ?_⟩
    · show KeyedTable _ world.db.nextKey world.db.verifications
      rw [hkeep.1, hkeep.2]
      exact h.rows
    · exact (hstatus id).trans (h.settled.kept e he id hsettles)

end

/-- While every code is burnt only when it is pending, a code leaves `PENDING` once, and what it then
became is on record from there on. -/
theorem status_settles_once (env : Env) {world : World}
    (hk : KeyedTable Verification.id world.db.nextKey world.db.verifications) {ls : List Label}
    {s : System} (hok : AllSteps (System.step env) (Pool.calls burnsPending) (Pool.start world) ls)
    (hrun : runs (System.step env) (Pool.start world) ls = some s) : SettledOnce s :=
  (Foundations.invariant_of_allSteps (P := Settling) (fun _ _ _ hl hs h => h.step hl hs) hok hrun
    (settling_start hk)).settled

/-- The first wrong guess leaves a code pending, and a right one uses it. -/
theorem status_settles_once_inTurn :
    ∃ s, runs (System.step sampleEnv) (Pool.start adasWorld) guessedInTurn = some s ∧
      SettledOnce s ∧ ∃ e ∈ s.trace, Settles e 1 ∧ s.world.db.statusOf 1 = some .VERIFIED := by
  have hrun : (runs (System.step sampleEnv) (Pool.start adasWorld) guessedInTurn).any
      (fun s => s.trace.any fun e =>
        decide (Settles e 1 ∧ s.world.db.statusOf 1 = some .VERIFIED)) = true := by
    decide +kernel
  obtain ⟨s, hs, hall⟩ := (Option.any_eq_true _ _).mp hrun
  obtain ⟨e, he, hsettled⟩ := List.any_eq_true.mp hall
  exact ⟨s, hs, status_settles_once sampleEnv Foundations.keyedTable_nil (by decide +kernel) hs,
    e, he, of_decide_eq_true hsettled⟩

/-- The last wrong guess is compared, the right one used, and then the wrong one recorded. -/
def usedThenBurnt : List Label :=
  codeIssued ++ alone 1 5 (.resetPassword "ada@example.com" "wrong" "new" {}) ++
    alone 2 4 (.resetPassword "ada@example.com" "bad" "new" {}) ++
    alone 3 7 (.resetPassword "ada@example.com" "" "new" {}) ++ [.call 2 .served]

/-- A code that was used is recorded as burnt. -/
theorem used_code_recorded_burnt :
    ∃ s, runs (System.step sampleEnv) (Pool.start adasWorld) usedThenBurnt = some s ∧
      ¬ SettledOnce s := by
  have hrun : (runs (System.step sampleEnv) (Pool.start adasWorld) usedThenBurnt).any
      (fun s => s.trace.any fun e =>
        decide (Settles e 1 ∧ e.before.db.statusOf 1 = some .VERIFIED)) = true := by
    decide +kernel
  obtain ⟨s, hs, hall⟩ := (Option.any_eq_true _ _).mp hrun
  obtain ⟨e, he, hsettled⟩ := List.any_eq_true.mp hall
  obtain ⟨hsettles, hverified⟩ := of_decide_eq_true hsettled
  refine ⟨s, hs, fun h => ?_⟩
  have hpending := (h.fromPending e he 1 hsettles).1
  rw [hverified] at hpending
  cases hpending

end PracticalMicroservice.Auth
