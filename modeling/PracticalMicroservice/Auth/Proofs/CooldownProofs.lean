import PracticalMicroservice.Auth.Outcomes
import PracticalMicroservice.Auth.Proofs.GuessProofs
import PracticalMicroservice.Foundations.Turns

/-!
# The cooldown over whole runs of requests one after another

The request under way looked up the newest pending code, and nothing has been issued since. A code
that is pending and was issued before is no newer than the one it found.
-/

namespace PracticalMicroservice.Auth

open Foundations (AllSteps Called Grown InTurns KeyedTable Lasting Pool Recounted Store pastOf runs)
open PrismaAuthRepository

/-- A row after a call is the same code, issued as it was, and pending only if it was. -/
structure SameIssue (v v' : Verification) : Prop where
  id : v'.id = v.id
  authUserId : v'.authUserId = v.authUserId
  type : v'.type = v.type
  issuedAt : v'.issuedAt = v.issuedAt
  pending : v'.status = .PENDING → v.status = .PENDING

theorem lasting_issue : Lasting Verification.id SameIssue where
  refl _ := ⟨rfl, rfl, rfl, rfl, id⟩
  trans h h' := ⟨h'.id.trans h.id, h'.authUserId.trans h.authUserId, h'.type.trans h.type,
    h'.issuedAt.trans h.issuedAt, fun hv => h.pending (h'.pending hv)⟩
  key h := h.id

theorem sameIssue_of_writes {c : Call} {v v' : Verification} (h : Writes c v v') :
    SameIssue v v' := by
  cases c with
  | registerVerificationAttempt id exhausted =>
    obtain ⟨-, rfl⟩ := h
    refine ⟨rfl, rfl, rfl, rfl, fun hv => ?_⟩
    cases exhausted with
    | true => cases hv
    | false => exact hv
  | replaceVerification authUserId input =>
    obtain ⟨-, rfl⟩ := h
    exact ⟨rfl, rfl, rfl, rfl, fun hv => nomatch hv⟩
  | consumeEmailVerification id authUserId at_ =>
    obtain ⟨-, -, rfl⟩ := h
    exact ⟨rfl, rfl, rfl, rfl, fun hv => nomatch hv⟩
  | consumePasswordReset id authUserId passwordHash at_ =>
    obtain ⟨-, -, rfl⟩ := h
    exact ⟨rfl, rfl, rfl, rfl, fun hv => nomatch hv⟩
  | attachVerificationEmail id emailMessageId =>
    obtain ⟨-, rfl⟩ := h
    exact ⟨rfl, rfl, rfl, rfl, fun hv => hv⟩
  | _ => cases h

theorem SameIssue.isPending {v v' : Verification} (h : SameIssue v v') {id : Nat}
    {type : VerificationType} (hp : isPending id type v' = true) : isPending id type v = true := by
  obtain ⟨hid, htype, hpending⟩ := of_decide_eq_true hp
  exact decide_eq_true ⟨h.authUserId.symm.trans hid, h.type.symm.trans htype, h.pending hpending⟩

/-- No row is newer than the newest. -/
theorem issuedAt_le_newest {vs : List Verification} {v : Verification} (hv : v ∈ vs) :
    ∃ w, newest vs = some w ∧ v.issuedAt ≤ w.issuedAt := by
  induction vs with
  | nil => cases hv
  | cons u vs ih =>
    unfold newest
    cases hn : newest vs with
    | none =>
      rcases List.mem_cons.mp hv with rfl | hv
      · exact ⟨v, rfl, Nat.le_refl _⟩
      · obtain ⟨w, hw, -⟩ := ih hv
        rw [hn] at hw
        cases hw
    | some x =>
      dsimp only
      by_cases hlt : u.issuedAt < x.issuedAt
      · rw [if_pos hlt]
        refine ⟨x, rfl, ?_⟩
        rcases List.mem_cons.mp hv with rfl | hv
        · omega
        · obtain ⟨w, hw, hle⟩ := ih hv
          rw [hn] at hw
          cases hw
          exact hle
      · rw [if_neg hlt]
        refine ⟨u, rfl, ?_⟩
        rcases List.mem_cons.mp hv with rfl | hv
        · exact Nat.le_refl _
        · obtain ⟨w, hw, hle⟩ := ih hv
          rw [hn] at hw
          cases hw
          omega

/-- A replacement adds one code, to the account and of the type it was asked for. -/
theorem issued_after {db : Database} (now id : Nat) (input : NewVerificationRecord)
    (hk : KeyedTable Verification.id db.nextKey db.verifications) {v : Verification}
    (hv : v ∈ (db.after now (.replaceVerification id input)).verifications)
    (hnew : v.id = db.nextKey) :
    v = verificationRow db.nextKey now id input ∧
      (db.after now (.replaceVerification id input)).nextKey = db.nextKey + 1 := by
  have hafter : db.after now (.replaceVerification id input) = _ :=
    congrArg Prod.snd (Store.atomically_ok (run_replaceVerification now id input))
  rw [hafter] at hv ⊢
  refine ⟨?_, rfl⟩
  rw [verifications_insert, verifications_update_verification] at hv
  rcases List.mem_append.mp hv with hold | hrow
  · obtain ⟨u, hu, rfl⟩ := List.mem_map.mp hold
    have hbelow := hk.below u hu
    split at hnew
    · exact absurd hnew (Nat.ne_of_lt hbelow)
    · exact absurd hnew (Nat.ne_of_lt hbelow)
  · exact List.mem_singleton.mp hrow

/-! ## The invariant -/

/-- What holds of the codes issued, and of what the request under way has looked up. -/
structure Cooling (env : Env) (s : System) : Prop where
  rows : KeyedTable Verification.id s.world.db.nextKey s.world.db.verifications
  turns : InTurns s
  before : ∀ e ∈ s.trace, e.before.db.nextKey ≤ s.world.db.nextKey
  keys : ∀ e ∈ s.trace, e.after.db.nextKey ≤ s.world.db.nextKey
  ordered : s.trace.Pairwise fun e e' => e'.after.db.nextKey ≤ e.before.db.nextKey
  clock : ∀ e ∈ s.trace, ∀ now : Nat, e.told = ⟨.now, now⟩ → now ≤ s.world.now
  issued : ∀ e ∈ s.trace, ∀ id type, Issues e id type →
    e.before.db.nextKey < e.after.db.nextKey ∧ ∃ v ∈ s.world.db.verifications,
      v.id = e.before.db.nextKey ∧ v.authUserId = id ∧ v.type = type ∧ v.issuedAt = e.before.now
  lookedUp : ∀ e ∈ s.trace, s.result e.thread = none → ∀ id type active,
    e.told = ⟨.repository (.findActiveVerification id type), .ok active⟩ →
    ∀ v ∈ s.world.db.verifications, v.id < e.before.db.nextKey → isPending id type v = true →
      ∃ a, active = some a ∧ v.issuedAt ≤ a.issuedAt
  spaced : SpacedOut env s

theorem cooling_start {env : Env} {world : World}
    (hk : KeyedTable Verification.id world.db.nextKey world.db.verifications) :
    Cooling env (Pool.start world) where
  rows := hk
  turns := Foundations.inTurns_start
  before _ he := nomatch he
  keys _ he := nomatch he
  ordered := List.Pairwise.nil
  clock _ he := nomatch he
  issued _ he := nomatch he
  lookedUp _ he := nomatch he
  spaced _ _ := List.Pairwise.nil

section

variable {env : Env} {s s' : System} {fate : Fate} {i : Nat} {task : Task} {command : Command}
  {next : command.Reply → Code} {reply : command.Reply}

theorem issuedTo_eq {id : Nat} {type : VerificationType} (h : issuedTo command = some (id, type)) :
    ∃ input, command = .repository (.replaceVerification id input) ∧ input.type = type := by
  unfold issuedTo at h
  split at h
  · obtain ⟨rfl, rfl⟩ := Prod.mk.inj (Option.some.inj h)
    exact ⟨_, rfl, rfl⟩
  · cases h

/-- A code issued is a replacement that took effect. -/
theorem issues_command (hc : Called (machine env) s s' i fate task command next reply)
    {id : Nat} {type : VerificationType}
    (hk : KeyedTable Verification.id s.world.db.nextKey s.world.db.verifications)
    (h : Issues ⟨i, command, reply, s.world, s'.world⟩ id type) :
    fate.isRefused = false ∧ ∃ input, command = .repository (.replaceVerification id input) ∧
      input.type = type ∧
      s'.world.db = s.world.db.after s.world.now (.replaceVerification id input) := by
  obtain ⟨hto, v, hv, hnew⟩ := h
  have hp := perform_of_called hc
  obtain ⟨input, rfl, htype⟩ := issuedTo_eq hto
  have hfate : fate.isRefused = false := by
    rw [← Bool.not_eq_true]
    intro hrefused
    have hv : v ∈ s'.world.db.verifications := hv
    rw [db_of_refused hrefused hp] at hv
    exact absurd hnew (Nat.ne_of_lt (hk.below v hv))
  exact ⟨hfate, input, rfl, htype, db_of_effect hfate hp⟩

/-- A request about to issue a code has issued none before. -/
theorem CooledDown.issuedTo {past : Told} {id : Nat} {type : VerificationType}
    (h : CooledDown env id type past) : ∀ x ∈ past, issuedTo x.1 = none := by
  obtain ⟨email, u, -, rfl | ⟨now, active, -, rfl⟩⟩ := h <;> simp [Auth.issuedTo]

/-- It looked up the code outstanding, and what it found had cooled down. -/
theorem CooledDown.lookup {past : Told} {id : Nat} {type : VerificationType}
    (h : CooledDown env id type past) :
    ∃ active, past.Heard (.repository (.findActiveVerification id type)) (.ok active) ∧
      ∀ a, active = some a → ∃ now : Nat, past.Heard .now now ∧
        a.issuedAt + env.resendCooldownMs ≤ now := by
  obtain ⟨email, u, -, rfl | ⟨now, active, hcooled, rfl⟩⟩ := h
  · exact ⟨none, List.mem_cons_self, fun a ha => nomatch ha⟩
  · refine ⟨some active, List.mem_cons_of_mem _ List.mem_cons_self, ?_⟩
    rintro _ ⟨⟩
    refine ⟨now, List.mem_cons_self, ?_⟩
    simpa [AuthService.withinCooldown, Env.resendCooldownMs] using hcooled

/-- A code about to be issued is a cooldown away from every one issued before. -/
theorem Cooling.cooled (h : Cooling env s)
    (hr : Recounted (Justified env) Plausible (Concluded env) s) {id : Nat}
    {input : NewVerificationRecord}
    {next : (Command.repository (.replaceVerification id input)).Reply → Code}
    (hi : s.threads[i]? = some ⟨task, .perform (.repository (.replaceVerification id input)) next⟩)
    (hok : leavesPending env s i fate (.repository (.replaceVerification id input)))
    (hfate : fate.isRefused = false) {e : Event} (he : e ∈ s.trace)
    (hissues : Issues e id input.type) : e.before.now + env.resendCooldownMs ≤ s.world.now := by
  by_contra hyoung
  obtain ⟨-, now, code, rest, hpast, hcool⟩ := hr.allowed hi
  have hout : s.result i = none := by
    unfold Pool.result
    rw [hi]
  obtain ⟨active, hlookup, hactive⟩ := hcool.lookup
  have hmem : ∀ x ∈ rest, x ∈ pastOf i s.trace := by
    intro x hx
    rw [hpast]
    exact List.mem_cons_of_mem _ (List.mem_cons_of_mem _ hx)
  obtain ⟨newer, older, hsplit⟩ := List.append_of_mem (hmem _ hlookup)
  obtain ⟨newer', e', older', htrace, rfl, htold, -⟩ := Foundations.exists_split hsplit
  -- the earlier code is of another request, and so older than the lookup
  have hother : e.thread ≠ e'.thread := by
    intro hsame
    have htold' := Foundations.mem_pastOf_of_mem he
    rw [hsame, hpast] at htold'
    have hnone : issuedTo e.command = none := by
      rcases List.mem_cons.mp htold' with heq | htold'
      · rw [show e.command = _ from congrArg Sigma.fst heq]
        rfl
      · rcases List.mem_cons.mp htold' with heq | htold'
        · rw [show e.command = _ from congrArg Sigma.fst heq]
          rfl
        · exact hcool.issuedTo _ htold'
    rw [hissues.1] at hnone
    cases hnone
  have holder := h.turns.earlier htrace hout he hother
  have hkeys : e.after.db.nextKey ≤ e'.before.db.nextKey := by
    have hordered := h.ordered
    rw [htrace, List.pairwise_append, List.pairwise_cons] at hordered
    exact hordered.2.1.1 e holder
  obtain ⟨hkey, v, hv, hid, hfor, htype, hat⟩ := h.issued e he id input.type hissues
  have hpending : isPending id input.type v = true :=
    decide_eq_true ⟨hfor, htype, hok hfate _ rfl e he hissues (by omega) v hv hid⟩
  have he' : e' ∈ s.trace := by
    rw [htrace]
    exact List.mem_append_right _ List.mem_cons_self
  obtain ⟨a, rfl, hle⟩ := h.lookedUp e' he' hout id input.type active htold v hv (by omega) hpending
  obtain ⟨read, hread, hcooled⟩ := hactive a rfl
  obtain ⟨e₀, he₀, -, hclock⟩ := Foundations.mem_pastOf (hmem _ hread)
  have := h.clock e₀ he₀ read hclock
  omega

/-- A lookup answers with the newest pending code. -/
theorem newest_of_lookup (hc : Called (machine env) s s' i fate task command next reply) {id : Nat}
    {type : VerificationType} {active : Option Verification}
    (htold : (⟨command, reply⟩ : (c : Command) × c.Reply) =
      ⟨.repository (.findActiveVerification id type), .ok active⟩) :
    active = newest (s.world.db.verifications.filter (isPending id type)) := by
  cases htold
  rcases perform_repository (perform_of_called hc) with ⟨-, hreply | ⟨e, hreply⟩⟩ | ⟨-, e, hreply⟩
  · have hfound : (Store.run (findActiveVerification id type) s.world.db).1 = .ok active :=
      mapError_ok (hreply.symm.trans rfl)
    rw [run_findActiveVerification] at hfound
    exact (Except.ok.inj hfound).symm
  · cases hreply
  · cases hreply

theorem Cooling.call (h : Cooling env s)
    (hr : Recounted (Justified env) Plausible (Concluded env) s)
    (hc : Called (machine env) s s' i fate task command next reply)
    (hok : leavesPending env s i fate command) : Cooling env s' := by
  have hgrown := codes_grow lasting_issue hc fun _ _ _ _ => sameIssue_of_writes
  have hnow := perform_now (perform_of_called hc)
  refine ⟨hgrown.keyed lasting_issue h.rows, h.turns.call hc, fun e he => ?_, fun e he => ?_, ?_,
    fun e he now htold => ?_, fun e he id type hissues => ?_,
    fun e he hout id type active htold v' hv' hbelow hpending => ?_, fun id type => ?_⟩
  · rw [hc.trace] at he
    rcases List.mem_cons.mp he with rfl | he
    · exact hgrown.le
    · exact Nat.le_trans (h.before e he) hgrown.le
  · rw [hc.trace] at he
    rcases List.mem_cons.mp he with rfl | he
    · exact Nat.le_refl _
    · exact Nat.le_trans (h.keys e he) hgrown.le
  · rw [hc.trace]
    exact List.pairwise_cons.mpr ⟨h.keys, h.ordered⟩
  · rw [hnow]
    rw [hc.trace] at he
    rcases List.mem_cons.mp he with rfl | he
    · cases htold
      obtain ⟨hread, -⟩ := Prod.mk.inj (Option.some.inj (perform_of_called hc))
      exact Nat.le_of_eq hread.symm
    · exact h.clock e he now htold
  · rw [hc.trace] at he
    rcases List.mem_cons.mp he with rfl | he
    · obtain ⟨-, input, rfl, rfl, hafter⟩ := issues_command hc h.rows hissues
      obtain ⟨-, v, hv, hnew⟩ := hissues
      have hv : v ∈ s'.world.db.verifications := hv
      have hrow := hv
      rw [hafter] at hrow
      obtain ⟨heq, hkey⟩ := issued_after s.world.now id input h.rows hrow hnew
      refine ⟨?_, v, hv, hnew, ?_⟩
      · show s.world.db.nextKey < s'.world.db.nextKey
        rw [hafter, hkey]
        exact Nat.lt_succ_self _
      · rw [heq]
        exact ⟨rfl, rfl, rfl⟩
    · obtain ⟨hkey, v, hv, hid, hfor, htype, hat⟩ := h.issued e he id type hissues
      obtain ⟨v', hv', hsame⟩ := hgrown.mem hv
      exact ⟨hkey, v', hv', hsame.id.trans hid, hsame.authUserId.trans hfor,
        hsame.type.trans htype, hsame.issuedAt.trans hat⟩
  · have hold : v'.id < s.world.db.nextKey := by
      rw [hc.trace] at he
      rcases List.mem_cons.mp he with rfl | he
      · exact hbelow
      · have hle : e.before.db.nextKey ≤ s.world.db.nextKey := h.before e he
        omega
    rcases hgrown.mem_or hv' with ⟨v, hv, hsame⟩ | hnew
    · have hwas := hsame.isPending hpending
      rw [hsame.issuedAt]
      rw [hc.trace] at he
      rcases List.mem_cons.mp he with rfl | he
      · rw [newest_of_lookup hc htold]
        exact issuedAt_le_newest (List.mem_filter.mpr ⟨hv, hwas⟩)
      · exact h.lookedUp e he (hc.result_none hout) id type active htold v hv
          (by rw [← hsame.id]; exact hbelow) hwas
    · omega
  · rw [hc.trace]
    refine List.pairwise_cons.mpr ⟨fun e he hnew hissues => ?_, h.spaced id type⟩
    obtain ⟨hfate, input, rfl, rfl, -⟩ := issues_command hc h.rows hnew
    exact h.cooled hr hc.thread hok hfate he hissues

/-- One step of a run of requests one after another keeps the invariant. -/
theorem Cooling.step (h : Cooling env s)
    (hr : Recounted (Justified env) Plausible (Concluded env) s) {l : Label} (hturn : inTurn s l)
    (hok : Pool.calls (leavesPending env) s l) (hs : System.step env s l = some s') :
    Cooling env s' := by
  have hturns := h.turns.step (fun task hl => by subst hl; exact hturn) hs
  rcases Foundations.pool_step_cases hs with ⟨task, -, rfl⟩ |
    ⟨i, fate, task, command, next, reply, rfl, hc⟩ | ⟨move, world, -, hmove, rfl⟩
  · refine ⟨h.rows, hturns, h.before, h.keys, h.ordered, h.clock, h.issued, fun e he hout => ?_,
      h.spaced⟩
    rw [Foundations.result_spawn _ (h.turns.known e he)] at hout
    exact h.lookedUp e he hout
  · exact h.call hr hc (hok command hc.nextCommand)
  · have hkeep : world.db.verifications = s.world.db.verifications ∧
        world.db.nextKey = s.world.db.nextKey ∧ s.world.now ≤ world.now := by
      cases move with
      | tick ms =>
        cases hmove
        exact ⟨rfl, rfl, Nat.le_add_right _ _⟩
      | setStatus id status =>
        cases hmove
        exact ⟨verifications_update_user _ _, rfl, Nat.le_refl _⟩
    obtain ⟨hrows, hkey, hclock⟩ := hkeep
    refine ⟨?_, hturns, ?_, ?_, h.ordered, fun e he now htold => ?_, ?_, ?_, h.spaced⟩
    · show KeyedTable _ world.db.nextKey world.db.verifications
      rw [hrows, hkey]
      exact h.rows
    · show ∀ e ∈ s.trace, _ ≤ world.db.nextKey
      rw [hkey]
      exact h.before
    · show ∀ e ∈ s.trace, _ ≤ world.db.nextKey
      rw [hkey]
      exact h.keys
    · exact Nat.le_trans (h.clock e he now htold) hclock
    · show ∀ e ∈ s.trace, ∀ id type, _ → _ ∧ ∃ v ∈ world.db.verifications, _
      rw [hrows]
      exact h.issued
    · show ∀ e ∈ s.trace, _ → ∀ id type active, _ → ∀ v ∈ world.db.verifications, _
      rw [hrows]
      exact h.lookedUp

end

/-- In every run of requests one after another, codes of one type are issued to one account a cooldown
apart, as long as whenever one is issued those issued less than a cooldown ago are pending. -/
theorem codes_spaced_out (env : Env) {world : World}
    (hk : KeyedTable Verification.id world.db.nextKey world.db.verifications) {ls : List Label}
    {s : System} (hturn : AllSteps (System.step env) inTurn (Pool.start world) ls)
    (hok : AllSteps (System.step env) (Pool.calls (leavesPending env)) (Pool.start world) ls)
    (hrun : runs (System.step env) (Pool.start world) ls = some s) : SpacedOut env s := by
  have h := Foundations.invariant_of_allSteps
    (P := fun s => Cooling env s ∧ Recounted (Justified env) Plausible (Concluded env) s)
    (fun s l s' hl hs h => ⟨h.1.step h.2 hl.1 hl.2 hs,
      h.2.step (meets_task env) (fun _ _ _ _ _ _ hp => plausible_of_perform hp) hs⟩)
    (hturn.and hok) hrun ⟨cooling_start hk, Foundations.recounted_start⟩
  exact h.1.spaced

/-- Ada lets a minute pass, and asks for another code. -/
def askedAgainLater : List Label :=
  codeIssued ++ .move (.tick 60000) :: alone 1 6 (.forgotPassword "ada@example.com" {}) ++
    [.call 1 (.remote (.ok (some "mail"))), .call 1 .served]

theorem codes_spaced_out_later :
    ∃ s, runs (System.step sampleEnv) (Pool.start adasWorld) askedAgainLater = some s ∧
      SpacedOut sampleEnv s ∧
      s.trace.countP (fun e => decide (Issues e 0 .PASSWORD_RESET)) = 2 := by
  have hrun : (runs (System.step sampleEnv) (Pool.start adasWorld) askedAgainLater).any
      (fun s => s.trace.countP (fun e => decide (Issues e 0 .PASSWORD_RESET)) = 2) = true := by
    decide +kernel
  obtain ⟨s, hs, hissued⟩ := (Option.any_eq_true _ _).mp hrun
  exact ⟨s, hs, codes_spaced_out sampleEnv Foundations.keyedTable_nil (by decide +kernel)
    (by decide +kernel) hs, of_decide_eq_true hissued⟩

/-- She spends the guesses the code allows, and asks for another at once. -/
def burntThenAskedAgain : List Label :=
  codeIssued ++ alone 1 5 (.resetPassword "ada@example.com" "wrong" "new" {}) ++
    alone 2 5 (.resetPassword "ada@example.com" "bad" "new" {}) ++
    alone 3 5 (.forgotPassword "ada@example.com" {})

/-- A burnt code is replaced without any wait. -/
theorem burnt_code_replaced_at_once :
    AllSteps (System.step sampleEnv) inTurn (Pool.start adasWorld) burntThenAskedAgain ∧
    ∃ s, runs (System.step sampleEnv) (Pool.start adasWorld) burntThenAskedAgain = some s ∧
      ¬ SpacedOut sampleEnv s := by
  have hrun : (runs (System.step sampleEnv) (Pool.start adasWorld) burntThenAskedAgain).any
      (fun s => ¬ s.trace.Pairwise fun e e' =>
        Issues e 0 .PASSWORD_RESET → Issues e' 0 .PASSWORD_RESET →
          e'.before.now + sampleEnv.resendCooldownMs ≤ e.before.now) = true := by
    decide +kernel
  obtain ⟨s, hs, htwo⟩ := (Option.any_eq_true _ _).mp hrun
  exact ⟨by decide +kernel, s, hs, fun h => of_decide_eq_true htwo (h 0 .PASSWORD_RESET)⟩

end PracticalMicroservice.Auth
