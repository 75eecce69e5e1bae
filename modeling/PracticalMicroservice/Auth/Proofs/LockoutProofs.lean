import PracticalMicroservice.Auth.Lockout
import PracticalMicroservice.Auth.Proofs.AccountProofs

/-!
# The lockout over whole runs

While a failed login that counts has yet to return, its account is locked whenever the count is at
the maximum.
-/

namespace PracticalMicroservice.Auth

open Foundations (AllSteps Called Grown KeyedTable Pool Recounted pastOf runs)
open PrismaAuthRepository

section

variable {env : Env} {s s' : System} {fate : Fate} {i : Nat} {task : Task} {command : Command}
  {next : command.Reply → Code} {reply : command.Reply}

/-! ## One failed login -/

/-- A failed login that brings the count to the maximum leaves the account locked. -/
theorem lock_of_failure {id : Nat} {lockUntil : Option Nat}
    (hj : Justified env task (pastOf i s.trace) (.repository (.registerFailedLogin id lockUntil)))
    (hok : heedsLock env s i fate (.repository (.registerFailedLogin id lockUntil)))
    {u : AuthUser} (hu : u ∈ s.world.db.users) (hid : u.id = id)
    (hmax : env.maxFailedLoginAttempts ≤ u.failedLoginAttempts + 1) :
    AuthService.lockHolds (failedOnce lockUntil u).lockedUntil s.world.now = true := by
  have hcond := hok.1 u hu (decide_eq_true hid.symm) hmax
  obtain ⟨-, email, password, info, read, -, -, hpast⟩ := hj
  rcases hpast with ⟨hfew, rfl, hpast⟩ | ⟨hmany, now, rfl, hpast⟩
  · have hread : rowRead (pastOf i s.trace) = some read := by
      rw [hpast]
      rfl
    rw [hread, if_neg (by simp; omega)] at hcond
    exact hcond
  · have hread : rowRead (pastOf i s.trace) = some read := by
      rw [hpast]
      rfl
    have hclock : clockRead (pastOf i s.trace) = some now := by
      rw [hpast]
      rfl
    rw [hread, if_pos (by simpa using hmany)] at hcond
    have hfresh := hcond now hclock
    exact decide_eq_true hfresh

/-- An event that counts a failure is a failed login on that account. -/
theorem failure_of_fails (hk : KeyedTable AuthUser.id s.world.db.nextKey s.world.db.users)
    (hc : Called (machine env) s s' i fate task command next reply) {id : Nat}
    (hf : Fails ⟨i, command, reply, s.world, s'.world⟩ id) :
    ∃ lockUntil, command = .repository (.registerFailedLogin id lockUntil) ∧
      s'.world.db.users =
        s.world.db.users.map fun u => if u.id = id then failedOnce lockUntil u else u := by
  obtain ⟨u, hu, hid, u', hu', hid', hmore⟩ := hf
  rcases accounts_call hc with hgrown | ⟨id', lockUntil, hcmd, -, husers⟩
  · have hsame := hgrown.row lasting_account hk hu hu' (hid'.trans hid.symm)
    rcases hsame.lockout with ⟨hcount, -⟩ | hcount
    · omega
    · omega
  · by_cases heq : id' = id
    · subst heq
      exact ⟨lockUntil, hcmd, husers⟩
    · have hsame : u' = u := by
        rw [husers] at hu'
        obtain ⟨w, hw, rfl⟩ := List.mem_map.mp hu'
        have hwid : w.id = id := by
          split at hid'
          · exact hid'
          · exact hid'
        rw [if_neg fun h => heq (h.symm.trans hwid)]
        exact hk.eq_of_key hw hu (hwid.trans hid.symm)
      rw [hsame] at hmore
      omega

/-! ## The invariant -/

/-- What holds of the accounts, of the failed logins in flight and of what the trace has shown. -/
structure LockKept (env : Env) (s : System) : Prop where
  rows : KeyedTable AuthUser.id s.world.db.nextKey s.world.db.users
  known : ∀ e ∈ s.trace, ∀ id, Fails e id → id < s.world.db.nextKey
  counted : ∀ e ∈ s.trace, s.result e.thread = none → ∀ id, Fails e id →
    LockedAt env s.world s.world.now id
  locked : ∀ newer last older, s.trace = newer ++ last :: older →
    (∃ answer, s.result last.thread = some answer) →
    (∀ e ∈ newer, e.thread ≠ last.thread) →
    ∀ e ∈ last :: older, e.thread = last.thread → ∀ id, Reaches env e id →
      LockedAt env last.after last.after.now id
  checked : ∀ newer e older now, s.trace = newer ++ e :: older → e.told = ⟨.now, now⟩ →
    passwordRight (pastOf e.thread older) = true → ∀ e' ∈ older, e'.thread = e.thread →
    ∀ u ∈ foundRow e'.told, AuthService.lockHolds u.lockedUntil e'.before.now = true →
      AuthService.lockHolds u.lockedUntil now = true

theorem lockKept_start {world : World}
    (hw : KeyedTable AuthUser.id world.db.nextKey world.db.users) :
    LockKept env (Pool.start world) where
  rows := hw
  known e he := nomatch he
  counted e he := nomatch he
  locked newer last older ht := by
    have hnil : ([] : List Event) = newer ++ last :: older := ht
    simp at hnil
  checked newer e older now ht := by
    have hnil : ([] : List Event) = newer ++ e :: older := ht
    simp at hnil

section Call

/-- The lock of an account that is locked at the maximum, after a command. -/
theorem locked_call (hmax : 0 < env.maxFailedLoginAttempts)
    (hr : Recounted (Justified env) Plausible (Concluded env) s)
    (hc : Called (machine env) s s' i fate task command next reply)
    (hok : heedsLock env s i fate command) {id : Nat} (hid : id < s.world.db.nextKey)
    (hbefore : LockedAt env s.world s.world.now id) : LockedAt env s'.world s'.world.now id := by
  intro u' hu' hid' hmany
  rw [perform_now (perform_of_called hc)]
  rcases accounts_call hc with hgrown | ⟨id', lockUntil, rfl, -, husers⟩
  · rcases hgrown.mem_or hu' with ⟨u, hu, hsame⟩ | hnew
    · rcases hsame.lockout with ⟨hcount, hlock⟩ | hcount
      · rw [hlock]
        exact hbefore u hu (hsame.id.symm.trans hid') (hcount ▸ hmany)
      · omega
    · omega
  · rw [husers] at hu'
    obtain ⟨u, hu, rfl⟩ := List.mem_map.mp hu'
    by_cases huid : u.id = id'
    · rw [if_pos huid] at hmany ⊢
      exact lock_of_failure (hr.allowed hc.thread) hok hu huid hmany
    · rw [if_neg huid] at hid' hmany ⊢
      exact hbefore u hu hid' hmany

/-- The lock after a failed login that counts. -/
theorem LockKept.locked_failure (h : LockKept env s)
    (hr : Recounted (Justified env) Plausible (Concluded env) s)
    (hc : Called (machine env) s s' i fate task command next reply)
    (hok : heedsLock env s i fate command) {id : Nat}
    (hf : Fails ⟨i, command, reply, s.world, s'.world⟩ id) :
    LockedAt env s'.world s'.world.now id := by
  obtain ⟨lockUntil, rfl, husers⟩ := failure_of_fails h.rows hc hf
  intro u' hu' hid' hmany
  rw [perform_now (perform_of_called hc)]
  rw [husers] at hu'
  obtain ⟨u, hu, rfl⟩ := List.mem_map.mp hu'
  by_cases huid : u.id = id
  · rw [if_pos huid] at hmany ⊢
    exact lock_of_failure (hr.allowed hc.thread) hok hu huid hmany
  · rw [if_neg huid] at hid'
    exact absurd hid' huid

theorem LockKept.nextKey_le
    (hc : Called (machine env) s s' i fate task command next reply) :
    s.world.db.nextKey ≤ s'.world.db.nextKey := by
  rcases accounts_call hc with hgrown | ⟨id, lockUntil, -, hkey, -⟩
  · exact hgrown.le
  · omega

/-- A failure seen so far is on an account that is there, and is locked at the maximum while the
login that failed has yet to return. -/
theorem LockKept.failure_call (h : LockKept env s) (hmax : 0 < env.maxFailedLoginAttempts)
    (hr : Recounted (Justified env) Plausible (Concluded env) s)
    (hc : Called (machine env) s s' i fate task command next reply)
    (hok : heedsLock env s i fate command) {e : Event} (he : e ∈ s'.trace)
    (hout : s.result e.thread = none) {id : Nat} (hf : Fails e id) :
    LockedAt env s'.world s'.world.now id := by
  rw [hc.trace] at he
  rcases List.mem_cons.mp he with rfl | he
  · exact h.locked_failure hr hc hok hf
  · exact locked_call hmax hr hc hok (h.known e he id hf) (h.counted e he hout id hf)

theorem LockKept.call (h : LockKept env s) (hmax : 0 < env.maxFailedLoginAttempts)
    (hr : Recounted (Justified env) Plausible (Concluded env) s)
    (hc : Called (machine env) s s' i fate task command next reply)
    (hok : heedsLock env s i fate command) : LockKept env s' where
  rows := accounts_keyed h.rows hc
  known e he id hf := by
    have hle := LockKept.nextKey_le hc
    rw [hc.trace] at he
    rcases List.mem_cons.mp he with rfl | he
    · obtain ⟨u, hu, rfl, -⟩ := hf
      have := h.rows.below u hu
      omega
    · have := h.known e he id hf
      omega
  counted e he hout id hf := h.failure_call hmax hr hc hok he (hc.result_none hout) hf
  locked newer last older ht hanswer hlast e he hthread id hreach := by
    rw [hc.trace] at ht
    cases newer with
    | nil =>
      obtain ⟨rfl, rfl⟩ := List.cons.inj ht
      refine h.failure_call hmax hr hc hok (hc.trace ▸ he) ?_ hreach.1
      rw [hthread]
      exact hc.result_self
    | cons e₀ newer =>
      obtain ⟨rfl, hrest⟩ := List.cons.inj ht
      have hne : last.thread ≠ i := (hlast _ List.mem_cons_self).symm
      rw [hc.result_of_ne hne] at hanswer
      exact h.locked newer last older hrest hanswer
        (fun e he => hlast e (List.mem_cons_of_mem _ he)) e he hthread id hreach
  checked newer e older now ht htold hright e' he' hthread u hu hheld := by
    rw [hc.trace] at ht
    cases newer with
    | nil =>
      obtain ⟨rfl, rfl⟩ := List.cons.inj ht
      cases htold
      have hnow : s.world.now = reply := (Prod.mk.inj (Option.some.inj (perform_of_called hc))).1
      rw [← hnow]
      exact hok.2 rfl hright e' he' hthread u hu hheld
    | cons e₀ newer =>
      obtain ⟨-, hrest⟩ := List.cons.inj ht
      exact h.checked newer e older now hrest htold hright e' he' hthread u hu hheld

end Call

theorem LockKept.spawn (h : LockKept env s)
    (hr : Recounted (Justified env) Plausible (Concluded env) s)
    (t : Foundations.Thread Task Command Command.Reply Outcome) :
    LockKept env { s with threads := s.threads ++ [t] } := by
  -- a thread without a history yet is no event's
  have hold : ∀ e ∈ s.trace, e.thread < s.threads.length := by
    intro e he
    by_contra hge
    have hmem := Foundations.mem_pastOf_of_mem he
    rw [hr.unborn e.thread (by omega)] at hmem
    cases hmem
  refine ⟨h.rows, h.known, fun e he hout => ?_, fun newer last older ht hanswer => ?_, h.checked⟩
  · rw [Foundations.result_spawn t (hold e he)] at hout
    exact h.counted e he hout
  · have hlast : last ∈ s.trace := by
      rw [show s.trace = newer ++ last :: older from ht]
      exact List.mem_append_right _ List.mem_cons_self
    rw [Foundations.result_spawn t (hold last hlast)] at hanswer
    exact h.locked newer last older ht hanswer

/-- The operators keep the locks, and so does the clock while no lock runs out. -/
theorem LockKept.move (h : LockKept env s) {move : Move} {world : World}
    (hm : World.move move s.world = some world) (hok : keepsLocks env s (.move move)) :
    LockKept env { s with world } := by
  cases move with
  | tick ms =>
    cases hm
    refine ⟨h.rows, h.known, fun e he hout id hf u hu hid hmany => ?_, h.locked, h.checked⟩
    exact hok e he hout u hu (hid ▸ hf) u hu rfl hmany
  | setStatus id status =>
    cases hm
    have husers := accounts_setStatus s.world.db id status
    refine ⟨?_, h.known, fun e he hout id' hf u' hu' hid' hmany => ?_, h.locked, h.checked⟩
    · show KeyedTable _ s.world.db.nextKey (Database.users _)
      rw [husers]
      exact h.rows.map fun u => by split <;> rfl
    · rw [show Database.users _ = _ from husers] at hu'
      obtain ⟨u, hu, rfl⟩ := List.mem_map.mp hu'
      have hlocked := h.counted e he hout id' hf u hu
      by_cases huid : u.id = id
      · rw [if_pos huid] at hid' hmany ⊢
        exact hlocked hid' hmany
      · rw [if_neg huid] at hid' hmany ⊢
        exact hlocked hid' hmany

/-- One step that keeps the locks keeps the invariant. -/
theorem LockKept.step (h : LockKept env s) (hmax : 0 < env.maxFailedLoginAttempts)
    (hr : Recounted (Justified env) Plausible (Concluded env) s) {l : Label}
    (hok : keepsLocks env s l) (hs : System.step env s l = some s') : LockKept env s' := by
  rcases Foundations.pool_step_cases hs with ⟨task, -, rfl⟩ |
    ⟨i, fate, task, command, next, reply, rfl, hc⟩ | ⟨move, world, rfl, hmove, rfl⟩
  · exact h.spawn hr _
  · exact h.call hmax hr hc (hok command hc.nextCommand)
  · exact h.move hmove hok

/-! ## The lockout -/

theorem foundRow_told {x : (command : Command) × command.Reply} {u : AuthUser}
    (h : u ∈ foundRow x) : ∃ email, x = ⟨.repository (.findAuthUserByEmail email), .ok (some u)⟩ := by
  unfold foundRow at h
  split at h
  · cases h
    exact ⟨_, rfl⟩
  · cases h

/-- A login accepted read a row whose lock, if it held then, had run out at the check. -/
theorem LockKept.refused (h : LockKept env s)
    (hr : Recounted (Justified env) Plausible (Concluded env) s) {e : Event} (he : e ∈ s.trace)
    {email password : String} {info : RequestMeta}
    (htask : s.task e.thread = some (.login email password info)) {u : AuthUser}
    (hu : u ∈ foundRow e.told)
    (hheld : AuthService.lockHolds u.lockedUntil e.before.now = true) (a : Answer) :
    s.result e.thread ≠ some (.ok a) := by
  intro hresult
  obtain ⟨task, hthread⟩ := Foundations.result_eq_some hresult
  have htask' : s.task e.thread = some task := congrArg (Option.map Foundations.Thread.task) hthread
  obtain rfl : .login email password info = task := Option.some.inj (htask.symm.trans htask')
  obtain ⟨read, now, newer, hpast, hover⟩ :=
    (hr.returned hthread).accepted email password info a rfl rfl
  obtain ⟨N, clock, O, ht, hclock, htold, hO⟩ := Foundations.exists_split hpast
  -- the lookup at the start of the history is the event in hand
  have hstart : pastOf e.thread O =
      [⟨.verifyPassword read.passwordHash password, .ok true⟩] ++
        ⟨.repository (.findAuthUserByEmail email), .ok (some read)⟩ :: [] := hO
  obtain ⟨N', found, O', ht', hfound, htold', hO'⟩ := Foundations.exists_split hstart
  obtain ⟨newer', older', hsplit⟩ := List.append_of_mem he
  have hfirst : pastOf e.thread older' = [] := by
    obtain ⟨⟨task', -, -, hgrounds⟩, -⟩ := hr.accounted.split hsplit
    obtain ⟨email', hsaid⟩ := foundRow_told hu
    have hcmd : e.command = .repository (.findAuthUserByEmail email') := congrArg Sigma.fst hsaid
    rw [hcmd] at hgrounds
    exact hgrounds
  have hsame : newer' ++ e :: older' = (N ++ clock :: N') ++ found :: O' := by
    rw [← hsplit, ht, ht', List.append_assoc, List.cons_append]
  have heq : e = found :=
    (Foundations.split_unique hsame hfound.symm (by rw [hfirst, hfound, hO'])).1
  have hmem : e ∈ O := by
    rw [ht', heq]
    exact List.mem_append_right _ List.mem_cons_self
  have hread : u = read := by
    rw [heq, htold'] at hu
    exact (Option.some.inj hu).symm
  have hlock := h.checked N clock O now ht htold (by rw [hclock, hO]; rfl) e hmem hclock.symm u hu
    hheld
  rw [hread, hover] at hlock
  cases hlock

theorem LockKept.locksOut (h : LockKept env s)
    (hr : Recounted (Justified env) Plausible (Concluded env) s) : LocksOut env s where
  locked := h.locked
  refused _ he _ _ _ htask _ hu hheld a := h.refused hr he htask hu hheld a

end

/-- While the failed login that brings the count to the maximum carries a lock or finds one, and no
lock runs out before what depends on it is over, the lockout holds. -/
theorem lockout_holds (env : Env) (hmax : 0 < env.maxFailedLoginAttempts) {world : World}
    (hw : KeyedTable AuthUser.id world.db.nextKey world.db.users) {ls : List Label} {s : System}
    (hok : AllSteps (System.step env) (keepsLocks env) (Pool.start world) ls)
    (hrun : runs (System.step env) (Pool.start world) ls = some s) : LocksOut env s := by
  have h := Foundations.invariant_of_allSteps
    (P := fun s => LockKept env s ∧ Recounted (Justified env) Plausible (Concluded env) s)
    (fun s l s' hl hs h => ⟨h.1.step hmax h.2 hl hs,
      h.2.step (meets_task env) (fun _ _ _ _ _ _ hp => plausible_of_perform hp) hs⟩) hok hrun
    ⟨lockKept_start hw, Foundations.recounted_start⟩
  exact h.1.locksOut h.2

/-- Ada's password is guessed wrong twice in turn, and then given right. -/
def failedInTurn : List Label :=
  alone 0 4 (.login "ada@example.com" "wrong" {}) ++
    alone 1 5 (.login "ada@example.com" "bad" {}) ++
    alone 2 4 (.login "ada@example.com" "right" {})

theorem adasWorld_keyed : KeyedTable AuthUser.id adasWorld.db.nextKey adasWorld.db.users :=
  ⟨by decide, by decide⟩

theorem lockout_holds_inTurn :
    ∃ s, runs (System.step sampleEnv) (Pool.start adasWorld) failedInTurn = some s ∧
      LocksOut sampleEnv s ∧ (∃ u ∈ s.world.db.users, u.failedLoginAttempts = 2) ∧
      s.result 2 = some (.error (AuthService.lockedError sampleEnv)) := by
  have hrun : (runs (System.step sampleEnv) (Pool.start adasWorld) failedInTurn).any
      (fun s => (∃ u ∈ s.world.db.users, u.failedLoginAttempts = 2) ∧
        s.result 2 = some (.error (AuthService.lockedError sampleEnv))) = true := by
    decide +kernel
  obtain ⟨s, hs, hall⟩ := (Option.any_eq_true _ _).mp hrun
  obtain ⟨hcount, hlocked⟩ := of_decide_eq_true hall
  exact ⟨s, hs, lockout_holds sampleEnv (by decide) adasWorld_keyed (by decide +kernel) hs, hcount,
    hlocked⟩

/-- Both wrong guesses read the account before either of them is counted. -/
def failedAtOnce : List Label :=
  alone 0 2 (.login "ada@example.com" "wrong" {}) ++ alone 1 2 (.login "ada@example.com" "bad" {}) ++
    [.call 0 .served, .call 1 .served, .call 0 .served, .call 1 .served]

/-- Two failures are the maximum, and the account is not locked. -/
theorem failed_at_once_leaves_unlocked :
    ∃ s, runs (System.step sampleEnv) (Pool.start adasWorld) failedAtOnce = some s ∧
      ¬ LocksOut sampleEnv s := by
  have hrun : (runs (System.step sampleEnv) (Pool.start adasWorld) failedAtOnce).any
      (fun s => s.trace.head?.any fun last => s.trace[2]?.any fun e =>
        (s.result 1).isSome ∧ last.thread = 1 ∧ e.thread = 1 ∧ Reaches sampleEnv e 0 ∧
          ¬ LockedAt sampleEnv last.after last.after.now 0) = true := by
    decide +kernel
  obtain ⟨s, hs, hall⟩ := (Option.any_eq_true _ _).mp hrun
  obtain ⟨last, hhead, hall⟩ := (Option.any_eq_true _ _).mp hall
  obtain ⟨e, hthird, hall⟩ := (Option.any_eq_true _ _).mp hall
  obtain ⟨hdone, hlast, hthread, hreach, hopen⟩ := of_decide_eq_true hall
  obtain ⟨answer, hanswer⟩ := Option.isSome_iff_exists.mp hdone
  obtain ⟨rest, ht⟩ := List.head?_eq_some_iff.mp hhead
  refine ⟨s, hs, fun h => hopen ?_⟩
  refine h.locked [] last rest ht ⟨answer, hlast ▸ hanswer⟩ (fun _ h => nomatch h) e ?_
    (hthread.trans hlast.symm) 0 hreach
  exact ht ▸ List.mem_of_getElem? hthird

end PracticalMicroservice.Auth
