import PracticalMicroservice.Auth.Enumeration
import PracticalMicroservice.Auth.Proofs.CodeProofs

/-!
# The answers to callers who know nothing

Each request is led to its answer once with no account at the address, and once with one.
-/

namespace PracticalMicroservice.Auth

open Foundations (DatabaseError Ends Ensured Meets Store ensured_bind ensured_pure)
open PrismaAuthRepository

section

variable {α β : Type} {env : Env} {readable : String → Bool} {w w₀ : World} {u : AuthUser}
  {ok : α → World → Prop} {err : AppError → World → Prop}

/-! ## The rules -/

/-- From a state, a method ends in `ok` or `err` when nothing hinders it. -/
abbrev Leads (env : Env) (readable : String → Bool) (p : Promise α) (ok : α → World → Prop)
    (err : AppError → World → Prop) (w : World) : Prop :=
  Ensured (unattended env readable) p ok err w

theorem leads_call {command : Command} {ok : command.Reply → World → Prop}
    (h : ∀ ms fate reply w', unhindered readable command fate = true →
      World.perform env fate command { w with now := w.now + ms } = some (reply, w') → ok reply w') :
    Leads env readable (Promise.call command) ok err w := by
  refine ⟨trivial, ?_⟩
  rintro reply w' ⟨ms, fate, hfate, hp⟩
  exact h ms fate reply w' hfate hp

theorem leads_unpack {result : Except AppError α} (hok : ∀ a, result = .ok a → ok a w)
    (herr : ∀ e, result = .error e → err e w) :
    Leads env readable (Promise.unpack result) ok err w := by
  cases result with
  | ok a => exact hok a rfl
  | error e => exact herr e rfl

theorem leads_bind {p : Promise β} {f : β → Promise α}
    (h : Leads env readable p (fun b w' => Leads env readable (f b) ok err w') err w) :
    Leads env readable (p >>= f) ok err w := ensured_bind.mpr h

/-- A call of the repository whose transaction succeeds. -/
theorem leads_repository {c : Call} {ok : c.Result → World → Prop}
    (h : ∀ ms, ∃ result, (Store.run (c.transaction (w.now + ms)) w.db).1 = .ok result ∧
      ok result { w with now := w.now + ms, db := w.db.after (w.now + ms) c }) :
    Leads env readable (Promise.repository c) ok err w := by
  refine leads_bind (leads_call fun ms fate reply w' hfate hp => ?_)
  cases fate with
  | served =>
    obtain ⟨result, hrun, hok⟩ := h ms
    obtain ⟨hreply, rfl⟩ := Prod.mk.inj (Option.some.inj hp)
    have hserved : reply = .ok result :=
      hreply.symm.trans (congrArg (Except.mapError toAppError) hrun)
    subst hserved
    refine leads_unpack (fun a ha => ?_) fun e he => nomatch he
    cases ha
    exact hok
  | refused e => cases hfate
  | unanswered e => cases hfate
  | remote r => cases hfate

/-- A call that only reads. -/
theorem leads_read {c : Call} {ok : c.Result → World → Prop} {result : c.Result}
    (hrun : ∀ now, Store.run (c.transaction now) w.db = (.ok result, w.db))
    (h : ∀ ms, ok result { w with now := w.now + ms }) :
    Leads env readable (Promise.repository c) ok err w := by
  refine leads_repository fun ms => ⟨result, by rw [hrun], ?_⟩
  rw [show w.db.after (w.now + ms) c = w.db from
    congrArg Prod.snd (Store.atomically_ok (hrun (w.now + ms)))]
  exact h ms

/-- A command that is none of the repository's. -/
theorem leads_other {command : Command} {ok : command.Reply → World → Prop}
    (hc : ∀ c, command ≠ .repository c)
    (h : ∀ reply w', w'.db = w.db → w.now ≤ w'.now → ok reply w') :
    Leads env readable (Promise.call command) ok err w := by
  refine leads_call fun ms fate reply w' _ hp => ?_
  obtain ⟨hdb, hnow, -⟩ := perform_other hc hp
  exact h reply w' hdb (by rw [hnow]; exact Nat.le_add_right _ _)

theorem leads_findByEmail {email : String} {ok : Option AuthUser → World → Prop}
    (h : ∀ ms, ok (w.db.byEmail email) { w with now := w.now + ms }) :
    Leads env readable (Promise.repository (.findAuthUserByEmail email)) ok err w :=
  leads_read (fun _ => run_findUser _) h

/-- An attempt is put on record. -/
theorem leads_recordAttempt {authUserId : Option Nat} {email : String} {outcome : LoginOutcome}
    {attempt : Nat} {info : RequestMeta} {ok : Unit → World → Prop} (h : ∀ w', ok () w') :
    Leads env readable (AuthService.recordAttempt authUserId email outcome attempt info) ok err
      w := by
  refine leads_repository fun ms => ⟨(), ?_, h _⟩
  exact congrArg Prod.fst (Store.run_bind_ok (Store.run_create (clashes_history _ _)))

/-! ## No account at the address -/

theorem leads_login_absent {email password : String} {info : RequestMeta}
    (h : w.db.byEmail email = none) :
    Leads env readable (AuthService.login env email password info) (fun _ _ => False)
      (fun e _ => e = AuthService.invalidCredentialsError) w := by
  refine leads_bind (leads_findByEmail fun ms => ?_)
  rw [h]
  refine leads_bind (leads_other (by simp) fun reply w' _ _ => ?_)
  exact leads_bind (leads_recordAttempt fun _ => rfl)

theorem leads_resend_absent {email : String} {info : RequestMeta}
    (h : w.db.byEmail email = none) :
    Leads env readable (AuthService.resendVerification env email info) (fun _ _ => True)
      (fun _ _ => False) w := by
  refine leads_bind (leads_findByEmail fun ms => ?_)
  rw [h]
  trivial

theorem leads_forgot_absent {email : String} {info : RequestMeta}
    (h : w.db.byEmail email = none) :
    Leads env readable (AuthService.forgotPassword env email info) (fun _ _ => True)
      (fun _ _ => False) w := by
  refine leads_bind (leads_findByEmail fun ms => ?_)
  rw [h]
  trivial

theorem leads_verify_absent {email code : String} {info : RequestMeta}
    (h : w.db.byEmail email = none) :
    Leads env readable (AuthService.verifyEmail env email code info) (fun _ _ => False)
      (fun e _ => e = AuthService.invalidCodeError) w := by
  refine leads_bind (leads_findByEmail fun ms => ?_)
  rw [h]
  rfl

theorem leads_reset_absent {email code password : String} {info : RequestMeta}
    (h : w.db.byEmail email = none) :
    Leads env readable (AuthService.resetPassword env email code password info)
      (fun _ _ => False) (fun e _ => e = AuthService.invalidCodeError) w := by
  refine leads_bind (leads_findByEmail fun ms => ?_)
  rw [h]
  rfl

/-! ## An account at the address -/

/-- An update of an account that is there succeeds. -/
theorem found_user {db : Database} {id : Nat} {f : AuthUser → AuthUser} (hu : ∃ u ∈ db.users, u.id = id) :
    ∃ u', (Store.run (updateUser (·.id = id) f) db).1 = .ok u' := by
  rw [run_updateUser]
  cases hfind : db.users.find? (·.id = id) with
  | some u' => exact ⟨f u', rfl⟩
  | none =>
    obtain ⟨u, hmem, hid⟩ := hu
    exact absurd (List.find?_eq_none.mp hfind u hmem) (by simpa using hid)

/-- An update of a code that is there succeeds. -/
theorem found_code {db : Database} {id : Nat} {f : Verification → Verification}
    (hv : ∃ v ∈ db.verifications, v.id = id) :
    ∃ v', (Store.run (updateVerification (·.id = id) f) db).1 = .ok v' := by
  rw [run_updateVerification]
  cases hfind : db.verifications.find? (·.id = id) with
  | some v' => exact ⟨f v', rfl⟩
  | none =>
    obtain ⟨v, hmem, hid⟩ := hv
    exact absurd (List.find?_eq_none.mp hfind v hmem) (by simpa using hid)

theorem leads_findActive {id : Nat} {type : VerificationType}
    {ok : Option Verification → World → Prop}
    (h : ∀ ms, ok (w.db.activeCode id type) { w with now := w.now + ms }) :
    Leads env readable (Promise.repository (.findActiveVerification id type)) ok err w :=
  leads_read (fun _ => run_findActiveVerification _ _) h

/-- A code is issued and mailed without the caller hearing of it. -/
theorem leads_issueCode {type : VerificationType} {info : RequestMeta} :
    Leads env readable (AuthService.issueCode env u type info) (fun _ _ => True) (fun _ _ => False)
      w := by
  refine leads_bind (leads_other (by simp) fun code w₁ _ _ => ?_)
  refine leads_bind (leads_other (by simp) fun now w₂ _ _ => ?_)
  refine leads_bind (leads_repository fun ms => ⟨_, congrArg Prod.fst (run_replaceVerification _ _ _), ?_⟩)
  refine leads_bind (leads_bind (leads_other (by simp) fun enqueued w₃ _ _ => ?_))
  cases enqueued with
  | error e => trivial
  | ok messageId => exact leads_bind (leads_call fun _ _ _ _ _ _ => trivial)

theorem leads_issueAfterCooldown {type : VerificationType} {info : RequestMeta} :
    Leads env readable (AuthService.issueAfterCooldown env u type info) (fun _ _ => True)
      (fun _ _ => False) w := by
  refine leads_bind (leads_findActive fun ms => ?_)
  cases w.db.activeCode u.id type with
  | none => exact leads_issueCode
  | some active =>
    refine leads_bind (leads_other (by simp) fun now w' _ _ => ?_)
    split
    · exact ensured_pure.mpr trivial
    · exact leads_issueCode

theorem leads_resend_present {email : String} {info : RequestMeta}
    (h : w.db.byEmail email = some u) :
    Leads env readable (AuthService.resendVerification env email info) (fun _ _ => True)
      (fun _ _ => False) w := by
  refine leads_bind (leads_findByEmail fun ms => ?_)
  rw [h]
  dsimp only
  split
  · exact ensured_pure.mpr trivial
  · exact leads_issueAfterCooldown

theorem leads_forgot_present {email : String} {info : RequestMeta}
    (h : w.db.byEmail email = some u) :
    Leads env readable (AuthService.forgotPassword env email info) (fun _ _ => True)
      (fun _ _ => False) w := by
  refine leads_bind (leads_findByEmail fun ms => ?_)
  rw [h]
  dsimp only
  split
  · exact ensured_pure.mpr trivial
  · exact leads_issueAfterCooldown

/-- The account a lookup finds is among those there are. -/
theorem byEmail_mem {email : String} (h : w.db.byEmail email = some u) : u ∈ w.db.users :=
  List.mem_of_find?_eq_some h

/-- A wrong password is counted and put on record. -/
theorem leads_failLogin {email : String} {info : RequestMeta} (hu : u ∈ w.db.users) :
    Leads env readable (AuthService.failLogin env u email info) (fun _ _ => False)
      (fun e _ => e = AuthService.invalidCredentialsError) w := by
  have hfail : ∀ lockUntil w', w'.db = w.db →
      Leads env readable (Promise.repository (.registerFailedLogin u.id lockUntil)) (fun _ w'' =>
        Leads env readable (do
          AuthService.recordAttempt (some u.id) email .INVALID_CREDENTIALS
            (u.failedLoginAttempts + 1) info
          throw AuthService.invalidCredentialsError) (fun (_ : AuthenticatedResult) _ => False)
          (fun e _ => e = AuthService.invalidCredentialsError) w'')
        (fun e _ => e = AuthService.invalidCredentialsError) w' := by
    intro lockUntil w' hdb
    refine leads_repository fun ms => ?_
    obtain ⟨u', hrun⟩ : ∃ u', (Store.run (registerFailedLogin u.id lockUntil) w'.db).1 = .ok u' :=
      found_user ⟨u, hdb ▸ hu, rfl⟩
    exact ⟨u', hrun, leads_bind (leads_recordAttempt fun _ => rfl)⟩
  refine leads_bind ?_
  unfold AuthService.lockUntil
  split
  · refine leads_bind (leads_other (by simp) fun now w' hdb _ => ?_)
    exact leads_bind (hfail _ w' hdb)
  · exact leads_bind (hfail none w rfl)

theorem leads_login_present {email password : String} {info : RequestMeta}
    (h : w.db.byEmail email = some u) (hwrong : env.argon2Verify u.passwordHash password = false) :
    Leads env readable (AuthService.login env email password info) (fun _ _ => False)
      (fun e _ => e = if readable u.passwordHash then AuthService.invalidCredentialsError
        else .InternalServerError "Stored password hash could not be verified") w := by
  refine leads_bind (leads_findByEmail fun ms => ?_)
  rw [h]
  refine leads_bind (leads_bind (leads_call fun ms' fate reply w' hfate hp => ?_))
  cases hreadable : readable u.passwordHash with
  | true =>
    cases fate with
    | served =>
      obtain ⟨rfl, rfl⟩ := Prod.mk.inj (Option.some.inj hp)
      refine leads_unpack (fun matched hm => ?_) fun e he => nomatch he
      cases hm
      rw [hwrong]
      exact leads_failLogin (byEmail_mem h)
    | refused e => exact absurd hfate (by simp [unhindered, hreadable])
    | unanswered e => exact absurd hfate (by simp [unhindered, hreadable])
    | remote r => exact absurd hfate (by simp [unhindered, hreadable])
  | false =>
    have hbroken : reply = .error (.InternalServerError
        "Stored password hash could not be verified") := by
      cases fate with
      | served => exact absurd hfate (by simp [unhindered, hreadable])
      | refused e => exact (Prod.mk.inj (Option.some.inj hp)).1.symm
      | unanswered e => exact (Prod.mk.inj (Option.some.inj hp)).1.symm
      | remote r => exact (Prod.mk.inj (Option.some.inj hp)).1.symm
    subst hbroken
    rfl

/-- A guess that is no valid code is refused as an unknown address is. -/
theorem leads_consumeCode {type : VerificationType} {code : String}
    (h : ¬ ValidCode env w u.id type code) :
    Leads env readable (AuthService.consumeCode env u.id type code) (fun _ _ => False)
      (fun e _ => e = AuthService.invalidCodeError) w := by
  refine leads_bind (leads_findActive fun ms => ?_)
  cases hactive : w.db.activeCode u.id type with
  | none => rfl
  | some v =>
    have hv : v ∈ w.db.verifications := (List.mem_filter.mp (newest_mem hactive)).1
    refine leads_bind (leads_call fun ms' fate now w' _ hp => ?_)
    obtain ⟨rfl, rfl⟩ := Prod.mk.inj (Option.some.inj hp)
    dsimp only
    split
    · rfl
    split
    · rfl
    rename_i hlive hleft
    have hwrong : v.codeHash ≠ env.hashCode code := by
      intro heq
      exact h ⟨v, hactive, by omega, by omega, heq⟩
    refine leads_bind (leads_call fun ms'' fate right w'' _ hp => ?_)
    obtain ⟨rfl, rfl⟩ := Prod.mk.inj (Option.some.inj hp)
    rw [decide_eq_false hwrong]
    refine leads_bind (leads_repository fun ms => ?_)
    obtain ⟨v', hrun⟩ : ∃ v', (Store.run (registerVerificationAttempt v.id
        (decide (v.attempts + 1 ≥ v.maxAttempts))) w.db).1 = .ok v' := found_code ⟨v, hv, rfl⟩
    exact ⟨v', hrun, rfl⟩

theorem leads_verify_present {email code : String} {info : RequestMeta}
    (h : w.db.byEmail email = some u) (hcode : ¬ ValidCode env w u.id .EMAIL_VERIFICATION code) :
    Leads env readable (AuthService.verifyEmail env email code info) (fun _ _ => False)
      (fun e _ => e = if u.status = .ACTIVE ∧ u.verified = true then
        .ConflictError "This account has already been verified"
        else AuthService.invalidCodeError) w := by
  refine leads_bind (leads_findByEmail fun ms => ?_)
  rw [h]
  dsimp only
  by_cases hstatus : u.status = .ACTIVE
  · rw [if_neg (not_not.mpr hstatus)]
    cases hverified : u.verified with
    | true =>
      rw [if_pos rfl, if_pos ⟨hstatus, rfl⟩]
      rfl
    | false =>
      rw [if_neg Bool.false_ne_true, if_neg (fun hboth => Bool.false_ne_true hboth.2)]
      refine leads_bind ((leads_consumeCode ?_).mono (fun _ _ hf => hf.elim) fun _ _ he => he)
      rintro ⟨v, hactive, hlive, hleft, heq⟩
      exact hcode ⟨v, hactive, Nat.lt_of_le_of_lt (Nat.le_add_right _ _) hlive, hleft, heq⟩
  · rw [if_pos hstatus, if_neg (fun hboth => hstatus hboth.1)]
    rfl

theorem leads_reset_present {email code password : String} {info : RequestMeta}
    (h : w.db.byEmail email = some u) (hcode : ¬ ValidCode env w u.id .PASSWORD_RESET code) :
    Leads env readable (AuthService.resetPassword env email code password info)
      (fun _ _ => False) (fun e _ => e = AuthService.invalidCodeError) w := by
  refine leads_bind (leads_findByEmail fun ms => ?_)
  rw [h]
  dsimp only
  split
  · rfl
  refine leads_bind ((leads_consumeCode ?_).mono (fun _ _ hf => hf.elim) fun _ _ he => he)
  rintro ⟨v, hactive, hlive, hleft, heq⟩
  exact hcode ⟨v, hactive, Nat.lt_of_le_of_lt (Nat.le_add_right _ _) hlive, hleft, heq⟩

/-! ## The answers -/

/-- A request whose method only throws. -/
theorem answers_refused {p : Promise β} {f : β → Promise Answer} {e : AppError}
    (h : Leads env readable p (fun _ _ => False) (fun e' _ => e' = e) w) :
    Meets (unattended env readable) (p >>= f).run (fun answer _ => answer = .error e) w := by
  have hbind : Leads env readable (p >>= f) (fun _ _ => False) (fun e' _ => e' = e) w :=
    leads_bind (h.mono (fun _ _ hf => hf.elim) fun _ _ he => he)
  exact hbind.meets (fun _ _ hf => hf.elim) fun _ _ he => congrArg Except.error he

/-- A request whose method only returns. -/
theorem answers_silent {p : Promise Unit}
    (h : Leads env readable p (fun _ _ => True) (fun _ _ => False) w) :
    Meets (unattended env readable) (do p; return Answer.done : Promise Answer).run
      (fun answer _ => answer = .ok .done) w := by
  have hbind : Leads env readable (do p; return Answer.done) (fun a _ => a = .done)
      (fun _ _ => False) w := leads_bind (h.mono (fun _ _ _ => rfl) fun _ _ hf => hf)
  exact hbind.meets (fun _ _ ha => congrArg Except.ok ha) fun _ _ hf => hf.elim

theorem answers_absent {task : Task} {email : String} (hto : task.address = some email)
    (h : w.db.byEmail email = none) :
    Meets (unattended env readable) (task.run env) (fun answer _ => answer = task.answerAbsent)
      w := by
  cases task with
  | login email' password info =>
    cases hto
    exact answers_refused (leads_login_absent h)
  | resendVerification email' info =>
    cases hto
    exact answers_silent (leads_resend_absent h)
  | verifyEmail email' code info =>
    cases hto
    exact answers_refused (leads_verify_absent h)
  | forgotPassword email' info =>
    cases hto
    exact answers_silent (leads_forgot_absent h)
  | resetPassword email' code password info =>
    cases hto
    exact answers_refused (leads_reset_absent h)
  | register input info => cases hto
  | refresh token info => cases hto
  | logout token => cases hto
  | logoutAll token => cases hto
  | changePassword token old new info => cases hto

theorem answers_present {task : Task} {email : String} (hto : task.address = some email)
    (h : w.db.byEmail email = some u) (hnone : KnowsNothing env w u task) :
    Meets (unattended env readable) (task.run env)
      (fun answer _ => answer = task.answerPresent readable u) w := by
  cases task with
  | login email' password info =>
    cases hto
    exact answers_refused (leads_login_present h hnone)
  | resendVerification email' info =>
    cases hto
    exact answers_silent (leads_resend_present h)
  | verifyEmail email' code info =>
    cases hto
    exact answers_refused (leads_verify_present h hnone)
  | forgotPassword email' info =>
    cases hto
    exact answers_silent (leads_forgot_present h)
  | resetPassword email' code password info =>
    cases hto
    exact answers_refused (leads_reset_present h hnone)
  | register input info => cases hto
  | refresh token info => cases hto
  | logout token => cases hto
  | logoutAll token => cases hto
  | changePassword token old new info => cases hto

/-- Every command gets some reply. -/
theorem performs (env : Env) (readable : String → Bool) (command : Command) (w : World) :
    ∃ fate, unhindered readable command fate = true ∧
      ∃ reply w', World.perform env fate command w = some (reply, w') := by
  cases command with
  | repository c => exact ⟨.served, rfl, _, _, rfl⟩
  | verifyPassword digest plaintext =>
    cases hreadable : readable digest with
    | true => exact ⟨.served, hreadable, _, _, rfl⟩
    | false =>
      refine ⟨.refused .unexpected, ?_, _, _, rfl⟩
      simp [unhindered, hreadable]
  | verifyAccessToken token =>
    by_cases haccepts : w.accepts token
    · exact ⟨.served, rfl, .ok token, _, if_pos haccepts⟩
    · exact ⟨.served, rfl, .error _, _, if_neg haccepts⟩
  | enqueue message requestId key => exact ⟨.remote (.ok (some "")), rfl, _, _, rfl⟩
  | createProfile p => exact ⟨.remote (.ok (some "")), rfl, _, _, rfl⟩
  | findByAuthUserId id => exact ⟨.remote (.ok (some "")), rfl, _, _, rfl⟩
  | now => exact ⟨.served, rfl, _, _, rfl⟩
  | randomUUID => exact ⟨.served, rfl, _, _, rfl⟩
  | randomToken => exact ⟨.served, rfl, _, _, rfl⟩
  | generateCode => exact ⟨.served, rfl, _, _, rfl⟩
  | hashPassword plaintext => exact ⟨.served, rfl, _, _, rfl⟩
  | safeEqual v codeHash => exact ⟨.served, rfl, _, _, rfl⟩
  | signAccessToken claims => exact ⟨.served, rfl, _, _, rfl⟩

/-- Every request is answered. -/
theorem responds (env : Env) (readable : String → Bool) (task : Task) (w : World) :
    ∃ answer, Responds env readable w task answer := by
  refine Foundations.ends_total (fun command w => ?_) _ w
  obtain ⟨fate, hfate, reply, w', hp⟩ := performs env readable command w
  exact ⟨reply, w', 0, fate, hfate, hp⟩

/-- The two answers agree on just the requests that reveal nothing. -/
theorem answers_agree {task : Task} {email : String} (hto : task.address = some email) :
    task.answerPresent readable u = task.answerAbsent ↔ ¬ Reveals readable u task := by
  cases task with
  | login email' password info =>
    cases hreadable : readable u.passwordHash <;>
      simp [Task.answerPresent, Task.answerAbsent, Reveals, hreadable,
        AuthService.invalidCredentialsError]
  | verifyEmail email' code info =>
    by_cases htold : u.status = .ACTIVE ∧ u.verified = true
    · simp [Task.answerPresent, Task.answerAbsent, Reveals, htold, AuthService.invalidCodeError]
    · simp [Task.answerPresent, Task.answerAbsent, Reveals, htold]
  | resendVerification email' info => simp [Task.answerPresent, Reveals]
  | forgotPassword email' info => simp [Task.answerPresent, Reveals]
  | resetPassword email' code password info => simp [Task.answerPresent, Reveals]
  | register input info => cases hto
  | refresh token info => cases hto
  | logout token => cases hto
  | logoutAll token => cases hto
  | changePassword token old new info => cases hto

/-- A caller who knows nothing is answered alike whether or not the address has an account, on just
the requests that reveal nothing. -/
theorem answered_alike {task : Task} {email : String} (hto : task.address = some email)
    (h : w.db.byEmail email = some u) (h₀ : w₀.db.byEmail email = none)
    (hnone : KnowsNothing env w u task) :
    AnsweredAlike env readable w w₀ task ↔ ¬ Reveals readable u task := by
  have hpresent : ∀ {answer}, Responds env readable w task answer →
      answer = task.answerPresent readable u :=
    fun hr => hr.elim fun _ he => (answers_present hto h hnone).ends he
  have habsent : ∀ {answer}, Responds env readable w₀ task answer → answer = task.answerAbsent :=
    fun hr => hr.elim fun _ he => (answers_absent hto h₀).ends he
  rw [← answers_agree hto]
  constructor
  · intro halike
    obtain ⟨answer, hr⟩ := responds env readable task w
    obtain ⟨answer₀, hr₀⟩ := responds env readable task w₀
    rw [← hpresent hr, ← habsent hr₀]
    exact halike answer answer₀ hr hr₀
  · intro hagree answer answer₀ hr hr₀
    rw [hpresent hr, habsent hr₀]
    exact hagree

end

/-- A service with no account. -/
def nobodysWorld : World := { adasWorld with db := { rows := [], nextKey := 0 } }

/-- A wrong password tells nothing. -/
theorem answered_alike_wrongPassword :
    AnsweredAlike sampleEnv (fun _ => true) adasWorld nobodysWorld
      (.login "ada@example.com" "wrong" {}) := by
  have hwrong : KnowsNothing sampleEnv adasWorld ada (.login "ada@example.com" "wrong" {}) :=
    show sampleEnv.argon2Verify "right" "wrong" = false by decide
  exact (answered_alike rfl rfl rfl hwrong).mpr Bool.noConfusion

/-- Whoever asks to verify the address of a verified account learns that there is one. -/
theorem verified_account_revealed :
    ¬ ∀ (env : Env) (w w₀ : World) (u : AuthUser) (task : Task) (email : String),
      task.address = some email → w.db.byEmail email = some u → w₀.db.byEmail email = none →
      KnowsNothing env w u task → AnsweredAlike env (fun _ => true) w w₀ task := by
  intro h
  have hnone : KnowsNothing sampleEnv adasWorld ada (.verifyEmail "ada@example.com" "0" {}) :=
    fun hvalid => by
      obtain ⟨v, hactive, -⟩ := hvalid
      cases hactive
  have halike := h sampleEnv adasWorld nobodysWorld ada _ "ada@example.com" rfl rfl rfl hnone
  obtain ⟨answer, hr⟩ := responds sampleEnv (fun _ => true)
    (.verifyEmail "ada@example.com" "0" {}) adasWorld
  obtain ⟨answer₀, hr₀⟩ := responds sampleEnv (fun _ => true)
    (.verifyEmail "ada@example.com" "0" {}) nobodysWorld
  have heq := halike answer answer₀ hr hr₀
  obtain ⟨w, he⟩ := hr
  obtain ⟨w₀, he₀⟩ := hr₀
  have hanswer := (answers_present rfl rfl hnone).ends he
  have hanswer₀ := (answers_absent rfl rfl).ends he₀
  rw [hanswer, hanswer₀] at heq
  cases heq

end PracticalMicroservice.Auth
