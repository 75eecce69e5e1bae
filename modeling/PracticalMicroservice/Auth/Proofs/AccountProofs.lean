import PracticalMicroservice.Auth.Proofs.WorldProofs

/-!
# What a call of the repository does to the accounts

A failed login counts on the row it names. Every other call keeps the accounts, changes some as
`SameAccount` allows, and adds accounts under new keys.
-/

namespace PracticalMicroservice.Auth

open Foundations (Called Grown KeyedTable Lasting Pool Store Transaction)
open PrismaAuthRepository

/-- A row after a call is the same account: its status is as it was, it stays verified, and its
failures and lock are as they were or reset. -/
structure SameAccount (u u' : AuthUser) : Prop where
  id : u'.id = u.id
  status : u'.status = u.status
  verified : u.verified = true → u'.verified = true
  lockout : (u'.failedLoginAttempts = u.failedLoginAttempts ∧ u'.lockedUntil = u.lockedUntil) ∨
    u'.failedLoginAttempts = 0

/-- A login that failed, on the row it counts on. -/
def failedOnce (lockUntil : Option Nat) (u : AuthUser) : AuthUser :=
  { u with
    failedLoginAttempts := u.failedLoginAttempts + 1
    lockedUntil := match lockUntil with
      | some t => some t
      | none => u.lockedUntil }

theorem lasting_account : Lasting AuthUser.id SameAccount where
  refl _ := ⟨rfl, rfl, id, .inl ⟨rfl, rfl⟩⟩
  trans h h' := by
    refine ⟨h'.id.trans h.id, h'.status.trans h.status, fun hv => h'.verified (h.verified hv), ?_⟩
    rcases h'.lockout with ⟨hc, hl⟩ | hc
    · rw [hc, hl]
      exact h.lockout
    · exact .inr hc
  key h := h.id

section

variable {db : Database} {α : Type}

/-- A transaction under which the accounts only grow. -/
abbrev GrowsAccounts (tx : Transaction Row α) : Prop :=
  Grows AuthUser.id SameAccount Database.users tx

theorem sameAccount_if {p : Prop} [Decidable p] {f : AuthUser → AuthUser} {u : AuthUser}
    (h : SameAccount u (f u)) : SameAccount u (if p then f u else u) := by
  split
  · exact h
  · exact lasting_account.refl u

theorem growsAccounts_updateUser {p : AuthUser → Bool} {f : AuthUser → AuthUser}
    (h : ∀ u, SameAccount u (f u)) : GrowsAccounts (updateUser p f) :=
  (grows_update (fun _ => users_update_user p f) fun u => sameAccount_if (h u)).bind
    lasting_account fun _ => (keeps_only _ _).grows lasting_account

theorem keepsAccounts_updateManyTokens {p : RefreshToken → Bool} {f : RefreshToken → RefreshToken} :
    Keeps Database.users (updateManyTokens p f) :=
  keeps_updateMany fun _ => users_update_token _ _

theorem keepsAccounts_insertToken {at_ : Nat} {input : NewRefreshTokenRecord} :
    Keeps Database.users (insertToken at_ input) :=
  keeps_insertToken fun _ _ => by simp [users_insert, Row.user?]

theorem keepsAccounts_insertVerification {at_ authUserId : Nat} {input : NewVerificationRecord} :
    Keeps Database.users (insertVerification at_ authUserId input) :=
  keeps_insertVerification fun _ _ => by simp [users_insert, Row.user?]

theorem keepsAccounts_spendVerification {verificationId at_ : Nat} :
    Keeps Database.users (spendVerification verificationId at_) :=
  keeps_updateVerification fun _ => users_update_verification _ _

theorem growsAccounts_createAuthUser {at_ : Nat} {user : NewAuthUserRecord}
    {verification : NewVerificationRecord} :
    GrowsAccounts (createAuthUserWithVerification at_ user verification) := by
  refine Grows.bind (grows_create (fun id =>
    { id, email := user.email, username := user.username, passwordHash := user.passwordHash,
      pendingProfile := some user.pendingProfile, createdAt := at_ })
    lasting_account (fun _ id => users_insert _) fun _ => rfl) lasting_account fun _ =>
      ((keeps_only _ _).bind fun _ => keepsAccounts_insertVerification.bind fun _ =>
        keeps_pure _).grows lasting_account

/-- The calls that write to the table of the accounts. -/
def Call.writesAccounts : Call → Bool
  | createAuthUserWithVerification _ _ | attachProfile _ _ | registerFailedLogin _ _
  | registerSuccessfulLogin _ _ | consumeEmailVerification _ _ _ | consumePasswordReset _ _ _ _
  | updatePassword _ _ _ => true
  | _ => false

/-- Any other call keeps the accounts as they are. -/
theorem keepsAccounts_transaction (now : Nat) (c : Call) (hc : c.writesAccounts = false) :
    Keeps Database.users (c.transaction now) := by
  cases c with
  | findAuthUserById id => exact keeps_findUser _
  | findAuthUserByEmail email => exact keeps_findUser _
  | findAuthUserByUsername username => exact keeps_findUser _
  | recordLoginAttempt input =>
    exact (keeps_create fun db _ => by simp [users_insert, Row.user?]).bind fun _ => keeps_pure _
  | findActiveVerification authUserId type => exact (keeps_findMany _).bind fun _ => keeps_pure _
  | replaceVerification authUserId input =>
    exact (keeps_updateMany fun _ => users_update_verification _ _).bind
      fun _ => keepsAccounts_insertVerification
  | registerVerificationAttempt id exhausted =>
    exact keeps_updateVerification fun _ => users_update_verification _ _
  | attachVerificationEmail id emailMessageId =>
    exact (keeps_updateVerification fun _ => users_update_verification _ _).bind
      fun _ => keeps_pure _
  | createRefreshToken input => exact keepsAccounts_insertToken
  | findRefreshTokenByHash tokenHash => exact (keeps_findMany _).bind fun _ => keeps_pure _
  | rotateRefreshToken currentId next =>
    exact keepsAccounts_insertToken.bind fun _ =>
      (keeps_updateToken fun _ => users_update_token _ _).bind fun _ => keeps_pure _
  | revokeRefreshToken id reason => exact keepsAccounts_updateManyTokens.bind fun _ => keeps_pure _
  | revokeFamily familyId reason => exact keepsAccounts_updateManyTokens
  | revokeAllForUser authUserId reason => exact keepsAccounts_updateManyTokens
  | _ => cases hc

/-- Under any call but a failed login, the accounts only grow. -/
theorem growsAccounts_transaction (now : Nat) (c : Call)
    (hc : ∀ id lockUntil, c ≠ .registerFailedLogin id lockUntil) :
    GrowsAccounts (c.transaction now) := by
  have hkeep : ∀ {α : Type} {tx : Transaction Row α}, Keeps Database.users tx →
      GrowsAccounts tx := fun h => h.grows lasting_account
  cases c with
  | registerFailedLogin id lockUntil => exact absurd rfl (hc id lockUntil)
  | createAuthUserWithVerification user verification => exact growsAccounts_createAuthUser
  | attachProfile id userId =>
    exact growsAccounts_updateUser fun u => ⟨rfl, rfl, fun h => h, .inl ⟨rfl, rfl⟩⟩
  | registerSuccessfulLogin id at_ =>
    exact growsAccounts_updateUser fun u => ⟨rfl, rfl, fun h => h, .inr rfl⟩
  | consumeEmailVerification verificationId authUserId at_ =>
    exact (hkeep keepsAccounts_spendVerification).bind lasting_account fun _ =>
      growsAccounts_updateUser fun u => ⟨rfl, rfl, fun _ => rfl, .inl ⟨rfl, rfl⟩⟩
  | consumePasswordReset verificationId authUserId passwordHash at_ =>
    exact (hkeep keepsAccounts_spendVerification).bind lasting_account fun _ =>
      (hkeep keepsAccounts_updateManyTokens).bind lasting_account fun _ =>
        growsAccounts_updateUser fun u => ⟨rfl, rfl, fun _ => rfl, .inr rfl⟩
  | updatePassword authUserId passwordHash at_ =>
    exact (hkeep keepsAccounts_updateManyTokens).bind lasting_account fun _ =>
      growsAccounts_updateUser fun u => ⟨rfl, rfl, fun h => h, .inl ⟨rfl, rfl⟩⟩
  | _ => exact hkeep (keepsAccounts_transaction now _ rfl)

/-- The accounts after a failed login. -/
theorem users_after_failure (db : Database) (now id : Nat) (lockUntil : Option Nat) :
    (db.after now (.registerFailedLogin id lockUntil)).users =
      db.users.map fun u => if u.id = id then failedOnce lockUntil u else u := by
  rw [show (db.after now (.registerFailedLogin id lockUntil)).users = _ from users_updateUser _ _]
  refine List.map_congr_left fun u _ => ?_
  by_cases hu : u.id = id
  · rw [if_pos (by simpa using hu), if_pos hu]
    rfl
  · rw [if_neg (by simpa using hu), if_neg hu]

theorem nextKey_after_failure (db : Database) (now id : Nat) (lockUntil : Option Nat) :
    (db.after now (.registerFailedLogin id lockUntil)).nextKey = db.nextKey := by
  have hrun := @run_updateUser db (·.id = id) (failedOnce lockUntil)
  unfold Database.after
  show (Store.atomically (updateUser (·.id = id) (failedOnce lockUntil)) db).2.nextKey = _
  cases hf : db.users.find? (·.id = id) with
  | none =>
    rw [hf] at hrun
    rw [Store.atomically_error hrun]
  | some u =>
    rw [hf] at hrun
    rw [Store.atomically_ok hrun]
    rfl

/-- The accounts after any other call. -/
theorem accounts_after (db : Database) (now : Nat) (c : Call)
    (hc : ∀ id lockUntil, c ≠ .registerFailedLogin id lockUntil) :
    Grown AuthUser.id SameAccount db.nextKey (db.after now c).nextKey db.users
      (db.after now c).users :=
  (growsAccounts_transaction now c hc).atomically lasting_account db

end

/-- A lookup answers with a row that is there, and leaves the accounts as they are. -/
theorem user_of_lookup {db : Database} {p : AuthUser → Bool} {u : AuthUser}
    (h : (Store.run (findUser p) db).1.mapError toAppError = .ok (some u)) :
    u ∈ Database.users (Store.atomically (findUser p) db).2 := by
  rw [show Database.users (Store.atomically (findUser p) db).2 = db.users from
    ((keeps_findUser p).atomically db).1]
  have hfound := mapError_ok h
  rw [run_findUser] at hfound
  exact List.mem_of_find?_eq_some (Except.ok.inj hfound)

/-- An account whose address is confirmed is verified. -/
theorem verified_after {db : Database} {verificationId id at_ : Nat} {u : AuthUser}
    (h : (Store.run (consumeEmailVerification verificationId id at_) db).1 = .ok u) :
    ∃ u' ∈ Database.users
        (Store.atomically (consumeEmailVerification verificationId id at_) db).2,
      u'.id = id ∧ u'.verified = true := by
  obtain ⟨v, db', hspend, hupdate⟩ := run_bind_fst_ok h
  have hrun : Store.run (consumeEmailVerification verificationId id at_) db = _ :=
    (Store.run_bind_ok hspend).trans (run_updateUser _ _)
  rw [run_updateUser] at hupdate
  obtain ⟨u', hu', -⟩ := Option.map_eq_some_iff.mp (foundOr_ok hupdate)
  rw [hu'] at hrun
  have hid : u'.id = id := by simpa using List.find?_some hu'
  refine ⟨{ u' with verified := true, verifiedAt := some at_ }, ?_, hid, rfl⟩
  rw [Store.atomically_ok hrun, users_update_user]
  exact List.mem_map.mpr ⟨u', List.mem_of_find?_eq_some hu', if_pos (by simpa using hid)⟩

/-! ## What a command does to the accounts -/

section

variable {env : Env} {s s' : System} {fate : Fate} {i : Nat} {task : Task} {command : Command}
  {next : command.Reply → Code} {reply : command.Reply}

/-- The accounts after a command: grown, or with one more failure on one of them. -/
theorem accounts_call (hc : Called (machine env) s s' i fate task command next reply) :
    Grown AuthUser.id SameAccount s.world.db.nextKey s'.world.db.nextKey s.world.db.users
        s'.world.db.users ∨
      ∃ id lockUntil, command = .repository (.registerFailedLogin id lockUntil) ∧
        s'.world.db.nextKey = s.world.db.nextKey ∧
        s'.world.db.users =
          s.world.db.users.map fun u => if u.id = id then failedOnce lockUntil u else u := by
  rcases perform_db (perform_of_called hc) with hdb | ⟨c, rfl, hdb⟩
  · rw [hdb]
    exact .inl (Foundations.grown_of_eq lasting_account (Nat.le_refl _) rfl)
  · rw [hdb]
    by_cases hfail : ∃ id lockUntil, c = .registerFailedLogin id lockUntil
    · obtain ⟨id, lockUntil, rfl⟩ := hfail
      exact .inr ⟨id, lockUntil, rfl, nextKey_after_failure _ _ _ _, users_after_failure _ _ _ _⟩
    · exact .inl (accounts_after _ _ c fun id lockUntil hc => hfail ⟨id, lockUntil, hc⟩)

/-- An account that is there stays, with its status, and verified if it was. -/
theorem account_stays (hc : Called (machine env) s s' i fate task command next reply)
    {u : AuthUser} (hu : u ∈ s.world.db.users) :
    ∃ u' ∈ s'.world.db.users, u'.id = u.id ∧ u'.status = u.status ∧
      (u.verified = true → u'.verified = true) := by
  rcases accounts_call hc with hgrown | ⟨id, lockUntil, -, -, husers⟩
  · obtain ⟨u', hu', hsame⟩ := hgrown.mem hu
    exact ⟨u', hu', hsame.id, hsame.status, hsame.verified⟩
  · refine ⟨if u.id = id then failedOnce lockUntil u else u, ?_, ?_⟩
    · rw [husers]
      exact List.mem_map_of_mem (f := fun u => if u.id = id then failedOnce lockUntil u else u) hu
    · split
      · exact ⟨rfl, rfl, fun h => h⟩
      · exact ⟨rfl, rfl, fun h => h⟩

theorem accounts_keyed (hk : KeyedTable AuthUser.id s.world.db.nextKey s.world.db.users)
    (hc : Called (machine env) s s' i fate task command next reply) :
    KeyedTable AuthUser.id s'.world.db.nextKey s'.world.db.users := by
  rcases accounts_call hc with hgrown | ⟨id, lockUntil, -, hkey, husers⟩
  · exact hgrown.keyed lasting_account hk
  · rw [hkey, husers]
    exact hk.map fun u => by split <;> rfl

/-- The status of an account set, its row keeps its key. -/
theorem accounts_setStatus (db : Database) (id : Nat) (status : AuthUserStatus) :
    Database.users (Store.update db (Row.isUser (·.id = id)) (Row.onUser ({ · with status }))) =
      db.users.map fun u => if u.id = id then { u with status } else u := by
  rw [users_update_user]
  refine List.map_congr_left fun u _ => ?_
  by_cases hu : u.id = id
  · rw [if_pos (by simpa using hu), if_pos hu]
  · rw [if_neg (by simpa using hu), if_neg hu]

/-- A row a lookup by address answers with is there. -/
theorem user_of_findByEmail {email : String} {u : AuthUser} {w w' : World}
    (h : World.perform env fate (.repository (.findAuthUserByEmail email)) w =
      some ((.ok (some u) : Except AppError (Option AuthUser)), w')) : u ∈ w'.db.users := by
  rcases perform_repository h with ⟨rfl, hr | ⟨e, hr⟩⟩ | ⟨-, e, hr⟩
  · exact user_of_lookup hr.symm
  · cases hr
  · cases hr

theorem user_of_findById {id : Nat} {u : AuthUser} {w w' : World}
    (h : World.perform env fate (.repository (.findAuthUserById id)) w =
      some ((.ok (some u) : Except AppError (Option AuthUser)), w')) : u ∈ w'.db.users := by
  rcases perform_repository h with ⟨rfl, hr | ⟨e, hr⟩⟩ | ⟨-, e, hr⟩
  · exact user_of_lookup hr.symm
  · cases hr
  · cases hr

/-- An account whose address has just been confirmed is verified. -/
theorem verified_of_consume {verificationId id at_ : Nat} {u : AuthUser} {w w' : World}
    (h : World.perform env fate (.repository (.consumeEmailVerification verificationId id at_)) w =
      some ((.ok u : Except AppError AuthUser), w')) :
    ∃ u' ∈ w'.db.users, u'.id = id ∧ u'.verified = true := by
  rcases perform_repository h with ⟨rfl, hr | ⟨e, hr⟩⟩ | ⟨-, e, hr⟩
  · exact verified_after (mapError_ok hr.symm)
  · cases hr
  · cases hr

end

end PracticalMicroservice.Auth
