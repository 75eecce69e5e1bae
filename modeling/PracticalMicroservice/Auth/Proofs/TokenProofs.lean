import PracticalMicroservice.Auth.Proofs.TableProofs

/-!
# What a call of the repository does to the refresh tokens

Every call keeps the tokens, adds the first of a family, exchanges one for its successor, or
revokes the live ones among some of them.
-/

namespace PracticalMicroservice.Auth

open Foundations (DatabaseError Keyed Store Transaction)
open PrismaAuthRepository

/-- Some of the tokens revoked. -/
def sweptTokens (p : RefreshToken → Bool) (at_ : Nat) (reason : RevokeReason)
    (tokens : List RefreshToken) : List RefreshToken :=
  tokens.map fun t => if p t then revoke at_ reason t else t

/-- A token that has been exchanged for another. -/
def replaced (at_ newId : Nat) (t : RefreshToken) : RefreshToken :=
  { revoke at_ .ROTATED t with replacedById := some newId }

/-- A token exchanged for the row appended to the others. -/
def rotatedTokens (at_ currentId : Nat) (new : RefreshToken) (tokens : List RefreshToken) :
    List RefreshToken :=
  (tokens ++ [new]).map fun t =>
    if t.id = currentId ∧ isLive t = true then replaced at_ new.id t else t

/-- What a call can do to the tokens. -/
inductive TokenEffect (now : Nat) (db db' : Database) : Call → Prop
  | kept (c : Call) (tokens : db'.tokens = db.tokens) (key : db.nextKey ≤ db'.nextKey) :
    TokenEffect now db db' c
  | swept (c : Call) (p : RefreshToken → Bool) (at_ : Nat) (reason : RevokeReason)
    (live : ∀ t, p t = true → isLive t = true) (stamp : at_ = now ∨ reason ≠ .ROTATED)
    (tokens : db'.tokens = sweptTokens p at_ reason db.tokens) (key : db.nextKey ≤ db'.nextKey) :
    TokenEffect now db db' c
  | opened (input : NewRefreshTokenRecord)
    (hash : ∀ t ∈ db.tokens, t.tokenHash ≠ input.tokenHash)
    (tokens : db'.tokens = db.tokens ++ [tokenRow db.nextKey now input])
    (key : db'.nextKey = db.nextKey + 1) : TokenEffect now db db' (.createRefreshToken input)
  | rotated (currentId : Nat) (next : NewRefreshTokenRecord)
    (hash : ∀ t ∈ db.tokens, t.tokenHash ≠ next.tokenHash)
    (live : ∃ t ∈ db.tokens ++ [tokenRow db.nextKey now next],
      t.id = currentId ∧ isLive t = true)
    (tokens : db'.tokens = rotatedTokens now currentId (tokenRow db.nextKey now next) db.tokens)
    (key : db'.nextKey = db.nextKey + 1) :
    TokenEffect now db db' (.rotateRefreshToken currentId next)

/-! ## The writers of tokens -/

section

variable {now : Nat} {db : Database}

/-- A row that repeats no hash can be inserted, and one that repeats one cannot. -/
theorem hash_of_clashes {new : RefreshToken} (h : Store.clashes db.rows (.token new) = none) :
    ∀ t ∈ db.tokens, t.tokenHash ≠ new.tokenHash := by
  intro t ht he
  obtain ⟨row, hrow, hget⟩ := List.mem_filterMap.mp ht
  have hc := List.findSome?_eq_none_iff.mp h row hrow
  cases row with
  | token u =>
    cases hget
    have hclash : (if new.tokenHash = t.tokenHash then some "token_hash" else none) = none := hc
    rw [if_pos he.symm] at hclash
    cases hclash
  | _ => cases hget

theorem createRefreshToken_effect (input : NewRefreshTokenRecord) :
    TokenEffect now db (Store.atomically (createRefreshToken now input) db).2
      (.createRefreshToken input) := by
  cases h : Store.clashes db.rows (.token (tokenRow db.nextKey now input)) with
  | some fields =>
    rw [show Store.atomically (createRefreshToken now input) db = _ from
      Store.atomically_error (run_insertToken_of_clash h)]
    exact .kept _ rfl (Nat.le_refl _)
  | none =>
    rw [show Store.atomically (createRefreshToken now input) db = _ from
      Store.atomically_ok (run_insertToken h)]
    exact .opened input (hash_of_clashes h) (tokens_insert _) rfl

theorem rotateRefreshToken_effect (currentId : Nat) (next : NewRefreshTokenRecord) :
    TokenEffect now db (Store.atomically (rotateRefreshToken now currentId next) db).2
      (.rotateRefreshToken currentId next) := by
  cases h : Store.clashes db.rows (.token (tokenRow db.nextKey now next)) with
  | some fields =>
    rw [show Store.atomically (rotateRefreshToken now currentId next) db = _ from
      Store.atomically_error (Store.run_bind_error (run_insertToken_of_clash h))]
    exact .kept _ rfl (Nat.le_refl _)
  | none =>
    have hrun := Store.run_bind_ok (f := fun created => do
      let _ ← updateToken (fun t => t.id = currentId ∧ isLive t) fun t =>
        { revoke now .ROTATED t with replacedById := some created.id }
      return created) (run_insertToken h)
    have htokens := @tokens_insert db (.token (tokenRow db.nextKey now next))
    cases hf : (Database.tokens (Store.insert db (.token (tokenRow db.nextKey now next)))).find?
        (fun t => t.id = currentId ∧ isLive t) with
    | none =>
      rw [show Store.atomically (rotateRefreshToken now currentId next) db = _ from
        Store.atomically_error (hrun.trans (Store.run_bind_error (by
          rw [run_updateToken, hf]
          rfl)))]
      exact .kept _ rfl (Nat.le_refl _)
    | some t =>
      rw [show Store.atomically (rotateRefreshToken now currentId next) db = _ from
        Store.atomically_ok (hrun.trans (Store.run_bind_ok (by
          rw [run_updateToken, hf]
          rfl)))]
      have hmem := List.mem_of_find?_eq_some hf
      have hp := List.find?_some hf
      rw [htokens] at hmem
      refine .rotated currentId next (hash_of_clashes h) ⟨t, hmem, by simpa using hp⟩ ?_ rfl
      rw [tokens_update_token, htokens]
      unfold rotatedTokens replaced
      simp [tokenRow, Row.token?]

/-- A sweep followed by a write to the account. -/
theorem sweep_user_effect {p : RefreshToken → Bool} {q : AuthUser → Bool} {f : AuthUser → AuthUser}
    {at_ : Nat} {reason : RevokeReason} {c : Call} {db' : Database}
    (hp : ∀ t, p t = true → isLive t = true) (hstamp : reason ≠ .ROTATED)
    (htokens : db'.tokens = db.tokens) (hkey : db'.nextKey = db.nextKey) :
    TokenEffect now db (Store.settle db (Store.run (do
      let _ ← updateManyTokens p (revoke at_ reason)
      updateUser q f) db')) c := by
  rw [Store.run_bind_ok (run_updateManyTokens p (revoke at_ reason)), run_updateUser]
  cases (Database.users (Store.update db' (Row.isToken p) (Row.onToken (revoke at_ reason)))).find?
      q with
  | none => exact .kept _ rfl (Nat.le_refl _)
  | some u =>
    refine .swept _ p at_ reason hp (.inr hstamp) ?_ (Nat.le_of_eq hkey.symm)
    show Database.tokens (Store.update (Store.update db' _ _) _ _) = _
    rw [tokens_update_user, tokens_update_token, htokens]
    rfl

/-- A sweep alone. -/
theorem sweep_effect {α : Type} {p : RefreshToken → Bool} {reason : RevokeReason}
    {c : Call} {a : Nat → α} (hp : ∀ t, p t = true → isLive t = true) :
    TokenEffect now db (Store.atomically (do
      let n ← updateManyTokens p (revoke now reason)
      return a n) db).2 c := by
  rw [Store.atomically_ok (Store.run_bind_ok (f := fun n => pure (a n))
    (run_updateManyTokens p (revoke now reason)))]
  exact .swept _ p now reason hp (.inl rfl) (tokens_update_token _ _) (Nat.le_refl _)

theorem keeps_effect {α : Type} {c : Call} {tx : Transaction Row α}
    (h : Keeps Database.tokens tx) : TokenEffect now db (Store.atomically tx db).2 c :=
  .kept _ (h.atomically db).1 (h.atomically db).2

theorem spendVerification_keeps (verificationId at_ : Nat) :
    Keeps Database.tokens (spendVerification verificationId at_) :=
  keeps_updateVerification fun _ => tokens_update_verification _ _

theorem consumePasswordReset_effect (verificationId authUserId : Nat) (passwordHash : String)
    (at_ : Nat) : TokenEffect now db
      (Store.atomically (consumePasswordReset verificationId authUserId passwordHash at_) db).2
      (.consumePasswordReset verificationId authUserId passwordHash at_) := by
  have hrun := @run_updateVerification db
    (fun v => v.id = verificationId ∧ v.status = .PENDING)
    (fun v => { v with status := .VERIFIED, verifiedAt := some at_ })
  show TokenEffect now db (Store.settle db (Store.run
    (consumePasswordReset verificationId authUserId passwordHash at_) db)) _
  unfold consumePasswordReset spendVerification
  cases hf : db.verifications.find? fun v => v.id = verificationId ∧ v.status = .PENDING with
  | none =>
    rw [hf] at hrun
    rw [Store.run_bind_error hrun]
    exact .kept _ rfl (Nat.le_refl _)
  | some v =>
    rw [hf] at hrun
    rw [Store.run_bind_ok hrun]
    refine sweep_user_effect (fun t ht => ?_) (by decide) (tokens_update_verification _ _) rfl
    exact (of_decide_eq_true ht).2

/-- What any call does to the tokens. -/
theorem token_effect (now : Nat) (db : Database) (c : Call) :
    TokenEffect now db (Store.atomically (c.transaction now) db).2 c := by
  cases c with
  | createRefreshToken input => exact createRefreshToken_effect input
  | rotateRefreshToken currentId next => exact rotateRefreshToken_effect currentId next
  | consumePasswordReset verificationId authUserId passwordHash at_ =>
    exact consumePasswordReset_effect verificationId authUserId passwordHash at_
  | updatePassword authUserId passwordHash at_ =>
    show TokenEffect now db (Store.settle db (Store.run
      (updatePassword authUserId passwordHash at_) db)) _
    refine sweep_user_effect (fun t ht => ?_) (by decide) rfl rfl
    exact (of_decide_eq_true ht).2
  | revokeRefreshToken id reason => exact sweep_effect fun t ht => (of_decide_eq_true ht).2
  | revokeFamily familyId reason =>
    refine sweep_effect (a := fun n => n) (p := fun t => t.familyId = familyId ∧ isLive t) ?_
    exact fun t ht => (of_decide_eq_true ht).2
  | revokeAllForUser authUserId reason =>
    refine sweep_effect (a := fun n => n) (p := fun t => t.authUserId = authUserId ∧ isLive t) ?_
    exact fun t ht => (of_decide_eq_true ht).2
  | createAuthUserWithVerification user verification =>
    refine keeps_effect ((keeps_create fun db _ => ?_).bind fun _ => (keeps_only _ _).bind
      fun _ => (keeps_insertVerification fun db _ => ?_).bind fun _ => keeps_pure _)
    · simp [tokens_insert, Row.token?]
    · simp [tokens_insert, Row.token?]
  | findAuthUserById id => exact keeps_effect (keeps_findUser _)
  | findAuthUserByEmail email => exact keeps_effect (keeps_findUser _)
  | findAuthUserByUsername username => exact keeps_effect (keeps_findUser _)
  | attachProfile id userId =>
    exact keeps_effect (keeps_updateUser fun _ => tokens_update_user _ _)
  | recordLoginAttempt input =>
    exact keeps_effect ((keeps_create fun db _ => by simp [tokens_insert, Row.token?]).bind
      fun _ => keeps_pure _)
  | registerFailedLogin id lockUntil =>
    exact keeps_effect (keeps_updateUser fun _ => tokens_update_user _ _)
  | registerSuccessfulLogin id at_ =>
    exact keeps_effect (keeps_updateUser fun _ => tokens_update_user _ _)
  | findActiveVerification authUserId type =>
    exact keeps_effect ((keeps_findMany _).bind fun _ => keeps_pure _)
  | replaceVerification authUserId input =>
    exact keeps_effect ((keeps_updateMany fun _ => tokens_update_verification _ _).bind
      fun _ => keeps_insertVerification fun _ _ => by simp [tokens_insert, Row.token?])
  | registerVerificationAttempt id exhausted =>
    exact keeps_effect (keeps_updateVerification fun _ => tokens_update_verification _ _)
  | attachVerificationEmail id emailMessageId =>
    exact keeps_effect ((keeps_updateVerification fun _ => tokens_update_verification _ _).bind
      fun _ => keeps_pure _)
  | consumeEmailVerification verificationId authUserId at_ =>
    exact keeps_effect ((spendVerification_keeps _ _).bind
      fun _ => keeps_updateUser fun _ => tokens_update_user _ _)
  | findRefreshTokenByHash tokenHash =>
    exact keeps_effect ((keeps_findMany _).bind fun _ => keeps_pure _)

end

end PracticalMicroservice.Auth
