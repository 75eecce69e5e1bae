import PracticalMicroservice.Auth.Proofs.WorldProofs

/-!
# What a call of the repository does to the one-time codes

Every call keeps the codes, changes some as `SameCode` allows, and adds codes under new keys.
-/

namespace PracticalMicroservice.Auth

open Foundations (Called Grown KeyedTable Lasting Store Transaction)
open PrismaAuthRepository

/-- A row after a call is the same code: no guess at it is forgotten, and once it is no longer
pending it never is again. -/
structure SameCode (v v' : Verification) : Prop where
  id : v'.id = v.id
  maxAttempts : v'.maxAttempts = v.maxAttempts
  attempts : v.attempts ≤ v'.attempts
  closed : v.status ≠ .PENDING → v'.status ≠ .PENDING

theorem lasting_code : Lasting Verification.id SameCode where
  refl _ := ⟨rfl, rfl, Nat.le_refl _, id⟩
  trans h h' := ⟨h'.id.trans h.id, h'.maxAttempts.trans h.maxAttempts,
    Nat.le_trans h.attempts h'.attempts, fun hv => h'.closed (h.closed hv)⟩
  key h := h.id

/-- What a call writes into a row of the codes. -/
def Writes : Call → Verification → Verification → Prop
  | .registerVerificationAttempt id exhausted, v, v' => v.id = id ∧
    v' = { v with
      attempts := v.attempts + 1
      status := if exhausted then .EXPIRED else v.status }
  | .replaceVerification authUserId input, v, v' =>
    isPending authUserId input.type v = true ∧ v' = { v with status := .REVOKED }
  | .consumeEmailVerification id _ at_, v, v' =>
    v.id = id ∧ v.status = .PENDING ∧ v' = { v with status := .VERIFIED, verifiedAt := some at_ }
  | .consumePasswordReset id _ _ at_, v, v' =>
    v.id = id ∧ v.status = .PENDING ∧ v' = { v with status := .VERIFIED, verifiedAt := some at_ }
  | .attachVerificationEmail id emailMessageId, v, v' =>
    v.id = id ∧ v' = { v with emailMessageId := some emailMessageId }
  | _, _, _ => False

section

variable {db : Database} {α : Type} {same : Verification → Verification → Prop}

/-- A transaction under which the codes only grow. -/
abbrev GrowsCodes (same : Verification → Verification → Prop) (tx : Transaction Row α) : Prop :=
  Grows Verification.id same Database.verifications tx

theorem same_if (hl : Lasting Verification.id same) {p : Prop} [Decidable p]
    {f : Verification → Verification} {v : Verification} (h : p → same v (f v)) :
    same v (if p then f v else v) := by
  by_cases hp : p
  · rw [if_pos hp]
    exact h hp
  · rw [if_neg hp]
    exact hl.refl v

theorem growsCodes_updateVerification (hl : Lasting Verification.id same)
    {p : Verification → Bool} {f : Verification → Verification}
    (h : ∀ v, p v = true → same v (f v)) : GrowsCodes same (updateVerification p f) :=
  (grows_update (fun _ => verifications_update_verification p f)
    fun _ => same_if hl (h _)).bind hl fun _ => (keeps_only _ _).grows hl

theorem growsCodes_insertVerification (hl : Lasting Verification.id same) {at_ authUserId : Nat}
    {input : NewVerificationRecord} :
    GrowsCodes same (insertVerification at_ authUserId input) := by
  refine Grows.bind (grows_create (fun id => verificationRow id at_ authUserId input)
    hl (fun _ id => ?_) fun _ => rfl) hl fun _ => (keeps_only _ _).grows hl
  exact verifications_insert (.verification (verificationRow id at_ authUserId input))

theorem growsCodes_spendVerification (hl : Lasting Verification.id same) {verificationId at_ : Nat}
    (h : ∀ v : Verification, v.id = verificationId → v.status = .PENDING →
      same v { v with status := .VERIFIED, verifiedAt := some at_ }) :
    GrowsCodes same (spendVerification verificationId at_) := by
  refine growsCodes_updateVerification hl fun v hp => ?_
  obtain ⟨hid, hpending⟩ := of_decide_eq_true hp
  exact h v hid hpending

theorem keepsCodes_updateUser {p : AuthUser → Bool} {f : AuthUser → AuthUser} :
    Keeps Database.verifications (updateUser p f) :=
  keeps_updateUser fun _ => verifications_update_user _ _

theorem keepsCodes_updateManyTokens {p : RefreshToken → Bool} {f : RefreshToken → RefreshToken} :
    Keeps Database.verifications (updateManyTokens p f) :=
  keeps_updateMany fun _ => verifications_update_token _ _

theorem keepsCodes_insertToken {at_ : Nat} {input : NewRefreshTokenRecord} :
    Keeps Database.verifications (insertToken at_ input) :=
  keeps_insertToken fun _ _ => by simp [verifications_insert, Row.verification?]

/-- Under any call, the codes grow in whatever way its writes do. -/
theorem growsCodes_transaction (hl : Lasting Verification.id same) (now : Nat) (c : Call)
    (hw : ∀ v v', Writes c v v' → same v v') : GrowsCodes same (c.transaction now) := by
  have hkeep : ∀ {α : Type} {tx : Transaction Row α}, Keeps Database.verifications tx →
      GrowsCodes same tx := fun h => h.grows hl
  cases c with
  | registerVerificationAttempt id exhausted =>
    exact growsCodes_updateVerification hl fun v hp => hw v _ ⟨of_decide_eq_true hp, rfl⟩
  | replaceVerification authUserId input =>
    refine Grows.bind (grows_updateMany (fun _ => verifications_update_verification _ _)
      fun v => ?_) hl fun _ => growsCodes_insertVerification hl
    exact same_if (p := isPending authUserId input.type v = true)
      (f := fun v => { v with status := .REVOKED }) hl fun hp => hw v _ ⟨hp, rfl⟩
  | consumeEmailVerification verificationId authUserId at_ =>
    exact (growsCodes_spendVerification hl fun v hid hp => hw v _ ⟨hid, hp, rfl⟩).bind hl
      fun _ => hkeep keepsCodes_updateUser
  | consumePasswordReset verificationId authUserId passwordHash at_ =>
    exact (growsCodes_spendVerification hl fun v hid hp => hw v _ ⟨hid, hp, rfl⟩).bind hl
      fun _ => hkeep (keepsCodes_updateManyTokens.bind fun _ => keepsCodes_updateUser)
  | attachVerificationEmail id emailMessageId =>
    exact (growsCodes_updateVerification hl fun v hp => hw v _ ⟨of_decide_eq_true hp, rfl⟩).bind hl
      fun _ => hkeep (keeps_pure _)
  | createAuthUserWithVerification user verification =>
    refine Grows.bind (hkeep (keeps_create fun db _ => ?_)) hl fun _ =>
      (hkeep (keeps_only _ _)).bind hl fun _ =>
        (growsCodes_insertVerification hl).bind hl fun _ => hkeep (keeps_pure _)
    simp [verifications_insert, Row.verification?]
  | findAuthUserById id => exact hkeep (keeps_findUser _)
  | findAuthUserByEmail email => exact hkeep (keeps_findUser _)
  | findAuthUserByUsername username => exact hkeep (keeps_findUser _)
  | attachProfile id userId => exact hkeep keepsCodes_updateUser
  | recordLoginAttempt input =>
    exact hkeep ((keeps_create fun db _ => by simp [verifications_insert, Row.verification?]).bind
      fun _ => keeps_pure _)
  | registerFailedLogin id lockUntil => exact hkeep keepsCodes_updateUser
  | registerSuccessfulLogin id at_ => exact hkeep keepsCodes_updateUser
  | findActiveVerification authUserId type =>
    exact hkeep ((keeps_findMany _).bind fun _ => keeps_pure _)
  | createRefreshToken input => exact hkeep keepsCodes_insertToken
  | findRefreshTokenByHash tokenHash =>
    exact hkeep ((keeps_findMany _).bind fun _ => keeps_pure _)
  | rotateRefreshToken currentId next =>
    exact hkeep (keepsCodes_insertToken.bind fun _ =>
      (keeps_updateToken fun _ => verifications_update_token _ _).bind fun _ => keeps_pure _)
  | revokeRefreshToken id reason =>
    exact hkeep (keepsCodes_updateManyTokens.bind fun _ => keeps_pure _)
  | revokeFamily familyId reason => exact hkeep keepsCodes_updateManyTokens
  | revokeAllForUser authUserId reason => exact hkeep keepsCodes_updateManyTokens
  | updatePassword authUserId passwordHash at_ =>
    exact hkeep (keepsCodes_updateManyTokens.bind fun _ => keepsCodes_updateUser)

/-- The codes after a call, as its writes change them. -/
theorem codes_after_writes (hl : Lasting Verification.id same) (db : Database) (now : Nat) (c : Call)
    (hw : ∀ v v', Writes c v v' → same v v') :
    Grown Verification.id same db.nextKey (db.after now c).nextKey db.verifications
      (db.after now c).verifications :=
  (growsCodes_transaction hl now c hw).atomically hl db

/-- No write forgets a guess, or makes a code pending again. -/
theorem sameCode_of_writes {c : Call} {v v' : Verification} (h : Writes c v v') :
    SameCode v v' := by
  cases c with
  | registerVerificationAttempt id exhausted =>
    obtain ⟨-, rfl⟩ := h
    refine ⟨rfl, rfl, Nat.le_succ _, fun hv => ?_⟩
    cases exhausted with
    | true => simp
    | false => exact hv
  | replaceVerification authUserId input =>
    obtain ⟨-, rfl⟩ := h
    exact ⟨rfl, rfl, Nat.le_refl _, fun _ => by simp⟩
  | consumeEmailVerification id authUserId at_ =>
    obtain ⟨-, -, rfl⟩ := h
    exact ⟨rfl, rfl, Nat.le_refl _, fun _ => by simp⟩
  | consumePasswordReset id authUserId passwordHash at_ =>
    obtain ⟨-, -, rfl⟩ := h
    exact ⟨rfl, rfl, Nat.le_refl _, fun _ => by simp⟩
  | attachVerificationEmail id emailMessageId =>
    obtain ⟨-, rfl⟩ := h
    exact ⟨rfl, rfl, Nat.le_refl _, fun h => h⟩
  | _ => cases h

/-- The codes after a command of a request, as its writes change them. -/
theorem codes_grow {env : Env} {s s' : System} {fate : Fate} {i : Nat} {task : Task}
    {command : Command} {next : command.Reply → Code} {reply : command.Reply}
    (hl : Lasting Verification.id same)
    (hc : Called (machine env) s s' i fate task command next reply)
    (hw : ∀ c, command = .repository c → ∀ v v', Writes c v v' → same v v') :
    Grown Verification.id same s.world.db.nextKey s'.world.db.nextKey s.world.db.verifications
      s'.world.db.verifications := by
  rcases perform_db (perform_of_called hc) with hdb | ⟨c, hcmd, hdb⟩
  · rw [hdb]
    exact Foundations.grown_of_eq hl (Nat.le_refl _) rfl
  · rw [hdb]
    exact codes_after_writes hl _ _ c (hw c hcmd)

/-- A wrong guess counted. -/
theorem attempts_after (now : Nat) {id : Nat} {exhausted : Bool}
    (hk : KeyedTable Verification.id db.nextKey db.verifications) {v v' : Verification}
    (hv : v ∈ db.verifications) (hid : v.id = id)
    (hv' : v' ∈ (db.after now (.registerVerificationAttempt id exhausted)).verifications)
    (hid' : v'.id = id) : v'.attempts = v.attempts + 1 := by
  rw [show (db.after now (.registerVerificationAttempt id exhausted)).verifications = _ from
    verifications_updateVerification _ _] at hv'
  obtain ⟨w, hw, rfl⟩ := List.mem_map.mp hv'
  by_cases hwid : w.id = id
  · rw [if_pos (by simpa using hwid)]
    rw [hk.eq_of_key hw hv (hwid.trans hid.symm)]
  · rw [if_neg (by simpa using hwid)] at hid'
    exact absurd hid' hwid

/-- The row of an id is the one found by it. -/
theorem verification?_eq (hk : KeyedTable Verification.id db.nextKey db.verifications)
    {v : Verification} (hv : v ∈ db.verifications) : db.verification? v.id = some v := by
  unfold Database.verification?
  cases hf : db.verifications.find? (·.id = v.id) with
  | none => simpa using List.find?_eq_none.mp hf v hv
  | some w =>
    have hw : w.id = v.id := by simpa using List.find?_some hf
    rw [hk.eq_of_key (List.mem_of_find?_eq_some hf) hv hw]

/-- A code spent was pending, and is spent. -/
theorem spent_of_run {verificationId at_ : Nat} {db' : Database} {v : Verification}
    (h : Store.run (spendVerification verificationId at_) db = (.ok v, db')) :
    (∃ u ∈ db.verifications, u.id = verificationId ∧ u.status = .PENDING) ∧
      ∃ u ∈ db'.verifications, u.id = verificationId ∧ u.status = .VERIFIED := by
  unfold spendVerification at h
  rw [run_updateVerification] at h
  obtain ⟨hr, rfl⟩ := Prod.mk.inj h
  obtain ⟨u, hu, -⟩ := Option.map_eq_some_iff.mp (foundOr_ok hr)
  have hp : u.id = verificationId ∧ u.status = .PENDING := by simpa using List.find?_some hu
  have hmem := List.mem_of_find?_eq_some hu
  refine ⟨⟨u, hmem, hp⟩, { u with status := .VERIFIED, verifiedAt := some at_ }, ?_, hp.1, rfl⟩
  rw [verifications_update_verification]
  exact List.mem_map.mpr ⟨u, hmem, if_pos (decide_eq_true hp)⟩

/-- A transaction that starts by spending a code and succeeds has spent it. -/
theorem spent_after {verificationId at_ : Nat} {f : Verification → Transaction Row α} {a : α}
    (hk : ∀ v, Keeps Database.verifications (f v))
    (h : (Store.run (spendVerification verificationId at_ >>= f) db).1 = .ok a) :
    (∃ u ∈ db.verifications, u.id = verificationId ∧ u.status = .PENDING) ∧
      ∃ u ∈ Database.verifications
          (Store.atomically (spendVerification verificationId at_ >>= f) db).2,
        u.id = verificationId ∧ u.status = .VERIFIED := by
  obtain ⟨v, db', hspend, -⟩ := run_bind_fst_ok h
  obtain ⟨hbefore, hafter⟩ := spent_of_run hspend
  refine ⟨hbefore, ?_⟩
  cases hrun : Store.run (spendVerification verificationId at_ >>= f) db with
  | mk r db'' =>
    rw [hrun] at h
    cases r with
    | error e => cases h
    | ok b =>
      rw [Store.atomically_ok hrun]
      have hkeep := (hk v db').1
      rw [Store.run_bind_ok hspend] at hrun
      rw [hrun] at hkeep
      rw [show Database.verifications db'' = _ from hkeep]
      exact hafter

end

end PracticalMicroservice.Auth
