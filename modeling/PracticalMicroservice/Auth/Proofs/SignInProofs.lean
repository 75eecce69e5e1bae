import PracticalMicroservice.Auth.SignIns
import PracticalMicroservice.Auth.Proofs.DisciplineProofs
import PracticalMicroservice.Auth.Proofs.MintProofs
import PracticalMicroservice.Auth.Proofs.ReplayProofs

/-!
# Sign-ins over whole runs

No request takes a row from the login history. A request that opened a session has such a row from
then on, or is a verification that cannot be answered without one, as long as no sweep takes it.
-/

namespace PracticalMicroservice.Auth

open Foundations (AllSteps Called KeyedTable Pool Recounted Store pastOf runs)
open PrismaAuthRepository

/-! ## The login history -/

section History

variable {db : Database}

theorem loginHistory_insert (row : Row) :
    Database.loginHistory (Store.insert db row) = db.loginHistory ++ row.history?.toList := by
  unfold Database.loginHistory Store.insert
  cases row <;> simp [Row.history?]

theorem loginHistory_update_user (p : AuthUser → Bool) (f : AuthUser → AuthUser) :
    Database.loginHistory (Store.update db (Row.isUser p) (Row.onUser f)) = db.loginHistory :=
  filterMap_update _ _ _ fun row => by cases row <;> rfl

theorem loginHistory_update_verification (p : Verification → Bool)
    (f : Verification → Verification) :
    Database.loginHistory (Store.update db (Row.isVerification p) (Row.onVerification f)) =
      db.loginHistory :=
  filterMap_update _ _ _ fun row => by cases row <;> rfl

theorem loginHistory_update_token (p : RefreshToken → Bool) (f : RefreshToken → RefreshToken) :
    Database.loginHistory (Store.update db (Row.isToken p) (Row.onToken f)) = db.loginHistory :=
  filterMap_update _ _ _ fun row => by cases row <;> rfl

theorem keepsHistory_updateUser {p : AuthUser → Bool} {f : AuthUser → AuthUser} :
    Keeps Database.loginHistory (updateUser p f) :=
  keeps_updateUser fun _ => loginHistory_update_user _ _

theorem keepsHistory_updateVerification {p : Verification → Bool}
    {f : Verification → Verification} :
    Keeps Database.loginHistory (updateVerification p f) :=
  keeps_updateVerification fun _ => loginHistory_update_verification _ _

theorem keepsHistory_updateManyTokens {p : RefreshToken → Bool} {f : RefreshToken → RefreshToken} :
    Keeps Database.loginHistory (updateManyTokens p f) :=
  keeps_updateMany fun _ => loginHistory_update_token _ _

theorem keepsHistory_insertVerification {at_ authUserId : Nat} {input : NewVerificationRecord} :
    Keeps Database.loginHistory (insertVerification at_ authUserId input) :=
  keeps_insertVerification fun _ _ => by simp [loginHistory_insert, Row.history?]

theorem keepsHistory_insertToken {at_ : Nat} {input : NewRefreshTokenRecord} :
    Keeps Database.loginHistory (insertToken at_ input) :=
  keeps_insertToken fun _ _ => by simp [loginHistory_insert, Row.history?]

/-- Only a recorded attempt touches the login history. -/
theorem keepsHistory_transaction (now : Nat) (c : Call)
    (hc : ∀ record, c ≠ .recordLoginAttempt record) :
    Keeps Database.loginHistory (c.transaction now) := by
  cases c with
  | recordLoginAttempt record => exact absurd rfl (hc record)
  | createAuthUserWithVerification user verification =>
    refine (keeps_create fun db id => ?_).bind fun _ => (keeps_only _ _).bind fun _ =>
      keepsHistory_insertVerification.bind fun _ => keeps_pure _
    simp [loginHistory_insert, Row.history?]
  | findAuthUserById id => exact keeps_findUser _
  | findAuthUserByEmail email => exact keeps_findUser _
  | findAuthUserByUsername username => exact keeps_findUser _
  | attachProfile id userId => exact keepsHistory_updateUser
  | registerFailedLogin id lockUntil => exact keepsHistory_updateUser
  | registerSuccessfulLogin id at_ => exact keepsHistory_updateUser
  | findActiveVerification authUserId type =>
    exact (keeps_findMany _).bind fun _ => keeps_pure _
  | replaceVerification authUserId input =>
    exact (keeps_updateMany fun _ => loginHistory_update_verification _ _).bind fun _ =>
      keepsHistory_insertVerification
  | registerVerificationAttempt id exhausted => exact keepsHistory_updateVerification
  | attachVerificationEmail id emailMessageId =>
    exact keepsHistory_updateVerification.bind fun _ => keeps_pure _
  | consumeEmailVerification verificationId authUserId at_ =>
    exact keepsHistory_updateVerification.bind fun _ => keepsHistory_updateUser
  | consumePasswordReset verificationId authUserId passwordHash at_ =>
    exact keepsHistory_updateVerification.bind fun _ =>
      keepsHistory_updateManyTokens.bind fun _ => keepsHistory_updateUser
  | createRefreshToken input => exact keepsHistory_insertToken
  | findRefreshTokenByHash tokenHash => exact (keeps_findMany _).bind fun _ => keeps_pure _
  | rotateRefreshToken currentId next =>
    exact keepsHistory_insertToken.bind fun _ =>
      (keeps_updateToken fun _ => loginHistory_update_token _ _).bind fun _ => keeps_pure _
  | revokeRefreshToken id reason => exact keepsHistory_updateManyTokens.bind fun _ => keeps_pure _
  | revokeFamily familyId reason => exact keepsHistory_updateManyTokens
  | revokeAllForUser authUserId reason => exact keepsHistory_updateManyTokens
  | updatePassword authUserId passwordHash at_ =>
    exact keepsHistory_updateManyTokens.bind fun _ => keepsHistory_updateUser

/-- The row a recorded attempt adds. -/
def historyRow (id at_ : Nat) (input : NewLoginHistoryRecord) : LoginHistory where
  id
  authUserId := input.authUserId
  email := input.email
  success := input.success
  outcome := input.outcome
  attempt := input.attempt
  ip := input.ip
  userAgent := input.userAgent
  loginAt := at_

theorem run_recordLoginAttempt (now : Nat) (record : NewLoginHistoryRecord) :
    Store.run (recordLoginAttempt now record) db =
      (.ok (), Store.insert db (.history (historyRow db.nextKey now record))) :=
  Store.run_bind_ok (Store.run_create (clashes_history _ _))

theorem loginHistory_after_record (now : Nat) (record : NewLoginHistoryRecord) :
    (db.after now (.recordLoginAttempt record)).loginHistory =
      db.loginHistory ++ [historyRow db.nextKey now record] := by
  rw [show db.after now (.recordLoginAttempt record) = _ from
    congrArg Prod.snd (Store.atomically_ok (run_recordLoginAttempt now record)),
    loginHistory_insert]
  rfl

/-- No call takes a row from the login history. -/
theorem loginHistory_stays (now : Nat) (c : Call) {h : LoginHistory} (hh : h ∈ db.loginHistory) :
    h ∈ (db.after now c).loginHistory := by
  by_cases hc : ∃ record, c = .recordLoginAttempt record
  · obtain ⟨record, rfl⟩ := hc
    rw [loginHistory_after_record]
    exact List.mem_append_left _ hh
  · have hkeep := keepsHistory_transaction now c fun record he => hc ⟨record, he⟩
    rw [show (db.after now c).loginHistory = _ from (hkeep.atomically db).1]
    exact hh

end History

/-! ## The invariant -/

/-- What holds of the sessions, and of the requests that opened them. -/
structure Signing (s : System) : Prop where
  rows : KeyedTable RefreshToken.id s.world.db.nextKey s.world.db.tokens
  found : ∀ e ∈ s.trace, ∀ hash t,
    e.told = ⟨.repository (.findRefreshTokenByHash hash), .ok (some t)⟩ →
    t.id < s.world.db.nextKey ∧ ∀ t' ∈ s.world.db.tokens, t'.id = t.id →
      t'.authUserId = t.authUserId ∧ t'.familyId = t.familyId
  heard : ∀ e ∈ s.trace, ∀ (record : NewLoginHistoryRecord) id,
    e.told = ⟨.repository (.recordLoginAttempt record), .ok ()⟩ → record.IsSignIn id →
    s.result e.thread = none → s.OnRecord e.thread id
  answered : ∀ e ∈ s.trace, ∀ id familyId, Opens e id familyId → s.verifying e.thread →
    ∃ input row, e.told = ⟨.repository (.createRefreshToken input), .ok row⟩ ∧ input.authUserId = id
  opened : SignInsOnRecord s

theorem signing_start {world : World} (hw : world.db.tokens = []) :
    Signing (Pool.start world) where
  rows := by
    show KeyedTable _ world.db.nextKey world.db.tokens
    rw [hw]
    exact Foundations.keyedTable_nil
  found _ he := nomatch he
  heard _ he := nomatch he
  answered _ he := nomatch he
  opened t ht := by
    rw [show (Pool.start world : System).world.db.tokens = [] from hw] at ht
    cases ht

section

variable {env : Env} {s s' : System} {fate : Fate} {i : Nat} {task : Task} {command : Command}
  {next : command.Reply → Code} {reply : command.Reply}

/-- What a command does to the tokens. -/
theorem tokens_call (hc : Called (machine env) s s' i fate task command next reply) :
    s'.world.db = s.world.db ∨ ∃ c, command = .repository c ∧
      TokenEffect s.world.now s.world.db s'.world.db c := by
  rcases perform_db (perform_of_called hc) with hdb | ⟨c, hcmd, hdb⟩
  · exact .inl hdb
  · refine .inr ⟨c, hcmd, ?_⟩
    rw [hdb]
    exact token_effect _ _ c

/-- What is on record stays on record. -/
theorem System.OnRecord.call {thread id : Nat} (h : s.OnRecord thread id)
    (hc : Called (machine env) s s' i fate task command next reply) : s'.OnRecord thread id := by
  obtain ⟨e, he, hthread, row, hrow, hfacts⟩ := h
  refine ⟨e, ?_, hthread, row, ?_, hfacts⟩
  · rw [hc.trace]
    exact List.mem_cons_of_mem _ he
  · rcases perform_db (perform_of_called hc) with hdb | ⟨c, -, hdb⟩
    · rw [hdb]
      exact hrow
    · rw [hdb]
      exact loginHistory_stays _ c hrow

/-- A sign-in recorded, if the database did not refuse to, is on record. -/
theorem onRecord_of_record {record : NewLoginHistoryRecord} {id : Nat}
    (hc : Called (machine env) s s' i fate task command next reply)
    (hcmd : command = .repository (.recordLoginAttempt record)) (hsign : record.IsSignIn id)
    (hfate : fate.isRefused = false) : s'.OnRecord i id := by
  subst hcmd
  have hrow : historyRow s.world.db.nextKey s.world.now record ∈ s'.world.db.loginHistory := by
    rw [db_of_effect hfate (perform_of_called hc), loginHistory_after_record]
    exact List.mem_append_right _ List.mem_cons_self
  refine ⟨⟨i, _, reply, s.world, s'.world⟩, ?_, rfl, _, hrow, ⟨rfl, rfl, hrow⟩, hsign⟩
  rw [hc.trace]
  exact List.mem_cons_self

theorem opensFor_eq {id : Nat} {familyId : String} (h : opensFor command = some (id, familyId)) :
    ∃ input, command = .repository (.createRefreshToken input) ∧ input.authUserId = id ∧
      input.familyId = familyId := by
  unfold opensFor at h
  split at h
  · obtain ⟨hid, hfamily⟩ := Prod.mk.inj (Option.some.inj h)
    exact ⟨_, rfl, hid, hfamily⟩
  · cases h

/-- A session opened is a row under the next key, opened by a command that took effect. -/
theorem opens_command (hc : Called (machine env) s s' i fate task command next reply)
    (hkeys : ∀ t ∈ s.world.db.tokens, t.id < s.world.db.nextKey) {id : Nat} {familyId : String}
    (h : Opens ⟨i, command, reply, s.world, s'.world⟩ id familyId) :
    fate.isRefused = false ∧ ∃ input, command = .repository (.createRefreshToken input) ∧
      input.authUserId = id ∧ input.familyId = familyId := by
  obtain ⟨hopens, t, ht, hnew⟩ := h
  obtain ⟨input, rfl, hid, hfamily⟩ := opensFor_eq hopens
  refine ⟨?_, input, rfl, hid, hfamily⟩
  rw [← Bool.not_eq_true]
  intro hrefused
  have ht : t ∈ s'.world.db.tokens := ht
  rw [db_of_refused hrefused (perform_of_called hc)] at ht
  exact absurd hnew (Nat.ne_of_lt (hkeys t ht))

/-- A verification that is answered has put the session it opened on record. -/
theorem onRecord_of_answered
    (hr' : Recounted (Justified env) Plausible (Concluded env) s')
    (hc : Called (machine env) s s' i fate task command next reply)
    (hok : opensOnRecord s i fate command) (hverifies : task.Verifies = true)
    (hheard : ∀ e ∈ s'.trace, e.thread = i → ∀ (record : NewLoginHistoryRecord) id,
      e.told = ⟨.repository (.recordLoginAttempt record), .ok ()⟩ → record.IsSignIn id →
      s'.OnRecord i id)
    {e : Event} (he : e ∈ s'.trace) (hthread : e.thread = i) {input : NewRefreshTokenRecord}
    {row : RefreshToken} (htold : e.told = ⟨.repository (.createRefreshToken input), .ok row⟩)
    (hanswer : s'.result i ≠ none) : s'.OnRecord i input.authUserId := by
  obtain ⟨answer, hanswer⟩ := Option.ne_none_iff_exists'.mp hanswer
  obtain ⟨task', hdone⟩ := Foundations.result_eq_some hanswer
  have hself : task' = task := by
    have htask : s'.task i = some task := (hc.task i).trans hc.task_self
    unfold Pool.task at htask
    rw [hdone] at htask
    exact Option.some.inj htask
  subst hself
  have hconcluded : Concluded env answer (task', pastOf i s'.trace) := hr'.returned hdone
  have hmem : Told.Heard (pastOf i s'.trace) (.repository (.createRefreshToken input)) (.ok row) := by
    have hpast := Foundations.mem_pastOf_of_mem he
    rw [hthread, htold] at hpast
    exact hpast
  have hfates := hok.2 task' hc.task_self hverifies
  have hrecorded : Told.Recorded (pastOf i s'.trace) := by
    cases task' with
    | verifyEmail email code info => exact hconcluded.recorded email code info rfl
    | _ => cases hverifies
  rcases hrecorded input row hmem with ⟨record, hrecord, hsign⟩ | ⟨claims, e', rest, hfailed⟩ |
    ⟨record, e', rest, hfailed, hsign⟩
  · obtain ⟨e', he', hthread', htold'⟩ := Foundations.mem_pastOf hrecord
    exact hheard e' he' hthread' record _ htold' hsign
  · -- signing has just failed, which the step rules out
    rw [hc.pastOf_self] at hfailed
    cases (List.cons.inj hfailed).1
    have hserved := hfates.1 rfl
    have hp := perform_of_called hc
    cases fate with
    | served => cases (Prod.mk.inj (Option.some.inj hp)).1
    | _ => cases hserved
  · -- the sign-in has just been recorded, though the reply is an error
    rw [hc.pastOf_self] at hfailed
    cases (List.cons.inj hfailed).1
    exact onRecord_of_record hc rfl hsign (hfates.2 rfl)

/-- A session opened by a call that was served is answered with its row. -/
theorem row_of_opened {input : NewRefreshTokenRecord}
    {reply : (Command.repository (.createRefreshToken input)).Reply} {w w' : World}
    (hserved : fate.isServed = true)
    (hp : World.perform env fate (.repository (.createRefreshToken input)) w = some (reply, w'))
    (hkeys : ∀ t ∈ w.db.tokens, t.id < w.db.nextKey) {t : RefreshToken} (ht : t ∈ w'.db.tokens)
    (hnew : t.id = w.db.nextKey) : ∃ row, reply = .ok row := by
  cases fate with
  | served =>
    obtain ⟨hreply, hw⟩ := Prod.mk.inj (Option.some.inj hp)
    cases hrun : Store.run (Call.transaction w.now (.createRefreshToken input)) w.db with
    | mk r db' =>
      cases r with
      | ok row =>
        refine ⟨row, hreply.symm.trans ((serve_fst _).trans ?_)⟩
        rw [hrun]
        rfl
      | error e =>
        have hundone : w'.db = w.db := by
          rw [← hw]
          exact congrArg Prod.snd (Store.atomically_error hrun)
        rw [hundone] at ht
        exact absurd hnew (Nat.ne_of_lt (hkeys t ht))
  | _ => cases hserved

/-- A token there after a command was there before, or is the first or the next of a family. -/
theorem token_from (hc : Called (machine env) s s' i fate task command next reply)
    {t' : RefreshToken} (ht' : t' ∈ s'.world.db.tokens) :
    (∃ t ∈ s.world.db.tokens, SameToken t t') ∨
    (∃ input, command = .repository (.createRefreshToken input) ∧
      t' = tokenRow s.world.db.nextKey s.world.now input) ∨
    ∃ currentId input, command = .repository (.rotateRefreshToken currentId input) ∧
      (currentId < s.world.db.nextKey → ∃ t ∈ s.world.db.tokens, t.id = currentId) ∧
      SameToken (tokenRow s.world.db.nextKey s.world.now input) t' := by
  rcases tokens_call hc with hdb | ⟨c, rfl, heffect⟩
  · rw [hdb] at ht'
    exact .inl ⟨t', ht', .refl t'⟩
  · cases heffect with
    | kept _ tokens key =>
      rw [tokens] at ht'
      exact .inl ⟨t', ht', .refl t'⟩
    | swept _ p at_ reason live _ tokens key =>
      rw [tokens] at ht'
      obtain ⟨t, ht, rfl⟩ := List.mem_map.mp ht'
      exact .inl ⟨t, ht, sameToken_if (sameToken_revoke _ _ t)⟩
    | opened input hash tokens key =>
      rw [tokens] at ht'
      rcases List.mem_append.mp ht' with hold | hnew
      · exact .inl ⟨t', hold, .refl t'⟩
      · exact .inr (.inl ⟨input, rfl, List.mem_singleton.mp hnew⟩)
    | rotated currentId input hash live tokens key =>
      rw [tokens] at ht'
      obtain ⟨t, ht, rfl⟩ := List.mem_map.mp ht'
      have hsame := sameToken_if (p := t.id = currentId ∧ isLive t = true)
        (sameToken_replaced s.world.now s.world.db.nextKey t)
      rcases List.mem_append.mp ht with hold | hnew
      · exact .inl ⟨t, hold, hsame⟩
      · obtain rfl := List.mem_singleton.mp hnew
        refine .inr (.inr ⟨currentId, input, rfl, fun hlt => ?_, hsame⟩)
        -- only a token that is there is exchanged
        obtain ⟨current, hcurrent, hid, -⟩ := live
        rcases List.mem_append.mp hcurrent with hthere | hnew
        · exact ⟨current, hthere, hid⟩
        · rw [List.mem_singleton.mp hnew] at hid
          exact absurd hid (Nat.ne_of_gt hlt)

theorem verifying_task {thread : Nat} (h : s.verifying thread) (ht : s.task thread = some task) :
    task.Verifies = true := by
  have hany := h.2
  rw [ht] at hany
  exact hany

section Call

theorem Signing.rows_call (h : Signing s)
    (hc : Called (machine env) s s' i fate task command next reply) :
    s.world.db.nextKey ≤ s'.world.db.nextKey ∧
      KeyedTable RefreshToken.id s'.world.db.nextKey s'.world.db.tokens := by
  rcases tokens_call hc with hdb | ⟨c, -, heffect⟩
  · rw [hdb]
    exact ⟨Nat.le_refl _, h.rows⟩
  · exact ⟨heffect.nextKey_le, heffect.below h.rows.below,
      heffect.nodup h.rows.below h.rows.distinct⟩

/-- What a request was told of a token stays true of the row, if it is there. -/
theorem Signing.found_call (h : Signing s)
    (hc : Called (machine env) s s' i fate task command next reply) {e : Event}
    (he : e ∈ s'.trace) {hash : String} {t : RefreshToken}
    (htold : e.told = ⟨.repository (.findRefreshTokenByHash hash), .ok (some t)⟩) :
    t.id < s'.world.db.nextKey ∧ ∀ t' ∈ s'.world.db.tokens, t'.id = t.id →
      t'.authUserId = t.authUserId ∧ t'.familyId = t.familyId := by
  obtain ⟨hle, hrows⟩ := h.rows_call hc
  rw [hc.trace] at he
  rcases List.mem_cons.mp he with rfl | he
  · cases htold
    have hmem : t ∈ s'.world.db.tokens :=
      List.mem_of_find?_eq_some (tokenOf_of_perform (perform_of_called hc))
    refine ⟨hrows.below t hmem, fun t' ht' hid => ?_⟩
    rw [hrows.eq_of_key ht' hmem hid]
    exact ⟨rfl, rfl⟩
  · obtain ⟨hlt, hfacts⟩ := h.found e he hash t htold
    refine ⟨Nat.lt_of_lt_of_le hlt hle, fun t' ht' hid => ?_⟩
    rcases token_from hc ht' with ⟨t₀, ht₀, hsame⟩ | ⟨input, -, rfl⟩ | ⟨-, input, -, -, hsame⟩
    · rw [hsame.authUserId, hsame.familyId]
      exact hfacts t₀ ht₀ (hsame.id.symm.trans hid)
    · exact absurd hid (Nat.ne_of_gt hlt)
    · exact absurd (hsame.id.symm.trans hid) (Nat.ne_of_gt hlt)

/-- The sign-ins of a request that was not answered before the command are on record after it. -/
theorem Signing.heard_call (h : Signing s)
    (hc : Called (machine env) s s' i fate task command next reply) {e : Event}
    (he : e ∈ s'.trace) {record : NewLoginHistoryRecord} {id : Nat}
    (htold : e.told = ⟨.repository (.recordLoginAttempt record), .ok ()⟩)
    (hsign : record.IsSignIn id) (hout : s.result e.thread = none) : s'.OnRecord e.thread id := by
  rw [hc.trace] at he
  rcases List.mem_cons.mp he with rfl | he
  · cases htold
    refine onRecord_of_record hc rfl hsign ?_
    cases fate with
    | refused e => cases (Prod.mk.inj (Option.some.inj (perform_of_called hc))).1
    | _ => rfl
  · exact (h.heard e he record id htold hsign hout).call hc

theorem verifying_before (hc : Called (machine env) s s' i fate task command next reply)
    {thread : Nat} (h : s'.verifying thread) : s.verifying thread := by
  obtain ⟨hout, htask⟩ := h
  rw [hc.task] at htask
  exact ⟨hc.result_none hout, htask⟩

/-- The session a verification has just opened, if it has. -/
theorem Signing.answered_now (h : Signing s)
    (hc : Called (machine env) s s' i fate task command next reply)
    (hok : opensOnRecord s i fate command) {id : Nat} {familyId : String}
    (hopens : Opens ⟨i, command, reply, s.world, s'.world⟩ id familyId)
    (hverifies : task.Verifies = true) : ∃ input row, (⟨command, reply⟩ : (c : Command) × c.Reply) =
      ⟨.repository (.createRefreshToken input), .ok row⟩ ∧ input.authUserId = id := by
  obtain ⟨hfate, input, rfl, hid, -⟩ := opens_command hc h.rows.below hopens
  have hserved : fate.isServed = true := by
    rcases hok.1 rfl hfate task hc.task_self with hlogin | ⟨-, hserved⟩
    · cases task with
      | login email password info => cases hverifies
      | _ => cases hlogin
    · exact hserved
  obtain ⟨-, t, ht, hkey⟩ := hopens
  obtain ⟨row, rfl⟩ := row_of_opened hserved (perform_of_called hc) h.rows.below ht hkey
  exact ⟨input, row, rfl, hid⟩

theorem Signing.answered_call (h : Signing s)
    (hc : Called (machine env) s s' i fate task command next reply)
    (hok : opensOnRecord s i fate command) {e : Event} (he : e ∈ s'.trace) {id : Nat}
    {familyId : String} (hopens : Opens e id familyId) (hout : s.verifying e.thread) :
    ∃ input row, e.told = ⟨.repository (.createRefreshToken input), .ok row⟩ ∧
      input.authUserId = id := by
  rw [hc.trace] at he
  rcases List.mem_cons.mp he with rfl | he
  · exact h.answered_now hc hok hopens (verifying_task hout hc.task_self)
  · exact h.answered e he id familyId hopens hout

/-- A verification goes on, or is answered and has its sign-in on record. -/
theorem Signing.verifying_call (h : Signing s)
    (hr' : Recounted (Justified env) Plausible (Concluded env) s')
    (hc : Called (machine env) s s' i fate task command next reply)
    (hok : opensOnRecord s i fate command) {e : Event} (he : e ∈ s'.trace) {id : Nat}
    {familyId : String} (hopens : Opens e id familyId) (hout : s.verifying e.thread) :
    s'.OnRecord e.thread id ∨ s'.verifying e.thread := by
  by_cases hresult : s'.result e.thread = none
  · refine .inr ⟨hresult, ?_⟩
    rw [hc.task]
    exact hout.2
  · have hthread : e.thread = i := by
      by_contra hne
      rw [hc.result_of_ne hne] at hresult
      exact hresult hout.1
    obtain ⟨input, row, htold, rfl⟩ := h.answered_call hc hok he hopens hout
    rw [hthread] at hout hresult ⊢
    refine .inl (onRecord_of_answered hr' hc hok (verifying_task hout hc.task_self)
      (fun e' he' hthread' record id htold' hsign => ?_) he hthread htold hresult)
    rw [← hthread']
    exact h.heard_call hc he' htold' hsign (hthread' ▸ hout.1)

/-- What accounts for a session before a command does so after it. -/
theorem Signing.stays_call (h : Signing s)
    (hr' : Recounted (Justified env) Plausible (Concluded env) s')
    (hc : Called (machine env) s s' i fate task command next reply)
    (hok : opensOnRecord s i fate command) {t : RefreshToken} (ht : t ∈ s.world.db.tokens) :
    ∃ e ∈ s'.trace, Opens e t.authUserId t.familyId ∧
      (s'.OnRecord e.thread t.authUserId ∨ s'.verifying e.thread) := by
  obtain ⟨e, he, hopens, hrecorded⟩ := h.opened t ht
  have he' : e ∈ s'.trace := by
    rw [hc.trace]
    exact List.mem_cons_of_mem _ he
  refine ⟨e, he', hopens, ?_⟩
  rcases hrecorded with hrecord | hout
  · exact .inl (hrecord.call hc)
  · exact h.verifying_call hr' hc hok he' hopens hout

/-- A session that is opened is accounted for. -/
theorem Signing.opened_now (h : Signing s)
    (hr : Recounted (Justified env) Plausible (Concluded env) s)
    (hr' : Recounted (Justified env) Plausible (Concluded env) s')
    (hc : Called (machine env) s s' i fate task command next reply)
    (hok : opensOnRecord s i fate command) {id : Nat} {familyId : String}
    (hopens : Opens ⟨i, command, reply, s.world, s'.world⟩ id familyId) :
    s'.OnRecord i id ∨ s'.verifying i := by
  obtain ⟨hfate, input, rfl, rfl, rfl⟩ := opens_command hc h.rows.below hopens
  have he : (⟨i, _, reply, s.world, s'.world⟩ : Event) ∈ s'.trace := by
    rw [hc.trace]
    exact List.mem_cons_self
  rcases hok.1 rfl hfate task hc.task_self with hlogin | ⟨hverifies, -⟩
  · -- a login has put itself on record before
    refine .inl ?_
    obtain ⟨-, token, familyId, rest, hpast, -, -, -, -, hsigned⟩ := hr.allowed hc.thread
    obtain ⟨record, hrecord, hsign⟩ : Told.SignedIn rest input.authUserId := by
      cases task with
      | login email password info => exact hsigned email password info rfl
      | _ => cases hlogin
    have hmem : Told.Heard (pastOf i s.trace) (.repository (.recordLoginAttempt record))
        (.ok ()) := by
      rw [hpast]
      exact List.mem_cons_of_mem _ (List.mem_cons_of_mem _ hrecord)
    obtain ⟨e', he', rfl, htold⟩ := Foundations.mem_pastOf hmem
    exact (h.heard e' he' record _ htold hsign hc.result_self).call hc
  · have hout : s.verifying i := by
      refine ⟨hc.result_self, ?_⟩
      rw [hc.task_self]
      exact hverifies
    exact h.verifying_call hr' hc hok he hopens hout

theorem Signing.opened_call (h : Signing s)
    (hr : Recounted (Justified env) Plausible (Concluded env) s)
    (hr' : Recounted (Justified env) Plausible (Concluded env) s')
    (hc : Called (machine env) s s' i fate task command next reply)
    (hok : opensOnRecord s i fate command) : SignInsOnRecord s' := by
  intro t' ht'
  rcases token_from hc ht' with ⟨t, ht, hsame⟩ | ⟨input, rfl, rfl⟩ |
    ⟨currentId, input, rfl, hthere, hsame⟩
  · rw [hsame.authUserId, hsame.familyId]
    exact h.stays_call hr' hc hok ht
  · have hopens : Opens ⟨i, _, reply, s.world, s'.world⟩ input.authUserId input.familyId :=
      ⟨rfl, _, ht', rfl⟩
    refine ⟨_, ?_, hopens, h.opened_now hr hr' hc hok hopens⟩
    rw [hc.trace]
    exact List.mem_cons_self
  · -- the next token of a family, whose last one is there
    obtain ⟨-, presented, info, stored, -, hlookup, rfl, hfamily, hid, -⟩ := hr.allowed hc.thread
    obtain ⟨e, he, -, htold⟩ := Foundations.mem_pastOf hlookup
    obtain ⟨hlt, hfacts⟩ := h.found e he _ _ htold
    obtain ⟨t, ht, hcurrent⟩ := hthere hlt
    obtain ⟨haccount, hsession⟩ := hfacts t ht hcurrent
    rw [hsame.authUserId, hsame.familyId]
    show ∃ e ∈ s'.trace, Opens e input.authUserId input.familyId ∧
      (s'.OnRecord e.thread input.authUserId ∨ s'.verifying e.thread)
    rw [hid, hfamily, ← haccount, ← hsession]
    exact h.stays_call hr' hc hok ht

theorem Signing.call (h : Signing s)
    (hr : Recounted (Justified env) Plausible (Concluded env) s)
    (hr' : Recounted (Justified env) Plausible (Concluded env) s')
    (hc : Called (machine env) s s' i fate task command next reply)
    (hok : opensOnRecord s i fate command) : Signing s' where
  rows := (h.rows_call hc).2
  found _ he _ _ htold := h.found_call hc he htold
  heard _ he _ _ htold hsign hout := h.heard_call hc he htold hsign (hc.result_none hout)
  answered _ he _ _ hopens hout := h.answered_call hc hok he hopens (verifying_before hc hout)
  opened := h.opened_call hr hr' hc hok

end Call

/-- A request that starts opened no session before. -/
theorem Signing.spawn (h : Signing s)
    (hr : Recounted (Justified env) Plausible (Concluded env) s)
    (t : Foundations.Thread Task Command Command.Reply Outcome) :
    Signing { s with threads := s.threads ++ [t] } := by
  have hold : ∀ e ∈ s.trace, e.thread < s.threads.length := by
    intro e he
    by_contra hge
    have hmem := Foundations.mem_pastOf_of_mem he
    rw [hr.unborn e.thread (by omega)] at hmem
    cases hmem
  have hresult : ∀ e ∈ s.trace,
      Pool.result { s with threads := s.threads ++ [t] } e.thread = s.result e.thread :=
    fun e he => Foundations.result_spawn _ (hold e he)
  have hsame : ∀ e ∈ s.trace,
      System.verifying { s with threads := s.threads ++ [t] } e.thread ↔ s.verifying e.thread := by
    intro e he
    unfold System.verifying Pool.task
    rw [hresult e he]
    dsimp only
    rw [List.getElem?_append_left (hold e he)]
  refine ⟨h.rows, h.found, fun e he record id htold hsign hout => ?_,
    fun e he id familyId hopens hout => ?_, fun t' ht' => ?_⟩
  · exact h.heard e he record id htold hsign ((hresult e he).symm.trans hout)
  · exact h.answered e he id familyId hopens ((hsame e he).mp hout)
  · obtain ⟨e, he, hopens, hrecorded⟩ := h.opened t' ht'
    exact ⟨e, he, hopens, hrecorded.imp_right (hsame e he).mpr⟩

/-- The tables may lose tokens, and rows of the login history that nothing needs any more. -/
theorem Signing.world (h : Signing s) {world : World}
    (hkey : world.db.nextKey = s.world.db.nextKey)
    (htokens : world.db.tokens.Sublist s.world.db.tokens)
    (hhistory : ∀ row ∈ s.world.db.loginHistory, row.outcome = .SUCCESS →
      row ∈ world.db.loginHistory ∨ ∀ e ∈ s.trace, Records e row → s.Over e.thread) :
    Signing { s with world } := by
  have hkept : ∀ {e : Event} {id : Nat}, s.OnRecord e.thread id →
      ¬ s.Over e.thread → System.OnRecord { s with world } e.thread id := by
    rintro e id ⟨e', he', hthread, row, hrow, hwrote, hid, hsuccess, houtcome⟩ hover
    refine ⟨e', he', hthread, row, ?_, hwrote, hid, hsuccess, houtcome⟩
    refine (hhistory row hrow houtcome).resolve_right fun hspared => hover ?_
    rw [← hthread]
    exact hspared e' he' hwrote
  refine ⟨?_, fun e he hash t htold => ?_, fun e he record id htold hsign hout => ?_, h.answered,
    fun t ht => ?_⟩
  · show KeyedTable _ world.db.nextKey world.db.tokens
    rw [hkey]
    exact ⟨fun t ht => h.rows.below t (htokens.subset ht), h.rows.distinct.sublist (htokens.map _)⟩
  · obtain ⟨hlt, hfacts⟩ := h.found e he hash t htold
    refine ⟨?_, fun t' ht' => hfacts t' (htokens.subset ht')⟩
    show t.id < world.db.nextKey
    rw [hkey]
    exact hlt
  · have hout : s.result e.thread = none := hout
    refine hkept (h.heard e he record id htold hsign hout) fun hover => ?_
    have hanswered := hover.1
    rw [hout] at hanswered
    cases hanswered
  · have ht : t ∈ s.world.db.tokens := htokens.subset ht
    obtain ⟨e, he, hopens, hrecorded⟩ := h.opened t ht
    refine ⟨e, he, hopens, hrecorded.imp_left fun hrecord => hkept hrecord fun hover => ?_⟩
    exact hover.2 e he rfl t ht hopens

/-- A step of the requests, of the clock or of the operators. -/
theorem Signing.step (h : Signing s)
    (hr : Recounted (Justified env) Plausible (Concluded env) s)
    (hr' : Recounted (Justified env) Plausible (Concluded env) s') {l : Label}
    (hok : Pool.calls opensOnRecord s l) (hs : System.step env s l = some s') : Signing s' := by
  rcases Foundations.pool_step_cases hs with ⟨t, -, rfl⟩ |
    ⟨i, fate, task, command, next, reply, rfl, hc⟩ | ⟨move, world, -, hmove, rfl⟩
  · exact h.spawn hr _
  · exact h.call hr hr' hc (hok command hc.nextCommand)
  · cases move with
    | tick ms =>
      cases hmove
      exact h.world rfl (List.Sublist.refl _) fun row hrow _ => .inl hrow
    | setStatus id status =>
      cases hmove
      refine h.world rfl ?_ fun row hrow _ => .inl ?_
      · exact (tokens_update_user _ _).symm ▸ List.Sublist.refl _
      · exact (loginHistory_update_user _ _).symm ▸ hrow

end

/-! ## Beside the sweeps -/

section

variable {env : Env} {options : ReaperOptions} {s s' : Housekept.System} {l : Housekept.Label}

/-- The effect of a statement of a sweep: it deletes rows, or changes nothing. -/
theorem statement_effect {fate : SweepFate} {command : SweepCommand} {reply : command.Reply}
    {w w' : World} (h : World.sweep fate command w = some (reply, w')) :
    w' = w ∨ fate.isRefused = false ∧ ∃ whose ids, command = .deleteMany whose ids ∧
      w' = { w with db := w.db.delete whose ids } := by
  cases command with
  | now => exact .inl (Prod.mk.inj (Option.some.inj h)).2.symm
  | findMany whose take => exact .inl (sweep_findMany h).1
  | deleteMany whose ids =>
    refine (sweep_deleteMany h).imp_right fun hdeleted => ?_
    exact ⟨hdeleted.1, whose, ids, rfl, hdeleted.2⟩

/-- What a step is to the requests: one of their own, or of the clock and the operators; a deletion;
or nothing. -/
theorem requests_step (h : Housekept.System.step env options s l = some s') :
    (∃ l', l = besideSweeps l' ∧ System.step env s.requests l' = some s'.requests) ∨
    s'.requests = s.requests ∨
    ∃ i fate whose ids, l = .move (.call i fate) ∧
      s.world.nextCommand i = some (.deleteMany whose ids) ∧ fate.isRefused = false ∧
      s'.requests = { s.requests with
        world := { s.tables with db := s.tables.db.delete whose ids } } := by
  cases l with
  | spawn task =>
    obtain rfl := Option.some.inj h
    exact .inl ⟨.spawn task, rfl, rfl⟩
  | call i fate =>
    obtain ⟨task, command, next, reply, hc⟩ := Foundations.called_of_call h
    obtain ⟨⟨reply', w⟩, hp, heq⟩ := Option.map_eq_some_iff.mp hc.perform
    obtain ⟨rfl, hworld⟩ := Prod.mk.inj heq
    have hperform : (machine env).perform i fate command s.world.world =
        some (reply', s'.world.world) := by
      rw [← hworld]
      exact hp
    exact .inl ⟨.call i fate, rfl, Foundations.call_of_called (hc.on hperform)⟩
  | move l =>
    obtain ⟨sweeps, hsweeps, rfl⟩ := Option.map_eq_some_iff.mp h
    rcases Foundations.pool_step_cases hsweeps with ⟨task, -, rfl⟩ |
      ⟨i, fate, task, command, next, reply, rfl, hc⟩ | ⟨m, world, rfl, hmove, rfl⟩
    · exact .inr (.inl rfl)
    · rcases statement_effect hc.perform with hworld | ⟨hfate, whose, ids, rfl, hworld⟩
      · refine .inr (.inl ?_)
        show ({ s.requests with world := sweeps.world } : System) = s.requests
        rw [hworld]
        rfl
      · refine .inr (.inr ⟨i, fate, whose, ids, rfl, hc.nextCommand, hfate, ?_⟩)
        show ({ s.requests with world := sweeps.world } : System) = _
        rw [hworld]
        rfl
    · refine .inl ⟨.move m, rfl, ?_⟩
      show Option.map _ (World.move m s.requests.world) = _
      rw [show World.move m s.requests.world = some world from hmove]
      rfl

/-- A step beside the sweeps keeps every session accounted for. -/
theorem Signing.besideSweeps (h : Signing s.requests)
    (hr : Recounted (Justified env) Plausible (Concluded env) s.requests)
    (hok : accountsForSessions s l) (hs : Housekept.System.step env options s l = some s') :
    Signing s'.requests ∧ Recounted (Justified env) Plausible (Concluded env) s'.requests := by
  rcases requests_step hs with ⟨l', rfl, hstep⟩ | hsame | ⟨i, fate, whose, ids, rfl, hnext, hfate, hdb⟩
  · have hr' := hr.step (meets_task env) (fun _ _ _ _ _ _ hp => plausible_of_perform hp) hstep
    refine ⟨h.step hr hr' ?_ hstep, hr'⟩
    cases l' with
    | spawn task => trivial
    | call thread fate => exact hok
    | move m => trivial
  · rw [hsame]
    exact ⟨h, hr⟩
  · have hspared := hok _ hnext hfate
    rw [hdb]
    refine ⟨h.world rfl ?_ fun row hrow houtcome => ?_, hr.meets, hr.unborn, hr.accounted⟩
    · show (s.tables.db.delete whose ids).tokens.Sublist s.tables.db.tokens
      rw [tokens_delete]
      exact List.filter_sublist
    · by_cases hpicked : whose.picks ids (.history row) = true
      · exact .inr (hspared row hrow houtcome hpicked)
      · refine .inl ?_
        show row ∈ (s.tables.db.delete whose ids).loginHistory
        rw [loginHistory_delete]
        exact List.mem_filter.mpr ⟨hrow, by simpa using hpicked⟩

end

/-- In every run beside sweeps in which only logins and verifications open sessions, nothing fails a
verification once it has, and no sweep takes the sign-in of a session that is there, every session
has its sign-in on record. -/
theorem sign_ins_on_record (env : Env) (options : ReaperOptions) {world : World}
    (hw : world.db.tokens = []) {ls : List Housekept.Label} {s : Housekept.System}
    (hok : AllSteps (Housekept.System.step env options) accountsForSessions
      (Housekept.System.start world) ls)
    (hrun : runs (Housekept.System.step env options) (Housekept.System.start world) ls = some s) :
    SignInsOnRecord s.requests := by
  have h := Foundations.invariant_of_allSteps
    (P := fun s : Housekept.System => Signing s.requests ∧
      Recounted (Justified env) Plausible (Concluded env) s.requests)
    (fun s l s' hl hs h => h.1.besideSweeps h.2 hl hs)
    hok hrun ⟨signing_start hw, Foundations.recounted_start⟩
  exact h.1.opened

/-- Ada logs in. Half a year later she does again, and a sweep takes her first session, and then its
sign-in. -/
def loggedInTwice : List Housekept.Label :=
  loggedIn.map besideSweeps ++
    .move (.move (.tick (181 * MS_PER_DAY))) ::
      (alone 1 10 (.login "ada@example.com" "right" {})).map besideSweeps ++
    .move (.spawn ()) :: ([[], [2], [2], [], [], [1], [1]].map fun ids =>
      (.move (.call 0 (.served ids)) : Housekept.Label))

theorem sign_ins_on_record_loggedInTwice :
    ∃ s, runs (Housekept.System.step sampleEnv monthLong) (Housekept.System.start adasWorld)
        loggedInTwice = some s ∧ SignInsOnRecord s.requests ∧ s.tables.db.tokens.length = 1 ∧
      s.tables.db.loginHistory.length = 1 := by
  have hrun : (runs (Housekept.System.step sampleEnv monthLong) (Housekept.System.start adasWorld)
      loggedInTwice).any (fun s => s.tables.db.tokens.length = 1 ∧
        s.tables.db.loginHistory.length = 1) = true := by
    decide +kernel
  obtain ⟨s, hs, hfacts⟩ := (Option.any_eq_true _ _).mp hrun
  exact ⟨s, hs, sign_ins_on_record sampleEnv monthLong rfl (by decide +kernel) hs,
    of_decide_eq_true hfacts⟩

/-- A change of password opens a session that no sign-in accounts for. -/
theorem changed_password_unrecorded :
    ∃ s, runs (Housekept.System.step sampleEnv monthLong) (Housekept.System.start adasWorld)
        ((loggedIn ++ passwordChanged 1).map besideSweeps) = some s ∧
      ¬ SignInsOnRecord s.requests ∧ ∀ i < s.threads.length, s.result i ≠ none := by
  have hrun : (runs (Housekept.System.step sampleEnv monthLong) (Housekept.System.start adasWorld)
      ((loggedIn ++ passwordChanged 1).map besideSweeps)).any
      (fun s => ¬ SignInsOnRecord s.requests ∧ ∀ i < s.threads.length, s.result i ≠ none) =
        true := by
    decide +kernel
  obtain ⟨s, hs, hfacts⟩ := (Option.any_eq_true _ _).mp hrun
  exact ⟨s, hs, of_decide_eq_true hfacts⟩

end PracticalMicroservice.Auth
