import PracticalMicroservice.Auth.Outcomes
import PracticalMicroservice.Auth.Proofs.AccountProofs

/-!
# Tokens over whole runs of requests one after another

What the one request under way has read of an account is still so, and every access token in
circulation is for a verified account.
-/

namespace PracticalMicroservice.Auth

open Foundations (AllSteps Called KeyedTable Pool Recounted pastOf runs)
open PrismaAuthRepository

/-- A lookup of an account that found this row. -/
def Finds (x : (command : Command) × command.Reply) (u : AuthUser) : Prop :=
  (∃ email, x = ⟨.repository (.findAuthUserByEmail email), .ok (some u)⟩) ∨
    x = ⟨.repository (.findAuthUserById u.id), .ok (some u)⟩

/-- What holds of the accounts, of the tokens signed and of the request under way. -/
structure Gated (s : System) : Prop where
  rows : KeyedTable AuthUser.id s.world.db.nextKey s.world.db.users
  alone : ∀ i < s.threads.length, ∀ j < s.threads.length, s.result i = none → s.result j = none →
    i = j
  signed : ∀ claims ∈ s.world.signed, ∃ u ∈ s.world.db.users, u.id = claims.sub ∧ u.verified = true
  authenticated : ∀ e ∈ s.trace, ∀ token,
    e.told = ⟨.verifyAccessToken token, .ok token⟩ → token ∈ s.world.signed
  found : ∀ e ∈ s.trace, s.result e.thread = none → ∀ u, Finds e.told u →
    ∃ u' ∈ s.world.db.users, u'.id = u.id ∧ u'.status = u.status ∧
      (u.verified = true → u'.verified = true)
  confirmed : ∀ e ∈ s.trace, s.result e.thread = none → ∀ verificationId id at_ u,
    e.told = ⟨.repository (.consumeEmailVerification verificationId id at_), .ok u⟩ →
    ∃ u' ∈ s.world.db.users, u'.id = id ∧ u'.verified = true
  checked : ∀ e ∈ s.trace, s.result e.thread = none → ∀ digest token current password info,
    s.task e.thread = some (.changePassword token current password info) →
    e.told = ⟨.verifyPassword digest current, .ok true⟩ →
    ∃ u' ∈ s.world.db.users, u'.id = token.sub ∧ u'.status = .ACTIVE
  minted : OnlyEntitled s

theorem gated_start {world : World} (hw : KeyedTable AuthUser.id world.db.nextKey world.db.users)
    (hsigned : world.signed = []) : Gated (Pool.start world) where
  rows := hw
  alone i hi := absurd hi (Nat.not_lt_zero i)
  signed claims hc := by
    rw [show (Pool.start world : System).world.signed = [] from hsigned] at hc
    cases hc
  authenticated e he := nomatch he
  found e he := nomatch he
  confirmed e he := nomatch he
  checked e he := nomatch he
  minted e he := nomatch he

section

variable {env : Env} {s s' : System} {fate : Fate} {i : Nat} {task : Task} {command : Command}
  {next : command.Reply → Code} {reply : command.Reply}

/-! ## The gate -/

/-- A request that may mint a token for an account mints it for one that is entitled to it. -/
theorem Gated.entitled (h : Gated s) (hi : s.result i = none) (ht : s.task i = some task) {id : Nat}
    (hm : MayMint task (pastOf i s.trace) id) : Entitled s.world id := by
  have hfound : ∀ u, Told.Found (pastOf i s.trace) u → ∃ u' ∈ s.world.db.users, u'.id = u.id ∧
      u'.status = u.status ∧ (u.verified = true → u'.verified = true) := by
    intro u hu
    rcases hu with ⟨email, hu⟩ | hu
    · obtain ⟨e, he, rfl, htold⟩ := Foundations.mem_pastOf hu
      exact h.found e he hi u (.inl ⟨email, htold⟩)
    · obtain ⟨e, he, rfl, htold⟩ := Foundations.mem_pastOf hu
      exact h.found e he hi u (.inr htold)
  rcases hm with ⟨u, hu, rfl, hactive, hverified⟩ |
    ⟨token, current, password, info, u, rfl, hsub, hauth, -, -, hright⟩
  · obtain ⟨u', hu', hid, hstatus, hmore⟩ := hfound u hu
    refine ⟨u', hu', hid, hstatus.trans hactive, ?_⟩
    rcases hverified with hverified | ⟨verificationId, at_, u₁, hconsumed⟩
    · exact hmore hverified
    · obtain ⟨e, he, rfl, htold⟩ := Foundations.mem_pastOf hconsumed
      obtain ⟨u'', hu'', hid'', hverified⟩ := h.confirmed e he hi _ _ _ _ htold
      rwa [h.rows.eq_of_key hu' hu'' (hid.trans hid''.symm)]
  · obtain ⟨e, he, rfl, htold⟩ := Foundations.mem_pastOf hright
    obtain ⟨u', hu', hid', hactive⟩ := h.checked e he hi _ token current password info ht htold
    obtain ⟨e', he', -, htold'⟩ := Foundations.mem_pastOf hauth
    obtain ⟨u'', hu'', hid'', hverified⟩ := h.signed token (h.authenticated e' he' token htold')
    refine ⟨u', hu', hid'.trans hsub, hactive, ?_⟩
    rwa [h.rows.eq_of_key hu' hu'' (hid'.trans hid''.symm)]

/-- A command that mints a token does so for an entitled account. -/
theorem Gated.mints (h : Gated s) (hr : Recounted (Justified env) Plausible (Concluded env) s)
    (hc : Called (machine env) s s' i fate task command next reply) {id : Nat}
    (hid : id ∈ mintsFor command) : Entitled s.world id := by
  have hj := hr.allowed hc.thread
  unfold mintsFor at hid
  split at hid
  · obtain rfl := Option.some.inj hid
    obtain ⟨-, token, familyId, rest, hpast, -, -, hmint, -⟩ := hj
    refine h.entitled hc.result_self hc.task_self (hmint.mono fun x hx => ?_)
    rw [hpast]
    exact List.mem_cons_of_mem _ (List.mem_cons_of_mem _ hx)
  · obtain rfl := Option.some.inj hid
    obtain ⟨-, presented, info, stored, -, -, -, -, -, hmint, -⟩ := hj
    exact h.entitled hc.result_self hc.task_self hmint
  · obtain rfl := Option.some.inj hid
    exact h.entitled hc.result_self hc.task_self hj.2
  · cases hid

/-! ## The steps -/

/-- An access token is signed, or none is. -/
theorem signed_of_perform {w w' : World}
    (h : World.perform env fate command w = some (reply, w')) :
    w'.signed = w.signed ∨
      ∃ claims, command = .signAccessToken claims ∧ w'.signed = claims :: w.signed := by
  cases command with
  | repository c => rcases perform_repository h with ⟨rfl, -⟩ | ⟨rfl, -⟩ <;> exact .inl rfl
  | signAccessToken claims =>
    cases fate with
    | served => cases h; exact .inr ⟨claims, rfl, rfl⟩
    | _ => cases h; exact .inl rfl
  | hashPassword plaintext => cases fate <;> (cases h; exact .inl rfl)
  | verifyPassword digest plaintext => cases fate <;> (cases h; exact .inl rfl)
  | verifyAccessToken token =>
    unfold World.perform at h
    dsimp only at h
    split at h
    · cases h; exact .inl rfl
    · cases h; exact .inl rfl
  | enqueue message requestId key =>
    cases fate with
    | remote r => exact .inl (congrArg World.signed (db_remote h))
    | _ => cases h
  | createProfile profile =>
    cases fate with
    | remote r => exact .inl (congrArg World.signed (db_remote h))
    | _ => cases h
  | findByAuthUserId id =>
    cases fate with
    | remote r => cases h; exact .inl rfl
    | _ => cases h
  | _ => cases h; exact .inl rfl

/-- A token that is authenticated has been signed. -/
theorem signed_of_authenticated {token : AccessTokenClaims} {w w' : World}
    (h : World.perform env fate (.verifyAccessToken token) w =
      some ((.ok token : Except AppError AccessTokenClaims), w')) : token ∈ w.signed := by
  unfold World.perform at h
  dsimp only at h
  split at h
  · rename_i haccepts
    unfold World.accepts at haccepts
    exact (of_decide_eq_true haccepts).1
  · cases h

theorem Gated.call (h : Gated s) (hr : Recounted (Justified env) Plausible (Concluded env) s)
    (hc : Called (machine env) s s' i fate task command next reply)
    (hok : changesActive env s i fate command) : Gated s' where
  rows := accounts_keyed h.rows hc
  alone j hj k hk hj' hk' := by
    rw [hc.length] at hj hk
    exact h.alone j hj k hk (hc.result_none hj') (hc.result_none hk')
  signed claims hclaims := by
    have hold : ∀ id, (∃ u ∈ s.world.db.users, u.id = id ∧ u.verified = true) →
        ∃ u ∈ s'.world.db.users, u.id = id ∧ u.verified = true := by
      rintro id ⟨u, hu, rfl, hv⟩
      obtain ⟨u', hu', hid, -, hverified⟩ := account_stays hc hu
      exact ⟨u', hu', hid, hverified hv⟩
    rcases signed_of_perform (perform_of_called hc) with hsame | ⟨claims', rfl, hmore⟩
    · rw [hsame] at hclaims
      exact hold _ (h.signed claims hclaims)
    · rw [hmore] at hclaims
      rcases List.mem_cons.mp hclaims with rfl | hclaims
      · obtain ⟨u, hu, hid, -, hv⟩ : Entitled s.world claims.sub := h.mints hr hc rfl
        exact hold _ ⟨u, hu, hid, hv⟩
      · exact hold _ (h.signed claims hclaims)
  authenticated e he token htold := by
    have hold : ∀ claims ∈ s.world.signed, claims ∈ s'.world.signed := by
      intro claims hclaims
      rcases signed_of_perform (perform_of_called hc) with hsame | ⟨claims', -, hmore⟩
      · rw [hsame]
        exact hclaims
      · rw [hmore]
        exact List.mem_cons_of_mem _ hclaims
    rw [hc.trace] at he
    rcases List.mem_cons.mp he with rfl | he
    · cases htold
      exact hold _ (signed_of_authenticated (perform_of_called hc))
    · exact hold _ (h.authenticated e he token htold)
  found e he hout u hfinds := by
    rw [hc.trace] at he
    rcases List.mem_cons.mp he with rfl | he
    · rcases hfinds with ⟨email, htold⟩ | htold
      · cases htold
        exact ⟨u, user_of_findByEmail (perform_of_called hc), rfl, rfl, fun hv => hv⟩
      · cases htold
        exact ⟨u, user_of_findById (perform_of_called hc), rfl, rfl, fun hv => hv⟩
    · obtain ⟨u', hu', hid, hstatus, hv⟩ := h.found e he (hc.result_none hout) u hfinds
      obtain ⟨u'', hu'', hid', hstatus', hv'⟩ := account_stays hc hu'
      exact ⟨u'', hu'', hid'.trans hid, hstatus'.trans hstatus, fun h => hv' (hv h)⟩
  confirmed e he hout verificationId id at_ u htold := by
    rw [hc.trace] at he
    rcases List.mem_cons.mp he with rfl | he
    · cases htold
      exact verified_of_consume (perform_of_called hc)
    · obtain ⟨u', hu', hid, hv⟩ := h.confirmed e he (hc.result_none hout) _ _ _ _ htold
      obtain ⟨u'', hu'', hid', -, hv'⟩ := account_stays hc hu'
      exact ⟨u'', hu'', hid'.trans hid, hv' hv⟩
  checked e he hout digest token current password info ht htold := by
    rw [hc.task] at ht
    have hstays : (∃ u' ∈ s.world.db.users, u'.id = token.sub ∧ u'.status = .ACTIVE) →
        ∃ u' ∈ s'.world.db.users, u'.id = token.sub ∧ u'.status = .ACTIVE := by
      rintro ⟨u, hu, hid, hactive⟩
      obtain ⟨u', hu', hid', hstatus, -⟩ := account_stays hc hu
      exact ⟨u', hu', hid'.trans hid, hstatus.trans hactive⟩
    rw [hc.trace] at he
    rcases List.mem_cons.mp he with rfl | he
    · -- the password has just been found right: the account is the one of a token signed here
      cases htold
      rw [hc.task_self] at ht
      cases ht
      have hright : env.argon2Verify digest current = true := by
        have hp := perform_of_called hc
        cases fate with
        | served => exact Except.ok.inj (Prod.mk.inj (Option.some.inj hp)).1
        | _ => cases (Prod.mk.inj (Option.some.inj hp)).1
      have hauth := (hr.allowed hc.thread).2 token current password info rfl
      obtain ⟨e', he', -, htold'⟩ := Foundations.mem_pastOf hauth
      obtain ⟨u, hu, hid, -⟩ := h.signed token (h.authenticated e' he' token htold')
      refine hstays ⟨u, hu, hid, ?_⟩
      exact hok _ hc.task_self token.sub rfl (digest, current) rfl hright u hu hid
    · exact hstays (h.checked e he (hc.result_none hout) digest token current password info ht htold)
  minted e he id hid := by
    rw [hc.trace] at he
    rcases List.mem_cons.mp he with rfl | he
    · exact h.mints hr hc hid
    · exact h.minted e he id hid

/-- A request starts when nothing else is under way. -/
theorem Gated.spawn (h : Gated s) (hr : Recounted (Justified env) Plausible (Concluded env) s)
    (hidle : s.idle) (t : Foundations.Thread Task Command Command.Reply Outcome) :
    Gated { s with threads := s.threads ++ [t] } := by
  have hlast : ∀ {j}, j < (s.threads ++ [t]).length →
      Pool.result { s with threads := s.threads ++ [t] } j = none → j = s.threads.length := by
    intro j hj hout
    rw [List.length_append, List.length_singleton] at hj
    by_contra hne
    have hlt : j < s.threads.length := by omega
    rw [Foundations.result_spawn t hlt] at hout
    exact hidle j hlt hout
  -- and it has no history yet
  have hnone : ∀ e ∈ s.trace,
      Pool.result { s with threads := s.threads ++ [t] } e.thread ≠ none := by
    intro e he hout
    have hmem := Foundations.mem_pastOf_of_mem he
    by_cases hlt : e.thread < s.threads.length
    · rw [Foundations.result_spawn t hlt] at hout
      exact hidle _ hlt hout
    · rw [hr.unborn e.thread (by omega)] at hmem
      cases hmem
  refine ⟨h.rows, ?_, h.signed, h.authenticated, fun e he hout => absurd hout (hnone e he),
    fun e he hout => absurd hout (hnone e he), fun e he hout => absurd hout (hnone e he), h.minted⟩
  intro j hj k hk hj' hk'
  rw [hlast hj hj', hlast hk hk']

/-- The clock changes nothing of this, and an operator changes a status while nothing is under
way. -/
theorem Gated.move (h : Gated s) (hr : Recounted (Justified env) Plausible (Concluded env) s)
    {move : Move} {world : World} (hm : World.move move s.world = some world)
    (hturn : inTurn s (.move move)) : Gated { s with world } := by
  cases move with
  | tick ms =>
    cases hm
    exact ⟨h.rows, h.alone, h.signed, h.authenticated, h.found, h.confirmed, h.checked, h.minted⟩
  | setStatus id status =>
    cases hm
    have husers := accounts_setStatus s.world.db id status
    have hidle : s.idle := hturn
    have hnone : ∀ e ∈ s.trace, s.result e.thread ≠ none := by
      intro e he
      have hmem := Foundations.mem_pastOf_of_mem he
      by_cases hlt : e.thread < s.threads.length
      · exact hidle _ hlt
      · rw [hr.unborn e.thread (by omega)] at hmem
        cases hmem
    refine ⟨?_, h.alone, fun claims hclaims => ?_, h.authenticated,
      fun e he hout => absurd hout (hnone e he), fun e he hout => absurd hout (hnone e he),
      fun e he hout => absurd hout (hnone e he), h.minted⟩
    · show KeyedTable _ s.world.db.nextKey (Database.users _)
      rw [husers]
      exact h.rows.map fun u => by split <;> rfl
    · obtain ⟨u, hu, hid, hv⟩ := h.signed claims hclaims
      refine ⟨if u.id = id then { u with status } else u, ?_, ?_⟩
      · show _ ∈ Database.users _
        rw [husers]
        exact List.mem_map_of_mem (f := fun u => if u.id = id then { u with status } else u) hu
      · split
        · exact ⟨hid, hv⟩
        · exact ⟨hid, hv⟩

/-- One step of a run of requests one after another keeps the gate. -/
theorem Gated.step (h : Gated s) (hr : Recounted (Justified env) Plausible (Concluded env) s)
    {l : Label} (hturn : inTurn s l) (hok : Pool.calls (changesActive env) s l)
    (hs : System.step env s l = some s') : Gated s' := by
  rcases Foundations.pool_step_cases hs with ⟨task, rfl, rfl⟩ |
    ⟨i, fate, task, command, next, reply, rfl, hc⟩ | ⟨move, world, rfl, hmove, rfl⟩
  · exact h.spawn hr hturn _
  · exact h.call hr hc (hok command hc.nextCommand)
  · exact h.move hr hmove hturn

end

/-- In every run of requests one after another, with the status of accounts changed in between,
tokens are minted for entitled accounts only, as long as a change of password whose current password
is right is for an active account. -/
theorem tokens_only_to_entitled (env : Env) {world : World}
    (hw : KeyedTable AuthUser.id world.db.nextKey world.db.users) (hsigned : world.signed = [])
    {ls : List Label} {s : System}
    (hturn : AllSteps (System.step env) inTurn (Pool.start world) ls)
    (hok : AllSteps (System.step env) (Pool.calls (changesActive env)) (Pool.start world) ls)
    (hrun : runs (System.step env) (Pool.start world) ls = some s) : OnlyEntitled s := by
  have h := Foundations.invariant_of_allSteps
    (P := fun s => Gated s ∧ Recounted (Justified env) Plausible (Concluded env) s)
    (fun s l s' hl hs h => ⟨h.1.step h.2 hl.1 hl.2 hs,
      h.2.step (meets_task env) (fun _ _ _ _ _ _ hp => plausible_of_perform hp) hs⟩)
    (hturn.and hok) hrun ⟨gated_start hw hsigned, Foundations.recounted_start⟩
  exact h.1.minted

/-! Ada has logged in, and holds an access token. -/

def adasToken : AccessTokenClaims where
  sub := 0
  email := "ada@example.com"
  username := "ada"
  role := .USER
  sid := sampleDraw 0
  iat := 0
  exp := 900

def loggedIn : List Label := alone 0 10 (.login "ada@example.com" "right" {})

/-- She changes her password, which starts a session. -/
def passwordChanged (thread : Nat) : List Label :=
  alone thread 6 (.changePassword adasToken "right" "new" {}) ++
    .call thread (.remote (.ok (some "mail"))) :: List.replicate 4 (.call thread .served)

/-- An operator suspends her. -/
def suspended : Label := .move (.setStatus 0 .SUSPENDED)

/-- She changes her password before she is suspended; her refresh token is worth nothing after. -/
def changedThenSuspended : List Label :=
  loggedIn ++ passwordChanged 1 ++ [suspended] ++ alone 2 4 (.refresh (sampleDraw 4) {})

theorem tokens_only_to_entitled_suspended :
    ∃ s, runs (System.step sampleEnv) (Pool.start adasWorld) changedThenSuspended = some s ∧
      OnlyEntitled s ∧ s.world.signed.length = 2 ∧
      s.result 2 = some (.error AuthService.notActiveError) := by
  have hrun : (runs (System.step sampleEnv) (Pool.start adasWorld) changedThenSuspended).any
      (fun s => s.world.signed.length = 2 ∧
        s.result 2 = some (.error AuthService.notActiveError)) = true := by
    decide +kernel
  obtain ⟨s, hs, hall⟩ := (Option.any_eq_true _ _).mp hrun
  obtain ⟨hsigned, hrefused⟩ := of_decide_eq_true hall
  exact ⟨s, hs, tokens_only_to_entitled sampleEnv ⟨by decide, by decide⟩ rfl (by decide +kernel)
    (by decide +kernel) hs, hsigned, hrefused⟩

/-- She is suspended, and changes her password all the same. -/
def suspendedThenChanged : List Label := loggedIn ++ [suspended] ++ passwordChanged 1

/-- A suspended account is minted a session. -/
theorem suspended_account_gets_session :
    AllSteps (System.step sampleEnv) inTurn (Pool.start adasWorld) suspendedThenChanged ∧
    ∃ s, runs (System.step sampleEnv) (Pool.start adasWorld) suspendedThenChanged = some s ∧
      s.world.signed.length = 2 ∧ ¬ OnlyEntitled s := by
  have hrun : (runs (System.step sampleEnv) (Pool.start adasWorld) suspendedThenChanged).any
      (fun s => s.world.signed.length = 2 ∧
        ∃ e ∈ s.trace, mintsFor e.command = some 0 ∧ ¬ Entitled e.before 0) = true := by
    decide +kernel
  obtain ⟨s, hs, hall⟩ := (Option.any_eq_true _ _).mp hrun
  obtain ⟨hsigned, e, he, hmints, hnot⟩ := of_decide_eq_true hall
  exact ⟨by decide +kernel, s, hs, hsigned, fun h => hnot (h e he 0 hmints)⟩

end PracticalMicroservice.Auth
