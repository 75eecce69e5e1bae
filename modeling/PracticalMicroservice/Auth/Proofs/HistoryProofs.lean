import PracticalMicroservice.Auth.History

/-!
# The requests, analysed

`Tells` is the judgement about a method of the service under the contract of histories. Each method
has one lemma, in which what follows the method is a hypothesis; the requests are assembled from
them.
-/

namespace PracticalMicroservice.Auth

open Foundations (DatabaseError Ensured Meets ensured_bind)

/-! ## The judgement -/

/-- From a history, a method only performs what is justified, and ends in `ok` or `err`. -/
def Tells {α : Type} (env : Env) (task : Task) (p : Promise α) (ok : α → Told → Prop)
    (err : AppError → Told → Prop) (past : Told) : Prop :=
  Ensured (told env) p (fun a g => g.1 = task ∧ ok a g.2) (fun e g => g.1 = task ∧ err e g.2)
    (task, past)

/-- No wrong guess is left uncounted. -/
def Settled (past : Told) : Prop := ∀ v guess rest, past ≠ ⟨.safeEqual v guess, false⟩ :: rest

/-- A history that goes on from another, with no wrong guess left uncounted. -/
structure Onward (past past' : Told) : Prop where
  older : ∃ newer, past' = newer ++ past
  settled : Settled past'

/-- Every session the request was told it opened is for an account. -/
def OpenedFor (id : Nat) (past : Told) : Prop :=
  ∀ input row, past.Heard (.repository (.createRefreshToken input)) (.ok row) →
    input.authUserId = id

/-- The request was told of no session it opened. -/
def Unopened (past : Told) : Prop :=
  ∀ input row, ¬ past.Heard (.repository (.createRefreshToken input)) (.ok row)

/-- A history in which no session is opened that an older one did not have. -/
def Quiet (past past' : Told) : Prop := Unopened past → Unopened past'

section

variable {α β : Type} {env : Env} {task : Task} {past past' : Told} {ok : α → Told → Prop}
  {err : AppError → Told → Prop}

theorem unopened_nil : Unopened [] := fun _ _ h => nomatch h

theorem Unopened.cons (h : Unopened past) (command : Command) (reply : command.Reply)
    (hc : ∀ input, command ≠ .repository (.createRefreshToken input)) :
    Unopened (⟨command, reply⟩ :: past) := by
  intro input row hheard
  rcases List.mem_cons.mp hheard with heq | hheard
  · exact hc input (congrArg Sigma.fst heq).symm
  · exact h input row hheard

/-- A session that could not be opened. -/
theorem Unopened.failed (h : Unopened past) (input : NewRefreshTokenRecord) (e : AppError) :
    Unopened (⟨.repository (.createRefreshToken input), .error e⟩ :: past) := by
  intro input' row hheard
  rcases List.mem_cons.mp hheard with heq | hheard
  · cases heq
  · exact h input' row hheard

theorem Quiet.refl (past : Told) : Quiet past past := id

theorem Quiet.cons (h : Quiet past past') (command : Command) (reply : command.Reply)
    (hc : ∀ input, command ≠ .repository (.createRefreshToken input)) :
    Quiet past (⟨command, reply⟩ :: past') :=
  fun hu => (h hu).cons command reply hc

/-- The first session a request opens is the only one so far. -/
theorem Unopened.openedFor (h : Unopened past) {input : NewRefreshTokenRecord}
    {reply : Except AppError RefreshToken} :
    OpenedFor input.authUserId (⟨.repository (.createRefreshToken input), reply⟩ :: past) := by
  intro input' row hheard
  rcases List.mem_cons.mp hheard with heq | hheard
  · cases heq
    rfl
  · exact absurd hheard (h input' row)

theorem OpenedFor.cons {id : Nat} (h : OpenedFor id past) (command : Command)
    (reply : command.Reply)
    (hc : ∀ input, command ≠ .repository (.createRefreshToken input)) :
    OpenedFor id (⟨command, reply⟩ :: past) := by
  intro input row hheard
  rcases List.mem_cons.mp hheard with heq | hheard
  · exact absurd (congrArg Sigma.fst heq).symm (hc input)
  · exact h input row hheard

/-- A request that opened no session has none to put on record. -/
theorem Unopened.recorded (h : Unopened past) : past.Recorded :=
  fun input row hopened => absurd hopened (h input row)

theorem Settled.countsFirst (h : Settled past) (command : Command) : CountsFirst past command :=
  fun v guess rest he => absurd he (h v guess rest)

theorem settled_nil : Settled [] := fun _ _ _ h => nomatch h

/-- A reply to anything but a comparison leaves nothing to count. -/
theorem settled_cons {command : Command} {reply : command.Reply}
    (h : ∀ v guess, command ≠ .safeEqual v guess) : Settled (⟨command, reply⟩ :: past) := by
  intro v guess rest he
  rw [List.cons.injEq] at he
  exact h v guess (congrArg Sigma.fst he.1)

theorem settled_right {v : Verification} {guess : String} :
    Settled (⟨.safeEqual v guess, true⟩ :: past) := by
  intro v' guess' rest he
  cases he

theorem Onward.refl (h : Settled past) : Onward past past := ⟨⟨[], rfl⟩, h⟩

theorem Onward.trans {past'' : Told} (h : Onward past past') (h' : Onward past' past'') :
    Onward past past'' := by
  obtain ⟨newer, rfl⟩ := h.older
  obtain ⟨newer', rfl⟩ := h'.older
  exact ⟨⟨newer' ++ newer, (List.append_assoc _ _ _).symm⟩, h'.settled⟩

theorem Onward.cons (h : Onward past past') (command : Command) (reply : command.Reply)
    (hc : ∀ v guess, command ≠ .safeEqual v guess) : Onward past (⟨command, reply⟩ :: past') := by
  obtain ⟨newer, rfl⟩ := h.older
  exact ⟨⟨⟨command, reply⟩ :: newer, rfl⟩, settled_cons hc⟩

theorem Onward.mem (h : Onward past past') {x : (c : Command) × c.Reply} (hx : x ∈ past) :
    x ∈ past' := by
  obtain ⟨newer, rfl⟩ := h.older
  exact List.mem_append_right _ hx

theorem Told.Found.mono {u : AuthUser} (h : past.Found u) (hs : ∀ x ∈ past, x ∈ past') :
    past'.Found u := by
  rcases h with ⟨email, h⟩ | h
  · exact .inl ⟨email, hs _ h⟩
  · exact .inr (hs _ h)

theorem Told.Confirmed.mono {id : Nat} (h : past.Confirmed id) (hs : ∀ x ∈ past, x ∈ past') :
    past'.Confirmed id := by
  obtain ⟨verificationId, at_, u, h⟩ := h
  exact ⟨verificationId, at_, u, hs _ h⟩

theorem MayMint.mono {id : Nat} (h : MayMint task past id) (hs : ∀ x ∈ past, x ∈ past') :
    MayMint task past' id := by
  rcases h with ⟨u, hf, hid, hst, hv⟩ |
    ⟨token, current, password, info, u, ht, hsub, ha, hf, hid, hv⟩
  · exact .inl ⟨u, hf.mono hs, hid, hst, hv.imp_right fun h => h.mono hs⟩
  · exact .inr ⟨token, current, password, info, u, ht, hsub, hs _ ha, hf.mono hs, hid, hs _ hv⟩

theorem Told.Found.onward {u : AuthUser} (h : past.Found u) (ho : Onward past past') :
    past'.Found u := h.mono fun _ => ho.mem

theorem MayMint.onward {id : Nat} (h : MayMint task past id) (ho : Onward past past') :
    MayMint task past' id := h.mono fun _ => ho.mem

/-! ## Its rules -/

theorem tells_pure {a : α} : Tells env task (pure a) ok err past ↔ ok a past :=
  ⟨fun h => h.2, fun h => ⟨rfl, h⟩⟩

theorem tells_throw {e : AppError} :
    Tells env task (throw e : Promise α) ok err past ↔ err e past :=
  ⟨fun h => h.2, fun h => ⟨rfl, h⟩⟩

theorem tells_bind {p : Promise β} {f : β → Promise α}
    (h : Tells env task p (fun b past' => Tells env task (f b) ok err past') err past) :
    Tells env task (p >>= f) ok err past := by
  unfold Tells at h ⊢
  rw [ensured_bind]
  refine h.mono ?_ fun _ _ he => he
  rintro b ⟨_, past'⟩ ⟨rfl, hb⟩
  exact hb

theorem tells_call {command : Command} {ok : command.Reply → Told → Prop}
    (hg : Justified env task past command)
    (h : ∀ reply, Plausible command reply → ok reply (⟨command, reply⟩ :: past)) :
    Tells env task (Promise.call command) ok err past := by
  refine ⟨hg, ?_⟩
  rintro reply _ ⟨hp, rfl⟩
  exact ⟨rfl, h reply hp⟩

theorem tells_unpack {result : Except AppError α} (hok : ∀ a, result = .ok a → ok a past)
    (herr : ∀ e, result = .error e → err e past) :
    Tells env task (Promise.unpack result) ok err past := by
  cases result with
  | ok a => exact ⟨rfl, hok a rfl⟩
  | error e => exact ⟨rfl, herr e rfl⟩

theorem tells_repository {c : Call} {ok : c.Result → Told → Prop}
    (hg : Justified env task past (.repository c))
    (hok : ∀ result, PlausibleResult c result → ok result (⟨.repository c, .ok result⟩ :: past))
    (herr : ∀ d, err (toAppError d) (⟨.repository c, .error (toAppError d)⟩ :: past)) :
    Tells env task (Promise.repository c) ok err past := by
  refine tells_bind (tells_call hg fun reply hp => tells_unpack (fun a ha => ?_) fun e he => ?_)
  · subst ha
    exact hok a (hp.2 a rfl)
  · subst he
    obtain ⟨d, rfl⟩ := hp.1
    exact herr d

theorem tells_now {ok : Nat → Told → Prop} (hs : Settled past)
    (h : ∀ now : Nat, ok now (⟨.now, now⟩ :: past)) : Tells env task Promise.now ok err past :=
  tells_call ⟨hs.countsFirst _, trivial⟩ fun now _ => h now

theorem Tells.mono {p : Promise α} {ok' : α → Told → Prop} {err' : AppError → Told → Prop}
    (h : Tells env task p ok err past) (hok : ∀ a past', ok a past' → ok' a past')
    (herr : ∀ e past', err e past' → err' e past') : Tells env task p ok' err' past :=
  Ensured.mono h (fun a g ha => ⟨ha.1, hok a g.2 ha.2⟩) fun e g he => ⟨he.1, herr e g.2 he.2⟩

/-! ## The parts the requests share -/

theorem tells_recordAttempt {authUserId : Option Nat} {email : String} {outcome : LoginOutcome}
    {attempt : Nat} {info : RequestMeta} {ok : Unit → Told → Prop} (hs : Settled past)
    (hok : ∀ past', Onward past past' → ok () past')
    (herr : ∀ d past', Onward past past' → err (toAppError d) past') :
    Tells env task (AuthService.recordAttempt authUserId email outcome attempt info) ok err past :=
  tells_repository ⟨hs.countsFirst _, trivial⟩
    (fun _ _ => hok _ ((Onward.refl hs).cons _ _ (by simp)))
    fun d => herr d _ ((Onward.refl hs).cons _ _ (by simp))

/-- A sign-in put on record. -/
theorem tells_recordSignIn {id : Nat} {email : String} {info : RequestMeta}
    {ok : Unit → Told → Prop} (hs : Settled past)
    (hok : ∀ record : NewLoginHistoryRecord, record.IsSignIn id →
      ok () (⟨.repository (.recordLoginAttempt record), .ok ()⟩ :: past))
    (herr : ∀ (record : NewLoginHistoryRecord) d, record.IsSignIn id →
      err (toAppError d)
        (⟨.repository (.recordLoginAttempt record), .error (toAppError d)⟩ :: past)) :
    Tells env task (AuthService.recordAttempt (some id) email .SUCCESS 1 info) ok err past :=
  tells_repository ⟨hs.countsFirst _, trivial⟩ (fun _ _ => hok _ ⟨rfl, by simp, rfl⟩)
    fun d => herr _ d ⟨rfl, by simp, rfl⟩

theorem tells_dispatchCode {verificationId : Nat} {message : Message} {key : String}
    {info : RequestMeta} {ok : Bool → Told → Prop} (hs : Settled past)
    (hok : ∀ queued past', Onward past past' → ok queued past') :
    Tells env task (AuthService.dispatchCode verificationId message key info) ok err past := by
  refine tells_bind (tells_call ⟨hs.countsFirst _, trivial⟩ fun enqueued _ => ?_)
  have ho := (Onward.refl hs).cons (.enqueue message info.requestId (some key))
    enqueued (by simp)
  cases enqueued with
  | error e => exact tells_pure.mpr (hok _ _ ho)
  | ok messageId =>
    refine tells_bind (tells_call ⟨ho.settled.countsFirst _, trivial⟩ fun reply _ => ?_)
    exact tells_pure.mpr (hok _ _ (ho.cons _ _ (by simp)))

/-- A profile attached or not, the account is the same. -/
theorem orElse_id {authUser : AuthUser} {userId : String} {reply : Except AppError AuthUser}
    (hp : Plausible (.repository (.attachProfile authUser.id userId)) reply) :
    (AuthService.orElse authUser reply).id = authUser.id := by
  cases reply with
  | ok u => exact hp.2 u rfl
  | error e => rfl

theorem tells_ensureProfile {authUser : AuthUser} {ok : AuthUser → Told → Prop} (hs : Settled past)
    (hok : ∀ user past', user.id = authUser.id → Onward past past' → Quiet past past' →
      ok user past') :
    Tells env task (AuthService.ensureProfile authUser) ok err past := by
  unfold AuthService.ensureProfile
  split
  · rename_i profile _ _
    refine tells_bind (tells_call ⟨hs.countsFirst _, trivial⟩ fun created _ => ?_)
    have ho := (Onward.refl hs).cons (.createProfile
      { authUserId := authUser.id, email := authUser.email, profile }) created (by simp)
    have hq := (Quiet.refl past).cons (.createProfile
      { authUserId := authUser.id, email := authUser.email, profile }) created (by simp)
    match created, ho, hq with
    | .ok userId, ho, hq =>
      refine tells_bind (tells_call ⟨ho.settled.countsFirst _, .inl ⟨_, rfl, List.mem_cons_self⟩⟩
        fun reply hp => ?_)
      exact tells_pure.mpr (hok _ _ (orElse_id hp) (ho.cons _ _ (by simp)) (hq.cons _ _ (by simp)))
    | .error (.ConflictError message), ho, hq =>
      refine tells_bind (tells_call ⟨ho.settled.countsFirst _, trivial⟩ fun existing _ => ?_)
      have ho' := ho.cons (.findByAuthUserId authUser.id) existing (by simp)
      have hq' := hq.cons (.findByAuthUserId authUser.id) existing (by simp)
      match existing, ho', hq' with
      | .ok (some userId), ho', hq' =>
        refine tells_bind (tells_call ⟨ho'.settled.countsFirst _, .inr List.mem_cons_self⟩
          fun reply hp => ?_)
        exact tells_pure.mpr
          (hok _ _ (orElse_id hp) (ho'.cons _ _ (by simp)) (hq'.cons _ _ (by simp)))
      | .ok none, ho', hq' => exact tells_pure.mpr (hok _ _ rfl ho' hq')
      | .error e, ho', hq' => exact tells_pure.mpr (hok _ _ rfl ho' hq')
    | .error (.ForbiddenError _), ho, hq => exact tells_pure.mpr (hok _ _ rfl ho hq)
    | .error (.TooManyRequestsError _), ho, hq => exact tells_pure.mpr (hok _ _ rfl ho hq)
    | .error (.UnauthorizedError _), ho, hq => exact tells_pure.mpr (hok _ _ rfl ho hq)
    | .error (.InternalServerError _), ho, hq => exact tells_pure.mpr (hok _ _ rfl ho hq)
    | .error (.bare _ _), ho, hq => exact tells_pure.mpr (hok _ _ rfl ho hq)
  · exact tells_pure.mpr (hok _ _ rfl (Onward.refl hs) (Quiet.refl _))

/-- An error no request makes of a reused token. -/
def Ordinary (e : AppError) : Prop := e ≠ AuthService.reuseError

theorem ordinary_toAppError (d : DatabaseError) : Ordinary (toAppError d) := by
  cases d <;> simp [Ordinary, toAppError, AuthService.reuseError]

theorem ordinary_internal (message : String) : Ordinary (.InternalServerError message) := by
  simp [Ordinary, AuthService.reuseError]

theorem tells_signAccessToken {authUser : AuthUser} {sid : String} {now : Nat}
    {ok : AccessTokenClaims → Told → Prop} (hs : Settled past)
    (hm : MayMint task past authUser.id)
    (hok : ∀ (claims claims' : AccessTokenClaims),
      Onward past (⟨.signAccessToken claims, .ok claims'⟩ :: past) →
      ok claims' (⟨.signAccessToken claims, .ok claims'⟩ :: past))
    (herr : ∀ e (claims : AccessTokenClaims), Ordinary e →
      Onward past (⟨.signAccessToken claims, .error e⟩ :: past) →
      err e (⟨.signAccessToken claims, .error e⟩ :: past)) :
    Tells env task (AuthService.signAccessToken env authUser sid now) ok err past := by
  refine tells_bind (tells_call ⟨hs.countsFirst _, hm⟩ fun reply hp => ?_)
  refine tells_unpack (fun claims hclaims => ?_) fun e he => ?_
  · subst hclaims
    exact hok _ _ ((Onward.refl hs).cons _ _ (by simp))
  subst he
  refine herr _ _ ?_ ((Onward.refl hs).cons _ _ (by simp))
  rcases hp with hp | hp
  · cases hp
  · cases hp
    exact ordinary_internal _

theorem tells_startSession {authUser : AuthUser} {info : RequestMeta} {now : Nat}
    {ok : AuthenticatedResult → Told → Prop} (hs : Settled past)
    (hm : MayMint task past authUser.id) (hnow : past.Heard .now now)
    (hsign : ∀ email password info, task = .login email password info → past.SignedIn authUser.id)
    (hok : ∀ result past', Onward past past' → (Unopened past → OpenedFor authUser.id past') →
      ok result past')
    (herr : ∀ e past', Ordinary e → Onward past past' →
      (Quiet past past' ∨ ∃ claims e rest, past' = ⟨.signAccessToken claims, .error e⟩ :: rest) →
      err e past') :
    Tells env task (AuthService.startSession env authUser info now) ok err past := by
  refine tells_bind (tells_call ⟨hs.countsFirst _, trivial⟩ fun familyId _ => ?_)
  have ho := (Onward.refl hs).cons .randomUUID familyId (by simp)
  have hq := (Quiet.refl past).cons .randomUUID familyId (by simp)
  refine tells_bind (tells_bind (tells_call ⟨ho.settled.countsFirst _, trivial⟩ fun token _ => ?_))
  have ho' := ho.cons .randomToken token (by simp)
  have hq' := hq.cons .randomToken token (by simp)
  refine tells_pure.mpr (tells_bind (tells_repository
    ⟨ho'.settled.countsFirst _, token, familyId, past, rfl, rfl, rfl, hm, ⟨now, ho'.mem hnow, rfl⟩,
      hsign⟩ (fun row _ => ?_)
    fun d => ?_))
  · refine tells_bind (tells_signAccessToken (ho'.cons _ _ (by simp)).settled
      (hm.onward (ho'.cons _ _ (by simp))) (fun claims claims' h => ?_) fun e claims he h => ?_)
    · refine tells_pure.mpr (hok _ _ ((ho'.cons _ _ (by simp)).trans h) fun hu => ?_)
      exact (hq' hu).openedFor.cons _ _ (by simp)
    · exact herr _ _ he ((ho'.cons _ _ (by simp)).trans h) (.inr ⟨_, _, _, rfl⟩)
  · exact herr _ _ (ordinary_toAppError d) (ho'.cons _ _ (by simp)) 
      (.inl fun hu => (hq' hu).failed _ _)

theorem tells_issueCode {authUser : AuthUser} {type : VerificationType} {info : RequestMeta}
    {ok : Unit → Told → Prop} (hs : Settled past) (hcool : CooledDown env authUser.id type past)
    (hok : ∀ past', Onward past past' → ok () past')
    (herr : ∀ d past', Onward past past' → err (toAppError d) past') :
    Tells env task (AuthService.issueCode env authUser type info) ok err past := by
  refine tells_bind (tells_call ⟨hs.countsFirst _, trivial⟩ fun code _ => ?_)
  have ho := (Onward.refl hs).cons .generateCode code (by simp)
  refine tells_bind (tells_now ho.settled fun now => ?_)
  have ho' := ho.cons .now now (by simp)
  refine tells_bind (tells_repository ⟨ho'.settled.countsFirst _, now, code, past, rfl, hcool⟩
    (fun row _ => ?_) fun d => herr d _ (ho'.cons _ _ (by simp)))
  refine tells_bind (tells_dispatchCode (ho'.cons _ _ (by simp)).settled fun queued past' h => ?_)
  exact tells_pure.mpr (hok _ ((ho'.cons _ _ (by simp)).trans h))

/-- A code checked: right, and next to be consumed, or the request is over. -/
theorem tells_consumeCode {authUserId : Nat} {type : VerificationType} {code email : String}
    {u : AuthUser} {ok : Nat → Told → Prop} (ht : task.PresentsCode)
    (hp : past = [⟨.repository (.findAuthUserByEmail email), .ok (some u)⟩])
    (hok : ∀ (v : Verification) (guess : String) rest, Onward past rest → Quiet past rest →
      ok v.id (⟨.safeEqual v guess, true⟩ :: rest))
    (herr : ∀ e past', Ordinary e → Settled past' → Quiet past past' → err e past') :
    Tells env task (AuthService.consumeCode env authUserId type code) ok err past := by
  have hs : Settled past := by
    rw [hp]
    exact settled_cons (by simp)
  have hlooked := fun (r : (Command.repository (.findActiveVerification authUserId type)).Reply) =>
    (Quiet.refl past).cons _ r (by simp)
  refine tells_bind (tells_repository ⟨hs.countsFirst _, trivial⟩ (fun active _ => ?_)
    fun d => herr _ _ (ordinary_toAppError d) (settled_cons (by simp)) (hlooked _))
  have hinvalid : Ordinary AuthService.invalidCodeError := by
    simp [Ordinary, AuthService.invalidCodeError, AuthService.reuseError]
  cases active with
  | none => exact tells_throw.mpr (herr _ _ hinvalid (settled_cons (by simp)) (hlooked _))
  | some v =>
    have ho := (Onward.refl hs).cons
      (.repository (.findActiveVerification authUserId type))
      ((.ok (some v) : Except AppError (Option Verification))) (by simp)
    refine tells_bind (tells_now ho.settled fun now => ?_)
    have ho' := ho.cons .now now (by simp)
    have hq := (hlooked (.ok (some v))).cons .now now (by simp)
    split
    · exact tells_throw.mpr (herr _ _ hinvalid ho'.settled hq)
    · rename_i hexpires
      split
      · exact tells_throw.mpr (herr _ _ hinvalid ho'.settled hq)
      · rename_i hattempts
        refine tells_bind (tells_call ⟨ho'.settled.countsFirst _, ht, now, authUserId, type, email,
          u, by rw [hp], by omega, by omega⟩ fun right _ => ?_)
        cases right with
        | true => exact tells_pure.mpr (hok v _ _ ho' hq)
        | false =>
          have hwrong := hq.cons (.safeEqual v (env.hashCode code)) false (by simp)
          refine tells_bind (tells_repository ⟨?_, v, _, _, rfl, rfl, rfl⟩ (fun row _ => ?_)
            fun d => herr _ _ (ordinary_toAppError d) (settled_cons (by simp))
              (hwrong.cons _ _ (by simp)))
          · intro v' guess' rest he
            cases he
            exact ⟨_, rfl⟩
          · exact tells_throw.mpr
              (herr _ _ hinvalid (settled_cons (by simp)) (hwrong.cons _ _ (by simp)))

/-! ## Registration and codes -/

theorem tells_createAccount {input : RegisterInput} {info : RequestMeta} (hs : Settled past) :
    Tells env task (AuthService.createAccount env input info) (fun _ => Settled) (fun _ => Settled)
      past := by
  refine tells_bind (tells_call ⟨hs.countsFirst _, trivial⟩ fun reply _ => ?_)
  have ho := (Onward.refl hs).cons (.hashPassword input.password) (reply)
    (by simp)
  refine tells_bind (tells_unpack (fun passwordHash _ => ?_) fun _ _ => ho.settled)
  refine tells_bind (tells_call ⟨ho.settled.countsFirst _, trivial⟩ fun code _ => ?_)
  have ho' := ho.cons .generateCode code (by simp)
  refine tells_bind (tells_now ho'.settled fun now => ?_)
  have ho'' := ho'.cons .now now (by simp)
  refine tells_bind (tells_repository ⟨ho''.settled.countsFirst _, trivial⟩ (fun created _ => ?_)
    fun d => settled_cons (by simp))
  obtain ⟨authUser, verification⟩ := created
  refine tells_bind (tells_dispatchCode (settled_cons (by simp)) fun queued past' h => ?_)
  exact tells_pure.mpr h.settled

theorem tells_register {input : RegisterInput} {info : RequestMeta} :
    Tells env task (AuthService.register env input info) (fun _ => Settled) (fun _ => Settled)
      [] := by
  refine tells_bind (tells_repository ⟨settled_nil.countsFirst _, rfl⟩ (fun byEmail _ => ?_)
    fun d => settled_cons (by simp))
  cases byEmail with
  | some _ => exact tells_throw.mpr (settled_cons (by simp))
  | none =>
    refine tells_bind (tells_repository ⟨(settled_cons (by simp)).countsFirst _, trivial⟩
      (fun byUsername _ => ?_) fun d => settled_cons (by simp))
    cases byUsername with
    | some _ => exact tells_throw.mpr (settled_cons (by simp))
    | none => exact tells_createAccount (settled_cons (by simp))

theorem tells_issueAfterCooldown {authUser : AuthUser} {type : VerificationType}
    {email : String} {info : RequestMeta}
    (hp : past = [⟨.repository (.findAuthUserByEmail email), .ok (some authUser)⟩]) :
    Tells env task (AuthService.issueAfterCooldown env authUser type info) (fun _ => Settled)
      (fun _ => Settled) past := by
  have hs : Settled past := by
    rw [hp]
    exact settled_cons (by simp)
  refine tells_bind (tells_repository ⟨hs.countsFirst _, trivial⟩ (fun active _ => ?_)
    fun d => settled_cons (by simp))
  cases active with
  | none =>
    exact tells_issueCode (settled_cons (by simp)) ⟨email, authUser, rfl, .inl (by rw [hp])⟩
      (fun _ h => h.settled) fun _ _ h => h.settled
  | some active =>
    refine tells_bind (tells_now (settled_cons (by simp)) fun now => ?_)
    split
    · exact tells_pure.mpr (settled_cons (by simp))
    · rename_i hcooled
      exact tells_issueCode (settled_cons (by simp))
        ⟨email, authUser, rfl, .inr ⟨now, active, by simpa using hcooled, by rw [hp]⟩⟩
        (fun _ h => h.settled) fun _ _ h => h.settled

theorem tells_resendVerification {email : String} {info : RequestMeta} :
    Tells env task (AuthService.resendVerification env email info) (fun _ => Settled)
      (fun _ => Settled) [] := by
  refine tells_bind (tells_repository ⟨settled_nil.countsFirst _, rfl⟩ (fun found _ => ?_)
    fun d => settled_cons (by simp))
  cases found with
  | none => exact tells_pure.mpr (settled_cons (by simp))
  | some authUser =>
    dsimp only
    split
    · exact tells_pure.mpr (settled_cons (by simp))
    · exact tells_issueAfterCooldown rfl

theorem tells_forgotPassword {email : String} {info : RequestMeta} :
    Tells env task (AuthService.forgotPassword env email info) (fun _ => Settled)
      (fun _ => Settled) [] := by
  refine tells_bind (tells_repository ⟨settled_nil.countsFirst _, rfl⟩ (fun found _ => ?_)
    fun d => settled_cons (by simp))
  cases found with
  | none => exact tells_pure.mpr (settled_cons (by simp))
  | some authUser =>
    dsimp only
    split
    · exact tells_pure.mpr (settled_cons (by simp))
    · exact tells_issueAfterCooldown rfl

/-- How a request that presents a code succeeds. -/
def RedeemEnds (past : Told) : Prop := Settled past ∧ past.Redeemed

theorem tells_verifyEmail {email code : String} {info : RequestMeta} (ht : task.PresentsCode) :
    Tells env task (AuthService.verifyEmail env email code info)
      (fun _ past => RedeemEnds past ∧ past.Recorded) (fun _ past => Settled past ∧ past.Recorded)
      [] := by
  have hlooked := fun (r : (Command.repository (.findAuthUserByEmail email)).Reply) =>
    unopened_nil.cons _ r (by simp)
  refine tells_bind (tells_repository ⟨settled_nil.countsFirst _, rfl⟩ (fun found _ => ?_)
    fun d => ⟨settled_cons (by simp), (hlooked _).recorded⟩)
  cases found with
  | none => exact tells_throw.mpr ⟨settled_cons (by simp), (hlooked _).recorded⟩
  | some authUser =>
    have ho := (Onward.refl settled_nil).cons (.repository (.findAuthUserByEmail email))
      ((.ok (some authUser) : Except AppError (Option AuthUser))) (by simp)
    have hfound : Told.Found [⟨.repository (.findAuthUserByEmail email),
        (.ok (some authUser) : Except AppError (Option AuthUser))⟩] authUser :=
      .inl ⟨email, List.mem_cons_self⟩
    dsimp only
    split
    · exact tells_throw.mpr ⟨ho.settled, (hlooked _).recorded⟩
    · rename_i hactive
      split
      · exact tells_throw.mpr ⟨ho.settled, (hlooked _).recorded⟩
      · refine tells_bind (tells_consumeCode ht rfl (fun v guess rest hrest hq => ?_)
          fun _ _ _ h hq => ⟨h, (hq (hlooked _)).recorded⟩)
        have hright : Settled (⟨.safeEqual v guess, true⟩ :: rest) := settled_right
        have hcode := Onward.refl hright
        refine tells_bind (tells_now settled_right fun now => ?_)
        have hnow := hcode.cons .now now (by simp)
        have hunopened : ∀ r : (Command.repository
            (.consumeEmailVerification v.id authUser.id now)).Reply,
            Unopened (⟨_, r⟩ :: ⟨.now, now⟩ :: ⟨.safeEqual v guess, true⟩ :: rest) := fun r =>
          (((hq (hlooked _)).cons (.safeEqual v guess) true (by simp)).cons .now now (by simp)).cons
            _ r (by simp)
        refine tells_bind (tells_repository
          ⟨hnow.settled.countsFirst _, v, guess, rest, rfl, rfl⟩ (fun verified hid => ?_)
          fun d => ⟨settled_cons (by simp), (hunopened _).recorded⟩)
        refine tells_bind
          (tells_ensureProfile (settled_cons (by simp)) fun user past' hu h hq' => ?_)
        have hstart : Unopened past' := hq' (hunopened _)
        have hback : Onward rest past' :=
          Onward.trans ⟨⟨[_, _, _], rfl⟩, settled_cons (by simp)⟩ h
        have hmint : MayMint task past' user.id := by
          rw [hu.trans hid]
          exact .inl ⟨authUser, (hfound.onward hrest).onward hback, rfl,
            Decidable.not_not.mp hactive, .inr ⟨v.id, now, verified, h.mem List.mem_cons_self⟩⟩
        have hlogin : ∀ email password info, task = .login email password info →
            past'.SignedIn user.id := by
          rintro _ _ _ rfl
          exact ht.elim
        have hnow' : past'.Heard .now now := h.mem (List.mem_cons_of_mem _ List.mem_cons_self)
        refine tells_bind (tells_startSession h.settled hmint hnow' hlogin
          (fun session past'' h' hopened => ?_) fun e past'' _ h' hends => ⟨h'.settled, ?_⟩)
        · have hfor : OpenedFor authUser.id past'' := by
            rw [← hu.trans hid]
            exact hopened hstart
          refine tells_bind (tells_recordSignIn h'.settled (fun record hrecord => ?_)
            fun record d hrecord => ⟨settled_cons (by simp), fun input row hheard => ?_⟩)
          · have hlast := h.trans (h'.cons (.repository (.recordLoginAttempt record))
              (.ok () : Except AppError Unit) (by simp))
            refine tells_pure.mpr ⟨⟨hlast.settled, v, guess, hlast.mem ?_, .inl ⟨_, _, verified,
              hlast.mem List.mem_cons_self⟩⟩, fun input row hheard => .inl ?_⟩
            · exact List.mem_cons_of_mem _ (List.mem_cons_of_mem _ List.mem_cons_self)
            · rw [(hfor.cons _ _ (by simp)) input row hheard]
              exact ⟨record, List.mem_cons_self, hrecord⟩
          · rw [(hfor.cons _ _ (by simp)) input row hheard]
            exact .inr (.inr ⟨record, _, _, rfl, hrecord⟩)
        · rcases hends with hquiet | hfailed
          · exact (hquiet hstart).recorded
          · exact fun _ _ _ => .inr (.inl hfailed)

/-! ## Login -/

theorem tells_refuseLogin {authUser : AuthUser} {email : String} {outcome : LoginOutcome}
    {info : RequestMeta} {error : AppError} {ok : AuthenticatedResult → Told → Prop}
    (hs : Settled past) :
    Tells env task (AuthService.refuseLogin authUser email outcome info error) ok
      (fun _ => Settled) past :=
  tells_bind (tells_recordAttempt hs (fun _ h => tells_throw.mpr h.settled) fun _ _ h => h.settled)

theorem tells_failLogin {authUser : AuthUser} {email password : String} {info : RequestMeta}
    {ok : AuthenticatedResult → Told → Prop} (ht : task = .login email password info)
    (hp : past = loginStart email password authUser false) :
    Tells env task (AuthService.failLogin env authUser email info) ok (fun _ => Settled) past := by
  have hs : Settled past := by
    rw [hp]
    exact settled_cons (by simp)
  have hrest : ∀ past', Settled past' → Tells env task
      (do
        AuthService.recordAttempt (some authUser.id) email .INVALID_CREDENTIALS
          (authUser.failedLoginAttempts + 1) info
        throw AuthService.invalidCredentialsError) ok (fun _ => Settled) past' :=
    fun past' hs' => tells_bind (tells_recordAttempt hs' (fun _ h => tells_throw.mpr h.settled)
      fun _ _ h => h.settled)
  unfold AuthService.failLogin AuthService.lockUntil
  dsimp only
  split
  · rename_i hlock
    refine tells_bind (tells_bind (tells_now hs fun now => tells_pure.mpr ?_))
    refine tells_bind (tells_repository ⟨(settled_cons (by simp)).countsFirst _, email, password,
      info, authUser, ht, rfl, .inr ⟨hlock, now, rfl, by rw [hp]⟩⟩ (fun row _ => ?_)
      fun d => settled_cons (by simp))
    exact hrest _ (settled_cons (by simp))
  · rename_i hlock
    refine tells_bind (tells_pure.mpr ?_)
    refine tells_bind (tells_repository ⟨hs.countsFirst _, email, password, info, authUser, ht,
      rfl, .inl ⟨by omega, rfl, hp⟩⟩ (fun row _ => ?_) fun d => settled_cons (by simp))
    exact hrest _ (settled_cons (by simp))

theorem tells_acceptLogin {authUser : AuthUser} {email password : String} {info : RequestMeta}
    {now : Nat} {ok : AuthenticatedResult → Told → Prop} (ht : task = .login email password info)
    (hp : past = ⟨.now, now⟩ :: loginStart email password authUser true)
    (hlock : AuthService.lockHolds authUser.lockedUntil now = false)
    (hactive : authUser.status = .ACTIVE) (hverified : authUser.verified = true)
    (hok : ∀ result past', Onward past past' → ok result past') :
    Tells env task (AuthService.acceptLogin env authUser email info) ok (fun _ => Settled) past := by
  have hs : Settled past := by
    rw [hp]
    exact settled_cons (by simp)
  have hfound : past.Found authUser := by
    rw [hp]
    exact .inl ⟨email, List.mem_cons_of_mem _ (List.mem_cons_of_mem _ List.mem_cons_self)⟩
  refine tells_bind (tells_now hs fun at_ => ?_)
  have ho := (Onward.refl hs).cons .now at_ (by simp)
  refine tells_bind (tells_repository ⟨ho.settled.countsFirst _, email, password, info, authUser,
    now, at_, ht, rfl, by rw [hp], hlock⟩ (fun refreshed hid => ?_) fun d => settled_cons (by simp))
  have ho' := fun (r : (Command.repository (.registerSuccessfulLogin authUser.id at_)).Reply) =>
    ho.cons _ r (by simp)
  refine tells_bind (tells_recordSignIn (ho' _).settled (fun record hrecord => ?_)
    fun _ _ _ => settled_cons (by simp))
  have h := (ho' (.ok refreshed)).cons (.repository (.recordLoginAttempt record))
    (.ok () : Except AppError Unit) (by simp)
  refine tells_bind (tells_ensureProfile h.settled fun user past'' hu h' _ => ?_)
  have hon : Onward past past'' := h.trans h'
  have hnow : past''.Heard .now at_ :=
    h'.mem (List.mem_cons_of_mem _ (List.mem_cons_of_mem _ List.mem_cons_self))
  refine tells_startSession h'.settled ?_ hnow (fun _ _ _ _ => ?_)
    (fun result past''' h'' _ => hok _ _ (hon.trans h'')) fun _ _ _ h'' _ => h''.settled
  · rw [hu.trans hid]
    exact .inl ⟨authUser, hfound.onward hon, rfl, hactive, .inl hverified⟩
  · rw [hu.trans hid]
    exact ⟨record, h'.mem List.mem_cons_self, hrecord⟩

/-- How a login ends. -/
def LoginEnds (email password : String) (past : Told) : Prop :=
  Settled past ∧ ∃ u now newer, past = newer ++ ⟨.now, now⟩ :: loginStart email password u true ∧
    AuthService.lockHolds u.lockedUntil now = false

theorem tells_login {email password : String} {info : RequestMeta} :
    Tells env (.login email password info) (AuthService.login env email password info)
      (fun _ => LoginEnds email password) (fun _ => Settled) [] := by
  refine tells_bind (tells_repository ⟨settled_nil.countsFirst _, rfl⟩ (fun found _ => ?_)
    fun d => settled_cons (by simp))
  cases found with
  | none =>
    refine tells_bind (tells_call ⟨(settled_cons (by simp)).countsFirst _, trivial⟩ fun _ _ => ?_)
    exact tells_bind (tells_recordAttempt (settled_cons (by simp))
      (fun _ h => tells_throw.mpr h.settled) fun _ _ h => h.settled)
  | some authUser =>
    refine tells_bind (tells_call ⟨(settled_cons (by simp)).countsFirst _,
      fun _ _ _ _ ht => nomatch ht⟩ fun reply _ => ?_)
    refine tells_bind (tells_unpack (fun matched hm => ?_) fun _ _ => settled_cons (by simp))
    subst hm
    cases matched with
    | false => exact tells_failLogin rfl rfl
    | true =>
      refine tells_bind (tells_now (settled_cons (by simp)) fun now => ?_)
      have hs : Settled (⟨.now, now⟩ :: loginStart email password authUser true) :=
        settled_cons (by simp)
      split
      · exact tells_refuseLogin hs
      · rename_i hlock
        split
        · exact tells_refuseLogin hs
        · rename_i hactive
          split
          · exact tells_refuseLogin hs
          · rename_i hverified
            refine tells_acceptLogin rfl rfl (by simpa using hlock)
              (Decidable.not_not.mp hactive) (by simpa using hverified) fun result past' h => ?_
            obtain ⟨newer, hnewer⟩ := h.older
            exact ⟨h.settled, authUser, now, newer, hnewer, by simpa using hlock⟩

/-! ## Sessions -/

/-- How a refresh that fails ends: with the answer to a reused token only after its family is
revoked. -/
def RefreshFails (env : Env) (presented : String) (e : AppError) (past : Told) : Prop :=
  Settled past ∧ (e = AuthService.reuseError → ∃ stored n,
    past = [⟨.repository (.revokeFamily stored.familyId .REUSE_DETECTED), .ok n⟩,
      ⟨.repository (.findRefreshTokenByHash (env.hashRefreshToken presented)), .ok (some stored)⟩])

theorem refreshFails_of_ordinary {presented : String} {e : AppError} (he : Ordinary e)
    (hs : Settled past) : RefreshFails env presented e past := ⟨hs, fun h => absurd h he⟩

theorem tells_rotate {stored : RefreshToken} {authUser : AuthUser} {info info' : RequestMeta}
    {presented : String} (ht : task = .refresh presented info) (hs : Settled past)
    (hstored : past.Heard (.repository (.findRefreshTokenByHash (env.hashRefreshToken presented)))
      (.ok (some stored))) (hid : authUser.id = stored.authUserId)
    (hmint : MayMint task past authUser.id) :
    Tells env task (AuthService.rotate env stored authUser info') (fun _ => Settled)
      (RefreshFails env presented) past := by
  refine tells_bind (tells_now hs fun now => ?_)
  have ho := (Onward.refl hs).cons .now now (by simp)
  refine tells_bind (tells_bind (tells_call ⟨ho.settled.countsFirst _, trivial⟩ fun token _ => ?_))
  have ho' := ho.cons .randomToken token (by simp)
  refine tells_pure.mpr (tells_bind (tells_repository ⟨ho'.settled.countsFirst _, presented, info,
    stored, ht, ho'.mem hstored, rfl, rfl, hid, hmint.onward ho', now,
    List.mem_cons_of_mem _ List.mem_cons_self, rfl⟩ (fun row _ => ?_)
    fun d => refreshFails_of_ordinary (ordinary_toAppError d) (settled_cons (by simp))))
  refine tells_bind (tells_now (settled_cons (by simp)) fun now' => ?_)
  refine tells_bind (tells_signAccessToken (settled_cons (by simp))
    (hmint.onward ((ho'.cons _ _ (by simp)).cons _ _ (by simp))) (fun claims past' h => ?_)
    fun e past' he h => refreshFails_of_ordinary he h.settled)
  exact tells_pure.mpr h.settled

theorem tells_refreshLive {stored : RefreshToken} {info info' : RequestMeta}
    {presented : String} (ht : task = .refresh presented info) (hs : Settled past)
    (hstored : past.Heard (.repository (.findRefreshTokenByHash (env.hashRefreshToken presented)))
      (.ok (some stored))) :
    Tells env task (AuthService.refreshLive env stored info') (fun _ => Settled)
      (RefreshFails env presented) past := by
  have hinvalid : Ordinary AuthService.invalidSessionError := by
    simp [Ordinary, AuthService.invalidSessionError, AuthService.reuseError]
  have hnotActive : Ordinary AuthService.notActiveError := by
    simp [Ordinary, AuthService.notActiveError, AuthService.reuseError]
  refine tells_bind (tells_now hs fun now => ?_)
  have ho := (Onward.refl hs).cons .now now (by simp)
  split
  · exact tells_throw.mpr (refreshFails_of_ordinary hinvalid ho.settled)
  · refine tells_bind (tells_repository ⟨ho.settled.countsFirst _, trivial⟩ (fun found hid => ?_)
      fun d => refreshFails_of_ordinary (ordinary_toAppError d) (settled_cons (by simp)))
    cases found with
    | none => exact tells_throw.mpr (refreshFails_of_ordinary hinvalid (settled_cons (by simp)))
    | some authUser =>
      have hid : authUser.id = stored.authUserId := hid
      dsimp only
      split
      · refine tells_bind (tells_repository ⟨(settled_cons (by simp)).countsFirst _, trivial⟩
          (fun n _ => ?_)
          fun d => refreshFails_of_ordinary (ordinary_toAppError d) (settled_cons (by simp)))
        exact tells_throw.mpr (refreshFails_of_ordinary hnotActive (settled_cons (by simp)))
      · rename_i hgate
        have hon := ho.cons (.repository (.findAuthUserById stored.authUserId))
          ((.ok (some authUser) : Except AppError (Option AuthUser))) (by simp)
        refine tells_rotate ht hon.settled (hon.mem hstored) hid
          (.inl ⟨authUser, .inr ?_, rfl, ?_, .inl ?_⟩)
        · rw [hid]
          exact List.mem_cons_self
        · exact Decidable.not_not.mp fun h => hgate (.inl h)
        · simpa using fun h => hgate (.inr h)

theorem tells_refresh {token : String} {info : RequestMeta} :
    Tells env (.refresh token info) (AuthService.refresh env token info) (fun _ => Settled)
      (RefreshFails env token) [] := by
  refine tells_bind (tells_repository ⟨settled_nil.countsFirst _, rfl, token, rfl,
    .inr ⟨info, rfl⟩⟩ (fun found _ => ?_)
    fun d => refreshFails_of_ordinary (ordinary_toAppError d) (settled_cons (by simp)))
  cases found with
  | none =>
    refine tells_throw.mpr (refreshFails_of_ordinary ?_ (settled_cons (by simp)))
    simp [Ordinary, AuthService.invalidSessionError, AuthService.reuseError]
  | some stored =>
    dsimp only
    split
    · refine tells_bind (tells_repository ⟨(settled_cons (by simp)).countsFirst _, ?_⟩
        (fun n _ => ?_)
        fun d => refreshFails_of_ordinary (ordinary_toAppError d) (settled_cons (by simp)))
      · exact ⟨_, stored, List.mem_cons_self, rfl⟩
      · exact tells_throw.mpr ⟨settled_cons (by simp), fun _ => ⟨stored, n, rfl⟩⟩
    · exact tells_refreshLive rfl (settled_cons (by simp)) List.mem_cons_self

theorem tells_logout {token : String} :
    Tells env (.logout token) (AuthService.logout env token) (fun _ => Settled) (fun _ => Settled)
      [] := by
  refine tells_bind (tells_repository ⟨settled_nil.countsFirst _, rfl, token, rfl, .inl rfl⟩
    (fun found _ => ?_) fun d => settled_cons (by simp))
  cases found with
  | none => exact tells_pure.mpr (settled_cons (by simp))
  | some stored =>
    exact tells_repository ⟨(settled_cons (by simp)).countsFirst _, trivial⟩
      (fun _ _ => settled_cons (by simp)) fun d => settled_cons (by simp)

theorem tells_authenticate {token : AccessTokenClaims} {ok : AccessTokenClaims → Told → Prop}
    (hs : Settled past)
    (hok : ∀ past', Onward past past' → past'.Heard (.verifyAccessToken token) (.ok token) →
      ok token past') :
    Tells env task (AuthController.authenticate token) ok (fun _ => Settled) past := by
  refine tells_bind (tells_call ⟨hs.countsFirst _, trivial⟩ fun reply hp => ?_)
  refine tells_unpack (fun claims hc => ?_) fun _ _ => settled_cons (by simp)
  obtain rfl := hp claims hc
  subst hc
  exact hok _ ((Onward.refl hs).cons _ _ (by simp)) List.mem_cons_self

theorem tells_logoutAll {token : AccessTokenClaims} (hs : Settled past) :
    Tells env task (AuthController.logoutAll token) (fun _ => Settled) (fun _ => Settled) past :=
  tells_bind (tells_authenticate hs fun _ h _ =>
    tells_repository ⟨h.settled.countsFirst _, trivial⟩ (fun _ _ => settled_cons (by simp))
      fun d => settled_cons (by simp))

/-! ## Passwords -/

theorem tells_resetPassword {email code password : String} {info : RequestMeta}
    (ht : task.PresentsCode) :
    Tells env task (AuthService.resetPassword env email code password info) (fun _ => RedeemEnds)
      (fun _ => Settled) [] := by
  refine tells_bind (tells_repository ⟨settled_nil.countsFirst _, rfl⟩ (fun found _ => ?_)
    fun d => settled_cons (by simp))
  cases found with
  | none => exact tells_throw.mpr (settled_cons (by simp))
  | some authUser =>
    dsimp only
    split
    · exact tells_throw.mpr (settled_cons (by simp))
    · refine tells_bind (tells_consumeCode ht rfl (fun v guess rest _ _ => ?_)
        fun _ _ _ h _ => h)
      refine tells_bind (tells_call ⟨settled_right.countsFirst _, trivial⟩ fun reply _ => ?_)
      refine tells_bind (tells_unpack (fun passwordHash hp => ?_) fun _ _ => settled_cons (by simp))
      subst hp
      refine tells_bind (tells_now (settled_cons (by simp)) fun now => ?_)
      refine tells_bind (tells_repository ⟨(settled_cons (by simp)).countsFirst _, v, guess, rest,
        password, rfl, rfl⟩ (fun user _ => ?_) fun d => settled_cons (by simp))
      refine tells_bind (tells_call ⟨(settled_cons (by simp)).countsFirst _, trivial⟩ fun _ _ => ?_)
      refine tells_pure.mpr ⟨settled_cons (by simp), v, guess, ?_, .inr ⟨_, _, _, user, ?_⟩⟩
      · simp [Told.Heard]
      · exact List.mem_cons_of_mem _ List.mem_cons_self

theorem tells_changePassword {token : AccessTokenClaims} {currentPassword password : String}
    {info : RequestMeta} (ht : task = .changePassword token currentPassword password info)
    (hs : Settled past) :
    Tells env task (AuthController.changePassword env token currentPassword password info)
      (fun _ => Settled) (fun _ => Settled) past := by
  refine tells_bind (tells_authenticate hs fun past' h hauth => ?_)
  refine tells_bind (tells_repository ⟨h.settled.countsFirst _, trivial⟩ (fun found hid => ?_)
    fun d => settled_cons (by simp))
  cases found with
  | none => exact tells_throw.mpr (settled_cons (by simp))
  | some authUser =>
    have hid : authUser.id = token.sub := hid
    refine tells_bind (tells_call ⟨(settled_cons (by simp)).countsFirst _, fun token' _ _ _ ht' => ?_⟩
      fun reply _ => ?_)
    · rw [ht] at ht'
      cases ht'
      exact List.mem_cons_of_mem _ hauth
    refine tells_bind (tells_unpack (fun matched hm => ?_) fun _ _ => settled_cons (by simp))
    subst hm
    cases matched with
    | false => exact tells_throw.mpr (settled_cons (by simp))
    | true =>
      have hsettled : Settled (⟨.verifyPassword authUser.passwordHash currentPassword, .ok true⟩ ::
          ⟨.repository (.findAuthUserById token.sub), .ok (some authUser)⟩ :: past') :=
        settled_cons (by simp)
      have hstart := Onward.refl hsettled
      refine tells_bind (tells_call ⟨hstart.settled.countsFirst _, trivial⟩ fun reply _ => ?_)
      have ho := hstart.cons (.hashPassword password) reply (by simp)
      refine tells_bind (tells_unpack (fun passwordHash _ => ?_) fun _ _ => ho.settled)
      refine tells_bind (tells_now ho.settled fun now => ?_)
      have ho' := ho.cons .now now (by simp)
      refine tells_bind (tells_repository ⟨ho'.settled.countsFirst _, trivial⟩ (fun updated hu => ?_)
        fun d => settled_cons (by simp))
      have hu : updated.id = authUser.id := hu
      have ho'' := ho'.cons (.repository (.updatePassword authUser.id passwordHash now))
        ((.ok updated : Except AppError AuthUser)) (by simp)
      refine tells_bind (tells_call ⟨ho''.settled.countsFirst _, trivial⟩ fun sent _ => ?_)
      have ho''' := ho''.cons
        (.enqueue (.passwordChangedEmail authUser.email) info.requestId none)
        sent (by simp)
      refine tells_bind (tells_startSession ho'''.settled (.inr ⟨token, currentPassword, password,
        info, authUser, ht, hid.symm.trans hu.symm, ho'''.mem ?_,
        Told.Found.onward (.inr ?_) ho''', hu.symm, ho'''.mem List.mem_cons_self⟩)
        (List.mem_cons_of_mem _ (List.mem_cons_of_mem _ List.mem_cons_self))
        (fun _ _ _ ht' => by rw [ht] at ht'; cases ht') (fun _ _ h _ => ?_)
        fun _ _ _ h _ => h.settled)
      · exact List.mem_cons_of_mem _ (List.mem_cons_of_mem _ hauth)
      · rw [hid]
        exact List.mem_cons_of_mem _ List.mem_cons_self
      · exact tells_pure.mpr h.settled

end

/-! ## The requests -/

section

variable {env : Env} {task : Task}

/-- An answer of a method, wrapped for the request. -/
theorem meets_answer {α : Type} {p : Promise α} (answer : α → Answer) {ok : α → Told → Prop}
    {err : AppError → Told → Prop} (h : Tells env task p ok err [])
    (hok : ∀ a past, ok a past → Concluded env (.ok (answer a)) (task, past))
    (herr : ∀ e past, err e past → Concluded env (.error e) (task, past)) :
    Meets (told env) (ExceptT.run (do return answer (← p))) (Concluded env) (task, []) := by
  have hanswer : Tells env task (do return answer (← p))
      (fun a past => ∃ b, a = answer b ∧ ok b past) err [] :=
    tells_bind (h.mono (fun a past ha => tells_pure.mpr ⟨a, rfl, ha⟩) fun _ _ he => he)
  refine Ensured.meets hanswer ?_ ?_
  · rintro _ ⟨_, past⟩ ⟨rfl, a, rfl, ha⟩
    exact hok a past ha
  · rintro e ⟨_, past⟩ ⟨rfl, he⟩
    exact herr e past he

/-- A request that neither presents a refresh token or a code nor logs in ends with nothing to
count. -/
theorem concluded_of_settled {answer : Outcome} {past : Told} (hs : Settled past)
    (hr : ∀ presented info, task ≠ .refresh presented info)
    (hl : ∀ email password info, task ≠ .login email password info) (hc : ¬ task.PresentsCode) :
    Concluded env answer (task, past) where
  counted := hs
  reuse presented info ht := absurd ht (hr presented info)
  accepted email password info _ ht := absurd ht (hl email password info)
  redeemed _ ht := absurd ht hc
  recorded email code info ht := by
    obtain rfl : task = .verifyEmail email code info := ht
    exact absurd trivial hc

/-- One that presents a code. -/
theorem concluded_of_code {answer : Outcome} {past : Told} (hs : Settled past)
    (hc : task.PresentsCode) (ha : ∀ a, answer = .ok a → past.Redeemed)
    (hv : ∀ email code info, task = .verifyEmail email code info → past.Recorded) :
    Concluded env answer (task, past) where
  counted := hs
  reuse presented info ht := by
    obtain rfl : task = .refresh presented info := ht
    exact hc.elim
  accepted email password info _ ht := by
    obtain rfl : task = .login email password info := ht
    exact hc.elim
  redeemed a _ := ha a
  recorded := hv

/-- Every request keeps to the analysis. -/
theorem meets_task (env : Env) (task : Task) :
    Meets (told env) (task.run env) (Concluded env) (task, []) := by
  cases task with
  | register input info =>
    exact meets_answer .registered tells_register
      (fun _ _ h => concluded_of_settled h (by simp) (by simp) id)
      fun _ _ h => concluded_of_settled h (by simp) (by simp) id
  | resendVerification email info =>
    exact meets_answer (fun _ => .done) tells_resendVerification
      (fun _ _ h => concluded_of_settled h (by simp) (by simp) id)
      fun _ _ h => concluded_of_settled h (by simp) (by simp) id
  | verifyEmail email code info =>
    exact meets_answer .verified (tells_verifyEmail trivial)
      (fun _ _ h => concluded_of_code h.1.1 trivial (fun _ _ => h.1.2) fun _ _ _ _ => h.2)
      fun _ _ h => concluded_of_code h.1 trivial (fun _ ha => nomatch ha) fun _ _ _ _ => h.2
  | login email password info =>
    refine meets_answer .loggedIn tells_login (fun result past h => ?_) fun e past h => ?_
    · refine ⟨h.1, (fun _ _ ht => by cases ht), ?_, (fun _ ht => ht.elim),
        fun _ _ _ ht => by cases ht⟩
      rintro _ _ _ _ ⟨⟩ -
      exact h.2
    · exact ⟨h, (fun _ _ ht => by cases ht), (fun _ _ _ _ _ ha => by cases ha),
        (fun _ ht => ht.elim), fun _ _ _ ht => by cases ht⟩
  | refresh token info =>
    refine meets_answer .refreshed tells_refresh (fun tokens past h => ?_) fun e past h => ?_
    · exact ⟨h, (fun _ _ _ ha => by cases ha), (fun _ _ _ _ ht => by cases ht),
        (fun _ ht => ht.elim), fun _ _ _ ht => by cases ht⟩
    · refine ⟨h.1, ?_, (fun _ _ _ _ ht => by cases ht), (fun _ ht => ht.elim),
        fun _ _ _ ht => by cases ht⟩
      rintro _ _ ⟨⟩ ha
      exact h.2 (Except.error.inj ha)
  | logout token =>
    exact meets_answer (fun _ => .done) tells_logout
      (fun _ _ h => concluded_of_settled h (by simp) (by simp) id)
      fun _ _ h => concluded_of_settled h (by simp) (by simp) id
  | logoutAll token =>
    exact meets_answer .revoked (tells_logoutAll settled_nil)
      (fun _ _ h => concluded_of_settled h (by simp) (by simp) id)
      fun _ _ h => concluded_of_settled h (by simp) (by simp) id
  | forgotPassword email info =>
    exact meets_answer (fun _ => .done) tells_forgotPassword
      (fun _ _ h => concluded_of_settled h (by simp) (by simp) id)
      fun _ _ h => concluded_of_settled h (by simp) (by simp) id
  | resetPassword email code password info =>
    exact meets_answer (fun _ => .done) (tells_resetPassword trivial)
      (fun _ _ h => concluded_of_code h.1 trivial (fun _ _ => h.2) fun _ _ _ ht => nomatch ht)
      fun _ _ h => concluded_of_code h trivial (fun _ ha => nomatch ha) fun _ _ _ ht => nomatch ht
  | changePassword token currentPassword password info =>
    exact meets_answer .changed (tells_changePassword rfl settled_nil)
      (fun _ _ h => concluded_of_settled h (by simp) (by simp) id)
      fun _ _ h => concluded_of_settled h (by simp) (by simp) id

end

end PracticalMicroservice.Auth
