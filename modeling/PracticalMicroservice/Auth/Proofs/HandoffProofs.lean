import PracticalMicroservice.Auth.Handoff
import PracticalMicroservice.Auth.Proofs.AccountProofs
import PracticalMicroservice.Foundations.Extensions
import PracticalMicroservice.Users.Proofs.ProfileProofs

/-!
# One profile an account

The columns of the hand-off change in two ways only: an account is created with its profile parked,
and a profile is attached. What is attached is an id the user service gave for that account, which has
at most one profile there, so every attachment names the same.
-/

namespace PracticalMicroservice.Auth

open Foundations (Called Extends KeyedTable Pool Recounted Store Transaction mem_pastOf pastOf
  pastOf_over pool_step_cases runs)
open PrismaAuthRepository

/-! ## The columns of the hand-off -/

/-- The profile attached to one account. -/
def Handoff.attach (id : Nat) (userId : String) (h : Handoff) : Handoff :=
  if h.id = id then { h with userId := some userId, pendingProfile := none } else h

/-- The columns of a new account. -/
def newHandoff (id : Nat) (profile : PendingProfile) : Handoff where
  id
  userId := none
  pendingProfile := some profile

section Columns

variable {db : Database} {α : Type} {now : Nat}

/-- What keeps the accounts keeps the columns. -/
theorem PrismaAuthRepository.Keeps.handoffs {tx : Transaction Row α}
    (h : Keeps Database.users tx) : Keeps Database.handoffs tx :=
  fun db => ⟨congrArg (List.map AuthUser.handoff) (h db).1, (h db).2⟩

theorem handoffs_update {p : AuthUser → Bool} {f : AuthUser → AuthUser}
    (h : ∀ u, (f u).handoff = u.handoff) :
    Database.handoffs (Store.update db (Row.isUser p) (Row.onUser f)) = db.handoffs := by
  unfold Database.handoffs
  rw [users_update_user, List.map_map]
  refine List.map_congr_left fun u _ => ?_
  show (if p u then f u else u).handoff = u.handoff
  split
  · exact h u
  · rfl

theorem keepsHandoffs_updateUser {p : AuthUser → Bool} {f : AuthUser → AuthUser}
    (h : ∀ u, (f u).handoff = u.handoff) : Keeps Database.handoffs (updateUser p f) :=
  keeps_updateUser fun _ => handoffs_update h

/-- No other call touches the columns. -/
theorem keepsHandoffs_transaction (now : Nat) (c : Call)
    (hattach : ∀ id userId, c ≠ .attachProfile id userId)
    (hcreate : ∀ user verification, c ≠ .createAuthUserWithVerification user verification) :
    Keeps Database.handoffs (c.transaction now) := by
  cases c with
  | attachProfile id userId => exact absurd rfl (hattach id userId)
  | createAuthUserWithVerification user verification =>
    exact absurd rfl (hcreate user verification)
  | registerFailedLogin id lockUntil => exact keepsHandoffs_updateUser fun _ => rfl
  | registerSuccessfulLogin id at_ => exact keepsHandoffs_updateUser fun _ => rfl
  | consumeEmailVerification verificationId authUserId at_ =>
    exact keepsAccounts_spendVerification.handoffs.bind fun _ =>
      keepsHandoffs_updateUser fun _ => rfl
  | consumePasswordReset verificationId authUserId passwordHash at_ =>
    exact keepsAccounts_spendVerification.handoffs.bind fun _ =>
      keepsAccounts_updateManyTokens.handoffs.bind fun _ => keepsHandoffs_updateUser fun _ => rfl
  | updatePassword authUserId passwordHash at_ =>
    exact keepsAccounts_updateManyTokens.handoffs.bind fun _ =>
      keepsHandoffs_updateUser fun _ => rfl
  | _ => exact (keepsAccounts_transaction now _ rfl).handoffs

/-- An attachment writes the columns of one account. -/
theorem handoffs_attach (id : Nat) (userId : String) :
    (db.after now (.attachProfile id userId)).handoffs =
      db.handoffs.map (Handoff.attach id userId) := by
  unfold Database.handoffs
  rw [show (db.after now (.attachProfile id userId)).users = _ from users_updateUser _ _,
    List.map_map, List.map_map]
  refine List.map_congr_left fun u _ => ?_
  show AuthUser.handoff (if decide (u.id = id) = true then _ else u) = Handoff.attach id userId _
  unfold Handoff.attach
  have hid : u.handoff.id = u.id := rfl
  rw [hid]
  by_cases hu : u.id = id
  · rw [if_pos (decide_eq_true hu), if_pos hu]
    rfl
  · rw [if_neg (by simpa using hu), if_neg hu]

/-- What a transaction leaves that inserts a row and then keeps what is read. -/
theorem read_createThen {β : Type} {read : Database → β} {row : Nat → Row}
    {rest : Row → Transaction Row α} (hrest : ∀ created, Keeps read (rest created)) :
    read (Store.atomically (Transaction.create row >>= rest) db).2 = read db ∨
      read (Store.atomically (Transaction.create row >>= rest) db).2 =
        read (Store.insert db (row db.nextKey)) := by
  cases hclash : Store.clashes db.rows (row db.nextKey) with
  | some fields =>
    rw [Store.atomically_error (Store.run_bind_error (Store.run_create_of_clash hclash))]
    exact .inl rfl
  | none =>
    have hrun : Store.run (Transaction.create row >>= rest) db =
        Store.run (rest (row db.nextKey)) (Store.insert db (row db.nextKey)) :=
      Store.run_bind_ok (Store.run_create hclash)
    have hkept := (hrest (row db.nextKey) (Store.insert db (row db.nextKey))).1
    cases hlast : Store.run (rest (row db.nextKey)) (Store.insert db (row db.nextKey)) with
    | mk reply db' =>
      rw [hlast] at hrun hkept
      cases reply with
      | error e =>
        rw [Store.atomically_error hrun]
        exact .inl rfl
      | ok created =>
        rw [Store.atomically_ok hrun]
        exact .inr hkept

/-- A new account comes with its profile parked, or there is none. -/
theorem handoffs_create (user : NewAuthUserRecord) (verification : NewVerificationRecord) :
    (db.after now (.createAuthUserWithVerification user verification)).handoffs = db.handoffs ∨
    (db.after now (.createAuthUserWithVerification user verification)).handoffs =
      db.handoffs ++ [newHandoff db.nextKey user.pendingProfile] := by
  let row (id : Nat) : AuthUser :=
    { id, email := user.email, username := user.username, passwordHash := user.passwordHash,
      pendingProfile := some user.pendingProfile, createdAt := now }
  have hinsert : Database.handoffs (Store.insert db (.user (row db.nextKey))) =
      db.handoffs ++ [newHandoff db.nextKey user.pendingProfile] := by
    unfold Database.handoffs
    rw [users_insert]
    simp [row, Row.user?, newHandoff, AuthUser.handoff]
  rw [← hinsert]
  exact read_createThen fun _ => Keeps.handoffs ((keeps_only _ _).bind
    fun _ => keepsAccounts_insertVerification.bind fun _ => keeps_pure _)

/-- The columns after a call. -/
theorem handoffs_after (db : Database) (now : Nat) (c : Call) :
    (∃ id userId, c = .attachProfile id userId ∧
      (db.after now c).handoffs = db.handoffs.map (Handoff.attach id userId)) ∨
    (db.after now c).handoffs = db.handoffs ∨
    ∃ profile, (db.after now c).handoffs = db.handoffs ++ [newHandoff db.nextKey profile] := by
  by_cases hattach : ∃ id userId, c = .attachProfile id userId
  · obtain ⟨id, userId, rfl⟩ := hattach
    exact .inl ⟨id, userId, rfl, handoffs_attach id userId⟩
  · by_cases hcreate : ∃ user verification, c = .createAuthUserWithVerification user verification
    · obtain ⟨user, verification, rfl⟩ := hcreate
      exact .inr ((handoffs_create user verification).imp_right fun h => ⟨_, h⟩)
    · have hkeeps := keepsHandoffs_transaction now c (fun id userId he => hattach ⟨id, userId, he⟩)
        fun user verification he => hcreate ⟨user, verification, he⟩
      exact .inr (.inl (hkeeps.atomically db).1)

end Columns

/-! ## What the auth service is told of the profiles -/

/-- What a reply says of the profile of an account is so. -/
def ShowsProfile (db : Users.Database) : (command : Command) × command.Reply → Prop
  | ⟨.createProfile input, .ok userId⟩ => db.Has input.authUserId userId
  | ⟨.findByAuthUserId id, .ok (some userId)⟩ => db.Has id userId
  | _ => True

theorem ShowsProfile.mono {db db' : Users.Database} {told : (command : Command) × command.Reply}
    (h : ShowsProfile db told)
    (hlast : ∀ authUserId id, db.Has authUserId id → db'.Has authUserId id) :
    ShowsProfile db' told := by
  unfold ShowsProfile at h ⊢
  split
  · exact hlast _ _ h
  · exact hlast _ _ h
  · trivial

/-- What shows that an account has a profile says so. -/
theorem has_of_profiled {db : Users.Database} {past : Told} {id : Nat} {userId : String}
    (h : past.Profiled id userId) (hshows : ∀ told ∈ past, ShowsProfile db told) :
    db.Has id userId := by
  rcases h with ⟨profile, rfl, hm⟩ | hm
  · exact hshows _ hm
  · exact hshows _ hm

theorem createUserSchema_authUserId {isEmail : String → Bool} {body input : Users.CreateUserInput}
    (h : Users.createUserSchema isEmail body = some input) :
    input.authUserId = body.authUserId := by
  simp only [Users.createUserSchema, Option.bind_eq_bind, Option.bind_eq_some_iff, Option.pure_def,
    Option.some.injEq] at h
  obtain ⟨name, -, email, -, address, -, phone, -, rfl⟩ := h
  rfl

/-- Without a value for a 404, only a success resolves a request. -/
theorem request_none_ok {α : Type} {reply : Users.Response α} {a : α}
    (h : HttpUserClient.request none reply = .ok a) : reply = .ok a := by
  cases reply with
  | ok b => exact congrArg Except.ok (Except.ok.inj h)
  | error failure => cases h

/-- With one, a success or a 404 does. -/
theorem request_some_ok {α : Type} {reply : Users.Response α} {missing a : α}
    (h : HttpUserClient.request (some missing) reply = .ok a) : reply = .ok a ∨ a = missing := by
  cases reply with
  | ok b => exact .inl (congrArg Except.ok (Except.ok.inj h))
  | error failure =>
    unfold HttpUserClient.request at h
    dsimp only at h
    split at h
    · exact .inr (Except.ok.inj h).symm
    · cases h

section Client

variable {isEmail : String → Bool} {isProduction : Bool} {env : Env} {fate : HandoffFate}
  {w w' : Neighbours} {thread : Nat} {task : Users.Task} {outcome : Users.Outcome}
  {userId : String}

theorem response_ok (h : Neighbours.response isProduction outcome = some (.ok userId)) :
    ∃ user, outcome = .ok (.user user) ∧ user.id = userId := by
  unfold Neighbours.response at h
  split at h
  · rename_i answer
    cases answer with
    | user user => exact ⟨user, rfl, Except.ok.inj (Option.some.inj h)⟩
    | removed => cases h
  · cases Option.some.inj h

theorem outcomeOf_some (h : w.outcomeOf thread task = some outcome) :
    w.users.task thread = some task ∧ w.users.result thread = some outcome := by
  unfold Neighbours.outcomeOf at h
  split at h
  · rename_i htask
    exact ⟨htask, h⟩
  · cases h

/-- The response of a request that has finished, if it is a profile. -/
theorem user_of_response
    (h : (w.outcomeOf thread task).bind (Neighbours.response isProduction) = some (.ok userId)) :
    ∃ user, w.users.task thread = some task ∧
      w.users.result thread = some (.ok (.user user)) ∧ user.id = userId := by
  obtain ⟨outcome, houtcome, hresponse⟩ := Option.bind_eq_some_iff.mp h
  obtain ⟨user, rfl, hid⟩ := response_ok hresponse
  obtain ⟨htask, hresult⟩ := outcomeOf_some houtcome
  exact ⟨user, htask, hresult, hid⟩

theorem has_of_createProfile (ht : Users.Truthful w.users) {input : NewProfile}
    (h : w.createProfile isEmail isProduction fate input = some (.ok userId)) :
    w.users.world.db.Has input.authUserId userId := by
  unfold Neighbours.createProfile at h
  split at h
  · cases h
  · cases Option.some.inj h
  · split at h
    · cases Option.some.inj h
    · rename_i validated hvalidated
      obtain ⟨reply, hreply, hok⟩ := Option.map_eq_some_iff.mp h
      rw [request_none_ok hok] at hreply
      obtain ⟨user, htask, hresult, rfl⟩ := user_of_response hreply
      have hcreated := ht.created htask hresult
      rwa [createUserSchema_authUserId hvalidated] at hcreated

theorem has_of_findByAuthUserId (ht : Users.Truthful w.users) {id : Nat}
    (h : w.findByAuthUserId isProduction fate id = some (.ok (some userId))) :
    w.users.world.db.Has id userId := by
  unfold Neighbours.findByAuthUserId at h
  split at h
  · cases h
  · cases Option.some.inj h
  · obtain ⟨reply, hreply, hok⟩ := Option.map_eq_some_iff.mp h
    rcases request_some_ok hok with hok | hmissing
    · cases reply with
      | error failure => cases hok
      | ok found =>
        obtain rfl := Option.some.inj (Except.ok.inj hok)
        obtain ⟨user, htask, hresult, rfl⟩ := user_of_response hreply
        exact ht.found htask hresult
    · cases hmissing

/-- A command is performed in the auth service, with the fate the user service gives it. -/
theorem perform_cases {command : Command} {reply : command.Reply}
    (h : w.perform isEmail isProduction env fate command = some (reply, w')) :
    ∃ fate' auth, w.fateOf isEmail isProduction fate command = some fate' ∧
      w.auth.perform env fate' command = some (reply, auth) ∧ w' = { w with auth } := by
  obtain ⟨fate', hfate, hperform⟩ := Option.bind_eq_some_iff.mp h
  obtain ⟨⟨reply', auth⟩, hauth, he⟩ := Option.map_eq_some_iff.mp hperform
  obtain ⟨rfl, rfl⟩ := Prod.mk.inj he
  exact ⟨fate', auth, hfate, hauth, rfl⟩

/-- What a command is told of the profile of an account is so. -/
theorem showsProfile_perform (ht : Users.Truthful w.users) {command : Command}
    {reply : command.Reply}
    (h : w.perform isEmail isProduction env fate command = some (reply, w')) :
    ShowsProfile w.users.world.db ⟨command, reply⟩ := by
  obtain ⟨fate', auth, hfate, hauth, -⟩ := perform_cases h
  cases command with
  | createProfile input =>
    obtain ⟨reply', hreply, rfl⟩ := Option.map_eq_some_iff.mp hfate
    cases reply' with
    | error e =>
      obtain ⟨rfl, -⟩ := Prod.mk.inj (Option.some.inj hauth)
      trivial
    | ok userId =>
      obtain ⟨rfl, -⟩ := Prod.mk.inj (Option.some.inj hauth)
      exact has_of_createProfile ht hreply
  | findByAuthUserId id =>
    obtain ⟨reply', hreply, rfl⟩ := Option.map_eq_some_iff.mp hfate
    obtain ⟨rfl, -⟩ := Prod.mk.inj (Option.some.inj hauth)
    cases reply' with
    | error e => trivial
    | ok found =>
      cases found with
      | none => trivial
      | some userId => exact has_of_findByAuthUserId ht hreply
  | _ => trivial

/-- Beside the user service, the auth service does what it may do on its own. -/
theorem extends_auth (isEmail : String → Bool) (isProduction : Bool) (env : Env) :
    Extends (handoffMachine isEmail isProduction env) (machine env) Neighbours.auth where
  perform _ fate command w reply w' h := by
    obtain ⟨fate', auth, -, hauth, rfl⟩ := perform_cases h
    exact ⟨fate', hauth⟩
  move m w w' h := by
    cases m with
    | here move =>
      obtain ⟨auth, hauth, rfl⟩ := Option.map_eq_some_iff.mp h
      exact .inr ⟨move, hauth⟩
    | users label =>
      obtain ⟨users, -, rfl⟩ := Option.map_eq_some_iff.mp h
      exact .inl rfl

end Client

/-! ## The rows of the accounts -/

/-- The columns of an account are in order: the profile they name is its own, and its data is parked
while they name none. -/
structure Handoff.InOrder (db : Users.Database) (h : Handoff) : Prop where
  attached : ∀ userId, h.userId = some userId → db.Has h.id userId
  parked : h.pendingProfile.isSome = h.userId.isNone

/-- Every account goes on to one that has kept what it must. -/
def Carries (hs hs' : List Handoff) : Prop := ∀ h ∈ hs, ∃ h' ∈ hs', h'.id = h.id ∧ h.Kept h'

section Rows

variable {users users' : Users.Database} {db : Database} {h h' h'' : Handoff} {id : Nat}
  {userId userId' : String}

/-- An account has one profile. -/
theorem has_unique (h : users.Has id userId) (h' : users.Has id userId') : userId = userId' := by
  obtain ⟨user, huser, hid, rfl⟩ := h
  obtain ⟨user', huser', hid', rfl⟩ := h'
  have hsame : user = user' :=
    List.inj_on_of_nodup_map users.unique.authUserIds huser huser' (hid.trans hid'.symm)
  rw [hsame]

theorem Handoff.InOrder.mono (h : h'.InOrder users)
    (hlast : ∀ authUserId id, users.Has authUserId id → users'.Has authUserId id) :
    h'.InOrder users' where
  attached userId hu := hlast _ _ (h.attached userId hu)
  parked := h.parked

theorem Handoff.InOrder.kept_self (hin : h.InOrder users) : h.Kept h where
  userId hsome := by
    refine ⟨rfl, ?_⟩
    have hparked := hin.parked
    rw [Option.isNone_eq_false_iff.mpr hsome] at hparked
    exact Option.isSome_eq_false_iff.mp hparked |> Option.isNone_iff_eq_none.mp
  pendingProfile _ := rfl

theorem Handoff.Kept.trans (hk : h.Kept h') (hk' : h'.Kept h'') : h.Kept h'' where
  userId hsome := by
    have hsome' : h'.userId.isSome := by rwa [(hk.userId hsome).1]
    exact ⟨(hk'.userId hsome').1.trans (hk.userId hsome).1, (hk'.userId hsome').2⟩
  pendingProfile hnone := by
    have hnone' : h'.userId = none := by
      by_contra hsome
      have hsame := (hk'.userId (Option.isSome_iff_ne_none.mpr hsome)).1
      rw [hnone] at hsame
      exact hsome hsame.symm
    rw [hk'.pendingProfile hnone, hk.pendingProfile hnone']

theorem carries_refl {hs : List Handoff} (hin : ∀ h ∈ hs, h.InOrder users) : Carries hs hs :=
  fun h hh => ⟨h, hh, rfl, (hin h hh).kept_self⟩

theorem Carries.trans {hs hs' hs'' : List Handoff} (hc : Carries hs hs') (hc' : Carries hs' hs'') :
    Carries hs hs'' := by
  intro h hh
  obtain ⟨h', hh', hid, hkept⟩ := hc h hh
  obtain ⟨h'', hh'', hid', hkept'⟩ := hc' h' hh'
  exact ⟨h'', hh'', hid'.trans hid, hkept.trans hkept'⟩

theorem attach_id (h : Handoff) : (h.attach id userId).id = h.id := by
  unfold Handoff.attach
  split <;> rfl

/-- The profile of an account attached to it: the one it may have had is the same. -/
theorem attach_inOrder (hin : h.InOrder users) (hhas : users.Has id userId) :
    (h.attach id userId).InOrder users ∧ h.Kept (h.attach id userId) := by
  unfold Handoff.attach
  split
  · rename_i hid
    refine ⟨⟨fun userId' hu => ?_, rfl⟩, ⟨fun hsome => ⟨?_, rfl⟩, fun hnone => nomatch hnone⟩⟩
    · obtain rfl := Option.some.inj hu
      exact hid ▸ hhas
    · obtain ⟨userId', hu⟩ := Option.isSome_iff_exists.mp hsome
      have hown : users.Has id userId' := hid ▸ hin.attached userId' hu
      rw [hu, has_unique hown hhas]
  · exact ⟨hin, hin.kept_self⟩

theorem newHandoff_inOrder (profile : PendingProfile) : (newHandoff id profile).InOrder users where
  attached _ hu := nomatch hu
  parked := rfl

/-- A call of the repository, if what it attaches to an account is its profile. -/
theorem handoffs_call (hin : ∀ h ∈ db.handoffs, h.InOrder users) (now : Nat) {c : Call}
    (hattach : ∀ id userId, c = .attachProfile id userId → users.Has id userId) :
    (∀ h ∈ (db.after now c).handoffs, h.InOrder users) ∧
      Carries db.handoffs (db.after now c).handoffs := by
  rcases handoffs_after db now c with ⟨id, userId, rfl, hrows⟩ | hrows | ⟨profile, hrows⟩
  · rw [hrows]
    have hhas := hattach id userId rfl
    refine ⟨fun h' hh' => ?_, fun h hh => ?_⟩
    · obtain ⟨h, hh, rfl⟩ := List.mem_map.mp hh'
      exact (attach_inOrder (hin h hh) hhas).1
    · exact ⟨h.attach id userId, List.mem_map_of_mem hh, attach_id h,
        (attach_inOrder (hin h hh) hhas).2⟩
  · rw [hrows]
    exact ⟨hin, carries_refl hin⟩
  · rw [hrows]
    refine ⟨fun h hh => ?_, fun h hh => ⟨h, List.mem_append_left _ hh, rfl, (hin h hh).kept_self⟩⟩
    rcases List.mem_append.mp hh with hh | hh
    · exact hin h hh
    · obtain rfl := List.mem_singleton.mp hh
      exact newHandoff_inOrder profile

end Rows

/-! ## Every run -/

/-- What the two services have been through keeps the hand-off in order. -/
structure Handing (env : Env) (s : HandoffSystem) : Prop where
  recounted : Recounted (Justified env) Plausible (Concluded env) (s.over Neighbours.auth)
  users : Users.Truthful s.world.users
  told : ∀ e ∈ s.trace, ShowsProfile s.world.users.world.db e.told
  keyed : KeyedTable AuthUser.id s.world.auth.db.nextKey s.world.auth.db.users
  rows : ∀ h ∈ s.world.auth.db.handoffs, h.InOrder s.world.users.world.db

section Runs

variable {isEmail : String → Bool} {isProduction : Bool} {env : Env} {s s' : HandoffSystem}

theorem handing_start {w : Neighbours} (hw : w.AtRest) : Handing env (Pool.start w) where
  recounted := by
    rw [Foundations.over_start]
    exact Foundations.recounted_start
  users := by
    show Users.Truthful w.users
    rw [hw.idle]
    exact Users.truthful_start _
  told _ he := nomatch he
  keyed := hw.keyed
  rows h hh := ⟨hw.attached h hh, hw.parked h hh⟩

/-- A call of a request keeps the hand-off in order. -/
theorem Handing.call (h : Handing env s) {i : Nat} {fate : HandoffFate} {task : Task}
    {command : Command} {next : command.Reply → Code} {reply : command.Reply}
    (hrecounted : Recounted (Justified env) Plausible (Concluded env) (s'.over Neighbours.auth))
    (hc : Called (handoffMachine isEmail isProduction env) s s' i fate task command next reply) :
    Handing env s' ∧ Carries s.world.auth.db.handoffs s'.world.auth.db.handoffs := by
  have hperform : s.world.perform isEmail isProduction env fate command =
    some (reply, s'.world) := hc.perform
  obtain ⟨fate', auth, hfate, hauth, hworld⟩ := perform_cases hperform
  have husers : s'.world.users = s.world.users := by rw [hworld]
  have hdb : s'.world.auth = auth := by rw [hworld]
  have htold : ∀ e ∈ s'.trace, ShowsProfile s'.world.users.world.db e.told := by
    intro e he
    rw [husers]
    rw [hc.trace] at he
    rcases List.mem_cons.mp he with rfl | he
    · exact showsProfile_perform h.users hperform
    · exact h.told e he
  have hkeyed : KeyedTable AuthUser.id s'.world.auth.db.nextKey s'.world.auth.db.users := by
    obtain ⟨_, hc'⟩ := hc.over (extends_auth isEmail isProduction env)
    exact accounts_keyed h.keyed hc'
  have hattach : ∀ id userId, command = .repository (.attachProfile id userId) →
      s.world.users.world.db.Has id userId := by
    rintro id userId rfl
    have hallowed := (h.recounted.allowed (i := i) hc.thread).2
    refine has_of_profiled hallowed fun told hm => ?_
    have hpast : pastOf i (s.over Neighbours.auth).trace = pastOf i s.trace :=
      pastOf_over i s.trace
    rw [hpast] at hm
    obtain ⟨e, he, -, rfl⟩ := mem_pastOf hm
    exact h.told e he
  have hrows : (∀ h ∈ auth.db.handoffs, h.InOrder s.world.users.world.db) ∧
      Carries s.world.auth.db.handoffs auth.db.handoffs := by
    rcases perform_db hauth with hsame | ⟨c, rfl, hafter⟩
    · rw [hsame]
      exact ⟨h.rows, carries_refl h.rows⟩
    · rw [hafter]
      exact handoffs_call h.rows _ fun id userId he => hattach id userId (congrArg _ he)
  rw [hdb]
  refine ⟨⟨hrecounted, husers ▸ h.users, htold, hkeyed, ?_⟩, hrows.2⟩
  rw [hdb, husers]
  exact hrows.1

/-- So does a move of the clock or of an operator. -/
theorem handoffs_move {move : Move} {w w' : World} (h : World.move move w = some w') :
    w'.db.handoffs = w.db.handoffs ∧ w'.db.nextKey = w.db.nextKey := by
  cases move with
  | tick ms =>
    obtain rfl := Option.some.inj h
    exact ⟨rfl, rfl⟩
  | setStatus id status =>
    obtain rfl := Option.some.inj h
    exact ⟨handoffs_update fun _ => rfl, rfl⟩

theorem keyed_of_handoffs {db db' : Database}
    (h : KeyedTable AuthUser.id db.nextKey db.users) (hrows : db'.handoffs = db.handoffs)
    (hkey : db'.nextKey = db.nextKey) : KeyedTable AuthUser.id db'.nextKey db'.users := by
  have hids : db'.users.map AuthUser.id = db.users.map AuthUser.id := by
    have hcolumn := congrArg (List.map Handoff.id) hrows
    unfold Database.handoffs at hcolumn
    rwa [List.map_map, List.map_map] at hcolumn
  refine ⟨fun u hu => ?_, ?_⟩
  · have hmem := List.mem_map_of_mem (f := AuthUser.id) hu
    rw [hids] at hmem
    obtain ⟨u', hu', hid⟩ := List.mem_map.mp hmem
    rw [hkey, ← hid]
    exact h.below u' hu'
  · rw [hids]
    exact h.distinct

/-- One step of either service keeps the hand-off in order. -/
theorem Handing.step (h : Handing env s) {l : HandoffLabel} (hl : l.Keeps)
    (hs : HandoffSystem.step isEmail isProduction env s l = some s') :
    Handing env s' ∧ Carries s.world.auth.db.handoffs s'.world.auth.db.handoffs := by
  have hrecounted : Recounted (Justified env) Plausible (Concluded env)
      (s'.over Neighbours.auth) :=
    Foundations.invariant_over (extends_auth isEmail isProduction env)
      (fun _ _ _ ht hr => recounted_step hr ht) hs h.recounted
  rcases pool_step_cases hs with ⟨task, rfl, rfl⟩ | ⟨i, fate, task, command, next, reply, rfl, hc⟩ |
    ⟨move, w', rfl, hmove, rfl⟩
  · exact ⟨⟨hrecounted, h.users, h.told, h.keyed, h.rows⟩, carries_refl h.rows⟩
  · exact h.call hrecounted hc
  · cases move with
    | here move =>
      obtain ⟨auth, hauth, rfl⟩ := Option.map_eq_some_iff.mp hmove
      obtain ⟨hrows, hkey⟩ := handoffs_move hauth
      refine ⟨⟨hrecounted, h.users, h.told, keyed_of_handoffs h.keyed hrows hkey, ?_⟩, ?_⟩
      · show ∀ h ∈ auth.db.handoffs, _
        rw [hrows]
        exact h.rows
      · show Carries _ auth.db.handoffs
        rw [hrows]
        exact carries_refl h.rows
    | users label =>
      obtain ⟨users, husers, rfl⟩ := Option.map_eq_some_iff.mp hmove
      have hkept : ∀ id, label ≠ .spawn (.remove id) := by
        rintro id rfl
        exact hl
      obtain ⟨htruthful, hlast⟩ := h.users.step hkept husers
      exact ⟨⟨hrecounted, htruthful, fun e he => (h.told e he).mono hlast, h.keyed,
        fun row hrow => (h.rows row hrow).mono hlast⟩, carries_refl h.rows⟩

/-- Every step of a run on which no profile is removed keeps the hand-off in order. -/
theorem Handing.run (h : Handing env s) {ls : List HandoffLabel} (hl : ∀ l ∈ ls, l.Keeps)
    (hrun : runs (HandoffSystem.step isEmail isProduction env) s ls = some s') :
    Handing env s' ∧ Carries s.world.auth.db.handoffs s'.world.auth.db.handoffs := by
  induction ls generalizing s with
  | nil =>
    cases hrun
    exact ⟨h, carries_refl h.rows⟩
  | cons l ls ih =>
    obtain ⟨mid, hmid, hrest⟩ := Foundations.runs_cons hrun
    obtain ⟨hmids, hcarries⟩ := h.step (hl l List.mem_cons_self) hmid
    obtain ⟨hlast, hcarries'⟩ := ih hmids (fun l' hl' => hl l' (List.mem_cons_of_mem _ hl')) hrest
    exact ⟨hlast, hcarries.trans hcarries'⟩

theorem profilesOf_le_one (w : Neighbours) (authUserId : Nat) :
    (w.profilesOf authUserId).length ≤ 1 := by
  by_contra hmany
  have hnodup : ((w.profilesOf authUserId).map (·.authUserId)).Nodup :=
    w.users.world.db.unique.authUserIds.sublist (List.filter_sublist.map _)
  have hsame : (w.profilesOf authUserId).map (·.authUserId) =
      List.replicate (w.profilesOf authUserId).length authUserId := by
    refine List.map_eq_replicate_iff.mpr fun user huser => ?_
    simpa using (List.mem_filter.mp huser).2
  rw [hsame, List.nodup_replicate] at hnodup
  omega

theorem Handing.handedOff (h : Handing env s) : HandedOff s.world where
  single := profilesOf_le_one s.world
  attached row hrow userId hu := by
    obtain ⟨user, huser, hid, hname⟩ := (h.rows row hrow).attached userId hu
    have hmem : user ∈ s.world.profilesOf row.id :=
      List.mem_filter.mpr ⟨huser, decide_eq_true hid⟩
    have hle := profilesOf_le_one s.world row.id
    cases hprofiles : s.world.profilesOf row.id with
    | nil =>
      rw [hprofiles] at hmem
      cases hmem
    | cons first rest =>
      rw [hprofiles] at hle hmem
      rw [List.length_cons] at hle
      obtain rfl : rest = [] := List.length_eq_zero_iff.mp (by omega)
      obtain rfl := List.mem_singleton.mp hmem
      exact ⟨user, rfl, hname⟩
  parked row hrow := (h.rows row hrow).parked

/-- Accounts are told apart by their ids. -/
theorem handoff_unique {db : Database} (hk : KeyedTable AuthUser.id db.nextKey db.users)
    {h h' : Handoff} (hh : h ∈ db.handoffs) (hh' : h' ∈ db.handoffs) (he : h.id = h'.id) :
    h = h' := by
  obtain ⟨u, hu, rfl⟩ := List.mem_map.mp hh
  obtain ⟨u', hu', rfl⟩ := List.mem_map.mp hh'
  rw [hk.eq_of_key hu hu' he]

end Runs

/-- In every state of every run on which no profile is removed, an account has one profile at most,
its `userId` names it once it is set, and its data is parked until then; and whatever happens after,
the `userId` stays, and what is parked stays until there is one. -/
theorem handoff_converges (isEmail : String → Bool) (isProduction : Bool) (env : Env)
    {start : Neighbours} (hstart : start.AtRest) {ls ms : List HandoffLabel} {s s' : HandoffSystem}
    (hls : ∀ l ∈ ls, l.Keeps) (hms : ∀ l ∈ ms, l.Keeps)
    (hrun : runs (HandoffSystem.step isEmail isProduction env) (Pool.start start) ls = some s)
    (hrest : runs (HandoffSystem.step isEmail isProduction env) s ms = some s') :
    HandedOff s.world ∧ KeepsHandoffs s.world s'.world := by
  have hbegin : Handing env (Pool.start start) := handing_start hstart
  have hreached := (hbegin.run hls hrun).1
  obtain ⟨hlater, hcarries⟩ := hreached.run hms hrest
  refine ⟨hreached.handedOff, fun h hh => ?_, fun h hh h' hh' hid => ?_⟩
  · obtain ⟨h', hh', hid, -⟩ := hcarries h hh
    exact ⟨h', hh', hid⟩
  · obtain ⟨h'', hh'', hid'', hkept⟩ := hcarries h hh
    obtain rfl := handoff_unique hlater.keyed hh'' hh' (hid''.trans hid.symm)
    exact hkept

/-- Two services at rest, with one account whose profile is parked. -/
def adasNeighbours : Neighbours where
  auth := { adasWorld with
    db := { rows := [.user { ada with pendingProfile := some ⟨"Ada", "1 Main Street", "5550100"⟩ }],
            nextKey := 1 } }
  users := Pool.start { db := Users.Database.empty, uuids := sampleDraw, minted := 0 }

theorem adasNeighbours_atRest : adasNeighbours.AtRest where
  idle := rfl
  keyed := ⟨by decide, by decide⟩
  attached h hh userId hu := by
    obtain rfl := List.mem_singleton.mp hh
    cases hu
  parked h hh := by
    obtain rfl := List.mem_singleton.mp hh
    rfl

/-- What the user service makes of Ada's profile. -/
def adasProfile : Users.CreateUserInput where
  authUserId := 0
  name := "Ada"
  email := "ada@example.com"
  address := "1 Main Street"
  phone := "5550100"

/-- Ada logs in as far as her profile is asked for. -/
def adaLogsIn (thread : Nat) : List HandoffLabel :=
  .spawn (.login "ada@example.com" "right" {}) ::
    List.replicate 6 (.call thread (.here .served))

/-- The user service serves a request. -/
def usersServe (thread steps : Nat) (task : Users.Task) : List HandoffLabel :=
  .move (.users (.spawn task)) :: List.replicate steps (.move (.users (.call thread .served)))

/-- Ada logs in twice at once. The first reply is lost, and the second login meets a conflict. -/
def replyLost : List HandoffLabel :=
  adaLogsIn 0 ++ adaLogsIn 1 ++ usersServe 0 3 (.create adasProfile) ++
    [.call 0 .unreachable] ++ usersServe 1 1 (.create adasProfile) ++ [.call 1 (.answered 1)] ++
    usersServe 2 1 (.getByAuthUserId 0) ++ [.call 1 (.answered 2)]

theorem handoff_converges_replyLost :
    ∃ s s', runs (HandoffSystem.step (fun _ => true) true sampleEnv) (Pool.start adasNeighbours)
        replyLost = some s ∧
      runs (HandoffSystem.step (fun _ => true) true sampleEnv) s [.call 1 (.here .served)] =
        some s' ∧
      (s.world.profilesOf 0).length = 1 ∧
      s'.world.auth.db.handoffs = [⟨0, some (sampleDraw 2), none⟩] ∧
      HandedOff s.world ∧ KeepsHandoffs s.world s'.world := by
  have hrun : (runs (HandoffSystem.step (fun _ => true) true sampleEnv)
      (Pool.start adasNeighbours) replyLost).any (fun s => (s.world.profilesOf 0).length = 1 ∧
        (runs (HandoffSystem.step (fun _ => true) true sampleEnv) s
          [.call 1 (.here .served)]).any (fun s' =>
            s'.world.auth.db.handoffs = [⟨0, some (sampleDraw 2), none⟩]) = true) = true := by
    decide +kernel
  obtain ⟨s, hs, hall⟩ := (Option.any_eq_true _ _).mp hrun
  obtain ⟨hlength, hlater⟩ := of_decide_eq_true hall
  obtain ⟨s', hs', hrows⟩ := (Option.any_eq_true _ _).mp hlater
  have hkept : ∀ l ∈ replyLost, l.Keeps := by decide +kernel
  have hkept' : ∀ l ∈ [.call 1 (.here .served)], HandoffLabel.Keeps l := by decide
  obtain ⟨hdone, hkeeps⟩ :=
    handoff_converges (fun _ => true) true sampleEnv adasNeighbours_atRest hkept hkept' hs hs'
  exact ⟨s, s', hs, hs', hlength, of_decide_eq_true hrows, hdone, hkeeps⟩

end PracticalMicroservice.Auth
