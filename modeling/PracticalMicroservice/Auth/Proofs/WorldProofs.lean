import PracticalMicroservice.Auth.Guesses
import PracticalMicroservice.Auth.Proofs.HistoryProofs
import PracticalMicroservice.Auth.Proofs.TableProofs

/-!
# What a command does to the world

A call of the repository has the effect of its transaction or none, and what it answers is about the
rows it was asked for; no other command touches the tables.
-/

namespace PracticalMicroservice.Auth

open Foundations (Called DatabaseError Pool Recounted Store)
open PrismaAuthRepository

variable {env : Env} {fate : Fate} {w w' : World}

/-- The tables after a call of the repository at a time. -/
def Database.after (db : Database) (now : Nat) (c : Call) : Database :=
  (Store.atomically (c.transaction now) db).2

/-- A call of the repository: its effect and its answer, or an error with the effect or without. -/
theorem perform_repository {c : Call} {reply : (Command.repository c).Reply}
    (h : World.perform env fate (.repository c) w = some (reply, w')) :
    (w' = { w with db := w.db.after w.now c } ∧
      (reply = (w.serve c).1 ∨ ∃ e, reply = .error (toAppError e))) ∨
    w' = w ∧ ∃ e, reply = .error (toAppError e) := by
  cases fate with
  | served =>
    obtain ⟨rfl, rfl⟩ := Prod.mk.inj (Option.some.inj h)
    exact .inl ⟨rfl, .inl rfl⟩
  | refused e =>
    obtain ⟨rfl, rfl⟩ := Prod.mk.inj (Option.some.inj h)
    exact .inr ⟨rfl, e, rfl⟩
  | unanswered e =>
    obtain ⟨rfl, rfl⟩ := Prod.mk.inj (Option.some.inj h)
    exact .inl ⟨rfl, .inr ⟨e, rfl⟩⟩
  | remote reply => cases h

theorem db_remote {reply : Except AppError (Option String)} {r : Except AppError String}
    (h : w.remote reply = some (r, w')) : w' = w := by
  unfold World.remote at h
  split at h <;> cases h <;> rfl

/-- No other command touches the tables or the clock, and randomness is never given back. -/
theorem perform_other {command : Command} {reply : command.Reply}
    (hc : ∀ c, command ≠ .repository c) (h : World.perform env fate command w = some (reply, w')) :
    w'.db = w.db ∧ w'.now = w.now ∧ w.draws ≤ w'.draws := by
  have hsame : ∀ {w' : World}, w' = w → w'.db = w.db ∧ w'.now = w.now ∧ w.draws ≤ w'.draws := by
    rintro w' rfl
    exact ⟨rfl, rfl, Nat.le_refl _⟩
  cases command with
  | repository c => exact absurd rfl (hc c)
  | randomUUID => cases h; exact ⟨rfl, rfl, Nat.le_succ _⟩
  | randomToken => cases h; exact ⟨rfl, rfl, Nat.le_succ _⟩
  | generateCode => cases h; exact ⟨rfl, rfl, Nat.le_succ _⟩
  | hashPassword plaintext =>
    cases fate with
    | served => cases h; exact ⟨rfl, rfl, Nat.le_succ _⟩
    | _ => cases h; exact hsame rfl
  | signAccessToken claims => cases fate <;> cases h <;> exact ⟨rfl, rfl, Nat.le_refl _⟩
  | now => cases h; exact hsame rfl
  | safeEqual v codeHash => cases h; exact hsame rfl
  | verifyPassword digest plaintext => cases fate <;> cases h <;> exact hsame rfl
  | verifyAccessToken token =>
    unfold World.perform at h
    dsimp only at h
    split at h
    · cases h
      exact hsame rfl
    · cases h
      exact hsame rfl
  | enqueue message requestId key =>
    cases fate with
    | remote reply => exact hsame (db_remote h)
    | _ => cases h
  | createProfile profile =>
    cases fate with
    | remote reply => exact hsame (db_remote h)
    | _ => cases h
  | findByAuthUserId id =>
    cases fate with
    | remote reply => cases h; exact hsame rfl
    | _ => cases h

/-- The tables after a command: as a call of the repository leaves them, or as they were. -/
theorem perform_db {command : Command} {reply : command.Reply}
    (h : World.perform env fate command w = some (reply, w')) :
    w'.db = w.db ∨ ∃ c, command = .repository c ∧ w'.db = w.db.after w.now c := by
  by_cases hc : ∃ c, command = .repository c
  · obtain ⟨c, rfl⟩ := hc
    rcases perform_repository h with ⟨rfl, -⟩ | ⟨rfl, -⟩
    · exact .inr ⟨c, rfl, rfl⟩
    · exact .inl rfl
  · exact .inl (perform_other (fun c he => hc ⟨c, he⟩) h).1

/-- A call that is not refused takes effect. -/
theorem db_of_effect {c : Call} {reply : (Command.repository c).Reply}
    (hfate : fate.isRefused = false)
    (h : World.perform env fate (.repository c) w = some (reply, w')) :
    w'.db = w.db.after w.now c := by
  cases fate with
  | refused e => cases hfate
  | remote r => cases h
  | served =>
    obtain ⟨-, hw⟩ := Prod.mk.inj (Option.some.inj h)
    rw [← hw]
    rfl
  | unanswered e =>
    obtain ⟨-, hw⟩ := Prod.mk.inj (Option.some.inj h)
    rw [← hw]
    rfl

/-- A refused command leaves the tables as they are. -/
theorem db_of_refused {command : Command} {reply : command.Reply}
    (hrefused : fate.isRefused = true)
    (h : World.perform env fate command w = some (reply, w')) : w'.db = w.db := by
  cases fate with
  | refused e =>
    by_cases hc : ∃ c, command = .repository c
    · obtain ⟨c, rfl⟩ := hc
      obtain ⟨-, hw⟩ := Prod.mk.inj (Option.some.inj h)
      rw [← hw]
    · exact (perform_other (fun c he => hc ⟨c, he⟩) h).1
  | served => cases hrefused
  | unanswered e => cases hrefused
  | remote r => cases hrefused

theorem perform_now {command : Command} {reply : command.Reply}
    (h : World.perform env fate command w = some (reply, w')) : w'.now = w.now := by
  by_cases hc : ∃ c, command = .repository c
  · obtain ⟨c, rfl⟩ := hc
    rcases perform_repository h with ⟨rfl, -⟩ | ⟨rfl, -⟩ <;> rfl
  · exact (perform_other (fun c he => hc ⟨c, he⟩) h).2.1

theorem perform_draws {command : Command} {reply : command.Reply}
    (h : World.perform env fate command w = some (reply, w')) : w.draws ≤ w'.draws := by
  by_cases hc : ∃ c, command = .repository c
  · obtain ⟨c, rfl⟩ := hc
    rcases perform_repository h with ⟨rfl, -⟩ | ⟨rfl, -⟩ <;> exact Nat.le_refl _
  · exact (perform_other (fun c he => hc ⟨c, he⟩) h).2.2

/-- What a call answers when it is served. -/
theorem serve_fst (c : Call) :
    (w.serve c).1 = (Store.run (c.transaction w.now) w.db).1.mapError toAppError := rfl

theorem mapError_ok {α : Type} {r : Except DatabaseError α} {a : α}
    (h : r.mapError toAppError = .ok a) : r = .ok a := by
  cases r with
  | ok b => exact congrArg Except.ok (Except.ok.inj h)
  | error e => cases h

theorem foundOr_ok {α : Type} {o : Option α} {a : α} (h : Store.foundOr o = .ok a) : o = some a := by
  cases o with
  | some b => exact congrArg some (Except.ok.inj h)
  | none => cases h

/-- An update by id answers with the row of that id. -/
theorem updateUser_id {db : Database} {id : Nat} {f : AuthUser → AuthUser} {u : AuthUser}
    (h : (Store.run (updateUser (·.id = id) f) db).1 = .ok u) (hf : ∀ u, (f u).id = u.id) :
    u.id = id := by
  rw [run_updateUser] at h
  obtain ⟨u', hu', rfl⟩ := Option.map_eq_some_iff.mp (foundOr_ok h)
  have hp := List.find?_some hu'
  rw [hf]
  exact of_decide_eq_true hp

theorem run_bind_fst_ok {α β : Type} {db : Database} {tx : Foundations.Transaction Row α}
    {f : α → Foundations.Transaction Row β} {b : β} (h : (Store.run (tx >>= f) db).1 = .ok b) :
    ∃ a db', Store.run tx db = (.ok a, db') ∧ (Store.run (f a) db').1 = .ok b := by
  cases hr : Store.run tx db with
  | mk r db' =>
    cases r with
    | ok a =>
      rw [Store.run_bind_ok hr] at h
      exact ⟨a, db', rfl, h⟩
    | error e =>
      rw [Store.run_bind_error hr] at h
      cases h

theorem newest_mem {vs : List Verification} {v : Verification} (h : newest vs = some v) :
    v ∈ vs := by
  induction vs with
  | nil => cases h
  | cons w vs ih =>
    unfold newest at h
    cases hn : newest vs with
    | none =>
      rw [hn] at h
      cases h
      exact List.mem_cons_self
    | some x =>
      rw [hn] at h
      dsimp only at h
      split at h
      · cases h
        exact List.mem_cons_of_mem _ (ih hn)
      · cases h
        exact List.mem_cons_self

theorem filterMap_filter_verification (p : Verification → Bool) (rows : List Row) :
    (rows.filter (Row.isVerification p)).filterMap Row.verification? =
      (rows.filterMap Row.verification?).filter p := by
  induction rows with
  | nil => rfl
  | cons row rows ih =>
    cases row with
    | verification v =>
      rw [List.filter_cons]
      show _ = (v :: rows.filterMap Row.verification?).filter p
      rw [List.filter_cons]
      by_cases hp : p v = true
      · rw [if_pos hp, if_pos (by exact hp)]
        exact congrArg (v :: ·) ih
      · rw [if_neg hp, if_neg (by exact hp)]
        exact ih
    | user u => exact ih
    | history h => exact ih
    | token t => exact ih

/-- The code a lookup finds is the newest pending one. -/
theorem run_findActiveVerification {db : Database} (id : Nat) (type : VerificationType) :
    Store.run (findActiveVerification id type) db =
      (.ok (newest (db.verifications.filter (isPending id type))), db) := by
  unfold findActiveVerification
  rw [Store.run_bind_ok (Store.run_findMany _), filterMap_filter_verification]
  rfl

theorem run_findRefreshTokenByHash {db : Database} (hash : String) :
    Store.run (findRefreshTokenByHash hash) db =
      (.ok (db.tokens.find? (·.tokenHash = hash)), db) := by
  unfold findRefreshTokenByHash
  rw [Store.run_bind_ok (Store.run_findMany _),
    head?_filterMap_filter Row.token? _ _ (isToken_eq _)]
  rfl

theorem findUser_answer {db : Database} {p : AuthUser → Bool} {u : AuthUser}
    (h : (Store.run (findUser p) db).1 = .ok (some u)) : p u = true := by
  rw [run_findUser] at h
  exact List.find?_some (Except.ok.inj h)

theorem findActiveVerification_answer {db : Database} {id : Nat} {type : VerificationType}
    {v : Verification} (h : (Store.run (findActiveVerification id type) db).1 = .ok (some v)) :
    v ∈ db.verifications ∧ isPending id type v = true := by
  rw [run_findActiveVerification] at h
  exact List.mem_filter.mp (newest_mem (Except.ok.inj h))

theorem findRefreshTokenByHash_answer {db : Database} {hash : String} {t : RefreshToken}
    (h : (Store.run (findRefreshTokenByHash hash) db).1 = .ok (some t)) :
    db.tokens.find? (·.tokenHash = hash) = some t := by
  rw [run_findRefreshTokenByHash] at h
  exact Except.ok.inj h

/-- What a served call answers is about the rows it was asked for. -/
theorem plausibleResult {c : Call} {db : Database} {now : Nat} {result : c.Result}
    (h : (Store.run (c.transaction now) db).1 = .ok result) : PlausibleResult c result := by
  cases c with
  | findAuthUserById id =>
    cases result with
    | none => trivial
    | some u =>
      have hp : decide (u.id = id) = true := findUser_answer (p := fun u => u.id = id) h
      have hu : u.id = id := of_decide_eq_true hp
      exact hu
  | findAuthUserByEmail email =>
    cases result with
    | none => trivial
    | some u =>
      have hp : decide (u.email = email) = true := findUser_answer (p := fun u => u.email = email) h
      have hu : u.email = email := of_decide_eq_true hp
      exact hu
  | attachProfile id userId => exact updateUser_id h fun _ => rfl
  | registerFailedLogin id lockUntil => exact updateUser_id h fun _ => rfl
  | registerSuccessfulLogin id at_ => exact updateUser_id h fun _ => rfl
  | consumeEmailVerification verificationId id at_ =>
    obtain ⟨v, db', -, h'⟩ := run_bind_fst_ok h
    exact updateUser_id h' fun _ => rfl
  | updatePassword id passwordHash at_ =>
    obtain ⟨n, db', -, h'⟩ := run_bind_fst_ok h
    exact updateUser_id h' fun _ => rfl
  | findActiveVerification id type =>
    cases result with
    | none => trivial
    | some v => exact (findActiveVerification_answer h).2
  | findRefreshTokenByHash hash =>
    cases result with
    | none => trivial
    | some t =>
      have hp := List.find?_some (findRefreshTokenByHash_answer h)
      have ht : t.tokenHash = hash := of_decide_eq_true hp
      exact ht
  | _ => trivial

/-- Every reply is one the analysis of the requests foresees. -/
theorem plausible_of_perform {command : Command} {reply : command.Reply}
    (h : World.perform env fate command w = some (reply, w')) : Plausible command reply := by
  cases command with
  | repository c =>
    have hserved : FromDatabase (w.serve c).1 ∧
        ∀ result, (w.serve c).1 = .ok result → PlausibleResult c result := by
      refine ⟨?_, fun result hr => plausibleResult (mapError_ok hr)⟩
      rw [serve_fst]
      cases (Store.run (c.transaction w.now) w.db).1 with
      | ok a => trivial
      | error e => exact ⟨e, rfl⟩
    rcases perform_repository h with ⟨-, rfl | ⟨e, rfl⟩⟩ | ⟨-, e, rfl⟩
    · exact hserved
    · exact ⟨⟨e, rfl⟩, fun _ hr => nomatch hr⟩
    · exact ⟨⟨e, rfl⟩, fun _ hr => nomatch hr⟩
  | safeEqual v codeHash => cases h; rfl
  | signAccessToken claims =>
    cases fate with
    | served => cases h; exact .inl rfl
    | _ => cases h; exact .inr rfl
  | verifyAccessToken token =>
    unfold World.perform at h
    dsimp only at h
    split at h
    · cases h
      exact fun claims hc => (Except.ok.inj hc).symm
    · cases h
      exact fun _ hc => nomatch hc
  | _ => trivial

/-! ## Every reachable state -/

/-- What a request's command does is what the world performs. -/
theorem perform_of_called {s s' : System} {i : Nat} {task : Task} {command : Command}
    {next : command.Reply → Code} {reply : command.Reply}
    (hc : Called (machine env) s s' i fate task command next reply) :
    World.perform env fate command s.world = some (reply, s'.world) := hc.perform

/-- A step leaves every request to go on as its analysis says, and the trace accounted for. -/
theorem recounted_step {s s' : System} {l : Label}
    (h : Recounted (Justified env) Plausible (Concluded env) s) (hs : System.step env s l = some s') :
    Recounted (Justified env) Plausible (Concluded env) s' :=
  h.step (meets_task env) (fun _ _ _ _ _ _ hp => plausible_of_perform hp) hs

/-- The requests of a run go on as their analysis says, and its trace is accounted for. -/
theorem recounted_of_run {world : World} {ls : List Label} {s : System}
    (hr : Foundations.runs (System.step env) (Pool.start world) ls = some s) :
    Recounted (Justified env) Plausible (Concluded env) s :=
  Foundations.invariant_of_steps (fun _ _ _ hs h => recounted_step h hs) hr
    Foundations.recounted_start

end PracticalMicroservice.Auth
