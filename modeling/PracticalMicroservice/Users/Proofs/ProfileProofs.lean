import PracticalMicroservice.Users.Service

/-!
# What the user service says of the profiles

As long as none is deleted, a profile keeps its id and its account, whatever else is updated. So the
profile a request was answered with is still that of the account it asked about.
-/

namespace PracticalMicroservice.Users

open Foundations (Called DatabaseError History Meets Pool Recounted Tells pastOf pool_step_cases
  recounting tells_bind tells_pure tells_request tells_result tells_throw)

/-! ## The table -/

section Table

variable {db db' : Database} {authUserId : Nat} {id uuid : String}

/-- A write that is accepted. -/
theorem write_ok {α : Type} {rows : List User} {reply a : α}
    (h : db.write rows reply = (.ok a, db')) : a = reply ∧ db'.rows = rows := by
  unfold Database.write at h
  split at h
  · obtain ⟨ha, rfl⟩ := Prod.mk.inj h
    exact ⟨(Except.ok.inj ha).symm, rfl⟩
  · cases (Prod.mk.inj h).1

/-- What holds of the rows before a write, and of those it would leave, holds of those it leaves. -/
theorem has_write {α : Type} {rows : List User} {reply : α}
    (h : ∀ user ∈ db.rows, ∃ user' ∈ rows,
      user'.authUserId = user.authUserId ∧ user'.id = user.id)
    (hp : db.Has authUserId id) : (db.write rows reply).2.Has authUserId id := by
  unfold Database.write
  split
  · obtain ⟨user, huser, rfl, rfl⟩ := hp
    obtain ⟨user', huser', hsame⟩ := h user huser
    exact ⟨user', huser', hsame⟩
  · exact hp

/-- No call but a deletion takes a profile away from its account. -/
theorem has_run {call : Call} (hcall : ∀ id, call ≠ .deleteUser id) (h : db.Has authUserId id) :
    (call.run uuid db).2.Has authUserId id := by
  cases call with
  | createUser input =>
    exact has_write (fun user huser => ⟨user, List.mem_append_left _ huser, rfl, rfl⟩) h
  | getUserById id' => exact h
  | getUserByAuthUserId authUserId' => exact h
  | getUserByEmail email => exact h
  | updateUser id' input =>
    unfold Call.run
    dsimp only
    split
    · exact h
    · refine has_write (fun user huser => ?_) h
      refine ⟨if user.id = id' then user.applyUpdate input else user,
        List.mem_map_of_mem (f := fun row => if row.id = id' then row.applyUpdate input else row)
          huser, ?_⟩
      split
      · exact ⟨rfl, rfl⟩
      · exact ⟨rfl, rfl⟩
  | deleteUser id' => exact absurd rfl (hcall id')

end Table

/-! ## What a request was told -/

abbrev Told := History Call Call.Reply

/-- Only a removal deletes. -/
def Allowed (task : Task) (_ : Told) : Call → Prop
  | .deleteUser id => task = .remove id
  | _ => True

/-- Any reply is possible. -/
abbrev Credible (call : Call) (_ : call.Reply) : Prop := True

/-- The profile a request ends with is the one it created, or the one it found. -/
def Ended : Outcome → Task × Told → Prop
  | .ok (.user user), (.create input, past) => ⟨.createUser input, .ok user⟩ ∈ past
  | .ok (.user user), (.getByAuthUserId authUserId, past) =>
    ⟨.getUserByAuthUserId authUserId, .ok (some user)⟩ ∈ past
  | _, _ => True

section Code

variable {task : Task} {past : Told} {α : Type}

/-- A call of the repository, and what it answers. -/
theorem tells_repository {call : Call} {ok : call.Result → Told → Prop}
    {err : AppError → Told → Prop} (hallow : Allowed task past call)
    (hok : ∀ a, ok a (⟨call, .ok a⟩ :: past)) (herr : ∀ e, err e (⟨call, .error e⟩ :: past)) :
    Tells Allowed Credible task (repository call) ok err past := by
  refine tells_bind (tells_request hallow fun reply _ => ?_)
  refine tells_result (fun a ha => ?_) fun e he => ?_
  · rw [ha]
    exact hok a
  · rw [he]
    exact herr e

/-- A request that answers with what its method returns. -/
theorem meets_answer (answer : α → Answer) {p : Promise α} {ok : α → Told → Prop}
    (h : Tells Allowed Credible task p ok (fun _ _ => True) [])
    (hok : ∀ a past, ok a past → Ended (.ok (answer a)) (task, past)) :
    Meets (recounting Allowed Credible) (do return answer (← p) : Promise Answer).run Ended
      (task, []) := by
  have hbind : Tells Allowed Credible task (do return answer (← p) : Promise Answer)
      (fun a past => Ended (.ok a) (task, past)) (fun _ _ => True) [] :=
    tells_bind (h.mono (fun a past ha => tells_pure (hok a past ha)) fun _ _ he => he)
  refine Foundations.Ensured.meets hbind ?_ ?_
  · rintro a ⟨_, past'⟩ ⟨rfl, ha⟩
    exact ha
  · rintro e ⟨task', past'⟩ -
    cases task' <;> trivial

theorem tells_create (input : CreateUserInput) :
    Tells Allowed Credible task (UserService.create input)
      (fun user past' => ⟨.createUser input, .ok user⟩ ∈ past') (fun _ _ => True) past := by
  unfold UserService.create
  refine tells_bind (tells_repository trivial (fun found => ?_) fun _ => trivial)
  cases found with
  | some user => exact tells_throw trivial
  | none =>
    refine tells_bind (tells_repository trivial (fun found => ?_) fun _ => trivial)
    cases found with
    | some user => exact tells_throw trivial
    | none => exact tells_repository trivial (fun _ => List.mem_cons_self) fun _ => trivial

theorem tells_getById (id : String) :
    Tells Allowed Credible task (UserService.getById id) (fun _ _ => True) (fun _ _ => True)
      past := by
  unfold UserService.getById
  refine tells_bind (tells_repository trivial (fun found => ?_) fun _ => trivial)
  cases found with
  | some user => exact tells_pure trivial
  | none => exact tells_throw trivial

theorem tells_getByAuthUserId (authUserId : Nat) :
    Tells Allowed Credible task (UserService.getByAuthUserId authUserId)
      (fun user past' => ⟨.getUserByAuthUserId authUserId, .ok (some user)⟩ ∈ past')
      (fun _ _ => True) past := by
  unfold UserService.getByAuthUserId
  refine tells_bind (tells_repository trivial (fun found => ?_) fun _ => trivial)
  cases found with
  | some user => exact tells_pure List.mem_cons_self
  | none => exact tells_throw trivial

theorem tells_checkEmail (id : String) (current : User) (email : Option String) :
    Tells Allowed Credible task (UserService.checkEmail id current email) (fun _ _ => True)
      (fun _ _ => True) past := by
  unfold UserService.checkEmail
  cases email with
  | none => exact tells_pure trivial
  | some email =>
    dsimp only
    split
    · exact tells_pure trivial
    · refine tells_bind (tells_repository trivial (fun found => ?_) fun _ => trivial)
      cases found with
      | none => exact tells_pure trivial
      | some byEmail =>
        dsimp only
        split
        · exact tells_throw trivial
        · exact tells_pure trivial

/-- The analysis of the requests. -/
theorem meets_task (task : Task) :
    Meets (recounting Allowed Credible) task.run Ended (task, []) := by
  cases task with
  | create input => exact meets_answer .user (tells_create input) fun _ _ h => h
  | getById id => exact meets_answer .user (tells_getById id) fun _ _ _ => trivial
  | getByAuthUserId authUserId =>
    exact meets_answer .user (tells_getByAuthUserId authUserId) fun _ _ h => h
  | update id input =>
    have hupdate : Tells Allowed Credible (.update id input) (UserService.update id input)
        (fun _ _ => True) (fun _ _ => True) [] :=
      tells_bind ((tells_getById id).mono (fun current _ _ =>
        tells_bind ((tells_checkEmail id current _).mono (fun _ _ _ =>
          tells_repository trivial (fun _ => trivial) fun _ => trivial) fun _ _ he => he))
        fun _ _ he => he)
    exact meets_answer .user hupdate fun _ _ _ => trivial
  | remove id =>
    have hremove : Tells Allowed Credible (.remove id) (UserService.remove id) (fun _ _ => True)
        (fun _ _ => True) [] :=
      tells_bind ((tells_getById id).mono (fun _ _ _ => tells_repository rfl (fun _ => trivial)
        fun _ => trivial) fun _ _ he => he)
    exact meets_answer (fun _ => .removed) hremove fun _ _ _ => trivial

end Code

/-! ## Every run without removals -/

/-- What a reply says of the profile of an account is so. -/
def Shows (db : Database) : (call : Call) × call.Reply → Prop
  | ⟨.createUser input, .ok user⟩ => db.Has input.authUserId user.id
  | ⟨.getUserByAuthUserId authUserId, .ok (some user)⟩ => db.Has authUserId user.id
  | _ => True

/-- Nothing is removed, and what the requests were told of the profiles is so. -/
structure Truthful (s : System) : Prop where
  recounted : Recounted Allowed Credible Ended s
  kept : ∀ i task, s.task i = some task → ∀ id, task ≠ .remove id
  told : ∀ e ∈ s.trace, Shows s.world.db e.told

theorem truthful_start (world : World) : Truthful (Pool.start world) where
  recounted := Foundations.recounted_start
  kept i task h := by simp [Pool.start, Pool.task] at h
  told _ he := nomatch he

section Runs

variable {s s' : System} {db db' : Database}

/-- Profiles that stay keep what was told of them. -/
theorem Shows.mono {told : (call : Call) × call.Reply} (h : Shows db told)
    (hlast : ∀ authUserId id, db.Has authUserId id → db'.Has authUserId id) : Shows db' told := by
  unfold Shows at h ⊢
  split
  · exact hlast _ _ h
  · exact hlast _ _ h
  · trivial

/-- What a call that is served answers is so. -/
theorem shows_run {uuid : String} {call : Call} :
    Shows (call.run uuid db).2 ⟨call, (call.run uuid db).1.mapError toAppError⟩ := by
  cases call with
  | createUser input =>
    cases hrun : Call.run uuid (.createUser input) db with
    | mk reply db' =>
      cases reply with
      | error e => trivial
      | ok user =>
        obtain ⟨rfl, hrows⟩ := write_ok hrun
        refine ⟨input.row uuid, ?_, rfl, rfl⟩
        show input.row uuid ∈ db'.rows
        rw [hrows]
        exact List.mem_append_right _ (List.mem_singleton.mpr rfl)
  | getUserByAuthUserId authUserId =>
    show Shows db ⟨.getUserByAuthUserId authUserId, .ok (db.getUserByAuthUserId authUserId)⟩
    cases hfound : db.getUserByAuthUserId authUserId with
    | none => trivial
    | some user =>
      unfold Database.getUserByAuthUserId at hfound
      exact ⟨user, List.mem_of_find?_eq_some hfound, by simpa using List.find?_some hfound, rfl⟩
  | getUserById id => trivial
  | getUserByEmail email => trivial
  | updateUser id input => trivial
  | deleteUser id => trivial

/-- A call, under each fate: what it answers is so, and no profile goes unless it is deleted. -/
theorem shows_perform {fate : Fate} {call : Call} {w w' : World} {reply : call.Reply}
    (h : w.perform fate call = (reply, w')) : Shows w'.db ⟨call, reply⟩ := by
  have herror : ∀ (db : Database) (e : AppError), Shows db ⟨call, .error e⟩ := by
    intro db e
    cases call <;> trivial
  cases fate with
  | served =>
    obtain ⟨rfl, rfl⟩ := Prod.mk.inj h
    exact shows_run
  | refused e =>
    obtain ⟨rfl, rfl⟩ := Prod.mk.inj h
    exact herror _ _
  | unanswered e =>
    obtain ⟨rfl, rfl⟩ := Prod.mk.inj h
    exact herror _ _

theorem has_perform {fate : Fate} {call : Call} {w w' : World} {reply : call.Reply}
    (h : w.perform fate call = (reply, w')) (hcall : ∀ id, call ≠ .deleteUser id)
    {authUserId : Nat} {id : String} (hp : w.db.Has authUserId id) : w'.db.Has authUserId id := by
  cases fate with
  | served =>
    obtain ⟨-, rfl⟩ := Prod.mk.inj h
    exact has_run hcall hp
  | refused e =>
    obtain ⟨-, rfl⟩ := Prod.mk.inj h
    exact hp
  | unanswered e =>
    obtain ⟨-, rfl⟩ := Prod.mk.inj h
    exact has_run hcall hp

/-- Without a removal, a step keeps every profile with its account, and what was told of them so. -/
theorem Truthful.step (h : Truthful s) {l : Label} (hl : ∀ id, l ≠ .spawn (.remove id))
    (hs : System.step s l = some s') :
    Truthful s' ∧ ∀ authUserId id, s.world.db.Has authUserId id → s'.world.db.Has authUserId id := by
  have hrecounted : Recounted Allowed Credible Ended s' :=
    h.recounted.step meets_task (fun _ _ _ _ _ _ _ => trivial) hs
  rcases pool_step_cases hs with ⟨task, rfl, rfl⟩ | ⟨i, fate, task, call, next, reply, -, hc⟩ |
    ⟨move, -⟩
  · refine ⟨⟨hrecounted, fun i task' ht id => ?_, h.told⟩, fun _ _ hp => hp⟩
    rintro rfl
    unfold Pool.task at ht
    obtain ⟨t, ht, htask⟩ := Option.map_eq_some_iff.mp ht
    by_cases hi : i < s.threads.length
    · rw [List.getElem?_append_left hi] at ht
      exact h.kept i _ (by unfold Pool.task; rw [ht, Option.map_some, htask]) id rfl
    · rw [List.getElem?_append_right (by omega)] at ht
      obtain rfl := List.mem_singleton.mp (List.mem_of_getElem? ht)
      exact hl id (congrArg Pool.Label.spawn htask)
  · have hperform : s.world.perform fate call = (reply, s'.world) := Option.some.inj hc.perform
    have hcall : ∀ id, call ≠ .deleteUser id := by
      rintro id rfl
      exact h.kept i task hc.task_self id (h.recounted.allowed hc.thread)
    have hlast : ∀ authUserId id, s.world.db.Has authUserId id →
        s'.world.db.Has authUserId id := fun _ _ => has_perform hperform hcall
    refine ⟨⟨hrecounted, fun j task' ht => h.kept j task' ?_, fun e he => ?_⟩, hlast⟩
    · rwa [hc.task] at ht
    · rw [hc.trace] at he
      rcases List.mem_cons.mp he with rfl | he
      · exact shows_perform hperform
      · exact (h.told e he).mono hlast
  · exact nomatch move

/-- What a request was told, it was told by an event of the trace. -/
theorem Truthful.shows (h : Truthful s) {i : Nat} {told : (call : Call) × call.Reply}
    (hm : told ∈ pastOf i s.trace) : Shows s.world.db told := by
  obtain ⟨e, he, -, rfl⟩ := Foundations.mem_pastOf hm
  exact h.told e he

/-- The profile a create was answered with is that of its account. -/
theorem Truthful.created (h : Truthful s) {i : Nat} {input : CreateUserInput} {user : User}
    (ht : s.task i = some (.create input)) (hr : s.result i = some (.ok (.user user))) :
    s.world.db.Has input.authUserId user.id := by
  obtain ⟨task, hthread⟩ := Foundations.result_eq_some hr
  obtain rfl : task = .create input := by
    unfold Pool.task at ht
    rw [hthread] at ht
    exact Option.some.inj ht
  have hshows : Shows s.world.db ⟨.createUser input, .ok user⟩ :=
    h.shows (h.recounted.returned hthread)
  exact hshows

/-- The profile a lookup was answered with is that of the account. -/
theorem Truthful.found (h : Truthful s) {i : Nat} {authUserId : Nat} {user : User}
    (ht : s.task i = some (.getByAuthUserId authUserId))
    (hr : s.result i = some (.ok (.user user))) : s.world.db.Has authUserId user.id := by
  obtain ⟨task, hthread⟩ := Foundations.result_eq_some hr
  obtain rfl : task = .getByAuthUserId authUserId := by
    unfold Pool.task at ht
    rw [hthread] at ht
    exact Option.some.inj ht
  have hshows : Shows s.world.db ⟨.getUserByAuthUserId authUserId, .ok (some user)⟩ :=
    h.shows (h.recounted.returned hthread)
  exact hshows

end Runs

end PracticalMicroservice.Users
