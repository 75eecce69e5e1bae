import PracticalMicroservice.Cart.Lock
import PracticalMicroservice.Cart.Proofs.PromiseProofs
import PracticalMicroservice.Cart.Proofs.RetireProofs
import PracticalMicroservice.Cart.Proofs.WorldProofs

/-!
# One owner at a time

A token is drawn once and takes at most one lock once, so the token a lock is set to tells who took
it last. A call is followed through its code, from its first command to its last.
-/

namespace PracticalMicroservice.Cart

open Foundations (AllSteps Contract Ensured Follows History Machine Meets OnCourse Pool Program
  follows_bind follows_done follows_perform invariant_of_steps moveGhost moveGhost_of_ne
  moveGhost_self pool_step_cases runs)

/-! ## The code of the locks, command by command -/

section Code

variable {α : Type} {key : LockKey} {token : String} {retries : Nat}

/-- One attempt, and what it leads to. -/
def afterAttempt {β : Type} (granted : β) (refused : β) (lost : β) : Option Bool → β
  | some true => granted
  | some false => refused
  | none => lost

theorem attempt_run (attempts : Nat) :
    (RedisLock.attempt key token (attempts + 1)).run = .perform (.lockSet key token)
      (afterAttempt (.done (.ok true)) (RedisLock.attempt key token attempts).run
        (.done (.error .RedisError))) := by
  refine congrArg (Program.perform _) (funext fun reply => ?_)
  match reply with
  | some true => rfl
  | some false => rfl
  | none => rfl

/-- What an `acquire` goes on with once its attempts are over. -/
def afterAttempts (token : String) : Except Exception Bool →
    Program Command Command.Reply (Except Exception (Option String))
  | .ok true => .done (.ok (some token))
  | .ok false => .done (.ok none)
  | .error error => .done (.error error)

theorem acquire_run : (RedisLock.acquire key retries).run = .perform .randomUUID fun token =>
    (RedisLock.attempt key token (retries + 1)).run.bind (afterAttempts token) := by
  refine congrArg (Program.perform _) (funext fun token => ?_)
  show (RedisLock.attempt key token (retries + 1)).run.bind (ExceptT.bindCont fun taken =>
    if taken = true then pure (some token) else pure none) = _
  refine congrArg (Program.bind _) (funext fun result => ?_)
  match result with
  | .ok true => rfl
  | .ok false => rfl
  | .error error => rfl

/-- What a `finally` goes on with once its cleanup is over. -/
def afterCleanup (result : Except Exception α) :
    Except Exception Unit → Program Command Command.Reply (Except Exception α)
  | .ok () => .done result
  | .error error => .done (.error error)

theorem finally_run (work : Promise α) (cleanup : Promise Unit) :
    (Promise.finally_ work cleanup).run =
      work.run.bind fun result => cleanup.run.bind (afterCleanup result) := by
  unfold Promise.finally_
  refine (Program.bind_bind _ _ _).trans ((Program.bind_bind _ _ _).trans ?_)
  refine congrArg (Program.bind _) (funext fun result => ?_)
  cases result with
  | ok a =>
    show cleanup.run.bind (ExceptT.bindCont fun _ => (pure a : Promise α)) = _
    refine congrArg (Program.bind _) (funext fun r => ?_)
    cases r with
    | ok _ => rfl
    | error e => rfl
  | error e =>
    show cleanup.run.bind (ExceptT.bindCont fun _ => (throw e : Promise α)) = _
    refine congrArg (Program.bind _) (funext fun r => ?_)
    cases r with
    | ok _ => rfl
    | error e => rfl

/-- The end of a `withLock`, which comes to what its work came to. -/
def giveBack (key : LockKey) (token : String) (result : Except Exception α) :
    Program Command Command.Reply (Except Exception (Option α)) :=
  .perform (.lockRelease key token) fun _ => .done (result.map some)

/-- What a `withLock` goes on with once it has its lock, or has not. -/
def afterAcquire (key : LockKey) (work : Promise α) : Except Exception (Option String) →
    Program Command Command.Reply (Except Exception (Option α))
  | .ok (some token) => work.run.bind (giveBack key token)
  | .ok none => .done (.ok none)
  | .error error => .done (.error error)

theorem withLock_run (work : Promise α) : (RedisLock.withLock key retries work).run =
    (RedisLock.acquire key retries).run.bind (afterAcquire key work) := by
  refine congrArg (Program.bind _) (funext fun result => ?_)
  match result with
  | .ok none => rfl
  | .error error => rfl
  | .ok (some token) =>
    show (Promise.finally_ work (RedisLock.release key token)).run.bind _ = _
    rw [finally_run]
    refine (Program.bind_bind _ _ _).trans (congrArg (Program.bind _) (funext fun result => ?_))
    cases result with
    | ok a => rfl
    | error e => rfl

end Code

/-! ## What a call goes through -/

section Courses

variable {α : Type} {key : LockKey} {token : String} {retries : Nat}
  {told : History Command Command.Reply}

/-- Every attempt to take a lock was answered. -/
def Heard (told : History Command Command.Reply) : Prop :=
  ∀ key token, (⟨.lockSet key token, none⟩ : (command : Command) × command.Reply) ∉ told

theorem Heard.tail {x : (command : Command) × command.Reply} (h : Heard (x :: told)) :
    Heard told := fun key token hx => h key token (List.mem_cons_of_mem _ hx)

theorem Heard.left {told' : History Command Command.Reply} (h : Heard (told ++ told')) :
    Heard told := fun key token hx => h key token (List.mem_append_left _ hx)

/-- The attempts of `acquire`, by induction on how many are left. -/
theorem attempt_course {attempts : Nat} {result : Except Exception Bool} (hh : Heard told)
    (h : Follows (RedisLock.attempt key token attempts).run told (.done result)) :
    (result = .ok false ∧ told = List.replicate attempts (refusal key token)) ∨
    (result = .ok true ∧ ∃ n < attempts,
      told = List.replicate n (refusal key token) ++ [grant key token]) := by
  induction attempts generalizing told with
  | zero =>
    obtain ⟨rfl, hr⟩ := follows_done h
    cases hr
    exact .inl ⟨rfl, rfl⟩
  | succ attempts ih =>
    rw [attempt_run] at h
    obtain ⟨reply, told', rfl, hrest⟩ := follows_perform h
    match reply, hrest with
    | some true, hrest =>
      obtain ⟨rfl, hr⟩ := follows_done hrest
      cases hr
      exact .inr ⟨rfl, 0, Nat.succ_pos _, rfl⟩
    | some false, hrest =>
      rcases ih hh.tail hrest with ⟨rfl, rfl⟩ | ⟨rfl, n, hn, rfl⟩
      · exact .inl ⟨rfl, rfl⟩
      · exact .inr ⟨rfl, n + 1, Nat.succ_lt_succ hn, rfl⟩
    | none, hrest => exact absurd List.mem_cons_self (hh key token)

theorem acquire_course {result : Except Exception (Option String)} (hh : Heard told)
    (h : Follows (RedisLock.acquire key retries).run told (.done result)) :
    ∃ token, result = .ok token ∧ Acquired key retries told token := by
  rw [acquire_run] at h
  obtain ⟨token, told, rfl, hrest⟩ := follows_perform h
  obtain ⟨taken, attempts, after, rfl, ha, hend⟩ := follows_bind hrest
  rcases attempt_course hh.tail.left ha with ⟨rfl, rfl⟩ | ⟨rfl, n, hn, rfl⟩
  · obtain ⟨rfl, hr⟩ := follows_done hend
    cases hr
    rw [List.append_nil]
    exact ⟨none, rfl, .refused token⟩
  · obtain ⟨rfl, hr⟩ := follows_done hend
    cases hr
    rw [List.append_nil]
    exact ⟨some token, rfl, .granted token n (Nat.le_of_lt_succ hn)⟩

theorem withLock_course {work : Promise α} {result : Except Exception (Option α)}
    (hh : Heard told)
    (h : Follows (RedisLock.withLock key retries work).run told (.done result)) :
    Worked key retries work told result := by
  rw [withLock_run] at h
  obtain ⟨acquired, before, after, rfl, ha, hrest⟩ := follows_bind h
  obtain ⟨token, rfl, hacquired⟩ := acquire_course hh.left ha
  cases token with
  | none =>
    obtain ⟨rfl, hr⟩ := follows_done hrest
    cases hr
    rw [List.append_nil]
    exact .skipped hacquired
  | some token =>
    obtain ⟨worked, during, after, rfl, hw, hback⟩ := follows_bind hrest
    obtain ⟨reply, after, rfl, hend⟩ := follows_perform hback
    obtain ⟨rfl, hr⟩ := follows_done hend
    cases hr
    exact .released hacquired hw reply

/-- Every call, once it has returned. -/
theorem call_course {call : LockCall α} {result : Except Exception (LockReturn α)}
    (hh : Heard told) (h : Follows call.program told (.done result)) :
    call.Course told result := by
  cases call with
  | acquire key retries =>
    obtain ⟨acquired, before, after, rfl, ha, hend⟩ := follows_bind h
    obtain ⟨token, rfl, hacquired⟩ := acquire_course hh.left ha
    obtain ⟨rfl, hr⟩ := follows_done hend
    cases hr
    rw [List.append_nil]
    exact .acquire hacquired
  | release key token =>
    obtain ⟨reply, after, rfl, hend⟩ := follows_perform h
    obtain ⟨rfl, hr⟩ := follows_done hend
    cases hr
    exact .release reply
  | withLock key retries work =>
    obtain ⟨worked, before, after, rfl, hw, hend⟩ := follows_bind h
    have hcourse := withLock_course hh.left hw
    cases worked with
    | ok worked =>
      obtain ⟨rfl, hr⟩ := follows_done hend
      cases hr
      rw [List.append_nil]
      exact .withLock hcourse
    | error error =>
      obtain ⟨rfl, hr⟩ := follows_done hend
      cases hr
      rw [List.append_nil]
      exact .withLock hcourse

/-- The way back: a granted acquisition leads `acquire` to its token. -/
theorem granted_follows {attempts n : Nat} (hn : n < attempts) :
    Follows (RedisLock.attempt key token attempts).run
      (List.replicate n (refusal key token) ++ [grant key token]) (.done (.ok true)) := by
  induction n generalizing attempts with
  | zero =>
    obtain ⟨attempts, rfl⟩ := Nat.exists_eq_succ_of_ne_zero (Nat.ne_of_gt hn)
    rw [Nat.succ_eq_add_one, attempt_run]
    exact .perform (.here _)
  | succ n ih =>
    obtain ⟨attempts, rfl⟩ := Nat.exists_eq_succ_of_ne_zero (Nat.ne_of_gt (Nat.lt_of_le_of_lt n.succ_pos.le hn))
    rw [Nat.succ_eq_add_one, attempt_run]
    exact .perform (ih (Nat.lt_of_succ_lt_succ hn))

theorem acquired_follows (h : Acquired key retries told (some token)) :
    Follows (RedisLock.acquire key retries).run told (.done (.ok (some token))) := by
  cases h with
  | granted token n hn =>
    rw [acquire_run]
    exact .perform (granted_follows (Nat.lt_succ_of_le hn)).bind

/-- A `withLock` whose work has ended has the release left, and nothing else. -/
theorem withLock_exit {work : Work α} {during : History Command Command.Reply}
    {result : Except Exception α} (h : Acquired key retries told (some token))
    (hw : Follows work.run.run during (.done result)) :
    ∃ next, Follows (LockCall.withLock key retries work).program (told ++ during)
      (.perform (.lockRelease key token) next) := by
  have hwith : Follows (RedisLock.withLock key retries work.run).run (told ++ during)
      (giveBack key token result) := by
    rw [withLock_run]
    exact (acquired_follows h).bind.trans hw.bind
  exact ⟨_, hwith.bind⟩

end Courses

/-! ## Every call draws its own tokens -/

section Minting

variable {α : Type} {key : LockKey} {token : String} {fresh : List String}

/-- Code that draws its own tokens, however it ends. -/
def Mints (p : Promise α) (fresh : List String) : Prop :=
  Ensured minting p (fun _ _ => True) (fun _ _ => True) fresh

theorem mints_attempt (attempts : Nat) (h : token ∈ fresh) :
    Mints (RedisLock.attempt key token attempts) fresh := by
  induction attempts with
  | zero => trivial
  | succ attempts ih =>
    unfold Mints RedisLock.attempt
    rw [Foundations.ensured_bind, ensured_call]
    refine ⟨h, fun reply fresh' hr => ?_⟩
    rw [Foundations.ensured_bind, ensured_reply]
    cases reply with
    | none => trivial
    | some taken =>
      cases taken with
      | true => trivial
      | false =>
        obtain rfl : fresh' = fresh := hr
        exact ih

theorem mints_acquire (retries : Nat) : Mints (RedisLock.acquire key retries) fresh := by
  unfold Mints RedisLock.acquire
  rw [Foundations.ensured_bind, ensured_randomUUID]
  refine ⟨trivial, fun token fresh' hr => ?_⟩
  obtain rfl : fresh' = token :: fresh := hr
  rw [Foundations.ensured_bind]
  refine (mints_attempt (retries + 1) List.mem_cons_self).mono (fun taken _ _ => ?_)
    fun _ _ h => h
  cases taken with
  | true => trivial
  | false => trivial

theorem mints_release : Mints (RedisLock.release key token) fresh := ⟨trivial, fun _ _ _ => trivial⟩

/-- Code under a lock draws its own tokens if the code inside does. -/
theorem mints_withLock (retries : Nat) (work : Work α) :
    Mints (RedisLock.withLock key retries work.run) fresh := by
  unfold Mints RedisLock.withLock
  rw [Foundations.ensured_bind]
  refine (mints_acquire retries).mono (fun acquired fresh' _ => ?_) fun _ _ h => h
  cases acquired with
  | none => trivial
  | some token =>
    rw [Foundations.ensured_bind]
    refine ensured_finally ((work.mints fresh').mono (fun a fresh'' _ => ?_) fun e fresh'' _ => ?_)
    · exact mints_release
    · exact mints_release

theorem mints_call (call : LockCall α) : Meets minting call.program (fun _ _ => True) fresh := by
  have h : Mints call.run fresh := by
    cases call with
    | acquire key retries =>
      refine Foundations.ensured_bind.mpr ?_
      exact (mints_acquire retries).mono (fun _ _ _ => trivial) fun _ _ h => h
    | release key token =>
      refine Foundations.ensured_bind.mpr ?_
      exact mints_release.mono (fun _ _ _ => trivial) fun _ _ h => h
    | withLock key retries work =>
      refine Foundations.ensured_bind.mpr ?_
      exact (mints_withLock retries work).mono (fun _ _ _ => trivial) fun _ _ h => h
  exact Ensured.meets h (fun _ _ _ => trivial) fun _ _ _ => trivial

end Minting

/-! ## What a command does to the locks -/

section Effects

variable {w w' : World}

/-- A command that is not about locks. -/
def Unlocking : Command → Prop
  | .randomUUID | .lockSet _ _ | .lockRelease _ _ => False
  | _ => True

/-- What a command does to the locks and to the supply of tokens. -/
inductive LockEffect (w w' : World) : (command : Command) → command.Reply → Prop
  | minted (h : w' = { w with minted := w.minted + 1 }) :
    LockEffect w w' .randomUUID (w.uuids w.minted)
  | taken (key : LockKey) (token : String) (hfree : w.redis.locks key = none)
    (h : w' = { w with redis := w.redis.setLock key (some token) }) :
    LockEffect w w' (.lockSet key token) (some true)
  | refused (key : LockKey) (token : String) (h : w' = w) :
    LockEffect w w' (.lockSet key token) (some false)
  | removed (key : LockKey) (token : String) (reply : Option Unit)
    (hown : w.redis.locks key = some token)
    (h : w' = { w with redis := w.redis.setLock key none }) :
    LockEffect w w' (.lockRelease key token) reply
  | kept (key : LockKey) (token : String) (reply : Option Unit) (h : w' = w) :
    LockEffect w w' (.lockRelease key token) reply
  | other (command : Command) (reply : command.Reply) (hc : Unlocking command)
    (hlocks : w'.redis.locks = w.redis.locks) (huuids : w'.uuids = w.uuids)
    (hminted : w'.minted = w.minted) : LockEffect w w' command reply

theorem onRedis_locks {β : Type} (fate : Fate) {run : Redis → β × Redis}
    (hrun : (run w.redis).2.locks = w.redis.locks) :
    (w.onRedis fate run).2.redis.locks = w.redis.locks ∧
      (w.onRedis fate run).2.uuids = w.uuids ∧ (w.onRedis fate run).2.minted = w.minted := by
  cases fate with
  | delivered => exact ⟨hrun, rfl, rfl⟩
  | replyLost => exact ⟨hrun, rfl, rfl⟩
  | lost => exact ⟨rfl, rfl, rfl⟩
  | unavailable => exact ⟨rfl, rfl, rfl⟩

theorem effect_of_onRedis {β : Type} {fate : Fate} {run : Redis → β × Redis} {command : Command}
    {reply : command.Reply} (hc : Unlocking command) (hw : w' = (w.onRedis fate run).2)
    (hrun : (run w.redis).2.locks = w.redis.locks) : LockEffect w w' command reply := by
  subst hw
  obtain ⟨hlocks, huuids, hminted⟩ := onRedis_locks fate hrun
  exact .other command reply hc hlocks huuids hminted

/-- A release takes effect or does not, and removes no token but its own. -/
theorem release_effect {fate : Fate} {key : LockKey} {token : String} {reply : Option Unit}
    (hw : w' = (w.perform fate (.lockRelease key token)).2) :
    LockEffect w w' (.lockRelease key token) reply := by
  have hrelease : LockEffect w { w with redis := w.redis.lockRelease key token }
      (.lockRelease key token) reply := by
    by_cases hown : w.redis.locks key = some token
    · exact .removed key token reply hown (by rw [Redis.lockRelease, if_pos hown])
    · exact .kept key token reply (by rw [Redis.lockRelease, if_neg hown])
  subst hw
  cases fate with
  | delivered => exact hrelease
  | replyLost => exact hrelease
  | lost => exact .kept key token reply rfl
  | unavailable => exact .kept key token reply rfl

/-- An attempt takes a lock that is free, and none that is not. -/
theorem set_effect (key : LockKey) (token : String) :
    LockEffect w (w.perform .delivered (.lockSet key token)).2 (.lockSet key token)
      (w.perform .delivered (.lockSet key token)).1 := by
  have hp : w.perform .delivered (.lockSet key token) =
    (some (w.redis.lockSet key token).1, { w with redis := (w.redis.lockSet key token).2 }) := rfl
  rw [hp]
  cases hl : w.redis.locks key with
  | none =>
    have hset : w.redis.lockSet key token = (true, w.redis.setLock key (some token)) := by
      unfold Redis.lockSet
      rw [hl]
    rw [hset]
    exact .taken key token hl rfl
  | some owner =>
    have hset : w.redis.lockSet key token = (false, w.redis) := by
      unfold Redis.lockSet
      rw [hl]
    rw [hset]
    exact .refused key token rfl

theorem lock_effect {i : Nat} {fate : Fate} {command : Command} {reply : command.Reply}
    (h : lockMachine.perform i fate command w = some (reply, w')) :
    LockEffect w w' command reply := by
  unfold lockMachine at h
  dsimp only at h
  split at h
  · rename_i hanswered
    obtain ⟨rfl, rfl⟩ := Prod.mk.inj (Option.some.inj h)
    cases command with
    | randomUUID => exact .minted rfl
    | lockSet key token =>
      obtain rfl : fate = .delivered := hanswered
      exact set_effect key token
    | lockRelease key token => exact release_effect rfl
    | dateNow => exact .other _ _ trivial rfl rfl rfl
    | hgetall cart => exact effect_of_onRedis trivial rfl rfl
    | cartCommit cart writes removals sessionTtl itemsTtl dueAt =>
      exact effect_of_onRedis trivial rfl (Redis.locks_cartCommit _ _ _ _ _ _ _)
    | cartTouch cart sessionTtl itemsTtl dueAt =>
      exact effect_of_onRedis trivial rfl (Redis.locks_cartTouch _ _ _ _ _)
    | startSession cart sessionTtl => exact effect_of_onRedis trivial rfl rfl
    | cartTake cart inFlight => exact effect_of_onRedis trivial rfl (Redis.locks_cartTake _ _ _)
    | cartFinish cart => exact effect_of_onRedis trivial rfl rfl
    | cartDiscard cart => exact effect_of_onRedis trivial rfl rfl
    | zrem cart => exact effect_of_onRedis trivial rfl rfl
    | zadd cart score => exact effect_of_onRedis trivial rfl rfl
    | dueBefore score limit => exact effect_of_onRedis trivial rfl rfl
    | pttl cart => exact effect_of_onRedis trivial rfl rfl
    | post t body =>
      cases fate with
      | delivered => exact .other _ _ trivial rfl rfl rfl
      | replyLost => exact .other _ _ trivial rfl rfl rfl
      | lost => exact .other _ _ trivial rfl rfl rfl
      | unavailable => exact .other _ _ trivial rfl rfl rfl
    | publish message =>
      cases fate with
      | delivered => exact .other _ _ trivial rfl rfl rfl
      | replyLost => exact .other _ _ trivial rfl rfl rfl
      | lost => exact .other _ _ trivial rfl rfl rfl
      | unavailable => exact .other _ _ trivial rfl rfl rfl
  · cases h

end Effects

/-! ## Acquisitions in a trace -/

section Traces

variable {key : LockKey} {token : String} {e : LockEvent} {trace : List LockEvent}

/-- The token an acquisition uses up. -/
def spentAt (e : LockEvent) : Option String :=
  match e.told with
  | ⟨.lockSet _ token, some true⟩ => some token
  | _ => none

def spent (trace : List LockEvent) : List String := trace.filterMap spentAt

theorem spentAt_of_takenBy (h : takenBy key e = some token) : spentAt e = some token := by
  unfold takenBy at h
  split at h
  · rename_i k token' he
    unfold spentAt
    rw [he]
    split at h
    · exact h
    · cases h
  · cases h

theorem takenBy_of_unspent (h : spentAt e = none) (key : LockKey) : takenBy key e = none := by
  cases ht : takenBy key e with
  | none => rfl
  | some token =>
    rw [spentAt_of_takenBy ht] at h
    cases h

theorem lastTaker_cons_of_none (h : takenBy key e = none) :
    lastTaker key (e :: trace) = lastTaker key trace := by
  refine List.find?_cons_of_neg ?_
  rw [h]
  exact Bool.false_ne_true

theorem lastTaker_cons_of_some (h : takenBy key e = some token) :
    lastTaker key (e :: trace) = some e := by
  refine List.find?_cons_of_pos ?_
  rw [h]
  rfl

theorem mem_spent (he : e ∈ trace) (h : takenBy key e = some token) : token ∈ spent trace :=
  List.mem_filterMap.mpr ⟨e, he, spentAt_of_takenBy h⟩

/-- No token but the last taker's is the token of another taker. -/
theorem takers_of_last (honce : (spent trace).Nodup) (hlast : lastTaker key trace = some e)
    (he : takenBy key e = some token) :
    trace.filter (fun e' => (takenBy key e').isSome && takenBy key e' == some token) = [e] := by
  obtain ⟨-, newer, older, rfl, hnewer⟩ := List.find?_eq_some_iff_append.mp hlast
  have hsplit : spent (newer ++ e :: older) = spent newer ++ token :: spent older := by
    unfold spent
    rw [List.filterMap_append, List.filterMap_cons, spentAt_of_takenBy he]
  rw [hsplit] at honce
  have hfresh : token ∉ spent older := (List.nodup_cons.mp (List.nodup_append.mp honce).2.1).1
  rw [List.filter_append, List.filter_cons_of_pos (by rw [he]; simp)]
  have hn : newer.filter (fun e' => (takenBy key e').isSome && takenBy key e' == some token) =
      [] := by
    refine List.filter_eq_nil_iff.mpr fun e' he' hp => ?_
    have := hnewer e' he'
    simp_all
  have ho : older.filter (fun e' => (takenBy key e').isSome && takenBy key e' == some token) =
      [] := by
    refine List.filter_eq_nil_iff.mpr fun e' he' hp => ?_
    simp only [Bool.and_eq_true, beq_iff_eq] at hp
    exact hfresh (mem_spent he' hp.2)
  rw [hn, ho]
  rfl

end Traces

/-! ## The invariant -/

section Invariant

variable {α : Type} {s s' : LockPool α} {uuids : Nat → String} {fresh : Nat → List String}

/-- Every token is one of the supply, in the hands of one thread until a lock is taken with it, and
what a lock is set to is the token of its last taker. -/
structure Supply (uuids : Nat → String) (s : LockPool α) (fresh : Nat → List String) : Prop where
  governed : Foundations.Governed minting (fun _ _ _ => True) [] s fresh
  stream : s.world.uuids = uuids
  drawn : ∀ i, ∀ token ∈ fresh i, ∃ n < s.world.minted, uuids n = token
  used : ∀ token ∈ spent s.trace, ∃ n < s.world.minted, uuids n = token
  apart : ∀ i j token, token ∈ fresh i → token ∈ fresh j → i = j
  unspent : ∀ i, ∀ token ∈ fresh i, token ∉ spent s.trace
  once : (spent s.trace).Nodup
  holds : ∀ key token, s.world.redis.locks key = some token →
    (lastTaker key s.trace).bind (takenBy key) = some token

theorem supply_start {world : World} (hfree : ∀ key, world.redis.locks key = none) :
    Supply world.uuids (Pool.start world : LockPool α) fun _ => [] where
  governed := Foundations.governed_start
  stream := rfl
  drawn _ _ h := absurd h List.not_mem_nil
  used _ h := absurd h List.not_mem_nil
  apart _ _ _ h := absurd h List.not_mem_nil
  unspent _ _ h := absurd h List.not_mem_nil
  once := List.nodup_nil
  holds key token h := by
    have hw : world.redis.locks key = some token := h
    rw [hfree key] at hw
    cases hw

/-- A step that takes no lock and draws no token. -/
theorem Supply.frame (h : Supply uuids s fresh)
    (hgoverned : Foundations.Governed minting (fun _ _ _ => True) [] s' fresh)
    (huuids : s'.world.uuids = s.world.uuids) (hminted : s'.world.minted = s.world.minted)
    (hspent : spent s'.trace = spent s.trace)
    (hlast : ∀ key, lastTaker key s'.trace = lastTaker key s.trace)
    (hlocks : ∀ key token, s'.world.redis.locks key = some token →
      s.world.redis.locks key = some token) : Supply uuids s' fresh where
  governed := hgoverned
  stream := huuids.trans h.stream
  drawn := by rw [hminted]; exact h.drawn
  used := by rw [hminted, hspent]; exact h.used
  apart := h.apart
  unspent := by rw [hspent]; exact h.unspent
  once := by rw [hspent]; exact h.once
  holds key token hk := by
    rw [hlast]
    exact h.holds key token (hlocks key token hk)

theorem moveGhost_same {σ : Type} (ghosts : Nat → σ) (i : Nat) :
    moveGhost ghosts i (ghosts i) = ghosts := by
  funext j
  by_cases hj : j = i
  · rw [hj, moveGhost_self]
  · rw [moveGhost_of_ne hj]

section Calls

variable {i : Nat} {fate : Fate} {task : LockCall α} {command : Command}
  {next : command.Reply → Program Command Command.Reply (Except Exception (LockReturn α))}
  {reply : command.Reply}

/-- A command that takes no lock, draws no token and sets no lock. -/
theorem Supply.quiet (h : Supply uuids s fresh)
    (hc : Foundations.Called lockMachine s s' i fate task command next reply)
    (hreplies : minting.replies command (fresh i) reply (fresh i))
    (huuids : s'.world.uuids = s.world.uuids) (hminted : s'.world.minted = s.world.minted)
    (hspent : spentAt ⟨i, command, reply, s.world, s'.world⟩ = none)
    (hlocks : ∀ key token, s'.world.redis.locks key = some token →
      s.world.redis.locks key = some token) : Supply uuids s' fresh := by
  refine h.frame ?_ huuids hminted ?_ (fun key => ?_) hlocks
  · rw [← moveGhost_same fresh i]
    exact h.governed.call hc hreplies
  · rw [hc.trace]
    exact List.filterMap_cons_none hspent
  · rw [hc.trace]
    exact lastTaker_cons_of_none (takenBy_of_unspent hspent key)

end Calls

/-- A token drawn is one that nobody has seen. -/
theorem Supply.mint (h : Supply uuids s fresh) (huuids : Function.Injective uuids) {i : Nat}
    {fate : Fate} {task : LockCall α}
    {next : String → Program Command Command.Reply (Except Exception (LockReturn α))}
    (hc : Foundations.Called lockMachine s s' i fate task .randomUUID next (s.world.uuids s.world.minted))
    (hw : s'.world = { s.world with minted := s.world.minted + 1 }) :
    Supply uuids s' (moveGhost fresh i (s.world.uuids s.world.minted :: fresh i)) := by
  have hnew : ∀ token, (∃ n < s.world.minted, uuids n = token) →
      token ≠ s.world.uuids s.world.minted := by
    rintro token ⟨n, hn, rfl⟩ he
    rw [h.stream] at he
    exact Nat.ne_of_lt hn (huuids he)
  have hold : ∀ token, (∃ n < s.world.minted, uuids n = token) →
      ∃ n < s'.world.minted, uuids n = token := by
    rintro token ⟨n, hn, rfl⟩
    rw [hw]
    exact ⟨n, Nat.lt_succ_of_lt hn, rfl⟩
  have hghost : ∀ j, ∀ token ∈ moveGhost fresh i (s.world.uuids s.world.minted :: fresh i) j,
      token ∈ fresh j ∨ (j = i ∧ token = s.world.uuids s.world.minted) := by
    intro j token ht
    by_cases hj : j = i
    · subst hj
      rw [moveGhost_self] at ht
      rcases List.mem_cons.mp ht with rfl | ht
      · exact .inr ⟨rfl, rfl⟩
      · exact .inl ht
    · rw [moveGhost_of_ne hj] at ht
      exact .inl ht
  have hspent : spent s'.trace = spent s.trace := by
    rw [hc.trace]
    exact List.filterMap_cons_none rfl
  refine
    { governed := h.governed.call hc rfl, stream := by rw [hw]; exact h.stream
      drawn := fun j token ht => ?_, used := fun token ht => ?_, apart := fun j k token hj hk => ?_
      unspent := fun j token ht => ?_, once := by rw [hspent]; exact h.once
      holds := fun key token hk => ?_ }
  · rcases hghost j token ht with ht | ⟨-, rfl⟩
    · exact hold token (h.drawn j token ht)
    · refine ⟨s.world.minted, ?_, by rw [h.stream]⟩
      rw [hw]
      exact Nat.lt_succ_self _
  · rw [hspent] at ht
    exact hold token (h.used token ht)
  · rcases hghost j token hj with hj' | ⟨hi, hj'⟩
    · rcases hghost k token hk with hk' | ⟨-, hk'⟩
      · exact h.apart j k token hj' hk'
      · exact absurd hk' (hnew token (h.drawn j token hj'))
    · rcases hghost k token hk with hk' | ⟨hi', -⟩
      · exact absurd hj' (hnew token (h.drawn k token hk'))
      · exact hi.trans hi'.symm
  · rw [hspent]
    rcases hghost j token ht with ht | ⟨-, ht⟩
    · exact h.unspent j token ht
    · exact fun hs => hnew token (h.used token hs) ht
  · rw [hw] at hk
    rw [hc.trace, lastTaker_cons_of_none rfl]
    exact h.holds key token hk

/-- Taking a lock uses its token up. -/
theorem Supply.take (h : Supply uuids s fresh) {i : Nat} {fate : Fate} {task : LockCall α}
    {key : LockKey} {token : String}
    {next : Option Bool → Program Command Command.Reply (Except Exception (LockReturn α))}
    (hc : Foundations.Called lockMachine s s' i fate task (.lockSet key token) next (some true))
    (hw : s'.world = { s.world with redis := s.world.redis.setLock key (some token) }) :
    Supply uuids s' (moveGhost fresh i ((fresh i).filter (· ≠ token))) := by
  have hmine : token ∈ fresh i := h.governed.allows hc
  have hghost : ∀ j, ∀ t ∈ moveGhost fresh i ((fresh i).filter (· ≠ token)) j,
      t ∈ fresh j ∧ t ≠ token := by
    intro j t ht
    by_cases hj : j = i
    · subst hj
      rw [moveGhost_self, List.mem_filter, decide_eq_true_eq] at ht
      exact ht
    · rw [moveGhost_of_ne hj] at ht
      refine ⟨ht, fun he => hj (h.apart j i t ht ?_)⟩
      rw [he]
      exact hmine
  have hspent : spent s'.trace = token :: spent s.trace := by
    rw [hc.trace]
    exact List.filterMap_cons_some rfl
  have hreplies : minting.replies (.lockSet key token) (fresh i) (some true)
      ((fresh i).filter (· ≠ token)) := by
    show _ = if some true = some false then fresh i else (fresh i).filter (· ≠ token)
    rw [if_neg (by simp)]
  have hworld : s'.world.minted = s.world.minted := by rw [hw]
  refine
    { governed := h.governed.call hc hreplies, stream := by rw [hw]; exact h.stream
      drawn := fun j t ht => ?_, used := fun t ht => ?_, apart := fun j k t hj hk => ?_
      unspent := fun j t ht => ?_, once := ?_, holds := fun k t hk => ?_ }
  · rw [hworld]
    exact h.drawn j t (hghost j t ht).1
  · rw [hworld]
    rw [hspent] at ht
    rcases List.mem_cons.mp ht with rfl | ht
    · exact h.drawn i t hmine
    · exact h.used t ht
  · exact h.apart j k t (hghost j t hj).1 (hghost k t hk).1
  · rw [hspent]
    obtain ⟨hfresh, hne⟩ := hghost j t ht
    exact fun hs => (List.mem_cons.mp hs).elim hne (h.unspent j t hfresh)
  · rw [hspent]
    exact List.nodup_cons.mpr ⟨h.unspent i token hmine, h.once⟩
  · have htaken : takenBy k ⟨i, .lockSet key token, some true, s.world, s'.world⟩ =
      if key = k then some token else none := rfl
    have hk' : (if k = key then some token else s.world.redis.locks k) = some t := by
      rw [hw] at hk
      exact hk
    rw [hc.trace]
    by_cases he : k = key
    · subst he
      rw [if_pos rfl] at htaken
      rw [if_pos rfl] at hk'
      rw [lastTaker_cons_of_some htaken]
      exact htaken.trans hk'
    · rw [if_neg (Ne.symm he)] at htaken
      rw [if_neg he] at hk'
      rw [lastTaker_cons_of_none htaken]
      exact h.holds k t hk'

/-- One step keeps the supply. -/
theorem Supply.step (h : Supply uuids s fresh) (huuids : Function.Injective uuids)
    {l : Pool.Label (LockCall α) Fate Lapse}
    (hs : Pool.step lockMachine LockCall.program s l = some s') :
    ∃ fresh', Supply uuids s' fresh' := by
  rcases pool_step_cases hs with ⟨task, -, rfl⟩ | ⟨i, fate, task, command, next, reply, -, hc⟩ |
    ⟨move, world, -, hm, rfl⟩
  · refine ⟨fresh, h.frame ?_ rfl rfl rfl (fun _ => rfl) fun _ _ hk => hk⟩
    rw [← moveGhost_same fresh s.threads.length]
    exact h.governed.spawn (mints_call task)
  · cases lock_effect hc.perform with
    | minted hw => exact ⟨_, h.mint huuids hc hw⟩
    | taken key token _ hw => exact ⟨_, h.take hc hw⟩
    | refused key token hw =>
      exact ⟨fresh, h.quiet hc rfl (by rw [hw]) (by rw [hw]) rfl fun _ _ hk => by rwa [hw] at hk⟩
    | removed key token reply _ hw =>
      refine ⟨fresh, h.quiet hc rfl (by rw [hw]) (by rw [hw]) rfl fun k t hk => ?_⟩
      have hk' : (if k = key then none else s.world.redis.locks k) = some t := by
        rw [hw] at hk
        exact hk
      split at hk'
      · cases hk'
      · exact hk'
    | kept key token reply hw =>
      exact ⟨fresh, h.quiet hc rfl (by rw [hw]) (by rw [hw]) rfl fun _ _ hk => by rwa [hw] at hk⟩
    | other command reply hother hlocks hstream hminted =>
      refine ⟨fresh, h.quiet hc ?_ hstream hminted ?_ fun _ _ hk => by rwa [hlocks] at hk⟩
      · cases command with
        | randomUUID | lockSet _ _ | lockRelease _ _ => exact hother.elim
        | _ => rfl
      · cases command with
        | randomUUID | lockSet _ _ | lockRelease _ _ => exact hother.elim
        | _ => rfl
  · refine ⟨fresh, ?_⟩
    cases move with
    | lapse key =>
      obtain rfl := Option.some.inj hm
      refine h.frame (h.governed.move _) rfl rfl rfl (fun _ => rfl) fun k t hk => ?_
      have hk' : (if k = key then none else s.world.redis.locks k) = some t := hk
      split at hk'
      · cases hk'
      · exact hk'
    | tick ms =>
      obtain rfl := Option.some.inj hm
      exact h.frame (h.governed.move _) rfl rfl rfl (fun _ => rfl) fun _ _ hk => hk

/-- A lock that is taken has one owner. -/
theorem Supply.owner (h : Supply uuids s fresh) (key : LockKey) :
    (s.world.redis.locks key = none ∧ owners s key = []) ∨
    ∃ e, lastTaker key s.trace = some e ∧ s.world.redis.locks key = takenBy key e ∧
      owners s key = [e] := by
  cases hk : s.world.redis.locks key with
  | none =>
    refine .inl ⟨rfl, List.filter_eq_nil_iff.mpr fun e _ he => ?_⟩
    rw [hk] at he
    cases ht : takenBy key e <;> simp [ht] at he
  | some token =>
    obtain ⟨e, hlast, htaken⟩ := Option.bind_eq_some_iff.mp (h.holds key token hk)
    refine .inr ⟨e, hlast, htaken.symm, ?_⟩
    unfold owners
    rw [hk]
    exact takers_of_last h.once hlast htaken

/-- What the trace says of releases and of answers. -/
structure Orderly (s : LockPool α) : Prop where
  release : ∀ newer e older key token, s.trace = newer ++ e :: older →
    e.command = .lockRelease key token →
    (∀ other ≠ key, e.after.redis.locks other = e.before.redis.locks other) ∧
      ((lastTaker key older).bind (takenBy key) ≠ some token → e.after = e.before)
  heard : ∀ e ∈ s.trace, ∀ key token, e.told ≠ ⟨.lockSet key token, none⟩

theorem orderly_start {world : World} : Orderly (Pool.start world : LockPool α) where
  release newer e older _ _ h := by
    have hnil : ([] : List LockEvent) = newer ++ e :: older := h
    simp at hnil
  heard _ he := absurd he List.not_mem_nil

/-- A release that takes effect is the last taker's own. -/
theorem Supply.release (h : Supply uuids s fresh) {world : World} {key : LockKey} {token : String}
    {reply : Option Unit} (he : LockEffect s.world world (.lockRelease key token) reply) :
    (∀ other ≠ key, world.redis.locks other = s.world.redis.locks other) ∧
      ((lastTaker key s.trace).bind (takenBy key) ≠ some token → world = s.world) := by
  cases he with
  | removed _ _ _ hown hw =>
    refine ⟨fun other ho => ?_, fun hne => absurd (h.holds key token hown) hne⟩
    rw [hw]
    exact if_neg ho
  | kept _ _ _ hw =>
    rw [hw]
    exact ⟨fun _ _ => rfl, fun _ => rfl⟩
  | other _ _ hother => exact hother.elim

theorem Orderly.step (h : Orderly s) (hsupply : Supply uuids s fresh)
    {l : Pool.Label (LockCall α) Fate Lapse}
    (hs : Pool.step lockMachine LockCall.program s l = some s') : Orderly s' := by
  rcases pool_step_cases hs with ⟨task, -, rfl⟩ | ⟨i, fate, task, command, next, reply, -, hc⟩ |
    ⟨move, world, -, -, rfl⟩
  · exact ⟨h.release, h.heard⟩
  · have heffect := lock_effect hc.perform
    refine ⟨fun newer e older key token ht hcommand => ?_, fun e he => ?_⟩
    · rw [hc.trace] at ht
      cases newer with
      | nil =>
        obtain ⟨rfl, rfl⟩ := List.cons.inj ht
        obtain rfl : command = .lockRelease key token := hcommand
        exact hsupply.release heffect
      | cons newest newer =>
        exact h.release newer e older key token (List.cons.inj ht).2 hcommand
    · rw [hc.trace] at he
      rcases List.mem_cons.mp he with rfl | he
      · intro key token htold
        have hreply : (⟨command, reply⟩ : (command : Command) × command.Reply) =
          ⟨.lockSet key token, none⟩ := htold
        obtain ⟨rfl, hnone⟩ := Sigma.mk.inj hreply
        obtain rfl := eq_of_heq hnone
        cases heffect with
        | other _ _ hother => exact hother
      · exact h.heard e he
  · exact ⟨h.release, h.heard⟩

/-- Every attempt in the history of a thread was answered. -/
theorem Orderly.pastHeard (h : Orderly s) (i : Nat) : Heard (Foundations.pastOf i s.trace).reverse := by
  intro key token hx
  obtain ⟨e, he, -, htold⟩ := Foundations.mem_pastOf (List.mem_reverse.mp hx)
  exact h.heard e he key token htold

end Invariant

/-! ## Any interleaving -/

section Main

variable {α : Type} {s : LockPool α}

theorem safe_of_invariants {uuids : Nat → String} {fresh : Nat → List String}
    (hsupply : Supply uuids s fresh) (horderly : Orderly s)
    (hcourse : OnCourse LockCall.program s) : LockSafe s where
  owner := hsupply.owner
  release := horderly.release
  course i call result ht hr := call_course (horderly.pastHeard i) (hcourse.returned ht hr)
  exit i key retries work told during token result ht hpast hacquired hwork := by
    obtain ⟨next, hnext⟩ := withLock_exit hacquired hwork
    rw [← hpast] at hnext
    exact hcourse.next ht hnext

/-- In every interleaving of calls of the locks, commands and lapses, a lock that is taken belongs to
the last that took it and to nobody else; a release takes no lock from a later holder; and a call
of `withLock` gives the lock it acquired back under its own token however its work ends, runs no
work when it acquired none, and comes to what the work came to. -/
theorem lock_safe {world : World} (huuids : Function.Injective world.uuids)
    (hfree : ∀ key, world.redis.locks key = none)
    {labels : List (Pool.Label (LockCall α) Fate Lapse)}
    (hrun : runs (Pool.step lockMachine LockCall.program) (Pool.start world) labels = some s) :
    LockSafe s := by
  have hinvariant : (∃ fresh, Supply world.uuids s fresh) ∧ Orderly s ∧
      OnCourse LockCall.program s := by
    refine invariant_of_steps (P := fun s : LockPool α => (∃ fresh, Supply world.uuids s fresh) ∧
      Orderly s ∧ OnCourse LockCall.program s) (fun s l s' hs h => ?_) hrun
      ⟨⟨_, supply_start hfree⟩, orderly_start, Foundations.onCourse_start⟩
    obtain ⟨⟨fresh, hsupply⟩, horderly, hcourse⟩ := h
    exact ⟨hsupply.step huuids hs, horderly.step hsupply hs, hcourse.step hs⟩
  obtain ⟨⟨fresh, hsupply⟩, horderly, hcourse⟩ := hinvariant
  exact safe_of_invariants hsupply horderly hcourse

/-! A holder whose lock has lapsed gives it back late, when another holds it. -/

def idleWorld : World where
  inventory := .empty
  redis := .empty 0
  queue := []
  uuids := fun n => String.ofList (List.replicate n 'a')
  minted := 0

theorem idleWorld_uuids : Function.Injective idleWorld.uuids := by
  intro n m h
  have hlist := String.ofList_injective h
  simpa using congrArg List.length hlist

def nothingToDo : Work Unit where
  run := pure ()
  mints := fun _ => trivial

/-- The first call takes the lock and its work ends; the lock lapses, and a second call takes it
before the first one's release arrives. -/
def lateRelease : List (Pool.Label (LockCall Unit) Fate Lapse) :=
  [.spawn (.withLock (.writeLock cartOne) 0 nothingToDo),
   .spawn (.acquire (.writeLock cartOne) 0),
   .call 0 .delivered, .call 0 .delivered, .move (.lapse (.writeLock cartOne)),
   .call 1 .delivered, .call 1 .delivered, .call 0 .delivered]

/-- Where the late release leaves the lock, to the second call. -/
def lateReleased : Option (Option String) :=
  (runs (Pool.step lockMachine LockCall.program) (Pool.start idleWorld) lateRelease).map
    fun s => s.world.redis.locks (.writeLock cartOne)

theorem lateReleased_eq : lateReleased = some (some "a") := by decide +kernel

theorem lock_safe_lateRelease :
    ∃ s, runs (Pool.step lockMachine LockCall.program) (Pool.start idleWorld) lateRelease = some s ∧
      LockSafe s ∧ s.world.redis.locks (.writeLock cartOne) = some "a" := by
  obtain ⟨s, hrun, hlock⟩ := Option.map_eq_some_iff.mp lateReleased_eq
  exact ⟨s, hrun, lock_safe idleWorld_uuids (fun _ => rfl) hrun, hlock⟩

end Main

end PracticalMicroservice.Cart
