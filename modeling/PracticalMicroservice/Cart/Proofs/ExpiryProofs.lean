import PracticalMicroservice.Cart.Expiry
import PracticalMicroservice.Cart.Proofs.CustodyProofs
import PracticalMicroservice.Cart.Proofs.KeepingProofs

/-!
# Which carts the watcher takes

A cart judged to have expired stays expired until its session is armed again. So a take by the
watcher is from an expired cart, unless the session was armed while the watcher waited for its locks.
-/

namespace PracticalMicroservice.Cart

open Foundations (AllSteps Ensured Meets runs)

/-! ## The watcher's code -/

section Code

variable {env : Env} {cart : SessionId} {judged : Option SessionId}

theorem kept_of_releases {command : Command} (h : Releases env cart command) :
    Kept watching (· = some cart) command := by
  intro judged hjudged
  cases command with
  | cartTake c inFlight =>
    obtain ⟨rfl, -⟩ := h
    exact ⟨hjudged, fun reply judged' hr => hr.trans hjudged⟩
  | hgetall _ | cartCommit _ _ _ _ _ _ | cartTouch _ _ _ _ | startSession _ _ | cartDiscard _
  | dueBefore _ _ | pttl _ => exact h.elim
  | randomUUID | dateNow | lockSet _ _ | lockRelease _ _ | publish _ | post _ _ | cartFinish _
  | zrem _ | zadd _ _ => exact ⟨trivial, fun reply judged' hr => hr.trans hjudged⟩

/-- The release that a judgement leads to. -/
theorem ensured_watcherRelease (cause : ReleaseCause) :
    Ensured watching (CartExpiryWatcher.release env cart cause) (fun _ _ => True) (fun _ _ => True)
      (some cart) :=
  (keeps_watcherRelease fun _ h => kept_of_releases h) (some cart) rfl |>.mono
    (fun _ _ _ => trivial) fun _ _ _ => trivial

theorem meets_notified : Meets watching (notified env cart).run (fun _ _ => True) (some cart) := by
  have h : Ensured watching (notified env cart) (fun _ _ => True) (fun _ _ => True)
      (some cart) := by
    unfold notified CartExpiryWatcher.onExpiry
    rw [Foundations.ensured_bind]
    exact ensured_watcherRelease .expired
  exact h.meets (fun _ _ _ => trivial) fun _ _ _ => trivial

theorem ensured_sweepOne : Ensured watching (CartExpiryWatcher.sweepOne env cart)
    (fun _ _ => True) (fun _ _ => True) judged := by
  unfold CartExpiryWatcher.sweepOne CartRepository.sessionTtlMs
  rw [Foundations.ensured_bind, Foundations.ensured_bind, ensured_call]
  refine ⟨trivial, fun reply judged' hr => ?_⟩
  rw [ensured_reply]
  cases reply with
  | none => trivial
  | some ttlMs =>
    dsimp only
    have hjudged : judged' = if ttlMs < 0 then some cart else none := hr
    by_cases hlive : ttlMs ≥ 0
    · rw [if_pos hlive]
      have hany : ∀ command, command.taken = none → Kept watching (fun _ => True) command := by
        intro command hcommand s _
        cases command with
        | cartTake c inFlight => cases hcommand
        | _ => exact ⟨trivial, fun _ _ _ => trivial⟩
      have hkeeps : Keeps watching (fun _ => True) (do
          CartRepository.scheduleRelease cart ((← Promise.dateNow) + ttlMs.toNat)) :=
        keeps_bind (keeps_call (hany .dateNow rfl)) fun now => keeps_redis (hany (.zadd cart _) rfl)
      exact hkeeps judged' trivial
    · rw [if_neg hlive, hjudged, if_pos (by omega)]
      exact ensured_watcherRelease .swept

theorem ensured_sweepAll (carts : List SessionId) : Ensured watching
    (CartExpiryWatcher.sweepAll env carts) (fun _ _ => True) (fun _ _ => True) judged := by
  induction carts generalizing judged with
  | nil => trivial
  | cons cart carts ih =>
    unfold CartExpiryWatcher.sweepAll
    rw [Foundations.ensured_bind]
    exact ensured_sweepOne.mono (fun _ _ _ => ih) fun _ _ _ => trivial

theorem meets_sweep : Meets watching (Task.sweep.run env).run (fun _ _ => True) judged := by
  have h : Ensured watching (CartExpiryWatcher.sweep env) (fun _ _ => True) (fun _ _ => True)
      judged := by
    unfold CartExpiryWatcher.sweep CartRepository.dueBefore
    rw [Foundations.ensured_tryCatch, Foundations.ensured_bind, ensured_dateNow]
    refine ⟨trivial, fun now judged' _ => ?_⟩
    rw [Foundations.ensured_bind, Foundations.ensured_bind, ensured_call]
    refine ⟨trivial, fun reply judged' _ => ?_⟩
    rw [ensured_reply]
    cases reply with
    | none => trivial
    | some due => exact (ensured_sweepAll due).mono (fun _ _ _ => trivial) fun _ _ _ => trivial
  have hrun : Ensured watching (Task.sweep.run env) (fun _ _ => True) (fun _ _ => True) judged :=
    Foundations.ensured_bind.mpr h
  exact hrun.meets (fun _ _ _ => trivial) fun _ _ _ => trivial

end Code

/-! ## A judgement and the session -/

/-- A session armed no more than it was is as gone as it was. -/
structure Ages (armed : SessionId → Nat) (r : Redis) (armed' : SessionId → Nat) (r' : Redis) :
    Prop where
  grows : ∀ cart, armed cart ≤ armed' cart
  gone : ∀ cart, armed' cart = armed cart → r.liveSession cart = none → r'.liveSession cart = none

/-- The session was gone when it had been armed so often, and is while it is armed no more. -/
structure Judged (armed : SessionId → Nat) (r : Redis) (judged : SessionId × Nat) : Prop where
  le : judged.2 ≤ armed judged.1
  gone : armed judged.1 = judged.2 → r.liveSession judged.1 = none

section Judgements

variable {armed armed' : SessionId → Nat} {r r' : Redis} {cart : SessionId}

theorem Judged.ages {judged : SessionId × Nat} (h : Judged armed r judged)
    (ha : Ages armed r armed' r') : Judged armed' r' judged where
  le := Nat.le_trans h.le (ha.grows judged.1)
  gone he := by
    have hle := h.le
    have hgrows := ha.grows judged.1
    exact ha.gone judged.1 (by omega) (h.gone (by omega))

/-- Time makes no session live. -/
theorem ages_of_sessions (hnow : r.now ≤ r'.now)
    (hsession : ∀ cart, r'.session cart = r.session cart ∨ r'.session cart = none) :
    Ages armed r armed r' where
  grows _ := Nat.le_refl _
  gone cart _ hgone := by
    unfold Redis.liveSession at hgone ⊢
    rcases hsession cart with he | he
    · rw [he]
      cases hs : r.session cart with
      | none => rfl
      | some expiresAt =>
        rw [hs] at hgone
        have hlate : ¬ r.now < expiresAt := by simpa using hgone
        have hlater : ¬ r'.now < expiresAt := by omega
        simpa using hlater
    · rw [he]
      rfl

/-- An arming is counted. -/
theorem ages_countArmed (hnow : r'.now = r.now) :
    Ages armed r (System.countArmed armed r r') r' where
  grows cart := by
    unfold System.countArmed
    split
    · exact Nat.le_succ _
    · exact Nat.le_refl _
  gone cart he hgone := by
    unfold System.countArmed at he
    split at he
    · omega
    · rename_i hnot
      have hsession : r'.session cart = r.session cart ∨ r'.session cart = none := by
        unfold System.rearmed at hnot
        by_cases hs : r'.session cart = r.session cart
        · exact .inl hs
        · right
          cases hs' : r'.session cart with
          | none => rfl
          | some expiresAt =>
            rw [hs'] at hnot hs
            simp [hs] at hnot
      unfold Redis.liveSession at hgone ⊢
      rw [hnow]
      rcases hsession with hs | hs
      · rw [hs]
        exact hgone
      · rw [hs]
        rfl

end Judgements

/-- A command has its effect on the store, or none. -/
theorem redis_perform (fate : Fate) (command : Command) (w : World) :
    (w.perform fate command).2.redis =
      if fate.verdict = .failed then w.redis else command.effect w.redis := by
  have honRedis : ∀ {α : Type} (run : Redis → α × Redis), (w.onRedis fate run).2.redis =
      if fate.verdict = .failed then w.redis else (run w.redis).2 := by
    intro α run
    rcases onRedis_cases w fate run with ⟨hv, he⟩ | ⟨hv, he⟩ | ⟨hv, he⟩
    · rw [he, hv]
      rfl
    · rw [he, hv]
      rfl
    · rw [he, hv]
      rfl
  cases command with
  | post t body =>
    have hpost : (w.post fate t body).2.redis = w.redis := by cases fate <;> rfl
    exact hpost.trans (ite_self _).symm
  | publish message =>
    have hpublish : (w.publish fate message).2.redis = w.redis := by cases fate <;> rfl
    exact hpublish.trans (ite_self _).symm
  | randomUUID | dateNow => exact (ite_self _).symm
  | lockSet key token => exact honRedis _
  | lockRelease key token => exact honRedis _
  | hgetall cart => exact honRedis _
  | cartCommit cart writes removals sessionTtl itemsTtl dueAt => exact honRedis _
  | cartTouch cart sessionTtl itemsTtl dueAt => exact honRedis _
  | startSession cart sessionTtl => exact honRedis _
  | cartTake cart inFlight => exact honRedis _
  | cartFinish cart => exact honRedis _
  | cartDiscard cart => exact honRedis _
  | zrem cart => exact honRedis _
  | zadd cart score => exact honRedis _
  | dueBefore score limit => exact honRedis _
  | pttl cart => exact honRedis _

/-- No command moves the clock. -/
theorem now_effect (command : Command) (r : Redis) : (command.effect r).now = r.now := by
  cases command with
  | lockSet key token =>
    change (r.lockSet key token).2.now = r.now
    unfold Redis.lockSet
    split <;> rfl
  | lockRelease key token =>
    change (r.lockRelease key token).now = r.now
    unfold Redis.lockRelease
    split <;> rfl
  | cartCommit cart writes removals sessionTtl itemsTtl dueAt =>
    change (r.cartCommit cart writes removals sessionTtl itemsTtl dueAt).2.now = r.now
    unfold Redis.cartCommit
    dsimp only
    split <;> rfl
  | cartTouch cart sessionTtl itemsTtl dueAt =>
    change (r.cartTouch cart sessionTtl itemsTtl dueAt).2.now = r.now
    unfold Redis.cartTouch
    cases r.liveSession cart with
    | none => rfl
    | some expiresAt => cases r.liveItems cart <;> rfl
  | cartTake cart inFlight =>
    change (r.cartTake cart inFlight).2.now = r.now
    unfold Redis.cartTake
    cases r.liveItems cart with
    | none => rfl
    | some hash =>
      dsimp only
      split <;> rfl
  | _ => rfl

theorem now_perform (fate : Fate) (command : Command) (w : World) :
    (w.perform fate command).2.redis.now = w.redis.now := by
  rw [redis_perform]
  split
  · rfl
  · exact now_effect command w.redis

theorem ages_perform (s : System) (fate : Fate) (command : Command) :
    Ages s.armed s.world.redis
      (System.countArmed s.armed s.world.redis (s.world.perform fate command).2.redis)
      (s.world.perform fate command).2.redis :=
  ages_countArmed (now_perform fate command s.world)

/-! ## The invariant -/

/-- A thread of the watcher keeps to the cart it judged, and every judgement stands until the session
is armed. -/
structure Watched (s : System) : Prop where
  keeps : ∀ (i : Nat) (t : Thread), s.threads[i]? = some t → t.watching = true →
    Meets watching t.program (fun _ _ => True) (t.decided.map (·.1))
  decided : ∀ (i : Nat) (t : Thread), s.threads[i]? = some t → ∀ judged ∈ t.decided,
    Judged s.armed s.world.redis judged
  noticed : ∀ judged ∈ s.notices, Judged s.armed s.world.redis judged

/-- The threads after one has started, and after one has gone on. -/
theorem thread_push {threads : List Thread} {t u : Thread} {i : Nat}
    (h : (threads ++ [t])[i]? = some u) : threads[i]? = some u ∨ u = t := by
  rw [List.getElem?_append] at h
  split at h
  · exact .inl h
  · exact .inr (List.mem_singleton.mp (List.mem_of_getElem? h))

theorem thread_set {threads : List Thread} {t u : Thread} {i j : Nat}
    (h : (threads.set i t)[j]? = some u) : threads[j]? = some u ∨ u = t := by
  rw [List.getElem?_set] at h
  split at h
  · split at h
    · exact .inr (Option.some.inj h).symm
    · cases h
  · exact .inl h

theorem watched_start (world : World) (others : String → Int) :
    Watched (.start world others []) where
  keeps _ _ h := nomatch h
  decided _ _ h := nomatch h
  noticed _ h := nomatch h

section Step

variable {s s' : System}

/-- A step that leaves the threads where they are. -/
theorem Watched.frame (h : Watched s) (hthreads : s'.threads = s.threads)
    (hages : Ages s.armed s.world.redis s'.armed s'.world.redis)
    (hnotices : ∀ judged ∈ s'.notices, judged ∈ s.notices ∨
      Judged s'.armed s'.world.redis judged) : Watched s' where
  keeps i t hi hw := h.keeps i t (hthreads ▸ hi) hw
  decided i t hi judged hj := (h.decided i t (hthreads ▸ hi) judged hj).ages hages
  noticed judged hj := by
    rcases hnotices judged hj with hold | hnew
    · exact (h.noticed judged hold).ages hages
    · exact hnew

/-- A thread that starts. -/
theorem Watched.push (h : Watched s) {t : Thread}
    (hkeeps : t.watching = true → Meets watching t.program (fun _ _ => True) (t.decided.map (·.1)))
    (hdecided : ∀ judged ∈ t.decided, Judged s.armed s.world.redis judged) :
    Watched { s with threads := s.threads ++ [t] } where
  keeps i u hi hw := by
    rcases thread_push hi with hi | rfl
    · exact h.keeps i u hi hw
    · exact hkeeps hw
  decided i u hi judged hj := by
    rcases thread_push hi with hi | rfl
    · exact h.decided i u hi judged hj
    · exact hdecided judged hj
  noticed := h.noticed

/-- What the watcher decides is true when it does. -/
theorem judged_decidedAfter {s : System} {fate : Fate} {t : Thread} {command : Command}
    (h : ∀ judged ∈ t.decided, Judged s.armed s.world.redis judged)
    (judged : SessionId × Nat) (hj : judged ∈ System.decidedAfter t.decided s.armed command
      (s.world.perform fate command).1) : Judged s.armed s.world.redis judged := by
  cases command with
  | pttl cart =>
    rcases onRedis_reply s.world fate fun r => (r.sessionTtlMs cart, r) with hreply | hreply
    · have hdecided : judged ∈ if s.world.redis.sessionTtlMs cart < 0 then
          some (cart, s.armed cart) else none := by
        change judged ∈ System.decidedAfter t.decided s.armed (.pttl cart)
          (s.world.onRedis fate fun r => (r.sessionTtlMs cart, r)).1 at hj
        rw [hreply] at hj
        exact hj
      split at hdecided
      · rename_i hgone
        obtain rfl := Option.some.inj hdecided
        refine ⟨Nat.le_refl _, fun _ => ?_⟩
        unfold Redis.sessionTtlMs at hgone
        dsimp only
        cases hlive : s.world.redis.liveSession cart with
        | none => rfl
        | some expiresAt =>
          have hlt : s.world.redis.now < expiresAt := by
            unfold Redis.liveSession at hlive
            simpa using (Option.filter_eq_some_iff.mp hlive).2
          rw [hlive] at hgone
          dsimp only at hgone
          omega
      · cases hdecided
    · change judged ∈ System.decidedAfter t.decided s.armed (.pttl cart)
        (s.world.onRedis fate fun r => (r.sessionTtlMs cart, r)).1 at hj
      rw [hreply] at hj
      exact h judged hj
  | _ => exact h judged hj

/-- The cart judged last, as the contract has it. -/
theorem replies_decidedAfter (decided : Option (SessionId × Nat)) (armed : SessionId → Nat)
    (command : Command) (reply : command.Reply) : watching.replies command (decided.map (·.1)) reply
      ((System.decidedAfter decided armed command reply).map (·.1)) := by
  cases command with
  | pttl cart =>
    cases reply with
    | none => rfl
    | some ttlMs =>
      change (if ttlMs < 0 then some (cart, armed cart) else none).map (·.1) =
        if ttlMs < 0 then some cart else none
      split <;> rfl
  | _ => rfl

theorem Watched.call (h : Watched s) {i : Nat} {fate : Fate} (hs : s.call i fate = some s') :
    Watched s' := by
  obtain ⟨t, command, next, hc⟩ := called_of_call hs
  have hages : Ages s.armed s.world.redis s'.armed s'.world.redis := by
    rw [hc.armed, hc.world]
    exact ages_perform s fate command
  refine ⟨fun j u hj hw => ?_, fun j u hj judged hjudged => ?_, fun judged hjudged => ?_⟩
  · rw [hc.getElem?] at hj
    split at hj
    · cases hj
      have hmeets := h.keeps i t hc.thread hw
      rw [hc.program] at hmeets
      exact hmeets.2 _ _ (replies_decidedAfter t.decided s.armed command _)
    · exact h.keeps j u hj hw
  · rw [hc.getElem?] at hj
    split at hj
    · cases hj
      exact (judged_decidedAfter (h.decided i t hc.thread) judged hjudged).ages hages
    · exact (h.decided j u hj judged hjudged).ages hages
  · rw [hc.notices] at hjudged
    exact (h.noticed judged hjudged).ages hages

theorem Watched.step (h : Watched s) {env : Env} {l : Label}
    (hs : System.step env s l = some s') : Watched s' := by
  have hsame : ∀ {r : Redis}, r.now = s.world.redis.now → r.session = s.world.redis.session →
      Ages s.armed s.world.redis s.armed r := fun hnow hsession =>
    ages_of_sessions (Nat.le_of_eq hnow.symm) fun cart => .inl (congrFun hsession cart)
  cases l with
  | spawn task =>
    obtain rfl := Option.some.inj hs
    refine h.push (fun hw => ?_) nofun
    cases task with
    | sweep => exact meets_sweep
    | _ => cases hw
  | notify notice =>
    obtain ⟨cart, armings, hnotice, rfl⟩ := step_notify hs
    refine h.push (fun _ => meets_notified) fun judged hj => ?_
    obtain rfl := Option.some.inj hj
    exact h.noticed _ (List.mem_of_getElem? hnotice)
  | call i fate => exact h.call hs
  | crash i =>
    obtain ⟨t, ht, rfl⟩ := step_crash hs
    refine ⟨fun j u hj hw => ?_, fun j u hj => ?_, h.noticed⟩
    · rcases thread_set hj with hj | rfl
      · exact h.keeps j u hj hw
      · trivial
    · rcases thread_set hj with hj | rfl
      · exact h.decided j u hj
      · exact h.decided i t ht
  | lapse key =>
    obtain rfl := Option.some.inj hs
    exact h.frame rfl (hsame rfl rfl) fun _ hj => .inl hj
  | tick ms =>
    obtain rfl := Option.some.inj hs
    exact h.frame rfl (ages_of_sessions (Nat.le_add_right _ _) fun _ => .inl rfl) fun _ hj => .inl hj
  | expire cart =>
    obtain ⟨expiresAt, -, hgone, rfl⟩ := step_expire hs
    have hages : Ages s.armed s.world.redis s.armed (s.world.redis.setSession cart none) := by
      refine ages_of_sessions (Nat.le_refl _) fun c => ?_
      by_cases hc : c = cart
      · exact .inr (if_pos hc)
      · exact .inl (if_neg hc)
    refine h.frame rfl hages fun judged hj => ?_
    rcases List.mem_append.mp hj with hj | hj
    · exact .inl hj
    · obtain rfl := List.mem_singleton.mp hj
      exact .inr ⟨Nat.le_refl _, fun _ => hages.gone cart rfl hgone⟩
  | other t body =>
    obtain rfl := Option.some.inj hs
    exact h.frame rfl (hsame rfl rfl) fun _ hj => .inl hj
  | consume message fate =>
    obtain ⟨content, -, rfl⟩ := step_consume hs
    exact h.frame rfl (hsame rfl rfl) fun _ hj => .inl hj

/-- A take from a cart armed no more since it was judged finds no live session. -/
theorem Watched.spares (h : Watched s) {l : Label} (hok : unarmedSince s l) : sparesLive s l := by
  cases l with
  | call i fate =>
    intro t ht hw command hcommand cart hcart
    have hmeets := h.keeps i t ht hw
    unfold System.nextCommand at hcommand
    rw [ht] at hcommand
    dsimp only at hcommand
    cases hp : t.program with
    | done result =>
      rw [hp] at hcommand
      cases hcommand
    | perform performed next =>
      rw [hp] at hcommand hmeets
      obtain rfl := Option.some.inj hcommand
      cases performed with
      | cartTake c inFlight =>
        obtain rfl := Option.some.inj hcart
        obtain ⟨judged, hjudged, hcart⟩ := Option.map_eq_some_iff.mp hmeets.1
        have hnext : Command.cartTake c inFlight ∈ s.nextCommand i := by
          unfold System.nextCommand
          rw [ht]
          dsimp only
          rw [hp]
          exact rfl
        have hunarmed := hok t ht hw (.cartTake c inFlight) hnext c rfl judged hjudged hcart
        rw [← hcart] at hunarmed ⊢
        exact (h.decided i t ht judged hjudged).gone hunarmed
      | _ => cases hcart
  | _ => trivial

end Step

/-- However late, often or many the notifications and the sweeps are, the watcher takes no lines of a
cart with a live session, as long as none is armed between the judgement and the take. -/
theorem watcher_spares_live (env : Env) (world : World) (others : String → Int)
    (labels : List Label)
    (h : AllSteps (System.step env) unarmedSince (.start world others []) labels) :
    AllSteps (System.step env) sparesLive (.start world others []) labels :=
  Foundations.allSteps_of_invariant (P := Watched) (fun _ _ _ _ hs hw => hw.step hs)
    (fun _ _ hok hw => hw.spares hok) h (watched_start world others)

/-! An update that is still with inventory when the session ends, and the watcher that waits for it. -/

/-- A cart of one lamp runs out, and is emptied once its shopper has put in another. -/
def emptiedLive : List Label :=
  .spawn (.setLines (lamps 1) cartOne {}) :: goesOn 0 7 ++
    .spawn (.setLines (lamps 2) cartOne {}) :: goesOn 1 4 ++
    [.tick 60000, .expire cartOne, .notify 0] ++ goesOn 2 3 ++ goesOn 1 3 ++ goesOn 2 7

/-- The same cart runs out, and nobody comes back to it. -/
def emptiedExpired : List Label :=
  .spawn (.setLines (lamps 1) cartOne {}) :: goesOn 0 7 ++
    [.tick 60000, .expire cartOne, .notify 0] ++ goesOn 1 10

theorem watcher_spares_live_lamp : AllSteps (System.step shop.overHttp) sparesLive
    (.start lampWorld (fun _ => 0) []) emptiedExpired :=
  watcher_spares_live shop.overHttp lampWorld (fun _ => 0) emptiedExpired (by decide +kernel)

/-- The lamps of a live cart are given back, and its record is gone. -/
theorem watcher_empties_live :
    ¬ AllSteps (System.step shop.overHttp) sparesLive (.start lampWorld (fun _ => 0) [])
        emptiedLive ∧
      (runs (System.step shop.overHttp) (.start lampWorld (fun _ => 0) []) emptiedLive).map
        (fun s => ((s.world.redis.liveSession cartOne).isSome, s.world.redis.record cartOne,
          Inventory.reservedOf s.world.inventory Inventory.lampId)) = some (true, [], 0) := by
  decide +kernel

end PracticalMicroservice.Cart
