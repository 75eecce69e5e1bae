import PracticalMicroservice.Auth.Guesses
import PracticalMicroservice.Auth.Proofs.CodeProofs

/-!
# The ceiling on guesses over whole runs

A wrong guess compared is in the code's counter or about to be. A request checks the counter it has
read: while that is still the code's own, and nothing is about to be added to it, no code is compared
with more wrong guesses than it allows.
-/

namespace PracticalMicroservice.Auth

open Foundations (AllSteps Called Grown KeyedTable Meets Performed Pool Recounted Store pastOf runs)
open PrismaAuthRepository

section

variable {env : Env} {s s' : System} {fate : Fate} {i : Nat} {task : Task} {command : Command}
  {next : command.Reply → Code} {reply : command.Reply}

/-! ## What one command does to the codes -/

/-- The codes after a command of a request. -/
theorem codes_call (hc : Called (machine env) s s' i fate task command next reply) :
    Grown Verification.id SameCode s.world.db.nextKey s'.world.db.nextKey
      s.world.db.verifications s'.world.db.verifications :=
  codes_grow lasting_code hc fun _ _ _ _ => sameCode_of_writes

/-- A wrong guess counted, unless the database refused to. -/
theorem attempts_call (hk : KeyedTable Verification.id s.world.db.nextKey s.world.db.verifications)
    (hc : Called (machine env) s s' i fate task command next reply) {id : Nat}
    (hcount : countsGuess id command = true) (hfate : fate.isRefused = false) {v v' : Verification}
    (hv : v ∈ s.world.db.verifications) (hid : v.id = id) (hv' : v' ∈ s'.world.db.verifications)
    (hid' : v'.id = id) : v.attempts < v'.attempts := by
  unfold countsGuess at hcount
  split at hcount
  · rename_i counted exhausted
    obtain rfl : counted = id := of_decide_eq_true hcount
    rw [db_of_effect hfate (perform_of_called hc)] at hv'
    have := attempts_after _ hk hv hid hv' hid'
    omega
  · cases hcount

/-! ## Guesses compared, and guesses about to be counted -/

theorem wrongGuesses_call (hc : Called (machine env) s s' i fate task command next reply)
    (id : Nat) : wrongGuesses s'.trace id =
      wrongGuesses s.trace id + if wrongGuess id ⟨command, reply⟩ = true then 1 else 0 := by
  rw [hc.trace]
  exact List.countP_cons

theorem wrongGuess_told {id : Nat} {x : (command : Command) × command.Reply}
    (h : wrongGuess id x = true) : ∃ v guess, x = ⟨.safeEqual v guess, false⟩ ∧ v.id = id := by
  unfold wrongGuess at h
  split at h
  · exact ⟨_, _, rfl, of_decide_eq_true h⟩
  · cases h

/-- After a wrong guess, its request is about to count it. -/
theorem counts_next (hr : Recounted (Justified env) Plausible (Concluded env) s')
    (hc : Called (machine env) s s' i fate task command next reply) {id : Nat}
    (hwrong : wrongGuess id ⟨command, reply⟩ = true) :
    (Foundations.Thread.next ⟨task, next reply⟩).any (countsGuess id) = true := by
  obtain ⟨v, guess, htold, hid⟩ := wrongGuess_told hwrong
  have hthread : s'.threads[i]? = some ⟨task, next reply⟩ := by
    rw [hc.getElem?, if_pos rfl]
  have hpast : pastOf i s'.trace = ⟨.safeEqual v guess, false⟩ :: pastOf i s.trace := by
    rw [hc.trace, ← htold]
    exact if_pos rfl
  have hmeets := hr.meets i _ hthread
  rw [hpast] at hmeets
  unfold Foundations.Thread.next
  generalize next reply = p at hmeets
  cases p with
  | done answer => exact absurd rfl (hmeets.counted v guess _)
  | perform command' next' =>
    obtain ⟨exhausted, rfl⟩ := hmeets.1.1 v guess _ rfl
    exact decide_eq_true hid

/-- The guesses about to be counted, as a request goes on. -/
theorem uncounted_call (hc : Called (machine env) s s' i fate task command next reply) (id : Nat) :
    s.uncounted id ≤ s'.uncounted id + if countsGuess id command = true then 1 else 0 := by
  have h := hc.countP fun t => t.next.any (countsGuess id)
  have hself : (Foundations.Thread.next (R := Command.Reply) (α := Outcome)
      ⟨task, .perform command next⟩).any (countsGuess id) = countsGuess id command := rfl
  rw [hself] at h
  unfold System.uncounted
  omega

theorem uncounted_wrong (hr : Recounted (Justified env) Plausible (Concluded env) s')
    (hc : Called (machine env) s s' i fate task command next reply) {id : Nat}
    (hwrong : wrongGuess id ⟨command, reply⟩ = true) : s.uncounted id + 1 ≤ s'.uncounted id := by
  have h := hc.countP fun t => t.next.any (countsGuess id)
  have hself : (Foundations.Thread.next (R := Command.Reply) (α := Outcome)
      ⟨task, .perform command next⟩).any (countsGuess id) = false := by
    obtain ⟨v, guess, htold, -⟩ := wrongGuess_told hwrong
    cases htold
    rfl
  rw [hself, counts_next hr hc hwrong] at h
  unfold System.uncounted
  simp only [Bool.false_eq_true, if_false, if_true] at h
  omega

/-! ## The invariant -/

/-- What holds of the codes, of the guesses in flight and of what the trace has shown. -/
structure Watched (s : System) : Prop where
  rows : KeyedTable Verification.id s.world.db.nextKey s.world.db.verifications
  found : ∀ e ∈ s.trace, ∀ id type v,
    e.told = ⟨.repository (.findActiveVerification id type), .ok (some v)⟩ →
    ∃ v' ∈ s.world.db.verifications, SameCode v v'
  compared : ∀ e ∈ s.trace, ∀ id, Compares e id → ∃ v ∈ s.world.db.verifications, v.id = id
  counted : ∀ v ∈ s.world.db.verifications,
    wrongGuesses s.trace v.id ≤ v.attempts + s.uncounted v.id
  bounded : ∀ v ∈ s.world.db.verifications, wrongGuesses s.trace v.id ≤ v.maxAttempts
  closed : ∀ newer e older, s.trace = newer ++ e :: older → ∀ v ∈ s.world.db.verifications,
    Compares e v.id → v.maxAttempts ≤ wrongGuesses older v.id →
    v.status ≠ .PENDING ∧ ∀ e' ∈ s.trace, e'.thread = e.thread → ¬ Redeems e' v.id
  spent : ∀ e ∈ s.trace, ∀ id, (∃ user at_ u,
      e.told = ⟨.repository (.consumeEmailVerification id user at_), .ok u⟩) ∨ (∃ user hash at_ u,
      e.told = ⟨.repository (.consumePasswordReset id user hash at_), .ok u⟩) → Redeems e id

theorem watched_start {world : World} (hw : world.db.verifications = []) :
    Watched (Pool.start world) where
  rows := by
    show KeyedTable _ world.db.nextKey world.db.verifications
    rw [hw]
    exact Foundations.keyedTable_nil
  found e he := nomatch he
  compared e he := nomatch he
  counted v hv := by
    rw [show (Pool.start world : System).world.db.verifications = [] from hw] at hv
    cases hv
  bounded v hv := by
    rw [show (Pool.start world : System).world.db.verifications = [] from hw] at hv
    cases hv
  closed newer e older ht := by
    have hnil : ([] : List Event) = newer ++ e :: older := ht
    simp at hnil
  spent e he := nomatch he

section Call

/-- The part of its history that leads a request to a comparison. -/
theorem past_of_comparison (hr : Recounted (Justified env) Plausible (Concluded env) s)
    {newer older : List Event} {e : Event} (ht : s.trace = newer ++ e :: older) {id : Nat}
    (hcmp : Compares e id) : ∃ task now user type email u v, s.task e.thread = some task ∧
      task.PresentsCode ∧ v.id = id ∧
      pastOf e.thread older = [⟨.now, now⟩,
        ⟨.repository (.findActiveVerification user type), .ok (some v)⟩,
        ⟨.repository (.findAuthUserByEmail email), .ok (some u)⟩] := by
  obtain ⟨v, guess, hcmd, hid⟩ := hcmp
  obtain ⟨⟨task, htask, -, hgrounds⟩, -⟩ := hr.accounted.split ht
  rw [hcmd] at hgrounds
  obtain ⟨hcode, now, user, type, email, u, hpast, -, -⟩ := hgrounds
  exact ⟨task, now, user, type, email, u, v, htask, hcode, hid, hpast⟩

/-- The row a request compares its guess with is there. -/
theorem Watched.row_of_comparison (h : Watched s)
    (hr : Recounted (Justified env) Plausible (Concluded env) s)
    (hc : Called (machine env) s s' i fate task command next reply) {v : Verification}
    {guess : String} (hcmd : command = .safeEqual v guess) :
    ∃ row ∈ s.world.db.verifications, SameCode v row := by
  subst hcmd
  obtain ⟨-, -, now, user, type, email, u, hpast, -, -⟩ := hr.allowed hc.thread
  have hmem : ⟨.repository (.findActiveVerification user type), .ok (some v)⟩ ∈
      pastOf i s.trace := by
    rw [hpast]
    exact List.mem_cons_of_mem _ List.mem_cons_self
  obtain ⟨e, he, -, htold⟩ := Foundations.mem_pastOf hmem
  exact h.found e he user type v htold

/-- Every event with a code is about a row that is there. -/
theorem Watched.compared_call (h : Watched s)
    (hr : Recounted (Justified env) Plausible (Concluded env) s)
    (hc : Called (machine env) s s' i fate task command next reply) {e : Event}
    (he : e ∈ s'.trace) {id : Nat} (hcmp : Compares e id) :
    ∃ v ∈ s.world.db.verifications, v.id = id := by
  rw [hc.trace] at he
  rcases List.mem_cons.mp he with rfl | he
  · obtain ⟨v, guess, hcmd, rfl⟩ := hcmp
    obtain ⟨row, hrow, hsame⟩ := h.row_of_comparison hr hc hcmd
    exact ⟨row, hrow, hsame.id⟩
  · exact h.compared e he id hcmp

/-- A code not there before has been compared with nothing. -/
theorem Watched.new_unguessed (h : Watched s)
    (hr : Recounted (Justified env) Plausible (Concluded env) s)
    (hc : Called (machine env) s s' i fate task command next reply) {id : Nat}
    (hnew : s.world.db.nextKey ≤ id) : wrongGuesses s'.trace id = 0 := by
  refine List.countP_eq_zero.mpr fun e he hwrong => ?_
  obtain ⟨v, guess, htold, hid⟩ := wrongGuess_told hwrong
  have hcmp : Compares e id := ⟨v, guess, congrArg Sigma.fst htold, hid⟩
  obtain ⟨row, hrow, hrid⟩ := h.compared_call hr hc he hcmp
  have := h.rows.below row hrow
  omega

/-- Every wrong guess stays in the counter, or about to be. -/
theorem Watched.counted_call (h : Watched s)
    (hr : Recounted (Justified env) Plausible (Concluded env) s)
    (hr' : Recounted (Justified env) Plausible (Concluded env) s')
    (hc : Called (machine env) s s' i fate task command next reply)
    (hok : heedsCeiling s i fate command) {v' : Verification}
    (hv' : v' ∈ s'.world.db.verifications) :
    wrongGuesses s'.trace v'.id ≤ v'.attempts + s'.uncounted v'.id := by
  rcases (codes_call hc).mem_or hv' with ⟨v, hv, hsame⟩ | hnew
  · rw [hsame.id]
    have hbefore := h.counted v hv
    have hmore := hsame.attempts
    have hunc := uncounted_call hc v.id
    rw [wrongGuesses_call hc]
    by_cases hwrong : wrongGuess v.id ⟨command, reply⟩ = true
    · have := uncounted_wrong hr' hc hwrong
      rw [if_pos hwrong]
      omega
    · rw [if_neg hwrong]
      by_cases hcount : countsGuess v.id command = true
      · rw [if_pos hcount] at hunc
        have := attempts_call h.rows hc hcount (hok.2 v hv hcount) hv rfl hv' hsame.id
        omega
      · rw [if_neg hcount] at hunc
        omega
  · rw [h.new_unguessed hr hc hnew]
    exact Nat.zero_le _

/-- A guess is compared only when the row it read has passed the check of its attempts. So a code
whose attempts are as they were read, with no guess under way, is below its ceiling. -/
theorem Watched.below_of_stored (h : Watched s)
    (hr : Recounted (Justified env) Plausible (Concluded env) s)
    (hc : Called (machine env) s s' i fate task command next reply) {w : Verification}
    {guess : String} (hcmd : command = .safeEqual w guess) {v : Verification}
    (hv : v ∈ s.world.db.verifications) (hid : v.id = w.id) (hattempts : v.attempts = w.attempts)
    (hunder : s.uncounted v.id = 0) : wrongGuesses s.trace v.id < v.maxAttempts := by
  obtain ⟨row, hrow, hsame⟩ := h.row_of_comparison hr hc hcmd
  obtain rfl : row = v := h.rows.eq_of_key hrow hv (hsame.id.trans hid.symm)
  subst hcmd
  obtain ⟨-, -, now, user, type, email, u, -, -, hchecked⟩ := hr.allowed hc.thread
  have hcounted := h.counted row hrow
  have hmax := hsame.maxAttempts
  omega

/-- A wrong guess is compared only below the ceiling. -/
theorem Watched.bounded_call (h : Watched s)
    (hr : Recounted (Justified env) Plausible (Concluded env) s)
    (hc : Called (machine env) s s' i fate task command next reply)
    (hok : heedsCeiling s i fate command) {v' : Verification}
    (hv' : v' ∈ s'.world.db.verifications) :
    wrongGuesses s'.trace v'.id ≤ v'.maxAttempts := by
  rcases (codes_call hc).mem_or hv' with ⟨v, hv, hsame⟩ | hnew
  · rw [hsame.id, hsame.maxAttempts, wrongGuesses_call hc]
    by_cases hwrong : wrongGuess v.id ⟨command, reply⟩ = true
    · obtain ⟨w, guess, htold, hid⟩ := wrongGuess_told hwrong
      cases htold
      have hp : World.perform env fate (.safeEqual w guess) s.world = some (false, s'.world) :=
        hc.perform
      have hreply : false = decide (w.codeHash = guess) := plausible_of_perform hp
      rw [if_pos hwrong]
      rcases hok.1 (w, guess) rfl v hv hid.symm with ⟨hattempts, hunder⟩ | ⟨hright, -⟩
      · exact h.below_of_stored hr hc rfl hv hid.symm hattempts hunder
      · exact absurd hright (of_decide_eq_false hreply.symm)
    · rw [if_neg hwrong]
      exact h.bounded v hv
  · rw [h.new_unguessed hr hc hnew]
    exact Nat.zero_le _

/-- The row of a code stays the one it is. -/
theorem Watched.same_row (h : Watched s)
    (hc : Called (machine env) s s' i fate task command next reply) {v' : Verification}
    (hv' : v' ∈ s'.world.db.verifications) {id : Nat} (hid : v'.id = id)
    (hthere : ∃ v ∈ s.world.db.verifications, v.id = id) :
    ∃ v ∈ s.world.db.verifications, v.id = id ∧ SameCode v v' := by
  obtain ⟨v, hv, rfl⟩ := hthere
  exact ⟨v, hv, rfl, (codes_call hc).row lasting_code h.rows hv hv' hid⟩

/-- A code no longer pending is not consumed. -/
theorem Watched.not_redeemed (h : Watched s) {v : Verification}
    (hv : v ∈ s.world.db.verifications) (hover : v.status ≠ .PENDING) :
    ¬ Redeems ⟨i, command, reply, s.world, s'.world⟩ v.id := by
  rintro ⟨hbefore, -⟩
  rw [verification?_eq h.rows hv] at hbefore
  exact hover (Option.some.inj hbefore)

/-- The three commands before a comparison consume nothing. -/
theorem not_redeemed_before (hr : Recounted (Justified env) Plausible (Concluded env) s)
    (hperf : Performed (machine env) s) {newer older : List Event} {e e' : Event}
    (ht : s.trace = newer ++ e :: older) {id : Nat} (hcmp : Compares e id) (he' : e' ∈ older)
    (hthread : e'.thread = e.thread) : ¬ Redeems e' id := by
  obtain ⟨-, now, user, type, email, u, v, -, -, -, hpast⟩ := past_of_comparison hr ht hcmp
  have hmem : e'.told ∈ pastOf e.thread older := hthread ▸ Foundations.mem_pastOf_of_mem he'
  obtain ⟨f, hf⟩ := hperf e' (ht ▸ List.mem_append_right _ (List.mem_cons_of_mem _ he'))
  have hkeeps : e'.after.db.verifications = e'.before.db.verifications := by
    have hfind : ∀ (c : Call), Keeps Database.verifications (c.transaction e'.before.now) →
        e'.command = .repository c → e'.after.db.verifications = e'.before.db.verifications := by
      intro c hk hcmd
      rcases perform_db hf with hdb | ⟨c', hcmd', hdb⟩
      · rw [hdb]
      · rw [hcmd] at hcmd'
        cases hcmd'
        rw [hdb]
        exact (hk.atomically _).1
    rw [hpast] at hmem
    rcases List.mem_cons.mp hmem with htold | hmem
    · have hcmd : e'.command = .now := congrArg Sigma.fst htold
      rw [(perform_other (fun c hrepo => by rw [hcmd] at hrepo; cases hrepo) hf).1]
    · rcases List.mem_cons.mp hmem with htold | hmem
      · exact hfind _ ((keeps_findMany _).bind fun _ => keeps_pure _) (congrArg Sigma.fst htold)
      · exact hfind _ (keeps_findUser _) (congrArg Sigma.fst (List.mem_singleton.mp hmem))
  rintro ⟨hbefore, hafter⟩
  unfold Database.verification? at hbefore hafter
  rw [hkeeps, hbefore] at hafter
  cases hafter

/-- A guess compared at the ceiling is with a code that is over. -/
theorem Watched.over_call (h : Watched s)
    (hr : Recounted (Justified env) Plausible (Concluded env) s)
    (hr' : Recounted (Justified env) Plausible (Concluded env) s')
    (hperf' : Performed (machine env) s')
    (hc : Called (machine env) s s' i fate task command next reply)
    (hok : heedsCeiling s i fate command) {newer older : List Event} {e : Event}
    (ht : s'.trace = newer ++ e :: older) {v' : Verification}
    (hv' : v' ∈ s'.world.db.verifications) (hcmp : Compares e v'.id)
    (hceiling : v'.maxAttempts ≤ wrongGuesses older v'.id) :
    v'.status ≠ .PENDING ∧ ∀ e' ∈ s'.trace, e'.thread = e.thread → ¬ Redeems e' v'.id := by
  have he : e ∈ s'.trace := ht ▸ List.mem_append_right _ List.mem_cons_self
  obtain ⟨v, hv, hid, hsame⟩ := h.same_row hc hv' rfl (h.compared_call hr hc he hcmp)
  rw [hsame.maxAttempts] at hceiling
  rw [← hid] at hcmp hceiling ⊢
  rw [hc.trace] at ht
  cases newer with
  | nil =>
    -- the guess just compared: the row is as it was, and the code's own check no longer passes
    obtain ⟨rfl, rfl⟩ := List.cons.inj ht
    obtain ⟨w, guess, hcmd, hwid⟩ := hcmp
    dsimp only at hcmd
    have hover : v.status ≠ .PENDING := by
      subst hcmd
      rcases hok.1 (w, guess) rfl v hv hwid.symm with ⟨hattempts, hunder⟩ | ⟨-, hover⟩
      · have hbelow := h.below_of_stored hr hc rfl hv hwid.symm hattempts hunder
        omega
      · exact hover
    refine ⟨hsame.closed hover, fun e' he' hthread => ?_⟩
    rw [hc.trace] at he'
    rcases List.mem_cons.mp he' with rfl | he'
    · exact h.not_redeemed hv hover
    · have ht' : s'.trace = [] ++ ⟨i, command, reply, s.world, s'.world⟩ :: s.trace := hc.trace
      exact not_redeemed_before hr' hperf' ht' ⟨w, guess, hcmd, hwid⟩ he' hthread
  | cons e₀ newer =>
    obtain ⟨-, hrest⟩ := List.cons.inj ht
    obtain ⟨hover, hnone⟩ := h.closed newer e older hrest v hv hcmp hceiling
    refine ⟨hsame.closed hover, fun e' he' hthread => ?_⟩
    rw [hc.trace] at he'
    rcases List.mem_cons.mp he' with rfl | he'
    · exact h.not_redeemed hv hover
    · exact hnone e' he' hthread

/-- A code whose consumption is answered has been consumed. -/
theorem Watched.spent_call (h : Watched s)
    (hc : Called (machine env) s s' i fate task command next reply) {id : Nat}
    (htold : (∃ user at_ u, (⟨command, reply⟩ : (c : Command) × c.Reply) =
        ⟨.repository (.consumeEmailVerification id user at_), .ok u⟩) ∨
      ∃ user hash at_ u, (⟨command, reply⟩ : (c : Command) × c.Reply) =
        ⟨.repository (.consumePasswordReset id user hash at_), .ok u⟩) :
    Redeems ⟨i, command, reply, s.world, s'.world⟩ id := by
  have hk' := (codes_call hc).keyed lasting_code h.rows
  have hrows : (∃ v ∈ s.world.db.verifications, v.id = id ∧ v.status = .PENDING) ∧
      ∃ v ∈ s'.world.db.verifications, v.id = id ∧ v.status = .VERIFIED := by
    rcases htold with ⟨user, at_, u, htold⟩ | ⟨user, hash, at_, u, htold⟩
    · cases htold
      rcases perform_repository (perform_of_called hc) with ⟨hw, hr | ⟨e, hr⟩⟩ | ⟨-, e, hr⟩
      · rw [hw]
        exact spent_after (fun _ => keepsCodes_updateUser) (mapError_ok hr.symm)
      · cases hr
      · cases hr
    · cases htold
      rcases perform_repository (perform_of_called hc) with ⟨hw, hr | ⟨e, hr⟩⟩ | ⟨-, e, hr⟩
      · rw [hw]
        exact spent_after (fun _ => keepsCodes_updateManyTokens.bind fun _ =>
          keepsCodes_updateUser) (mapError_ok hr.symm)
      · cases hr
      · cases hr
  obtain ⟨⟨v, hv, rfl, hpending⟩, v', hv', hid, hverified⟩ := hrows
  refine ⟨?_, ?_⟩
  · show Option.map _ (s.world.db.verification? v.id) = _
    rw [verification?_eq h.rows hv]
    exact congrArg some hpending
  · show Option.map _ (s'.world.db.verification? v.id) = _
    rw [← hid, verification?_eq hk' hv']
    exact congrArg some hverified

/-- What a lookup finds is there. -/
theorem found_of_call (hc : Called (machine env) s s' i fate task command next reply) {id : Nat}
    {type : VerificationType} {v : Verification}
    (htold : (⟨command, reply⟩ : (c : Command) × c.Reply) =
      ⟨.repository (.findActiveVerification id type), .ok (some v)⟩) :
    v ∈ s'.world.db.verifications := by
  cases htold
  rcases perform_repository (perform_of_called hc) with ⟨hw, hr | ⟨e, hr⟩⟩ | ⟨-, e, hr⟩
  · have hfound := (findActiveVerification_answer (mapError_ok hr.symm)).1
    have hkeep : Keeps Database.verifications (findActiveVerification id type) :=
      (keeps_findMany _).bind fun _ => keeps_pure _
    rw [hw]
    show v ∈ Database.verifications (s.world.db.after _ _)
    rw [show (s.world.db.after s.world.now (.findActiveVerification id type)).verifications = _ from
      (hkeep.atomically _).1]
    exact hfound
  · cases hr
  · cases hr

theorem Watched.call (h : Watched s)
    (hr : Recounted (Justified env) Plausible (Concluded env) s)
    (hr' : Recounted (Justified env) Plausible (Concluded env) s')
    (hperf' : Performed (machine env) s')
    (hc : Called (machine env) s s' i fate task command next reply)
    (hok : heedsCeiling s i fate command) : Watched s' where
  rows := (codes_call hc).keyed lasting_code h.rows
  found e he id type v htold := by
    rw [hc.trace] at he
    rcases List.mem_cons.mp he with rfl | he
    · exact ⟨v, found_of_call hc htold, lasting_code.refl v⟩
    · obtain ⟨v', hv', hsame⟩ := h.found e he id type v htold
      obtain ⟨v'', hv'', hsame'⟩ := (codes_call hc).mem hv'
      exact ⟨v'', hv'', lasting_code.trans hsame hsame'⟩
  compared e he id hcmp := by
    obtain ⟨v, hv, rfl⟩ := h.compared_call hr hc he hcmp
    obtain ⟨v', hv', hsame⟩ := (codes_call hc).mem hv
    exact ⟨v', hv', hsame.id⟩
  counted _ hv' := h.counted_call hr hr' hc hok hv'
  bounded _ hv' := h.bounded_call hr hc hok hv'
  closed _ _ _ ht _ hv' hcmp hceiling :=
    h.over_call hr hr' hperf' hc hok ht hv' hcmp hceiling
  spent e he id htold := by
    rw [hc.trace] at he
    rcases List.mem_cons.mp he with rfl | he
    · exact h.spent_call hc htold
    · exact h.spent e he id htold

end Call

theorem Watched.spawn (h : Watched s) (t : Foundations.Thread Task Command Command.Reply Outcome) :
    Watched { s with threads := s.threads ++ [t] } where
  rows := h.rows
  found := h.found
  compared := h.compared
  counted v hv := by
    have hbefore := h.counted v hv
    unfold System.uncounted at hbefore ⊢
    dsimp only
    rw [List.countP_append]
    omega
  bounded := h.bounded
  closed := h.closed
  spent := h.spent

/-- The clock and the operators leave the codes as they are. -/
theorem Watched.move (h : Watched s) {move : Move} {world : World}
    (hm : World.move move s.world = some world) : Watched { s with world } := by
  have hsame : world.db.verifications = s.world.db.verifications ∧
      world.db.nextKey = s.world.db.nextKey := by
    cases move with
    | tick ms => cases hm; exact ⟨rfl, rfl⟩
    | setStatus id status => cases hm; exact ⟨verifications_update_user _ _, rfl⟩
  obtain ⟨hrows, hkey⟩ := hsame
  refine ⟨?_, ?_, ?_, ?_, ?_, ?_, h.spent⟩
  all_goals dsimp only
  all_goals rw [hrows]
  · rw [hkey]
    exact h.rows
  · exact h.found
  · exact h.compared
  · exact h.counted
  · exact h.bounded
  · exact h.closed

/-- One step that heeds the ceiling keeps the watch. -/
theorem Watched.step (h : Watched s)
    (hr : Recounted (Justified env) Plausible (Concluded env) s) (hperf : Performed (machine env) s)
    {l : Label} (hok : Pool.calls heedsCeiling s l) (hs : System.step env s l = some s') :
    Watched s' := by
  have hr' := hr.step (meets_task env) (fun _ _ _ _ _ _ hp => plausible_of_perform hp) hs
  have hperf' := hperf.step hs
  rcases Foundations.pool_step_cases hs with ⟨task, -, rfl⟩ |
    ⟨i, fate, task, command, next, reply, rfl, hc⟩ | ⟨move, world, -, hmove, rfl⟩
  · exact h.spawn _
  · exact h.call hr hr' hperf' hc (hok command hc.nextCommand)
  · exact h.move hmove

/-! ## The ceiling -/

/-- A request has one guess compared. -/
theorem comparison_unique (hr : Recounted (Justified env) Plausible (Concluded env) s)
    {e e' : Event} (he : e ∈ s.trace) (he' : e' ∈ s.trace) (hthread : e'.thread = e.thread)
    {id id' : Nat} (hcmp : Compares e id) (hcmp' : Compares e' id') : e.told = e'.told := by
  obtain ⟨newer, older, ht⟩ := List.append_of_mem he
  obtain ⟨newer', older', ht'⟩ := List.append_of_mem he'
  obtain ⟨-, now, user, type, email, u, v, -, -, -, hpast⟩ := past_of_comparison hr ht hcmp
  obtain ⟨-, now', user', type', email', u', v', -, -, -, hpast'⟩ := past_of_comparison hr ht' hcmp'
  rw [(Foundations.split_unique (ht.symm.trans ht') hthread.symm (by rw [hpast, hpast']; rfl)).1]

/-- A request whose guess came too late is not answered with success. -/
theorem Watched.unanswered (h : Watched s)
    (hr : Recounted (Justified env) Plausible (Concluded env) s) {newer older : List Event}
    {e : Event} (ht : s.trace = newer ++ e :: older) {v : Verification} (hcmp : Compares e v.id)
    (hnone : ∀ e' ∈ s.trace, e'.thread = e.thread → ¬ Redeems e' v.id) (a : Answer) :
    s.result e.thread ≠ some (.ok a) := by
  intro hresult
  obtain ⟨task, hthread⟩ := Foundations.result_eq_some hresult
  obtain ⟨task', -, -, -, -, -, -, htask', hcode, -, -⟩ := past_of_comparison hr ht hcmp
  have htask : s.task e.thread = some task := congrArg (Option.map Foundations.Thread.task) hthread
  obtain rfl : task = task' := Option.some.inj (htask.symm.trans htask')
  obtain ⟨w, guess, hheard, hconsumed⟩ := (hr.returned hthread).redeemed a hcode rfl
  obtain ⟨e', he', hthread', htold'⟩ := Foundations.mem_pastOf hheard
  have hsame := comparison_unique hr (ht ▸ List.mem_append_right _ List.mem_cons_self) he' hthread'
    hcmp ⟨w, guess, congrArg Sigma.fst htold', rfl⟩
  have hid : w.id = v.id := by
    obtain ⟨x, guess', hcmd, hid⟩ := hcmp
    have hcmd' : e.command = .safeEqual w guess := congrArg Sigma.fst (hsame.trans htold')
    rw [hcmd] at hcmd'
    cases hcmd'
    exact hid
  rw [hid] at hconsumed
  rcases hconsumed with ⟨user, at_, u, hspent⟩ | ⟨user, hash, at_, u, hspent⟩
  · obtain ⟨e'', he'', hthread'', htold''⟩ := Foundations.mem_pastOf hspent
    exact hnone e'' he'' hthread'' (h.spent e'' he'' v.id (.inl ⟨user, at_, u, htold''⟩))
  · obtain ⟨e'', he'', hthread'', htold''⟩ := Foundations.mem_pastOf hspent
    exact hnone e'' he'' hthread'' (h.spent e'' he'' v.id (.inr ⟨user, hash, at_, u, htold''⟩))

theorem Watched.ceiling (h : Watched s)
    (hr : Recounted (Justified env) Plausible (Concluded env) s) : Ceiling s where
  bounded := h.bounded
  rejected newer e older ht v hv hcmp hceiling := by
    obtain ⟨-, hnone⟩ := h.closed newer e older ht v hv hcmp hceiling
    exact ⟨h.unanswered hr ht hcmp hnone, hnone⟩

end

/-- While no guess is compared as another at its code is under way, and every wrong one is counted, no
code is compared with more wrong guesses than it allows, and a guess that comes after as many is
rejected. -/
theorem guesses_below_ceiling (env : Env) {world : World} (hw : world.db.verifications = [])
    {ls : List Label} {s : System}
    (hok : AllSteps (System.step env) (Pool.calls heedsCeiling) (Pool.start world) ls)
    (hrun : runs (System.step env) (Pool.start world) ls = some s) : Ceiling s := by
  have h := Foundations.invariant_of_allSteps
    (P := fun s => Watched s ∧ Recounted (Justified env) Plausible (Concluded env) s ∧
      Performed (machine env) s)
    (fun s l s' hl hs h => ⟨h.1.step h.2.1 h.2.2 hl hs,
      h.2.1.step (meets_task env) (fun _ _ _ _ _ _ hp => plausible_of_perform hp) hs,
      h.2.2.step hs⟩) hok hrun
    ⟨watched_start hw, Foundations.recounted_start, Foundations.performed_start⟩
  exact h.1.ceiling h.2.1

/-! Ada has forgotten her password, and is sent a code. -/

/-- She asks for a code. -/
def codeIssued : List Label :=
  alone 0 5 (.forgotPassword "ada@example.com" {}) ++
    [.call 0 (.remote (.ok (some "mail"))), .call 0 .served]

/-- One guess is wrong, and the next is right. -/
def guessedInTurn : List Label :=
  codeIssued ++ alone 1 5 (.resetPassword "ada@example.com" "wrong" "new" {}) ++
    alone 2 7 (.resetPassword "ada@example.com" "" "new" {})

theorem guesses_below_ceiling_inTurn :
    ∃ s, runs (System.step sampleEnv) (Pool.start adasWorld) guessedInTurn = some s ∧
      Ceiling s ∧ ∃ v ∈ s.world.db.verifications, wrongGuesses s.trace v.id = 1 ∧
        v.status = .VERIFIED := by
  have hrun : (runs (System.step sampleEnv) (Pool.start adasWorld) guessedInTurn).any
      (fun s => s.world.db.verifications.any fun v =>
        wrongGuesses s.trace v.id = 1 ∧ v.status = .VERIFIED) = true := by
    decide +kernel
  obtain ⟨s, hs, hall⟩ := (Option.any_eq_true _ _).mp hrun
  obtain ⟨v, hv, hguessed⟩ := List.any_eq_true.mp hall
  exact ⟨s, hs, guesses_below_ceiling sampleEnv rfl (by decide +kernel) hs, v, hv,
    of_decide_eq_true hguessed⟩

/-- Three wrong guesses are on their way before the first is counted. -/
def guessedAtOnce : List Label :=
  codeIssued ++ alone 1 3 (.resetPassword "ada@example.com" "wrong" "new" {}) ++
    alone 2 3 (.resetPassword "ada@example.com" "bad" "new" {}) ++
    alone 3 3 (.resetPassword "ada@example.com" "worse" "new" {}) ++
    [.call 1 .served, .call 2 .served, .call 3 .served]

/-- A code that allows two wrong guesses is compared with three. -/
theorem guesses_at_once_pass_ceiling :
    ∃ s, runs (System.step sampleEnv) (Pool.start adasWorld) guessedAtOnce = some s ∧
      ¬ Ceiling s := by
  have hrun : (runs (System.step sampleEnv) (Pool.start adasWorld) guessedAtOnce).any
      (fun s => s.world.db.verifications.any fun v =>
        v.maxAttempts < wrongGuesses s.trace v.id) = true := by
    decide +kernel
  obtain ⟨s, hs, hall⟩ := (Option.any_eq_true _ _).mp hrun
  obtain ⟨v, hv, hmore⟩ := List.any_eq_true.mp hall
  refine ⟨s, hs, fun h => ?_⟩
  have hbound := h.bounded v hv
  have hbeyond := of_decide_eq_true hmore
  omega

end PracticalMicroservice.Auth
