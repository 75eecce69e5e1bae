import PracticalMicroservice.Auth.Concurrency
import PracticalMicroservice.Auth.Proofs.InterleavingProofs

/-!
# No count is lost

However the transactions interleave, a count is what the committed calls have made of it, in the
order of their commits.
-/

namespace PracticalMicroservice.Auth

open Foundations (Access Accesses Left Pool Slot Traffic Undertaking Versions WroteAt runs)

/-! ## What a call makes of a count -/

/-- Each update changes the count as its call is to change it. -/
theorem Changes.count {call : Call} {now : Nat} {made : Accesses Row} {old row : Row}
    (h : Changes call now made old row) : row.count = call.tallies old.key old.count := by
  cases h with
  | user _ tallied => exact tallied
  | superseded _ ofCall _ =>
    rw [ofCall]
    rfl
  | counted ofCall =>
    rw [ofCall]
    exact (if_pos rfl).symm
  | mailed ofCall =>
    rw [ofCall]
    rfl
  | spent _ ofCall =>
    cases call with
    | consumeEmailVerification _ _ _ => rfl
    | consumePasswordReset _ _ _ _ => rfl
    | _ => cases ofCall
  | revoked _ _ => cases call <;> rfl
  | rotated _ ofCall _ _ _ =>
    rw [ofCall]
    rfl

/-- Only the calls that count something do more when they do it twice. -/
theorem tallies_twice {call : Call} (h : call.counts = false) (key : RowKey) (n : Nat) :
    call.tallies key (call.tallies key n) = call.tallies key n := by
  cases call with
  | registerFailedLogin _ _ => cases h
  | registerVerificationAttempt _ _ => cases h
  | registerSuccessfulLogin id _ =>
    cases key with
    | user id' =>
      show (if id' = id then 0 else if id' = id then 0 else n) = if id' = id then 0 else n
      split <;> rfl
    | _ => rfl
  | consumePasswordReset _ id _ _ =>
    cases key with
    | user id' =>
      show (if id' = id then 0 else if id' = id then 0 else n) = if id' = id then 0 else n
      split <;> rfl
    | _ => rfl
  | _ => cases key <;> rfl

/-- A call that commits has been where it has something to count or to reset. -/
theorem tallies_spared {call : Call} {made : Accesses Row} (h : Completes made call) {key : RowKey}
    (hspared : ∀ row, Left made row → row.key.id ≠ key.id) (n : Nat) : call.tallies key n = n := by
  have huser : ∀ {id : Nat}, (∃ u, Left made (.user u) ∧ u.id = id) → key.id ≠ id := by
    rintro id ⟨u, hu, rfl⟩ he
    exact hspared _ hu he.symm
  cases call with
  | registerFailedLogin id _ =>
    cases key with
    | user id' => exact if_neg (huser h)
    | _ => rfl
  | registerSuccessfulLogin id _ =>
    cases key with
    | user id' => exact if_neg (huser h)
    | _ => rfl
  | consumePasswordReset _ id _ _ =>
    cases key with
    | user id' => exact if_neg (huser h)
    | _ => rfl
  | registerVerificationAttempt id _ =>
    obtain ⟨v, hv, rfl⟩ := h
    cases key with
    | verification id' _ _ => exact if_neg fun he => hspared _ hv he.symm
    | _ => rfl
  | _ => cases key <;> rfl

/-- So the counts add up. -/
theorem tallying_fair (ok : Traffic Row (Call × Nat) → Nat → Transacting → Access Row → Prop) :
    tallying.Fair (discipline ok) where
  visits := by
    rintro c i u index whose change ⟨⟨hchanges, hfresh⟩, -⟩ old hold
    refine ⟨(hchanges old hold).count, fun hwrote b => tallies_twice ?_ _ _⟩
    refine Bool.eq_false_iff.mpr fun hcounts => ?_
    obtain ⟨whose', change', row, hm⟩ := hwrote
    exact hfresh hcounts whose' change' _ hm
  commits := by
    rintro c i u ⟨⟨hcompletes, -⟩, -⟩ key hspared n
    exact tallies_spared hcompletes hspared n
  changes := by
    rintro slot slot' (rfl | ⟨u, status, hu, rfl⟩)
    · rfl
    · exact (congrArg (Option.map Row.count) hu).symm

/-! ## Over whole runs -/

section Runs

variable {env : Env} {w : SharedWorld} {s s' : Interleaved} {ls ls' : List Interleaved.Label}

/-- However the transactions of the requests interleave, no count is lost: from any state on, the
count of a row is what the calls that have committed since have made of it, one after the other. -/
theorem counts_kept (hrest : AtRest w.tables)
    (hrun : runs (Interleaved.step env) (Pool.start w) ls = some s)
    (hrun' : runs (Interleaved.step env) s ls' = some s') {row : Row}
    (hrow : row ∈ s.world.tables.rows) :
    ∃ row' ∈ s'.world.tables.rows, ∃ newer, committed s'.trace = newer ++ committed s.trace ∧
      row'.key = row.key ∧ row'.count = tallying.total row.key row.count newer := by
  have hfair := tallying_fair fun _ _ _ _ => True
  obtain ⟨horderly, hpending⟩ : Harmonious env (fun _ _ _ _ => True) s ∧
      tallying.Pending (discipline fun _ _ _ _ => True) s.traffic :=
    every_kept (fun _ _ hs hp hstep => Foundations.Tally.pending_step hfair (lawful _) hs hp hstep)
      ⟨orderly_start hrest, Foundations.Tally.pending_start hrest.quiet⟩ hrun
  obtain ⟨k, slot, hk, hc⟩ := mem_rows_iff.mp hrow
  have hsince : tallying.Since (discipline fun _ _ _ _ => True) (committed s.trace) k row.key
      row.count s.traffic := ⟨slot, row, [], hk, hc, rfl, rfl, rfl⟩
  obtain ⟨-, -, slot', row', newer, hk', hc', hkey, hdone, hcount⟩ :=
    every_kept (P := fun c => tallying.Pending (discipline fun _ _ _ _ => True) c ∧
        tallying.Since (discipline fun _ _ _ _ => True) (committed s.trace) k row.key row.count c)
      (fun _ _ hs h hstep => ⟨Foundations.Tally.pending_step hfair (lawful _) hs h.1 hstep,
        Foundations.Tally.since_step hfair (lawful _) hs h.1 h.2 hstep⟩)
      ⟨horderly, hpending, hsince⟩ hrun'
  exact ⟨row', mem_rows_iff.mpr ⟨k, slot', hk', hc'⟩, newer, hdone, hkey, hcount⟩

theorem adaAlone_atRest : AtRest adaAlone.tables where
  quiet := by decide
  distinct := by decide
  numbered := by decide

/-- Two wrong passwords that are counted together are counted as two. -/
theorem counts_kept_together : ∃ s s' row',
    runs (Interleaved.step sampleEnv) (Pool.start adaAlone) bothWrong = some s ∧
      runs (Interleaved.step sampleEnv) s countedTogether = some s' ∧
      row' ∈ s'.world.tables.rows ∧ row'.key = .user ada.id ∧ row'.count = 2 := by
  have hsome : ((runs (Interleaved.step sampleEnv) (Pool.start adaAlone) bothWrong).any fun s =>
      decide (Row.user ada ∈ s.world.tables.rows) &&
        (runs (Interleaved.step sampleEnv) s countedTogether).any fun s' =>
          decide ((committed s'.trace).length = 2 + (committed s.trace).length) &&
            decide (((committed s'.trace).take 2).map (fun u => u.task.1) =
              [.registerFailedLogin 0 none, .registerFailedLogin 0 none])) = true := by
    decide +kernel
  obtain ⟨s, hs, hrest⟩ := (Option.any_eq_true _ _).mp hsome
  obtain ⟨hada, hrest⟩ := (Bool.and_eq_true _ _).mp hrest
  obtain ⟨s', hs', hrest⟩ := (Option.any_eq_true _ _).mp hrest
  obtain ⟨hlength, htasks⟩ := (Bool.and_eq_true _ _).mp hrest
  obtain ⟨row', hrow', newer, hnewer, hkey, hcount⟩ :=
    counts_kept adaAlone_atRest hs hs' (of_decide_eq_true hada)
  have hsum := of_decide_eq_true hlength
  rw [hnewer, List.length_append] at hsum
  have htwo : newer.length = 2 := Nat.add_right_cancel hsum
  have hcalls := of_decide_eq_true htasks
  rw [hnewer, List.take_left' htwo] at hcalls
  refine ⟨s, s', row', hs, hs', hrow', hkey, ?_⟩
  match newer, hcalls with
  | [u, u'], hcalls =>
    obtain ⟨hu, hu', -⟩ : u.task.1 = .registerFailedLogin 0 none ∧
        u'.task.1 = .registerFailedLogin 0 none ∧ True := by simpa using hcalls
    rw [hcount]
    show u.task.1.tallies _ (u'.task.1.tallies _ _) = 2
    rw [hu, hu']
    rfl

end Runs

end PracticalMicroservice.Auth
