import PracticalMicroservice.Cart.Proofs.AccountProofs
import PracticalMicroservice.Cart.Proofs.CallProofs
import PracticalMicroservice.Cart.Proofs.RetireProofs
import PracticalMicroservice.Cart.Proofs.SystemProofs
import PracticalMicroservice.Foundations.Shares

/-!
# The reserved count covers every record and every order

Along a run of truthful calls the claims on the reserved count stay covered: a call that enters its
section takes over the claim of the record, moves it with every call to inventory, and gives it back
when it leaves. The one thing that breaks it is a give-back that is not put right.
-/

namespace PracticalMicroservice.Cart

open Foundations (Meets Covers AllSteps runs Ensured ensured_bind ensured_pure)
open Inventory (Transition BulkBody units reservedOf)

/-! ## The accounts and the world -/

section Agreement

variable {lossy : Bool} {command : Command} {v : Verdict} {w w' : World}
  {accounts : Nat → Section} {i : Nat} {g' : Section}

/-- Who is inside its section has the record to itself, under the lock. -/
structure Agree (w : World) (accounts : Nat → Section) : Prop where
  record : ∀ i, (accounts i).stage = .inside →
    w.redis.record (accounts i).cart = (accounts i).fields
  locked : ∀ i, (accounts i).stage = .inside →
    w.redis.locks (.writeLock (accounts i).cart) ≠ none
  alone : ∀ i j, (accounts i).stage = .inside → (accounts j).stage = .inside →
    (accounts i).cart = (accounts j).cart → i = j

theorem Agree.others_elsewhere (h : Agree w accounts) (hi : (accounts i).stage = .inside) {j : Nat}
    (hj : j ≠ i) (hin : (accounts j).stage = .inside) : (accounts j).cart ≠ (accounts i).cart :=
  fun he => hj (h.alone j i hin hi he)

/-- One account changes; the others keep their records and locks, and stay out of its cart. -/
theorem Agree.update (h : Agree w accounts)
    (hme : g'.stage = .inside → w'.redis.record g'.cart = g'.fields ∧
      w'.redis.locks (.writeLock g'.cart) ≠ none)
    (hothers : ∀ j, j ≠ i → (accounts j).stage = .inside →
      w'.redis.record (accounts j).cart = w.redis.record (accounts j).cart ∧
      w'.redis.locks (.writeLock (accounts j).cart) ≠ none ∧
      (g'.stage = .inside → (accounts j).cart ≠ g'.cart)) :
    Agree w' (Function.update accounts i g') := by
  refine ⟨fun j hj => ?_, fun j hj => ?_, fun j k hj hk he => ?_⟩
  · by_cases hji : j = i
    · subst hji
      rw [Function.update_self] at hj ⊢
      exact (hme hj).1
    · rw [Function.update_of_ne hji] at hj ⊢
      exact (hothers j hji hj).1.trans (h.record j hj)
  · by_cases hji : j = i
    · subst hji
      rw [Function.update_self] at hj ⊢
      exact (hme hj).2
    · rw [Function.update_of_ne hji] at hj ⊢
      exact (hothers j hji hj).2.1
  · by_cases hji : j = i
    · by_cases hki : k = i
      · rw [hji, hki]
      · subst hji
        rw [Function.update_self] at hj he
        rw [Function.update_of_ne hki] at hk he
        exact absurd he.symm ((hothers k hki hk).2.2 hj)
    · rw [Function.update_of_ne hji] at hj he
      by_cases hki : k = i
      · subst hki
        rw [Function.update_self] at hk he
        exact absurd he ((hothers j hji hj).2.2 hk)
      · rw [Function.update_of_ne hki] at hk he
        exact h.alone j k hj hk he

theorem Agree.step (h : Agree w accounts)
    (hs : SectionStep lossy command v w w' (accounts i) g') :
    Agree w' (Function.update accounts i g') := by
  cases hs with
  | idle hw =>
    refine h.update (fun hin => ?_) fun j hj hin => ⟨hw.record _, hw.locks _ (h.locked j hin), ?_⟩
    · exact ⟨(hw.record _).trans (h.record i hin), hw.locks _ (h.locked i hin)⟩
    · exact fun hi => h.others_elsewhere hi hj hin
  | entered hstage hfree hlocked hw =>
    refine h.update (fun _ => ⟨hw.record _, hlocked⟩) fun j hj hin =>
      ⟨hw.record _, hw.locks _ (h.locked j hin), fun _ he => ?_⟩
    -- the lock was free, so no one was inside
    have hheld := h.locked j hin
    rw [show (accounts j).cart = (accounts i).cart from he] at hheld
    exact hheld hfree
  | left hstage hrecord hlocks hinv hcover =>
    refine h.update (fun hin => by cases hin) fun j hj hin => ⟨hrecord _, ?_, fun hi => by cases hi⟩
    rw [hlocks _ (h.others_elsewhere hstage hj hin)]
    exact h.locked j hin
  | wrote fields hstage hrecord hlocks hinv =>
    refine h.update (fun _ => ⟨?_, ?_⟩) fun j hj hin => ⟨?_, ?_, fun _ => ?_⟩
    · exact (hrecord _).trans (if_pos rfl)
    · rw [hlocks]
      exact h.locked i hstage
    · rw [hrecord, if_neg (h.others_elsewhere hstage hj hin)]
    · rw [hlocks]
      exact h.locked j hin
    · exact h.others_elsewhere hstage hj hin
  | moved t body hstage hcommand hv hacc hmoved hredis hcover =>
    refine h.update (fun _ => ?_) fun j hj hin => ⟨?_, ?_, fun _ => ?_⟩
    · rw [note_cart, note_fields, move_cart, move_fields, hredis]
      exact ⟨h.record i hstage, h.locked i hstage⟩
    · rw [hredis]
    · rw [hredis]
      exact h.locked j hin
    · rw [note_cart, move_cart]
      exact h.others_elsewhere hstage hj hin

/-! ## The claims -/

theorem occupied_update (accounts : Nat → Section) (i : Nat) (g' : Section) (c : SessionId) :
    Occupied (Function.update accounts i g') c ↔
      (g'.stage = .inside ∧ g'.cart = c) ∨
        ∃ j, j ≠ i ∧ (accounts j).stage = .inside ∧ (accounts j).cart = c := by
  constructor
  · rintro ⟨j, hj, hc⟩
    by_cases hji : j = i
    · subst hji
      rw [Function.update_self] at hj hc
      exact .inl ⟨hj, hc⟩
    · rw [Function.update_of_ne hji] at hj hc
      exact .inr ⟨j, hji, hj, hc⟩
  · rintro (⟨hs, hc⟩ | ⟨j, hji, hj, hc⟩)
    · refine ⟨i, ?_, ?_⟩
      · rwa [Function.update_self]
      · rwa [Function.update_self]
    · refine ⟨j, ?_, ?_⟩
      · rwa [Function.update_of_ne hji]
      · rwa [Function.update_of_ne hji]

theorem occupied_iff (accounts : Nat → Section) (i : Nat) (c : SessionId) :
    Occupied accounts c ↔
      ((accounts i).stage = .inside ∧ (accounts i).cart = c) ∨
        ∃ j, j ≠ i ∧ (accounts j).stage = .inside ∧ (accounts j).cart = c := by
  have h := occupied_update accounts i (accounts i) c
  rwa [Function.update_eq_self] at h

variable {others : String → Int} {p : String}

theorem claimOf_cart_occupied {c : SessionId} (h : Occupied accounts c) :
    claimOf w others accounts p (.cart c) = 0 := if_pos h

theorem claimOf_cart_free {c : SessionId} (h : ¬ Occupied accounts c) :
    claimOf w others accounts p (.cart c) = recorded (w.redis.record c) p := if_neg h

/-- The claims a change of one account leaves alone. -/
theorem claimOf_frame {x : Holder} (hx : x ≠ .thread i)
    (hcart : ∀ c, x = .cart c → (Occupied (Function.update accounts i g') c ↔ Occupied accounts c) ∧
      (¬ Occupied accounts c → w'.redis.record c = w.redis.record c)) :
    claimOf w' others (Function.update accounts i g') p x = claimOf w others accounts p x := by
  cases x with
  | cart c =>
    obtain ⟨hocc, hrec⟩ := hcart c rfl
    by_cases ho : Occupied accounts c
    · rw [claimOf_cart_occupied ho, claimOf_cart_occupied (hocc.mpr ho)]
    · rw [claimOf_cart_free ho, claimOf_cart_free (fun h => ho (hocc.mp h)), hrec ho]
  | thread j =>
    have hj : j ≠ i := fun h => hx (h ▸ rfl)
    show (Function.update accounts i g' j).share p = (accounts j).share p
    rw [Function.update_of_ne hj]
  | others => rfl

@[simp] theorem claimOf_thread_update :
    claimOf w' others (Function.update accounts i g') p (.thread i) = g'.share p := by
  show (Function.update accounts i g' i).share p = g'.share p
  rw [Function.update_self]

/-- An account that stays on its cart and in its stage. -/
theorem occupied_same_stage (hstage : g'.stage = (accounts i).stage)
    (hcart : g'.cart = (accounts i).cart) (c : SessionId) :
    Occupied (Function.update accounts i g') c ↔ Occupied accounts c := by
  rw [occupied_update, occupied_iff accounts i, hstage, hcart]

theorem covers_step (h : Agree w accounts)
    (hs : SectionStep false command v w w' (accounts i) g')
    (howed : owedFailed (accounts i).past = false)
    (hc : Covers (claimOf w others accounts p) (reservedOf w.inventory p)) :
    Covers (claimOf w' others (Function.update accounts i g') p) (reservedOf w'.inventory p) := by
  cases hs with
  | idle hw =>
    rw [hw.inventory]
    refine hc.congr fun x => ?_
    by_cases hx : x = .thread i
    · subst hx
      exact claimOf_thread_update
    · exact claimOf_frame hx fun c _ =>
        ⟨occupied_same_stage (note_stage _ _ _) (note_cart _ _ _) c, fun _ => hw.record c⟩
  | wrote fields hstage hrecord hlocks hinv =>
    rw [hinv]
    refine hc.congr fun x => ?_
    by_cases hx : x = .thread i
    · subst hx
      refine claimOf_thread_update.trans ?_
      have hinside : ((accounts i).write fields).stage = .inside := hstage
      show ((accounts i).write fields).share p = (accounts i).share p
      unfold Section.share
      rw [hinside, hstage]
      rfl
    · refine claimOf_frame hx fun c _ => ⟨?_, fun hfree => ?_⟩
      · exact occupied_same_stage (note_stage ((accounts i).write fields) command v)
          (note_cart ((accounts i).write fields) command v) c
      · rw [hrecord, if_neg]
        rintro rfl
        exact hfree ⟨i, hstage, rfl⟩
  | entered hstage hfree hlocked hw =>
    rw [hw.inventory]
    have hvacant : ¬ Occupied accounts (accounts i).cart := by
      rintro ⟨j, hj, he⟩
      exact h.locked j hj (he ▸ hfree)
    refine hc.transfer (.cart (accounts i).cart) (.thread i) (by simp)
      (n := recorded (w.redis.record (accounts i).cart) p) (by omega) ?_ ?_ ?_ fun x hxc hxt => ?_
    · rw [claimOf_cart_free hvacant]
    · rw [claimOf_cart_free hvacant, claimOf_cart_occupied]
      · omega
      · exact (occupied_update _ _ _ _).mpr (.inl ⟨rfl, rfl⟩)
    · have hbefore : (accounts i).share p = 0 := by
        unfold Section.share
        rw [hstage]
      refine claimOf_thread_update.trans ?_
      show (recorded (w.redis.record (accounts i).cart) p + 0 + 0 : Int) =
        (accounts i).share p + recorded (w.redis.record (accounts i).cart) p
      omega
    · refine claimOf_frame hxt fun c hxe => ⟨?_, fun _ => hw.record c⟩
      subst hxe
      have hne : (accounts i).cart ≠ c := fun he => hxc (he ▸ rfl)
      rw [occupied_update, occupied_iff accounts i]
      refine or_congr_left ⟨fun hin => absurd hin.2 hne, fun hin => absurd hin.2 hne⟩
  | left hstage hrecord hlocks hinv hcover =>
    rw [hinv]
    have hocc : Occupied accounts (accounts i).cart := ⟨i, hstage, rfl⟩
    have hleft : ∀ c, Occupied (Function.update accounts i
        ((accounts i).leave.note command v)) c ↔
        ∃ j, j ≠ i ∧ (accounts j).stage = .inside ∧ (accounts j).cart = c := by
      intro c
      rw [occupied_update]
      exact or_iff_right fun hin => by cases hin.1
    have hvacant : ¬ Occupied (Function.update accounts i ((accounts i).leave.note command v))
        (accounts i).cart := by
      rw [hleft]
      rintro ⟨j, hji, hj, he⟩
      exact h.others_elsewhere hstage hji hj he
    refine hc.transfer (.thread i) (.cart (accounts i).cart) (by simp)
      (n := recorded (accounts i).fields p) (by omega) ?_ ?_ ?_ fun x hxt hxc => ?_
    · have hshare : claimOf w others accounts p (.thread i) = (accounts i).claim p := by
        show (accounts i).share p = _
        unfold Section.share
        rw [hstage]
      rw [hshare]
      exact hcover rfl howed p
    · refine claimOf_thread_update.trans ?_
      show (accounts i).claim p - recorded (accounts i).fields p =
        (accounts i).share p - recorded (accounts i).fields p
      unfold Section.share
      rw [hstage]
    · rw [claimOf_cart_free hvacant, claimOf_cart_occupied hocc, hrecord, h.record i hstage]
      omega
    · refine claimOf_frame hxt fun c hxe => ⟨?_, fun _ => hrecord c⟩
      subst hxe
      have hne : (accounts i).cart ≠ c := fun he => hxc (he ▸ rfl)
      rw [hleft, occupied_iff accounts i]
      exact (or_iff_right fun hin => hne hin.2).symm
  | moved t body hstage hcommand hv hacc hmoved hredis hcover =>
    rw [hmoved.reserved]
    have hold : claimOf w others accounts p (.thread i) = (accounts i).claim p := by
      show (accounts i).share p = _
      unfold Section.share
      rw [hstage]
    have hnew : claimOf w' others (Function.update accounts i
        (((accounts i).move t body).note command v)) p (.thread i) =
        (accounts i).claim p + t.shift * units body.items p := by
      rw [claimOf_thread_update]
      unfold Section.share
      rw [note_stage, move_stage, hstage]
      exact (note_claim _ _ _ _).trans (move_claim _ t body p)
    have hrest : ∀ x, x ≠ Holder.thread i →
        claimOf w' others (Function.update accounts i
          (((accounts i).move t body).note command v)) p x = claimOf w others accounts p x := by
      refine fun x hx => claimOf_frame hx fun c _ => ⟨?_, fun _ => by rw [hredis]⟩
      refine occupied_same_stage ?_ ?_ c
      · rw [note_stage, move_stage]
      · rw [note_cart, move_cart]
    cases t with
    | reserve =>
      refine hc.deposit (.thread i) ?_ (hnew.trans (by rw [hold])) hrest
      have := hacc.units_nonneg p
      simp only [Transition.shift]
      omega
    | release =>
      have hw := hc.withdraw (.thread i) (n := units body.items p) ?_ (hnew.trans ?_) hrest
      · simp only [Transition.shift]
        rwa [Int.neg_mul, Int.one_mul, ← Int.sub_eq_add_neg]
      · rw [hold]
        exact hcover rfl p
      · rw [hold]
        simp only [Transition.shift]
        omega

end Agreement

/-! ## The invariant of a run -/

/-- A checkout that returns answers for the units it says it handed over. -/
def handsOver (result : Except Exception (Option CheckoutResult)) (g : Section) : Prop :=
  ∀ settled, result = .ok (some settled) → ∀ p, (quantityOf settled.lines p : Int) ≤ g.share p

/-- Every thread keeps an account, the accounts agree with the world and the trace, and the reserved
counts cover the claims. -/
structure Accounted (s : System) (accounts : Nat → Section) : Prop where
  governed : Governed (sectionContract false) handsOver s.threads accounts
  unborn : ∀ i, s.threads.length ≤ i → ∃ cart, accounts i = .fresh cart
  past : ∀ i, (accounts i).past = pastOf s.trace i
  lock : ∀ i, lockHeld (accounts i).past =
    if (accounts i).stage = .inside then some (accounts i).cart else none
  owed : ∀ i, owedFailed (accounts i).past = false
  agree : Agree s.world accounts
  others : ∀ p, 0 ≤ s.others p
  covers : ∀ p, Covers (claimOf s.world s.others accounts p) (reservedOf s.world.inventory p)

section Steps

variable {env : Env} {s s' : System} {accounts : Nat → Section}

theorem Accounted.inSection_iff (h : Accounted s accounts) (i : Nat) (cart : SessionId) :
    s.inSection i cart ↔ (accounts i).stage = .inside ∧ (accounts i).cart = cart := by
  unfold System.inSection
  rw [← h.past, h.lock]
  by_cases hs : (accounts i).stage = .inside
  · simp [hs]
  · simp [hs]

theorem Accounted.born (h : Accounted s accounts) {i : Nat} (hi : (accounts i).stage = .inside) :
    i < s.threads.length := by
  by_contra hge
  obtain ⟨c, hc⟩ := h.unborn i (by omega)
  rw [hc] at hi
  cases hi

theorem Accounted.call (h : Accounted s accounts) {i : Nat} {fate : Fate}
    (hcall : s.call i fate = some s') (hfate : fate ≠ .replyLost)
    (hright : putsRight s (.call i fate)) : ∃ accounts', Accounted s' accounts' := by
  obtain ⟨t, command, next, hc⟩ := called_of_call hcall
  obtain ⟨g', hr, hs⟩ : Foreseen false fate command s.world (accounts i) :=
    foreseen (h.governed.allows hc) (h.agree.record i)
  have hallow := h.governed.allows hc
  have hpast : ∀ j, (Function.update accounts i g' j).past = pastOf s'.trace j := by
    intro j
    rw [hc.trace, pastOf_performed]
    by_cases hj : j = i
    · subst hj
      rw [Function.update_self, hs.past, h.past, if_pos rfl]
    · rw [Function.update_of_ne hj, h.past, if_neg (Ne.symm hj)]
  rw [← hc.world] at hs
  refine ⟨Function.update accounts i g', ?_, fun j hj => ?_, hpast, fun j => ?_, fun j => ?_,
    h.agree.step hs, ?_, fun p => ?_⟩
  · exact h.governed.call hc ⟨_, fun hv => absurd (verdict_untold hv) hfate, hr⟩
  · rw [hc.length] at hj
    have hlt := hc.lt
    rw [Function.update_of_ne (by omega)]
    exact h.unborn j hj
  · by_cases hj : j = i
    · subst hj
      rw [Function.update_self]
      exact lockHeld_of_reply hallow hr (h.lock j)
    · rw [Function.update_of_ne hj]
      exact h.lock j
  · by_cases hj : j = i
    · subst hj
      rw [Function.update_self, hs.past, owedFailed_cons, h.owed, Bool.or_false]
      have hr := hright command hc.nextCommand
      rw [← h.past] at hr
      by_contra hcon
      obtain ⟨hcon, hgave⟩ := (Bool.and_eq_true _ _).mp (Bool.not_eq_false _ ▸ hcon)
      obtain ⟨hkind, hv⟩ := (Bool.and_eq_true _ _).mp hcon
      exact hr hgave hkind (by simpa using hv)
    · rw [Function.update_of_ne hj]
      exact h.owed j
  · rw [hc.others]
    exact h.others
  · rw [hc.others]
    exact covers_step h.agree hs (h.owed i) (h.covers p)

/-- A step that touches none of what the accounts rest on. -/
theorem Accounted.frame (h : Accounted s accounts) (hthreads : s'.threads = s.threads)
    (htrace : s'.trace = s.trace) (hothers : s'.others = s.others)
    (hrecord : ∀ c, s'.world.redis.record c = s.world.redis.record c)
    (hlocks : ∀ i, (accounts i).stage = .inside →
      s'.world.redis.locks (.writeLock (accounts i).cart) =
        s.world.redis.locks (.writeLock (accounts i).cart))
    (hinventory : s'.world.inventory = s.world.inventory) : Accounted s' accounts := by
  refine ⟨hthreads ▸ h.governed, hthreads ▸ h.unborn, htrace ▸ h.past, h.lock, h.owed, ?_,
    hothers ▸ h.others, fun p => ?_⟩
  · exact ⟨fun i hi => (hrecord _).trans (h.agree.record i hi),
      fun i hi => by rw [hlocks i hi]; exact h.agree.locked i hi, h.agree.alone⟩
  · rw [hinventory, hothers]
    refine (h.covers p).congr fun x => ?_
    cases x with
    | cart c =>
      by_cases ho : Occupied accounts c
      · rw [claimOf_cart_occupied ho, claimOf_cart_occupied ho]
      · rw [claimOf_cart_free ho, claimOf_cart_free ho, hrecord]
    | thread j => rfl
    | others => rfl

/-- The claims of the holders do not depend on an account that has not begun. -/
theorem Accounted.spawn (h : Accounted s accounts) {t : Thread} {cart : SessionId}
    (ht : Meets (sectionContract false) t.program handsOver (.fresh cart)) :
    Accounted { s with threads := s.threads ++ [t] }
      (Function.update accounts s.threads.length (.fresh cart)) := by
  obtain ⟨old, hold⟩ := h.unborn s.threads.length (Nat.le_refl _)
  have hsame : ∀ {α : Type} (f : Section → α), (∀ c c', f (.fresh c) = f (.fresh c')) →
      ∀ j, f (Function.update accounts s.threads.length (.fresh cart) j) = f (accounts j) := by
    intro α f hf j
    by_cases hj : j = s.threads.length
    · rw [hj, Function.update_self, hold]
      exact hf _ _
    · rw [Function.update_of_ne hj]
  have hin : ∀ {j}, (Function.update accounts s.threads.length (.fresh cart) j).stage = .inside →
      Function.update accounts s.threads.length (.fresh cart) j = accounts j := by
    intro j hj
    have hne : j ≠ s.threads.length := by
      rintro rfl
      rw [Function.update_self] at hj
      cases hj
    exact Function.update_of_ne hne _ _
  refine ⟨h.governed.push ht, fun j hj => ?_, fun j => ?_, fun j => ?_, fun j => ?_, ?_, h.others,
    fun p => ?_⟩
  · have hlen : s.threads.length + 1 ≤ j := by simpa using hj
    rw [Function.update_of_ne (by omega)]
    exact h.unborn j (by omega)
  · exact (hsame Section.past (fun _ _ => rfl) j).trans (h.past j)
  · by_cases hj : (Function.update accounts s.threads.length (.fresh cart) j).stage = .inside
    · rw [hin hj]
      exact h.lock j
    · rw [hsame Section.past (fun _ _ => rfl), if_neg hj, h.lock, if_neg]
      rwa [hsame Section.stage (fun _ _ => rfl)] at hj
  · exact (congrArg owedFailed (hsame Section.past (fun _ _ => rfl) j)).trans (h.owed j)
  · refine ⟨fun j hj => ?_, fun j hj => ?_, fun j k hj hk he => ?_⟩
    · have hsame := hin hj
      rw [hsame] at hj ⊢
      exact h.agree.record j hj
    · have hsame := hin hj
      rw [hsame] at hj ⊢
      exact h.agree.locked j hj
    · have hj' := hin hj
      have hk' := hin hk
      rw [hj'] at hj he
      rw [hk'] at hk he
      exact h.agree.alone j k hj hk he
  · refine (h.covers p).congr fun x => ?_
    by_cases hx : x = .thread s.threads.length
    · subst hx
      rw [claimOf_thread_update]
      show (0 : Int) = (accounts s.threads.length).share p
      rw [hold]
      rfl
    · refine claimOf_frame hx fun c _ => ⟨?_, fun _ => rfl⟩
      rw [occupied_update, occupied_iff accounts s.threads.length, hold]
      refine or_congr_left ⟨?_, ?_⟩
      · rintro ⟨hin, -⟩
        cases hin
      · rintro ⟨hin, -⟩
        cases hin

/-- The calls of the claim keep to their contract from a fresh account. -/
theorem meets_task {task : Task} (h : task.movesStock = true) : ∃ cart,
    Meets (sectionContract false) (task.run env.overHttp).run handsOver (.fresh cart) := by
  have hnone : ∀ g, handsOver (.ok none) g := fun g settled he => by cases he
  have herr : ∀ e g, True → handsOver (.error e) g := fun e g _ settled he => by cases he
  cases task with
  | setLines requested cart context =>
    have hrun : Ensured (sectionContract false)
        (Task.run env.overHttp (.setLines requested cart context))
        (fun r _ => r = none) (fun _ _ => True) (.fresh cart) := by
      rw [Task.run, ensured_bind]
      exact (ensured_setLines (outside_fresh cart)).mono (fun _ _ _ => rfl) fun _ _ _ => trivial
    exact ⟨cart, Ensured.meets hrun (fun r g hr => hr ▸ hnone g) herr⟩
  | checkout cart orderId context =>
    have hrun : Ensured (sectionContract false)
        (Task.run env.overHttp (.checkout cart orderId context))
        (fun r g => ∀ settled, r = some settled → ∀ p, (quantityOf settled.lines p : Int) ≤ g.share p)
        (fun _ _ => True) (.fresh cart) := by
      rw [Task.run, ensured_bind]
      refine (ensured_checkout (outside_fresh cart)).mono (fun r g hr => ?_) fun _ _ _ => trivial
      rintro settled ⟨⟩
      exact hr.2.2
    refine ⟨cart, Ensured.meets hrun (fun r g hr settled he => ?_) herr⟩
    cases he
    exact hr settled rfl
  | releaseSession cart cause =>
    have hrun : Ensured (sectionContract false)
        (Task.run env.overHttp (.releaseSession cart cause))
        (fun r _ => r = none) (fun _ _ => True) (.fresh cart) := by
      rw [Task.run, ensured_bind]
      exact (ensured_releaseSession (outside_fresh cart)).mono (fun _ _ _ => rfl) fun _ _ _ => trivial
    exact ⟨cart, Ensured.meets hrun (fun r g hr => hr ▸ hnone g) herr⟩
  | setItems items claimed context => cases h
  | getCart claimed => cases h
  | checkoutCart orderId claimed context => cases h
  | abandon claimed => cases h
  | sweep => cases h
  | repository call cart => cases h

theorem claimOf_frame_others {w : World} {others others' : String → Int} {db : Inventory.Database}
    {p : String} {x : Holder} (hx : x ≠ .others) :
    claimOf { w with inventory := db } others' accounts p x = claimOf w others accounts p x := by
  cases x with
  | cart c => rfl
  | thread j => rfl
  | others => exact absurd rfl hx

/-- Another shopper's call moves what the others hold, and the counter with it. -/
theorem Accounted.other (h : Accounted s accounts) (t : Transition) (body : BulkBody)
    (hback : truthful s (.other t body)) : Accounted (s.other t body) accounts := by
  obtain ⟨hacc, hok, hmoved⟩ | ⟨-, hok, hdb, -⟩ :=
    Inventory.bulkRoute_cases t body s.world.inventory
  · have hothers : ∀ p, (s.other t body).others p =
        s.others p + t.shift * units body.items p := by
      intro p
      show (if (Inventory.bulkRoute t body s.world.inventory).1.isOk then _ else _) = _
      rw [if_pos hok]
      cases t with
      | reserve => simp only [Transition.shift]; omega
      | release => simp only [Transition.shift]; omega
    -- what a batch does not name, it does not take from the others either
    have hle : t = .release → ∀ p, units body.items p ≤ s.others p := by
      rintro rfl p
      by_cases hm : p ∈ body.items.map (·.productId)
      · obtain ⟨line, hl, rfl⟩ := List.mem_map.mp hm
        exact hback line hl
      · rw [Inventory.units_of_not_mem hm]
        exact h.others p
    refine ⟨h.governed, h.unborn, h.past, h.lock, h.owed,
      ⟨h.agree.record, h.agree.locked, h.agree.alone⟩, fun p => ?_, fun p => ?_⟩
    · rw [hothers]
      have h0 := h.others p
      have hu := hacc.units_nonneg p
      cases t with
      | reserve => simp only [Transition.shift]; omega
      | release =>
        have := hle rfl p
        simp only [Transition.shift]
        omega
    · show Covers _ (reservedOf (Inventory.bulkRoute t body s.world.inventory).2 p)
      rw [hmoved.reserved]
      cases t with
      | reserve =>
        refine (h.covers p).deposit .others ?_ (hothers p) fun x hx => claimOf_frame_others hx
        have := hacc.units_nonneg p
        simp only [Transition.shift]
        omega
      | release =>
        have hw : Covers (claimOf (s.other .release body).world (s.other .release body).others
            accounts p) (reservedOf s.world.inventory p - units body.items p) := by
          refine (h.covers p).withdraw .others (hle rfl p) ?_ fun x hx => claimOf_frame_others hx
          refine (hothers p).trans ?_
          show _ = s.others p - units body.items p
          simp only [Transition.shift]
          omega
        simp only [Transition.shift]
        rwa [Int.neg_mul, Int.one_mul, ← Int.sub_eq_add_neg]
  · refine h.frame rfl rfl ?_ (fun c => rfl) (fun i _ => rfl) hdb
    funext p
    show (if (Inventory.bulkRoute t body s.world.inventory).1.isOk then _ else _) = _
    rw [if_neg (by rw [hok]; exact Bool.false_ne_true)]

theorem Accounted.step (h : Accounted s accounts) {l : Label} (hok : truthful s l)
    (hright : putsRight s l) (hstep : System.step env.overHttp s l = some s') :
    ∃ accounts', Accounted s' accounts' := by
  cases l with
  | spawn task =>
    obtain rfl := Option.some.inj hstep
    obtain ⟨cart, hm⟩ := meets_task hok
    exact ⟨_, h.spawn hm⟩
  | notify notice => exact hok.elim
  | call thread fate => exact h.call hstep hok hright
  | crash thread => exact hok.elim
  | lapse key =>
    obtain rfl := Option.some.inj hstep
    refine ⟨accounts, h.frame rfl rfl rfl (fun c => rfl) (fun i hi => ?_) rfl⟩
    refine if_neg fun he => ?_
    subst he
    exact hok i (h.born hi) ((h.inSection_iff i _).mpr ⟨hi, rfl⟩)
  | tick ms =>
    obtain rfl := Option.some.inj hstep
    exact ⟨accounts, h.frame rfl rfl rfl (fun c => rfl) (fun i _ => rfl) rfl⟩
  | expire cart =>
    obtain ⟨e, -, -, rfl⟩ := step_expire hstep
    exact ⟨accounts, h.frame rfl rfl rfl (fun c => rfl) (fun i _ => rfl) rfl⟩
  | other t body =>
    obtain rfl := Option.some.inj hstep
    exact ⟨accounts, h.other t body hok⟩
  | consume message fate => exact hok.elim

/-- Before anything has happened, only other shoppers have a claim. -/
theorem accounted_start {world : World} {others : String → Int} {now : Nat}
    (hempty : world.redis = .empty now)
    (hothers : ∀ p, 0 ≤ others p ∧ others p ≤ reservedOf world.inventory p) (cart : SessionId) :
    Accounted (.start world others []) fun _ => .fresh cart := by
  refine ⟨governed_nil _, fun i _ => ⟨cart, rfl⟩, fun i => rfl, fun i => rfl, fun i => rfl,
    ⟨fun i hi => absurd hi (by simp [Section.fresh]), fun i hi => absurd hi (by simp [Section.fresh]),
      fun i j hi => absurd hi (by simp [Section.fresh])⟩, fun p => (hothers p).1, fun p A => ?_⟩
  have hzero : ∀ x, x ≠ Holder.others →
      claimOf world others (fun _ => .fresh cart) p x = 0 := by
    intro x hx
    cases x with
    | cart c =>
      have hfree : ¬ Occupied (fun _ => Section.fresh cart) c := by
        rintro ⟨j, hj, -⟩
        cases hj
      rw [claimOf_cart_free hfree, hempty]
      rfl
    | thread j => rfl
    | others => exact absurd rfl hx
  show ∑ x ∈ A, claimOf world others (fun _ => .fresh cart) p x ≤ reservedOf world.inventory p
  obtain ⟨h0, hle⟩ := hothers p
  by_cases hm : Holder.others ∈ A
  · rw [Finset.sum_eq_single_of_mem _ hm fun x _ hx => hzero x hx]
    exact hle
  · rw [Finset.sum_eq_zero fun x hx => hzero x fun he => hm (he ▸ hx)]
    omega

/-- The records of the carts no one is inside of, and what finished checkouts handed over. -/
theorem Accounted.records_and_orders (h : Accounted s accounts)
    (hout : s.quiet) (carts : Finset SessionId) (orders : Finset Nat)
    (p : String) :
    ∑ c ∈ carts, (recorded (s.world.redis.record c) p : Int) + ∑ i ∈ orders, s.handedBy i p ≤
      reservedOf s.world.inventory p := by
  have hfree : ∀ c, ¬ Occupied accounts c := by
    rintro c ⟨i, hi, -⟩
    have hnone := hout i (h.born hi)
    rw [← h.past, h.lock, if_pos hi] at hnone
    cases hnone
  have hhanded : ∀ i, s.handedBy i p ≠ 0 → s.handedBy i p ≤ (accounts i).share p := by
    intro i hne
    unfold System.handedBy at hne ⊢
    split at hne
    · rename_i t ht
      split at hne
      · rename_i settled hp
        have hm := h.governed i t ht
        rw [hp] at hm
        exact hm settled rfl p
      · exact absurd rfl hne
    · exact absurd rfl hne
  -- the carts and the threads are different holders
  have hcov := h.covers p (carts.map ⟨Holder.cart, fun _ _ he => Holder.cart.inj he⟩ ∪
    (orders.filter fun i => s.handedBy i p ≠ 0).map
      ⟨Holder.thread, fun _ _ he => Holder.thread.inj he⟩)
  rw [Finset.sum_union, Finset.sum_map, Finset.sum_map] at hcov
  · have hcarts : ∑ c ∈ carts, claimOf s.world s.others accounts p (.cart c) =
        ∑ c ∈ carts, (recorded (s.world.redis.record c) p : Int) :=
      Finset.sum_congr rfl fun c _ => claimOf_cart_free (hfree c)
    have horders : ∑ i ∈ orders, s.handedBy i p ≤
        ∑ i ∈ orders.filter fun i => s.handedBy i p ≠ 0,
          claimOf s.world s.others accounts p (.thread i) := by
      rw [← Finset.sum_filter_ne_zero]
      exact Finset.sum_le_sum fun i hi => hhanded i (Finset.mem_filter.mp hi).2
    refine le_trans (add_le_add (le_of_eq hcarts.symm) horders) hcov
  · rw [Finset.disjoint_left]
    intro x hx hy
    obtain ⟨c, -, rfl⟩ := Finset.mem_map.mp hx
    obtain ⟨i, -, hi⟩ := Finset.mem_map.mp hy
    cases hi

end Steps

/-- In every state such a run reaches, the reserved count of a product is at least what the records
list and what successful checkouts handed to orders: the claim as it stands. -/
def Conserved (env : Env) (world : World) (others : String → Int) (labels : List Label) : Prop :=
  ∀ s, runs (System.step env) (.start world others []) labels = some s →
    s.quiet → ∀ (carts : Finset SessionId) (orders : Finset Nat) p,
      ∑ c ∈ carts, (recorded (s.world.redis.record c) p : Int) + ∑ i ∈ orders, s.handedBy i p ≤
        reservedOf s.world.inventory p

/-- Truthful calls keep the reserved counts above what is recorded and handed over, as long as no
give-back is left undone. -/
theorem reserved_covers_records_and_orders (env : Env) (world : World) (others : String → Int)
    (now : Nat) (labels : List Label) (hempty : world.redis = .empty now)
    (hothers : ∀ p, 0 ≤ others p ∧ others p ≤ reservedOf world.inventory p)
    (htruthful : AllSteps (System.step env.overHttp) truthful (.start world others []) labels)
    (hright : AllSteps (System.step env.overHttp) putsRight (.start world others []) labels) :
    Conserved env.overHttp world others labels := by
  intro s hrun hout carts orders p
  have hall := htruthful.and hright
  obtain ⟨accounts, h⟩ := Foundations.invariant_of_allSteps
    (P := fun s => ∃ accounts, Accounted s accounts)
    (fun s l s' hok hstep ⟨accounts, h⟩ => h.step hok.1 hok.2 hstep) hall hrun
    ⟨_, accounted_start hempty hothers ⟨"", by decide⟩⟩
  exact h.records_and_orders hout carts orders p

/-! A cart of two lamps, all there are; its shopper puts one back. -/

def lamps (quantity : Nat) : List CartLine := [{ productId := Inventory.lampId, quantity }]

def lampWorld : World where
  inventory := Inventory.warehouse ⟨2, 0⟩ ⟨0, 0⟩
  redis := .empty 0
  queue := []
  uuids := fun n => toString n
  minted := 0

/-- A bulk call of the shopper next door. -/
def neighbour (quantity : Int) : BulkBody :=
  { items := [⟨Inventory.lampId, quantity⟩], reference := "other" }

/-- A thread performs its next commands, each answered. -/
def goesOn (thread commands : Nat) : List Label :=
  List.replicate commands (.call thread .delivered)

/-- Both lamps are reserved, and one of them given back. -/
def oneLampBack : List Label :=
  .spawn (.setLines (lamps 2) cartOne {}) :: goesOn 0 7 ++
    .spawn (.setLines (lamps 1) cartOne {}) :: goesOn 1 7

/-- The same, but the commit fails, and by then the neighbour has the lamp. -/
def lampTaken : List Label :=
  .spawn (.setLines (lamps 2) cartOne {}) :: goesOn 0 7 ++
    .spawn (.setLines (lamps 1) cartOne {}) :: goesOn 1 5 ++
    [.call 1 .lost, .other .reserve (neighbour 1)] ++ goesOn 1 2 ++
    [.other .release (neighbour 1)]

theorem lampWorld_unreserved (p : String) :
    (0 : Int) ≤ 0 ∧ 0 ≤ reservedOf lampWorld.inventory p := by
  refine ⟨Int.le_refl 0, ?_⟩
  have hitems : ∀ item ∈ lampWorld.inventory.inventoryItems, 0 ≤ item.reserved := by decide
  unfold reservedOf
  split
  · rename_i item hi
    exact hitems item (List.mem_of_find?_eq_some hi)
  · exact Int.le_refl 0

theorem reserved_covers_one_lamp : Conserved shop.overHttp lampWorld (fun _ => 0) oneLampBack :=
  reserved_covers_records_and_orders shop lampWorld (fun _ => 0) 0 oneLampBack rfl
    lampWorld_unreserved (by decide +kernel) (by decide +kernel)

/-- The record lists two lamps, and one is reserved. -/
theorem refused_rollback_uncovers_record :
    lampWorld.redis = .empty 0 ∧ (∀ p, (0 : Int) ≤ 0 ∧ 0 ≤ reservedOf lampWorld.inventory p) ∧
      AllSteps (System.step shop.overHttp) truthful (.start lampWorld (fun _ => 0) []) lampTaken ∧
      ¬ Conserved shop.overHttp lampWorld (fun _ => 0) lampTaken := by
  refine ⟨rfl, lampWorld_unreserved, by decide +kernel, fun h => ?_⟩
  have hrun : (runs (System.step shop.overHttp) (.start lampWorld (fun _ => 0) []) lampTaken).map
      (fun s => (decide s.quiet, recorded (s.world.redis.record cartOne) Inventory.lampId,
        reservedOf s.world.inventory Inventory.lampId)) = some (true, 2, 1) := by decide +kernel
  obtain ⟨s, hs, he⟩ := Option.map_eq_some_iff.mp hrun
  rw [Prod.mk.injEq, Prod.mk.injEq] at he
  obtain ⟨hquiet, hrecorded, hreserved⟩ := he
  have hle := h s hs (of_decide_eq_true hquiet) {cartOne} ∅ Inventory.lampId
  rw [Finset.sum_singleton, Finset.sum_empty, hrecorded, hreserved] at hle
  exact absurd hle (by decide)

end PracticalMicroservice.Cart
