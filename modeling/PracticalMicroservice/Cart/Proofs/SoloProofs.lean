import PracticalMicroservice.Cart.Solo
import PracticalMicroservice.Cart.Proofs.AccountProofs
import PracticalMicroservice.Cart.Proofs.CallProofs
import PracticalMicroservice.Cart.Proofs.CustodyProofs
import PracticalMicroservice.Cart.Proofs.SystemProofs

/-!
# What an update and a checkout leave behind

One call runs beside other shoppers. Its account follows the record and the hold of its cart, so the
way the account ends says what became of both: an update that throws has changed nothing exactly when
no undo failed, and a checkout leaves every unit with one owner exactly when its order was not told
too late and its record could be dropped.
-/

namespace PracticalMicroservice.Cart

open Foundations (Meets AllSteps runs Ensured ensured_bind)
open Inventory (Transition BulkBody units heldFor ledgerUnits)

/-! ## Verdicts along a run -/

section Avoids

variable {env : Env} {bad : Command × Verdict → Bool} {s s' : System}

theorem step_avoids {l : Label} (h : System.step env s l = some s') :
    (pastOf s'.trace 0).any bad = false ↔ (pastOf s.trace 0).any bad = false ∧ avoids bad s l := by
  cases l with
  | call i fate =>
    obtain ⟨t, command, next, hc⟩ := called_of_call h
    have hiff : avoids bad s (.call i fate) ↔
        (i = 0 → bad (command, command.verdict fate s.world) = false) := by
      show (i = 0 → ∀ c ∈ s.nextCommand i, bad (c, c.verdict fate s.world) = false) ↔ _
      rw [hc.nextCommand]
      simp
    rw [hc.trace, pastOf_performed, hiff]
    by_cases hi : i = 0
    · simp [hi, and_comm]
    · simp [hi]
  | spawn task =>
    obtain rfl := Option.some.inj h
    exact (and_iff_left trivial).symm
  | notify notice =>
    obtain ⟨cart, armings, -, rfl⟩ := step_notify h
    exact (and_iff_left trivial).symm
  | crash i =>
    obtain ⟨t, -, rfl⟩ := step_crash h
    exact (and_iff_left trivial).symm
  | lapse key =>
    obtain rfl := Option.some.inj h
    exact (and_iff_left trivial).symm
  | tick ms =>
    obtain rfl := Option.some.inj h
    exact (and_iff_left trivial).symm
  | expire cart =>
    obtain ⟨e, -, -, rfl⟩ := step_expire h
    exact (and_iff_left trivial).symm
  | other t body =>
    obtain rfl := Option.some.inj h
    exact (and_iff_left trivial).symm
  | consume message fate =>
    obtain ⟨content, -, rfl⟩ := step_consume h
    exact (and_iff_left trivial).symm

/-- A run has no bad verdict in its history exactly when no step of it adds one. -/
theorem run_avoids {ls : List Label} (h : runs (System.step env) s ls = some s') :
    (pastOf s'.trace 0).any bad = false ↔
      (pastOf s.trace 0).any bad = false ∧ AllSteps (System.step env) (avoids bad) s ls := by
  induction ls generalizing s with
  | nil =>
    cases h
    exact (and_iff_left trivial).symm
  | cons l ls ih =>
    obtain ⟨mid, hmid, hrest⟩ := Foundations.runs_cons h
    have hall : AllSteps (System.step env) (avoids bad) s (l :: ls) ↔
        avoids bad s l ∧ AllSteps (System.step env) (avoids bad) mid ls := by
      refine and_congr_right fun _ => ⟨fun hr => hr mid hmid, fun hr m hm => ?_⟩
      rw [hmid] at hm
      cases hm
      exact hr
    rw [ih hrest, step_avoids hmid, hall, and_assoc]

end Avoids

/-! ## The account of a call that runs alone -/

/-- The ledger moves with the batches that are accepted. -/
theorem ledgerUnits_perform (w : World) (fate : Fate) (command : Command)
    (keep : Inventory.MovementKind → Bool) (p : String) :
    ledgerUnits (w.perform fate command).2.inventory keep p = ledgerUnits w.inventory keep p +
      match command with
      | .post t body =>
        if keep (body.kind t) && command.verdict fate w != .failed then units body.items p else 0
      | _ => 0 := by
  cases command with
  | post t body =>
    obtain ⟨hv, -, -, db, hp, hm⟩ | ⟨hv, -, hp⟩ := post_cases w fate t body
    · show ledgerUnits (w.post fate t body).2.inventory keep p = _
      rw [hp]
      refine (hm.ledger keep p).trans ?_
      have hne : ((Command.post t body).verdict fate w != .failed) = true := by simpa using hv
      simp only [hne, Bool.and_true]
    · show ledgerUnits (w.post fate t body).2.inventory keep p = _
      rw [hp]
      simp only [hv]
      simp
  | randomUUID => exact (Int.add_zero _).symm
  | dateNow => exact (Int.add_zero _).symm
  | publish message =>
    refine Eq.trans ?_ (Int.add_zero _).symm
    cases fate <;> rfl
  | _ =>
    refine Eq.trans (congrArg (ledgerUnits · keep p) ?_) (Int.add_zero _).symm
    exact onRedis_inventory w fate _

section Solo

variable {env : Env} {lossy : Bool} {mine : List String} {cart : SessionId} {before : World}
  {post : Except Exception (Option CheckoutResult) → Section → Prop} {s s' : System} {g : Section}

/-- The account of the only call follows what it has done to its record and to its hold. -/
structure Solo (lossy : Bool) (mine : List String) (cart : SessionId)
    (post : Except Exception (Option CheckoutResult) → Section → Prop) (before : World)
    (s : System) (g : Section) : Prop where
  governed : Governed (sectionContract lossy) post s.threads fun _ => g
  single : s.threads.length = 1
  onCart : g.cart = cart
  past : g.past = pastOf s.trace 0
  record : s.world.redis.record cart =
    if g.stage = .before then before.redis.record cart else g.fields
  origin : g.stage ≠ .before → g.origin = before.redis.record cart
  net : g.stage = .before → ∀ p, g.cartNet p = 0
  held : ∀ p, heldFor s.world.inventory cart.text p =
    heldFor before.inventory cart.text p + g.cartNet p
  ordered : ∀ orderId : SessionId, orderId.text ∈ mine → ∀ p,
    orderedUnits s.world orderId p = orderedUnits before orderId p + handed orderId g.past p

theorem handed_cons (orderId : SessionId) (command : Command) (v : Verdict) (past : Past)
    (p : String) : handed orderId ((command, v) :: past) p =
      (match command with
      | .post t body =>
        if body.kind t == orderKind orderId && v != .failed then units body.items p else 0
      | _ => 0) + handed orderId past p := by
  cases command with
  | post t body => rfl
  | _ => exact (Int.zero_add _).symm

theorem Solo.call (h : Solo lossy mine cart post before s g) {i : Nat} {fate : Fate}
    (hcall : s.call i fate = some s') (hfate : fate = .replyLost → lossy = true) :
    ∃ g', Solo lossy mine cart post before s' g' := by
  obtain ⟨t, command, next, hc⟩ := called_of_call hcall
  obtain rfl : i = 0 := by
    have := hc.lt
    have := h.single
    omega
  have hrec : g.stage = .inside → s.world.redis.record g.cart = g.fields := by
    intro hin
    rw [h.onCart, h.record, if_neg (by rw [hin]; simp)]
  obtain ⟨g', hr, hs⟩ : Foreseen lossy fate command s.world g :=
    foreseen (h.governed.allows hc) hrec
  have hpast : g'.past = pastOf s'.trace 0 := by
    rw [hs.past, hc.trace, pastOf_performed, if_pos rfl, h.past]
  have hgov : Governed (sectionContract lossy) post s'.threads fun _ => g' := by
    have hg := h.governed.call hc (g := g') ⟨_, fun hv => hfate (verdict_untold hv), hr⟩
    intro j u hu
    obtain rfl : j = 0 := by
      have hlt := (List.getElem?_eq_some_iff.mp hu).1
      have := hc.length
      have := h.single
      omega
    have hm := hg 0 u hu
    rwa [Function.update_self] at hm
  have hordered : ∀ orderId : SessionId, orderId.text ∈ mine → ∀ p,
      orderedUnits s'.world orderId p =
        orderedUnits before orderId p + handed orderId g'.past p := by
    intro orderId hmem p
    have hledger := ledgerUnits_perform s.world fate command (· == orderKind orderId) p
    rw [hs.past, handed_cons, hc.world]
    have := h.ordered orderId hmem p
    unfold orderedUnits at this ⊢
    rw [hledger, this]
    omega
  rw [← hc.world] at hs
  have hcart := hs.cart.trans h.onCart
  have hstep : (s'.world.redis.record cart =
        if g'.stage = .before then before.redis.record cart else g'.fields) ∧
      (g'.stage ≠ .before → g'.origin = before.redis.record cart) ∧
      (g'.stage = .before → ∀ p, g'.cartNet p = 0) ∧
      ∀ p, heldFor s'.world.inventory cart.text p =
        heldFor before.inventory cart.text p + g'.cartNet p := by
    have hgc := h.onCart
    cases hs with
    | idle hw =>
      refine ⟨(hw.record cart).trans h.record, h.origin, h.net, fun p => ?_⟩
      rw [hw.inventory]
      exact h.held p
    | entered hstage hfree hlocked hw =>
      have hb : s.world.redis.record cart = before.redis.record cart :=
        h.record.trans (if_pos hstage)
      refine ⟨?_, fun _ => ?_, (fun hin => by cases hin), fun p => ?_⟩
      · rw [hw.record]
        show _ = s.world.redis.record g.cart
        rw [hgc]
      · show s.world.redis.record g.cart = _
        rw [hgc, hb]
      · rw [hw.inventory, h.held p, h.net hstage p]
        rfl
    | left hstage hrecord hlocks hinv hcover =>
      have hne : g.stage ≠ .before := by
        rw [hstage]
        simp
      refine ⟨?_, fun _ => h.origin hne, (fun hin => by cases hin), fun p => ?_⟩
      · rw [hrecord, h.record, if_neg hne]
        rfl
      · rw [hinv]
        exact h.held p
    | wrote fields hstage hrecord hlocks hinv =>
      have hne : g.stage ≠ .before := by
        rw [hstage]
        simp
      refine ⟨?_, fun _ => h.origin hne, fun hin => absurd hin hne, fun p => ?_⟩
      · rw [hrecord, if_pos hgc.symm]
        exact (if_neg hne).symm
      · rw [hinv]
        exact h.held p
    | moved t body hstage hcommand hv hacc hmoved hredis hcover =>
      have hne : g.stage ≠ .before := by
        rw [hstage]
        simp
      refine ⟨?_, fun _ => ?_, fun hin => ?_, fun p => ?_⟩
      · rw [hredis, note_stage, move_stage, note_fields, move_fields]
        exact h.record
      · rw [note_origin, move_origin]
        exact h.origin hne
      · rw [note_stage, move_stage] at hin
        exact absurd hin hne
      · rw [hmoved.heldFor, h.held p, note_cartNet, move_cartNet, hgc]
        by_cases href : cart.text = Inventory.trim body.reference
        · rw [if_pos href, Int.add_assoc]
        · rw [if_neg href, Int.add_assoc]
  exact ⟨g', hgov, hc.length.trans h.single, hcart, hpast, hstep.1, hstep.2.1, hstep.2.2.1,
    hstep.2.2.2, hordered⟩

/-- A step that leaves the record and the ledger rows of the call alone. -/
theorem Solo.frame (h : Solo lossy mine cart post before s g) (hthreads : s'.threads = s.threads)
    (htrace : s'.trace = s.trace)
    (hrecord : s'.world.redis.record cart = s.world.redis.record cart)
    (hheld : ∀ p, heldFor s'.world.inventory cart.text p = heldFor s.world.inventory cart.text p)
    (hordered : ∀ orderId : SessionId, orderId.text ∈ mine → ∀ p,
      orderedUnits s'.world orderId p = orderedUnits s.world orderId p) :
    Solo lossy mine cart post before s' g where
  governed := hthreads ▸ h.governed
  single := hthreads ▸ h.single
  onCart := h.onCart
  past := htrace ▸ h.past
  record := hrecord.trans h.record
  origin := h.origin
  net := h.net
  held := fun p => (hheld p).trans (h.held p)
  ordered := fun orderId hmem p => (hordered orderId hmem p).trans (h.ordered orderId hmem p)

/-- Another shopper's call is made under another reference. -/
theorem Solo.other (h : Solo lossy mine cart post before s g) (hmine : cart.text ∈ mine)
    {t : Transition} {body : BulkBody} (hbody : Inventory.trim body.reference ∉ mine) :
    Solo lossy mine cart post before (s.other t body) g := by
  obtain ⟨-, -, hmoved⟩ | ⟨-, -, hdb, -⟩ := Inventory.bulkRoute_cases t body s.world.inventory
  · refine h.frame rfl rfl rfl (fun p => ?_) fun orderId hmem p => ?_
    · refine (hmoved.heldFor cart.text p).trans ?_
      have hne : cart.text ≠ Inventory.trim body.reference := fun he => hbody (he ▸ hmine)
      rw [if_neg hne, Int.add_zero]
    · refine (hmoved.ledger (· == orderKind orderId) p).trans ?_
      have hkind : (body.kind t == orderKind orderId) = false := by
        refine beq_false_of_ne fun he => hbody ?_
        have href : some (Inventory.trim body.reference) = some orderId.text :=
          congrArg Inventory.MovementKind.reference he
        exact Option.some.inj href ▸ hmem
      rw [hkind, if_neg Bool.false_ne_true, Int.add_zero]
      rfl
  · refine h.frame rfl rfl rfl (fun p => ?_) fun orderId hmem p => ?_
    · exact congrArg (heldFor · cart.text p) hdb
    · exact congrArg (ledgerUnits · (· == orderKind orderId) p) hdb

theorem Solo.step (h : Solo lossy mine cart post before s g) (hmine : cart.text ∈ mine) {l : Label}
    (hl : beside lossy mine l) (hstep : System.step env s l = some s') :
    ∃ g', Solo lossy mine cart post before s' g' := by
  cases l with
  | spawn task => exact hl.elim
  | notify notice => exact hl.elim
  | call i fate => exact h.call hstep hl
  | crash i => exact hl.elim
  | lapse key =>
    obtain rfl := Option.some.inj hstep
    exact ⟨g, h.frame rfl rfl rfl (fun _ => rfl) fun _ _ _ => rfl⟩
  | tick ms =>
    obtain rfl := Option.some.inj hstep
    exact ⟨g, h.frame rfl rfl rfl (fun _ => rfl) fun _ _ _ => rfl⟩
  | expire c =>
    obtain ⟨e, -, -, rfl⟩ := step_expire hstep
    exact ⟨g, h.frame rfl rfl rfl (fun _ => rfl) fun _ _ _ => rfl⟩
  | other t body =>
    obtain rfl := Option.some.inj hstep
    exact ⟨g, h.other hmine hl⟩
  | consume message fate => exact hl.elim

theorem solo_start {task : Task} {others : String → Int}
    (hm : Meets (sectionContract lossy) (task.run env).run post (.fresh cart)) :
    Solo lossy mine cart post before (.alone env task before others) (.fresh cart) where
  governed := by
    intro i t ht
    obtain ⟨hlt, he⟩ := List.getElem?_eq_some_iff.mp ht
    obtain rfl : i = 0 := by
      have : i < 1 := hlt
      omega
    cases he
    exact hm
  single := rfl
  onCart := rfl
  past := rfl
  record := (if_pos rfl).symm
  origin := fun hne => absurd rfl hne
  net := fun _ _ => rfl
  held := fun p => (Int.add_zero _).symm
  ordered := fun orderId _ p => (Int.add_zero _).symm

/-- What the call is at the end of a run, its account is. -/
theorem solo_run {task : Task} {others : String → Int} {labels : List Label}
    {result : Except Exception (Option CheckoutResult)} (hmine : cart.text ∈ mine)
    (hm : Meets (sectionContract lossy) (task.run env).run post (.fresh cart))
    (hlabels : ∀ l ∈ labels, beside lossy mine l)
    (hrun : runs (System.step env) (.alone env task before others) labels = some s)
    (hdone : s.outcome = some result) : ∃ g, Solo lossy mine cart post before s g ∧ post result g := by
  have hall : ∀ (ls : List Label) (s₀ : System), (∀ l ∈ ls, beside lossy mine l) →
      AllSteps (System.step env) (fun _ l => beside lossy mine l) s₀ ls := by
    intro ls
    induction ls with
    | nil => exact fun _ _ => trivial
    | cons l ls ih =>
      exact fun s₀ hls => ⟨hls l List.mem_cons_self, fun mid _ =>
        ih mid fun l' hl' => hls l' (List.mem_cons_of_mem _ hl')⟩
  obtain ⟨g, hg⟩ := Foundations.invariant_of_allSteps
    (P := fun s => ∃ g, Solo lossy mine cart post before s g)
    (fun s l s' hl hs ⟨g, hg⟩ => hg.step hmine hl hs) (hall labels _ hlabels) hrun
    ⟨_, solo_start hm⟩
  refine ⟨g, hg, ?_⟩
  unfold System.outcome at hdone
  split at hdone
  · rename_i t ht
    have hpost := hg.governed 0 t ht
    split at hdone
    · rename_i result' hp
      cases hdone
      rwa [hp] at hpost
    · cases hdone
  · cases hdone

end Solo

/-! ## An update that throws -/

section Update

variable {env : Env} {cart : SessionId} {context : CallContext} {requested : List CartLine}

/-- How `setLines` ends, on its account. -/
def updateEnds (result : Except Exception (Option CheckoutResult)) (g : Section) : Prop :=
  ∀ e, result = .error e → UpdateThrew g

theorem meets_setLines : Meets (sectionContract false)
    (Task.run env.overHttp (.setLines requested cart context)).run updateEnds (.fresh cart) := by
  have hrun : Ensured (sectionContract false)
      (Task.run env.overHttp (.setLines requested cart context))
      (fun _ _ => True) (fun _ => UpdateThrew) (.fresh cart) := by
    rw [Task.run, ensured_bind]
    exact (ensured_setLines (outside_fresh cart)).mono (fun _ _ _ => trivial) fun _ _ he => he
  refine hrun.meets (fun r g _ e he => by cases he) fun e g he e' he' => ?_
  exact he

/-- An account that threw is one of a call that changed nothing, unless an undo failed. -/
theorem UpdateThrew.unchanged_iff {post : Except Exception (Option CheckoutResult) → Section → Prop}
    {before : World} {s : System} {g : Section} {mine : List String}
    (hs : Solo false mine cart post before s g) (h : UpdateThrew g) :
    Unchanged cart before s.world ↔ undoFailed g.past = false := by
  rcases h with ⟨hstage, hundo⟩ | ⟨hstage, hfields, -, hab⟩
  · refine iff_of_true ⟨?_, fun p => ?_⟩ hundo
    · exact hs.record.trans (if_pos hstage)
    · rw [hs.held, hs.net hstage, Int.add_zero]
  · have hne : g.stage ≠ .before := by
      rw [hstage]
      simp
    have hrecord : s.world.redis.record cart = before.redis.record cart := by
      rw [hs.record, if_neg hne, hfields, hs.origin hne]
    cases hab with
    | restored hundo hzero =>
      refine iff_of_true ⟨hrecord, fun p => ?_⟩ hundo
      rw [hs.held, hzero, Int.add_zero]
    | broken hundo hmoved _ =>
      refine iff_of_false (fun hu => ?_) (by rw [hundo]; simp)
      obtain ⟨p, hp⟩ := hmoved
      have := hu.2 p
      rw [hs.held] at this
      omega

/-- An update that throws has changed neither the record nor the hold of its cart, exactly when
every call of its undo takes effect. -/
theorem setLines_unchanged_iff (env : Env) (requested : List CartLine) (cart : SessionId)
    (context : CallContext) (world : World) (others : String → Int) (labels : List Label)
    (s : System) (e : Exception)
    (hlabels : ∀ l ∈ labels, beside false [cart.text] l)
    (hrun : runs (System.step env.overHttp)
      (.alone env.overHttp (.setLines requested cart context) world others) labels = some s)
    (hthrew : s.outcome = some (.error e)) :
    Unchanged cart world s.world ↔
      AllSteps (System.step env.overHttp) (avoids failedUndo)
        (.alone env.overHttp (.setLines requested cart context) world others) labels := by
  obtain ⟨g, hs, hend⟩ := solo_run (List.mem_singleton_self _) meets_setLines hlabels hrun hthrew
  have hiff := UpdateThrew.unchanged_iff hs (hend e rfl)
  rw [hs.past] at hiff
  have havoids : undoFailed (pastOf s.trace 0) = false ↔ _ := run_avoids hrun
  exact hiff.trans (havoids.trans (and_iff_right rfl))

end Update

/-! Two lamps in a cart, all there are. -/

def twoLamps : World where
  inventory := (Inventory.bulkRoute .reserve (bulkBody (lamps 2) cartOne (some CART_UPDATE_REASON))
    lampWorld.inventory).2
  redis := (((Redis.empty 0).setItems cartOne (some
    { fields := [(Inventory.lampId, 2)], expiresAt := 360000, distinct := by decide })).setSession
      cartOne (some 60000)).zadd cartOne 60000
  queue := []
  uuids := fun n => toString n
  minted := 0

/-- One lamp is given back, the commit fails, and the lamp is taken again. -/
def lampRetaken : List Label := goesOn 0 5 ++ [.call 0 .lost] ++ goesOn 0 2

/-- The same, but the neighbour takes the lamp first. -/
def lampGone : List Label :=
  goesOn 0 5 ++ [.call 0 .lost, .other .reserve (neighbour 1)] ++ goesOn 0 2

/-- The call that gives one lamp back. -/
def keepOneLamp : Task := .setLines (lamps 1) cartOne {}

theorem setLines_unchanged_lampRetaken :
    ∃ s, runs (System.step shop.overHttp) (.alone shop.overHttp keepOneLamp twoLamps fun _ => 0)
      lampRetaken = some s ∧ s.outcome = some (.error .RedisError) ∧
      Unchanged cartOne twoLamps s.world := by
  have hrun : (runs (System.step shop.overHttp)
      (.alone shop.overHttp keepOneLamp twoLamps fun _ => 0) lampRetaken).map System.outcome =
        some (some (.error .RedisError)) := by decide +kernel
  obtain ⟨s, hs, he⟩ := Option.map_eq_some_iff.mp hrun
  exact ⟨s, hs, he, (setLines_unchanged_iff shop (lamps 1) cartOne {} twoLamps (fun _ => 0)
    lampRetaken s .RedisError (by decide) hs he).mpr (by decide +kernel)⟩

/-- The update throws, and one lamp of the two is no longer held for the cart. -/
theorem setLines_loses_lamp :
    (∀ l ∈ lampGone, beside false [cartOne.text] l) ∧
    ∃ s, runs (System.step shop.overHttp) (.alone shop.overHttp keepOneLamp twoLamps fun _ => 0)
      lampGone = some s ∧ s.outcome = some (.error .RedisError) ∧
      ¬ Unchanged cartOne twoLamps s.world := by
  have hrun : (runs (System.step shop.overHttp)
      (.alone shop.overHttp keepOneLamp twoLamps fun _ => 0) lampGone).map
        (fun s => (s.outcome, heldFor s.world.inventory cartOne.text Inventory.lampId)) =
        some (some (.error .RedisError), 1) := by decide +kernel
  obtain ⟨s, hs, he⟩ := Option.map_eq_some_iff.mp hrun
  rw [Prod.mk.injEq] at he
  refine ⟨by decide, s, hs, he.1, fun h => ?_⟩
  have hheld := h.2 Inventory.lampId
  rw [he.2] at hheld
  exact absurd hheld (by decide +kernel)

/-! ## A checkout -/

section Checkout

variable {env : Env} {cart orderId : SessionId} {context : CallContext}

theorem meets_checkout : Meets (sectionContract true)
    (Task.run env (.checkout cart orderId context)).run (fun _ => CheckoutEnded orderId)
    (.fresh cart) := by
  have hrun : Ensured (sectionContract true)
      (Task.run env (.checkout cart orderId context))
      (fun _ => CheckoutEnded orderId) (fun _ => CheckoutEnded orderId) (.fresh cart) := by
    rw [Task.run, ensured_bind]
    exact (ensured_checkout (outside_fresh cart)).mono (fun _ _ hr => hr.1) fun _ _ he => he
  exact hrun.meets (fun _ _ h => h) fun _ _ h => h

theorem any_leavesTwice (orderId : SessionId) (past : Past) :
    past.any (leavesTwice orderId) = (orderUntold orderId past || discardFailed past) := by
  induction past with
  | nil => rfl
  | cons e past ih =>
    have hd : discardFailed (e :: past) =
        ((discards e.1 && e.2 == .failed) || discardFailed past) := rfl
    rw [List.any_cons, ih, orderUntold_cons, hd]
    unfold leavesTwice
    simp only [Bool.or_assoc, Bool.or_left_comm]

theorem CheckoutEnded.oneOwner_iff
    {post : Except Exception (Option CheckoutResult) → Section → Prop} {before : World}
    {s : System} {g : Section} {mine : List String}
    (hs : Solo true mine cart post before s g) (hmine : orderId.text ∈ mine)
    (h : CheckoutEnded orderId g) :
    OneOwner cart orderId before s.world ↔
      (orderUntold orderId g.past || discardFailed g.past) = false := by
  have hordered := hs.ordered orderId hmine
  rcases h with ⟨hstage, hb⟩ | ⟨hstage, htr⟩
  · have hrecord := hs.record.trans (if_pos hstage)
    refine iff_of_true (fun p _ => .inl ⟨by rw [hrecord], ?_⟩) ?_
    · rw [hordered, hb.handed, Int.add_zero]
    · rw [hb.orderUntold, hb.discardFailed]
      rfl
  · have hne : g.stage ≠ .before := by
      rw [hstage]
      simp
    have horigin := hs.origin hne
    have hrecord : s.world.redis.record cart = g.fields := hs.record.trans (if_neg hne)
    cases htr with
    | kept hf hh hu hd =>
      refine iff_of_true (fun p _ => .inl ⟨?_, ?_⟩) (by rw [hu, hd]; rfl)
      · rw [hrecord, hf, horigin]
      · rw [hordered, hh, Int.add_zero]
    | moved hf hh hu hd =>
      refine iff_of_true (fun p _ => .inr ⟨?_, ?_⟩) (by rw [hu, hd]; rfl)
      · rw [hrecord, hf, recorded_nil]
      · rw [hordered, hh, horigin]
    | doubled hf hh hp hud =>
      refine iff_of_false (fun hone => ?_) ?_
      · obtain ⟨p, hpos⟩ := hp
        rw [horigin] at hpos
        have hunits := hordered p
        rw [hh, horigin] at hunits
        rcases hone p hpos with ⟨-, ho⟩ | ⟨hr, -⟩
        · omega
        · rw [hrecord, hf, horigin] at hr
          omega
      · rcases hud with hu | hd
        · rw [hu]
          simp
        · rw [hd]
          simp

/-- When a checkout has returned or thrown, every unit of its cart has one owner, exactly when the
order's reservation did not take effect untold and the record did not outlive its drop. -/
theorem checkout_one_owner_iff (env : Env) (cart orderId : SessionId) (context : CallContext)
    (world : World) (others : String → Int) (labels : List Label) (s : System)
    (result : Except Exception (Option CheckoutResult))
    (hlabels : ∀ l ∈ labels, beside true [cart.text, orderId.text] l)
    (hrun : runs (System.step env)
      (.alone env (.checkout cart orderId context) world others) labels = some s)
    (hdone : s.outcome = some result) :
    OneOwner cart orderId world s.world ↔
      AllSteps (System.step env) (avoids (leavesTwice orderId))
        (.alone env (.checkout cart orderId context) world others) labels := by
  obtain ⟨g, hs, hend⟩ := solo_run (by simp) meets_checkout hlabels hrun hdone
  have hiff := hend.oneOwner_iff hs (by simp)
  rw [← any_leavesTwice, hs.past] at hiff
  exact hiff.trans ((run_avoids hrun).trans (and_iff_right rfl))

end Checkout

def orderOne : SessionId := ⟨"order-1", by decide⟩

def orderLamps : Task := .checkout cartOne orderOne {}

/-- Every command of the checkout is answered. -/
def lampsOrdered : List Label := goesOn 0 7

/-- The record cannot be dropped. -/
def recordStays : List Label := goesOn 0 5 ++ [.call 0 .lost] ++ goesOn 0 1

theorem checkout_one_owner_lampsOrdered :
    ∃ s, runs (System.step shop) (.alone shop orderLamps twoLamps fun _ => 0) lampsOrdered = some s ∧
      OneOwner cartOne orderOne twoLamps s.world := by
  have hrun : (runs (System.step shop) (.alone shop orderLamps twoLamps fun _ => 0)
      lampsOrdered).map System.outcome =
        some (some (.ok (some ⟨cartOne, orderOne, lamps 2⟩))) := by decide +kernel
  obtain ⟨s, hs, he⟩ := Option.map_eq_some_iff.mp hrun
  exact ⟨s, hs, (checkout_one_owner_iff shop cartOne orderOne {} twoLamps (fun _ => 0) lampsOrdered
    s _ (by decide) hs he).mpr (by decide +kernel)⟩

/-- Both lamps are under the order, and the cart's record lists them still. -/
theorem checkout_leaves_lamps_twice :
    (∀ l ∈ recordStays, beside true [cartOne.text, orderOne.text] l) ∧
    ∃ s, runs (System.step shop) (.alone shop orderLamps twoLamps fun _ => 0) recordStays = some s ∧
      s.outcome = some (.error .RedisError) ∧ ¬ OneOwner cartOne orderOne twoLamps s.world := by
  have hrun : (runs (System.step shop) (.alone shop orderLamps twoLamps fun _ => 0)
      recordStays).map (fun s => (s.outcome, recorded (s.world.redis.record cartOne) Inventory.lampId,
        orderedUnits s.world orderOne Inventory.lampId)) =
        some (some (.error .RedisError), 2, 2) := by decide +kernel
  obtain ⟨s, hs, he⟩ := Option.map_eq_some_iff.mp hrun
  rw [Prod.mk.injEq, Prod.mk.injEq] at he
  refine ⟨by decide, s, hs, he.1, fun h => ?_⟩
  rcases h Inventory.lampId (by decide) with ⟨-, ho⟩ | ⟨hr, -⟩
  · rw [he.2.2] at ho
    exact absurd ho (by decide +kernel)
  · rw [he.2.1] at hr
    exact absurd hr (by decide)

end PracticalMicroservice.Cart
