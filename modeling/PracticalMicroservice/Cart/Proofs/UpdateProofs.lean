import PracticalMicroservice.Cart.Proofs.SectionProofs

/-!
# An update inside its section

`setLines` reserves, gives back and commits, and on a failure takes back what it moved. It ends with
an account that covers the record; when it throws, nothing has moved unless an undo failed.
-/

namespace PracticalMicroservice.Cart

open Foundations (Ensured ensured_bind ensured_pure ensured_tryCatch)
open Inventory (Transition BulkBody Response units)

/-! ## The undo of an update -/

section Update

variable {env : Env} {cart : SessionId} {context : CallContext}
  {origin fields : List (String × Int)} {net other : String → Int} {past : Past} {g : Section}

/-- Lines an earlier call of the section moved, if there were any. -/
def Movable (items : List CartLine) : Prop := items = [] ∨ (Postable items ∧ Taken items)

theorem Movable.small {items : List CartLine} (h : Movable items) (p : String) :
    quantityOf items p ≤ 1000000000 := by
  rcases h with rfl | ⟨-, htaken⟩
  · rw [quantityOf_nil]
    omega
  · exact htaken.small p

/-- How an undo of `reserved` and `released` can end, on the units moved before it. -/
inductive Undone (reserved released : List CartLine) (net : String → Int) (past : Past) :
    (String → Int) → Past → Prop
  | restored (net' past') : (∀ p, net' p = net p - quantityOf reserved p + quantityOf released p) →
      undoFailed past' = undoFailed past → owedFailed past' = owedFailed past →
      Undone reserved released net past net' past'
  /-- The reservation could not be given back, and nothing else was tried. -/
  | stuck (past') : reserved ≠ [] → Taken reserved → undoFailed past' = true →
      (gave past = true → owedFailed past' = true) →
      (gave past = false → owedFailed past' = owedFailed past) →
      Undone reserved released net past net past'
  /-- The released units could not be taken again. -/
  | lost (net' past') : (∀ p, net' p = net p - quantityOf reserved p) → released ≠ [] →
      Taken released → undoFailed past' = true →
      (gave past = true → owedFailed past' = true) →
      Undone reserved released net past net' past'

/-- The second half of the undo: taking the released units again. -/
theorem ensured_retake {released : List CartLine} (h : Inside cart origin fields net other past g)
    (hrel : Movable released) {ok : Unit → Section → Prop} {err : Exception → Section → Prop}
    (hok : ∀ net' past' g', (∀ p, net' p = net p + quantityOf released p) →
      undoFailed past' = undoFailed past → owedFailed past' = owedFailed past →
      Inside cart origin fields net' other past' g' → ok () g')
    (herr : ∀ past' e g', released ≠ [] → Taken released → undoFailed past' = true →
      (gave past = true → owedFailed past' = true) → Inside cart origin fields net other past' g' →
      err e g') :
    Ensured (sectionContract false)
      (if released.length > 0 then
        HttpInventoryAdapter.reserveMany released cart
          { reason := some CART_ROLLBACK_REASON, context }
      else pure ()) ok err g := by
  rcases hrel with rfl | ⟨hpost, hpos⟩
  · exact hok net past g (fun p => by rw [quantityOf_nil]; omega) rfl rfl h
  · have hlen : released.length > 0 := List.length_pos_iff.mpr hpost.1
    rw [if_pos hlen]
    refine ensured_bulk_own .reserve h (fun ht => by cases ht) (fun he => absurd he hpost.1)
      (fun g' _ _ hin => ?_) (fun hl => by cases hl) (fun e g' _ hin => ?_)
      (fun e hno => absurd hpost hno)
    · refine hok _ _ g' (fun p => ?_) ?_ ?_ hin
      · simp only [moves]
      · simp
      · simp
    · refine herr _ e g' hpost.1 hpos ?_ (fun hg => ?_) hin
      · simp
      · simp [hg]

theorem ensured_rollback {reserved released : List CartLine}
    (h : Inside cart origin fields net other past g)
    (hres : Movable reserved) (hrel : Movable released)
    (hclaim : ∀ p, (quantityOf reserved p : Int) ≤ recorded origin p + net p + other p)
    {ok : Unit → Section → Prop} {err : Exception → Section → Prop}
    (hok : ∀ net' past' g', Undone reserved released net past net' past' →
      Inside cart origin fields net' other past' g' → ok () g') :
    Ensured (sectionContract false)
      (CartService.rollback env.overHttp reserved released cart context) ok err g := by
  unfold CartService.rollback
  by_cases hboth : reserved.length = 0 ∧ released.length = 0
  · rw [if_pos hboth]
    obtain rfl := List.length_eq_zero_iff.mp hboth.1
    obtain rfl := List.length_eq_zero_iff.mp hboth.2
    exact hok net past g (.restored net past (fun p => by rw [quantityOf_nil]; omega) rfl rfl) h
  rw [if_neg hboth, ensured_tryCatch]
  dsimp only
  rcases hres with rfl | ⟨hpost, hpos⟩
  · rw [if_neg (by simp)]
    refine ensured_retake h hrel (fun net' past' g' hnet hu ho hin => ?_)
      (fun past' e g' hne hpos hu ho hin => ?_)
    · refine hok net' past' g' (.restored net' past' (fun p => ?_) hu ho) hin
      rw [hnet, quantityOf_nil]
      omega
    · refine hok net past' g' (.lost net past' (fun p => ?_) hne hpos hu ho) hin
      rw [quantityOf_nil]
      omega
  · have hlen : reserved.length > 0 := List.length_pos_iff.mpr hpost.1
    rw [if_pos hlen, ensured_bind]
    refine ensured_bulk_own .release h (fun _ _ => hclaim) (fun he => absurd he hpost.1)
      (fun g' _ _ hin => ?_) (fun hl => by cases hl) (fun e g' _ hin => ?_)
      (fun e hno => absurd hpost hno)
    · refine ensured_retake hin hrel (fun net' past' g' hnet hu ho hin => ?_)
        (fun past' e g' hne hpos hu ho hin => ?_)
      · refine hok net' past' g' (.restored net' past' (fun p => ?_) ?_ ?_) hin
        · rw [hnet]
          simp only [moves]
          omega
        · rw [hu]
          simp
        · rw [ho]
          simp
      · refine hok _ past' g' (.lost _ past' (fun p => ?_) hne hpos hu (fun hg => ho ?_)) hin
        · simp only [moves]
          omega
        · simp [hg]
    · refine hok net _ g' (.stuck _ hpost.1 hpos ?_ (fun hg => ?_) (fun hg => ?_)) hin
      · simp
      · simp [hg]
      · simp [hg]

/-! ## An update -/

theorem ensured_orUndo {σ α : Type} {k : Foundations.Contract Command Command.Reply σ} {s : σ}
    {step : Promise α} {undo : Promise Unit} {ok : α → σ → Prop} {err : Exception → σ → Prop} :
    Ensured k (CartService.orUndo step undo) ok err s ↔
      Ensured k step ok (fun e s' => Ensured k undo (fun _ => err e) err s') s := by
  unfold CartService.orUndo
  rw [ensured_tryCatch]
  refine ⟨fun h => h.mono (fun _ _ hok => hok) fun e s' he => ?_,
    fun h => h.mono (fun _ _ hok => hok) fun e s' he => ?_⟩
  · rwa [ensured_bind] at he
  · rwa [ensured_bind]

/-- The commit: the record is written and told, or nothing happened. -/
theorem ensured_commit (h : Inside cart origin fields net other past g) (changes : CartChanges)
    {ok : List CartLine → Section → Prop} {err : Exception → Section → Prop}
    (hok : ∀ base lines past' g', (base = fields ∨ base = []) → Quiet past past' →
      Inside cart origin (Redis.committed base changes.writes changes.removals) net other past' g' →
      ok lines g')
    (herr : ∀ e past' g', Quiet past past' → Inside cart origin fields net other past' g' →
      err e g') :
    Ensured (sectionContract false) (CartRepository.commit env cart changes) ok err g := by
  unfold CartRepository.commit CartRepository.dueAt
  simp only [ensured_bind, ensured_dateNow, ensured_pure]
  refine ⟨trivial, ?_⟩
  rintro now g₁ ⟨v₁, -, rfl⟩
  have h₁ := h.note .dateNow v₁
  have hq₁ : Quiet past ((Command.dateNow, v₁) :: past) := .cons v₁ rfl rfl rfl
  refine ⟨⟨h₁.cart.symm, h₁.stage⟩, ?_⟩
  rintro reply g₂ ⟨v₂, hlossy, hr⟩
  show Ensured _ (Promise.reply reply) _ _ g₂
  rw [ensured_reply]
  rcases hr with ⟨hv, htell, base, hbase, rfl⟩ | ⟨rfl, rfl, rfl⟩
  · have htold : v₂ = .told := by
      cases v₂ with
      | told => rfl
      | untold => cases hlossy rfl
      | failed => exact absurd rfl hv
    match reply, htell.mp htold with
    | some settled, _ =>
      refine hok base _ _ _ (h₁.fields ▸ hbase) ?_ ((h₁.write _).note _ _)
      exact hq₁.trans (.cons v₂ rfl rfl rfl)
  · refine herr _ _ _ ?_ (h₁.note _ _)
    exact hq₁.trans (.cons _ rfl rfl rfl)

/-- How an update that throws can leave the account: as it was, or with an undo that failed. -/
inductive Aborted (net : String → Int) (past : Past) : Prop
  | restored : undoFailed past = false → (∀ p, net p = 0) → Aborted net past
  | broken : undoFailed past = true → (∃ p, net p ≠ 0) →
      (owedFailed past = false → ∀ p, 0 ≤ net p) → Aborted net past

/-- How an update that returns leaves the account: with a claim that covers the record. -/
def Settled (cart : SessionId) (origin : List (String × Int)) (g : Section) : Prop :=
  ∃ fields net past, Inside cart origin fields net (fun _ => 0) past g ∧
    ∀ p, (recorded fields p : Int) ≤ recorded origin p + net p

/-- An update that throws: the record is as it was, and the account is one of those. -/
def Unsettled (cart : SessionId) (origin : List (String × Int)) (g : Section) : Prop :=
  ∃ net past, Inside cart origin origin net (fun _ => 0) past g ∧ Aborted net past

variable {changes : CartChanges}

/-- An undo of all that was moved ends the update one of the two ways. -/
theorem aborted_of_undone {reserved : List CartLine} (released : List CartLine) {net net' : String → Int}
    {past past' : Past} (hclean : Clean past)
    (hnet : ∀ p, net p = quantityOf reserved p - quantityOf released p)
    (hone : ∀ p, quantityOf reserved p = 0 ∨ quantityOf released p = 0)
    (hgave : gave past = true ∨ released = [])
    (h : Undone reserved released net past net' past') : Aborted net' past' := by
  cases h with
  | restored _ _ hrestore hu ho =>
    refine .restored (hu.trans hclean.undoFailed) fun p => ?_
    rw [hrestore, hnet]
    omega
  | stuck _ hne hpos hu howed hkeep =>
    refine .broken hu ?_ fun ho p => ?_
    · obtain ⟨line, hl⟩ := List.exists_mem_of_ne_nil _ hne
      have hp := hpos.positive line hl
      refine ⟨line.productId, ?_⟩
      rw [hnet]
      rcases hone line.productId with h0 | h0
      · omega
      · omega
    · rcases hgave with hg | rfl
      · rw [howed hg] at ho
        cases ho
      · rw [hnet, quantityOf_nil]
        omega
  | lost _ _ hlost hne hpos hu howed =>
    refine .broken hu ?_ fun ho p => ?_
    · obtain ⟨line, hl⟩ := List.exists_mem_of_ne_nil _ hne
      have hp := hpos.positive line hl
      refine ⟨line.productId, ?_⟩
      rw [hlost, hnet]
      omega
    · rcases hgave with hg | rfl
      · rw [howed hg] at ho
        cases ho
      · exact absurd rfl hne

/-- The last step of an update: the commit, and the undo of both moves when it fails. -/
theorem ensured_writeChanges (h : Inside cart fields fields net (fun _ => 0) past g)
    (hb : Balanced fields changes) (hclean : Clean past)
    (hres : Movable changes.reserve) (hrel : Movable changes.release)
    (hnet : ∀ p, net p = quantityOf changes.reserve p - quantityOf changes.release p)
    (hgave : gave past = true ∨ changes.release = []) :
    Ensured (sectionContract false)
      (CartService.orUndo (CartRepository.commit env.overHttp cart changes)
        (CartService.rollback env.overHttp changes.reserve changes.release cart context))
      (fun _ => Settled cart fields) (fun _ => Unsettled cart fields) g := by
  rw [ensured_orUndo]
  refine ensured_commit h changes (fun base lines past' g' hbase _ hin => ?_)
    (fun e past' g' hq hin => ?_)
  · refine ⟨_, net, past', hin, fun p => ?_⟩
    have hc := hb.covered base hbase p (hres.small p) (hrel.small p)
    have hn := hnet p
    omega
  · refine ensured_rollback hin hres hrel (fun p => ?_) (fun net' past'' g'' hundone hin' => ?_)
    · have hr := hb.release_le p (hrel.small p)
      have hn := hnet p
      omega
    · refine ⟨net', past'', hin', aborted_of_undone _ ⟨?_, ?_⟩ hnet hb.one_way ?_ hundone⟩
      · exact hq.undoFailed.trans hclean.undoFailed
      · exact hq.owedFailed.trans hclean.owedFailed
      · rw [hq.gave]
        exact hgave

/-- The undo of the reservation alone, after a release that failed. -/
theorem ensured_undoReserve (h : Inside cart fields fields net (fun _ => 0) past g)
    (hclean : Clean past) {reserved : List CartLine} (hres : Movable reserved)
    (hnet : ∀ p, net p = quantityOf reserved p) (e : Exception) :
    Ensured (sectionContract false)
      (CartService.rollback env.overHttp reserved [] cart context)
      (fun _ => (fun _ => Unsettled cart fields) e) (fun (_ : Exception) => Unsettled cart fields) g
    := by
  refine ensured_rollback h hres (.inl rfl) (fun p => ?_) (fun net' past' g' hundone hin => ?_)
  · rw [hnet]
    omega
  · refine ⟨net', past', hin, aborted_of_undone [] hclean (fun p => ?_) (fun p => ?_)
      (.inr rfl) hundone⟩
    · rw [hnet, quantityOf_nil]
      omega
    · exact .inr (quantityOf_nil p)

/-- The steps of an update after the reservation. -/
theorem ensured_giveBack (h : Inside cart fields fields net (fun _ => 0) past g)
    (hb : Balanced fields changes) (hclean : Clean past) (hres : Movable changes.reserve)
    (hnet : ∀ p, net p = quantityOf changes.reserve p) :
    Ensured (sectionContract false)
      (do
        if changes.release.length > 0 then
          CartService.orUndo
            (dispatchReleaseMany env.overHttp changes.release cart
              { reason := some CART_UPDATE_REASON, context })
            (CartService.rollback env.overHttp changes.reserve [] cart context)
        CartService.orUndo (CartRepository.commit env.overHttp cart changes)
          (CartService.rollback env.overHttp changes.reserve changes.release cart context))
      (fun _ => Settled cart fields) (fun _ => Unsettled cart fields) g := by
  by_cases hnil : changes.release = []
  · rw [if_neg (by simp [hnil])]
    refine ensured_writeChanges h hb hclean hres (.inl hnil) (fun p => ?_) (.inr hnil)
    rw [hnet, hnil, quantityOf_nil]
    omega
  · rw [if_pos (List.length_pos_iff.mpr hnil), ensured_bind, ensured_orUndo]
    refine ensured_bulk_own .release h (fun _ hsmall p => ?_) (fun he => absurd he hnil)
      (fun g' hpost hpos hin => ?_) (fun hl => by cases hl) (fun e g' hpost hin => ?_)
      (fun e hno => ?_)
    · have hr := hb.release_le p (hsmall p)
      have hn := hnet p
      omega
    · refine ensured_writeChanges hin hb ⟨?_, ?_⟩ hres (.inr ⟨hpost, hpos⟩) (fun p => ?_) (.inl ?_)
      · simp [hclean.undoFailed]
      · simp [hclean.owedFailed, retires]
      · simp only [moves, hnet]
        omega
      · simp
    · refine ensured_undoReserve hin ⟨?_, ?_⟩ hres hnet e
      · simp [hclean.undoFailed]
      · simp [hclean.owedFailed, retires]
    · exact ensured_undoReserve h hclean hres hnet e

theorem ensured_applyChanges (h : Inside cart fields fields (fun _ => 0) (fun _ => 0) past g)
    (hb : Balanced fields changes) (hclean : Clean past) :
    Ensured (sectionContract false) (CartService.applyChanges env.overHttp changes cart context)
      (fun _ => Settled cart fields) (fun _ => Unsettled cart fields) g := by
  unfold CartService.applyChanges
  have hrefuse : ∀ {past' g'}, Inside cart fields fields (fun _ => 0) (fun _ => 0) past' g' →
      Clean past' → ∀ e : Exception, Ensured (sectionContract false)
        (CartService.rollback env.overHttp [] [] cart context)
        (fun _ => (fun _ => Unsettled cart fields) e) (fun (_ : Exception) => Unsettled cart fields)
        g' := fun hin hc e => ensured_undoReserve hin hc (.inl rfl) (fun p => rfl) e
  by_cases hnil : changes.reserve = []
  · dsimp only
    rw [if_neg (by simp [hnil])]
    exact ensured_giveBack h hb hclean (.inl hnil) (fun p => by rw [hnil, quantityOf_nil]; rfl)
  · dsimp only
    rw [if_pos (List.length_pos_iff.mpr hnil), ensured_bind, ensured_orUndo]
    refine ensured_bulk_own .reserve h (fun ht => by cases ht) (fun he => absurd he hnil)
      (fun g' hpost hpos hin => ?_) (fun hl => by cases hl) (fun e g' hpost hin => ?_)
      (fun e hno => ?_)
    · refine ensured_giveBack hin hb ⟨?_, ?_⟩ (.inr ⟨hpost, hpos⟩) (fun p => ?_)
      · simp [hclean.undoFailed]
      · simp [hclean.owedFailed, retires]
      · simp only [moves]
        omega
    · refine hrefuse hin ⟨?_, ?_⟩ e
      · simp [hclean.undoFailed]
      · simp [hclean.owedFailed, retires]
    · exact hrefuse h hclean e

/-- Sliding the expiry out moves no unit. -/
theorem ensured_touch (h : Inside cart origin fields net other past g) {lossy : Bool}
    {ok : Bool → Section → Prop} {err : Exception → Section → Prop}
    (hok : ∀ alive past' g', Quiet past past' → Inside cart origin fields net other past' g' →
      ok alive g')
    (herr : ∀ past' g', Quiet past past' → Inside cart origin fields net other past' g' →
      err .RedisError g') :
    Ensured (sectionContract lossy) (CartRepository.touch env cart) ok err g := by
  unfold CartRepository.touch CartRepository.dueAt
  simp only [ensured_bind, ensured_dateNow, ensured_pure]
  refine ⟨trivial, ?_⟩
  rintro now g₁ ⟨v₁, -, rfl⟩
  have h₁ := h.note .dateNow v₁
  have hq₁ : Quiet past ((Command.dateNow, v₁) :: past) := .cons v₁ rfl rfl rfl
  refine ⟨⟨h₁.cart.symm, h₁.stage⟩, ?_⟩
  rintro reply g₂ ⟨v₂, -, rfl⟩
  show Ensured _ (Promise.reply reply) _ _ _
  rw [ensured_reply]
  have h₂ := h₁.note (.cartTouch cart env.sessionTtlSeconds env.itemsTtlSeconds
    (now + env.sessionTtlSeconds * 1000)) v₂
  have hq₂ := hq₁.trans (.cons v₂ rfl rfl rfl : Quiet _ ((.cartTouch cart env.sessionTtlSeconds
    env.itemsTtlSeconds (now + env.sessionTtlSeconds * 1000), v₂) :: _))
  match reply with
  | some alive => exact hok alive _ _ hq₂ h₂
  | none => exact herr _ _ hq₂ h₂

/-- An account nothing has moved yet is settled, and unsettled as well. -/
theorem settled_of_still (h : Inside cart fields fields (fun _ => 0) (fun _ => 0) past g) :
    Settled cart fields g :=
  ⟨fields, _, past, h, fun p => by omega⟩

theorem unsettled_of_still (h : Inside cart fields fields (fun _ => 0) (fun _ => 0) past g)
    (hc : Clean past) : Unsettled cart fields g :=
  ⟨_, past, h, .restored hc.undoFailed fun _ => rfl⟩

/-- What `setLines` does under the write lock. -/
theorem ensured_applyRequested
    (h : Inside cart fields fields (fun _ => 0) (fun _ => 0) past g)
    (hf : Entries.Distinct fields) (hc : Clean past) {requested : List CartLine}
    (hn : (requested.map (·.productId)).Nodup) :
    Ensured (sectionContract false)
      (CartService.applyRequested env.overHttp requested cart context)
      (fun _ => Settled cart fields) (fun _ => Unsettled cart fields) g := by
  unfold CartService.applyRequested
  rw [ensured_bind]
  refine ensured_held h (fun read v₁ g₁ hread hin₁ => ?_)
    (fun v₁ g₁ hin₁ => unsettled_of_still hin₁ ((Quiet.hgetall cart v₁ past).clean hc))
  have hq₁ := Quiet.hgetall cart v₁ past
  have hb := planChanges_balanced hf hread hn
  set changes := planChanges (heldQuantities read) requested
  dsimp only
  by_cases hlimit : exceedsBulkLimit changes = true
  · rw [if_pos hlimit, ensured_bind]
    exact unsettled_of_still hin₁ (hq₁.clean hc)
  rw [if_neg hlimit]
  by_cases hnoop : isNoop changes = true
  · rw [if_pos hnoop, ensured_bind]
    refine ensured_touch hin₁ (fun alive past₂ g₂ hq₂ hin₂ => ?_)
      (fun past₂ g₂ hq₂ hin₂ => unsettled_of_still hin₂ ((hq₁.trans hq₂).clean hc))
    unfold CartRepository.lines
    rw [ensured_bind]
    exact ensured_held hin₂ (fun _ _ g₃ _ hin₃ => settled_of_still hin₃)
      (fun v₃ g₃ hin₃ => unsettled_of_still hin₃
        (((hq₁.trans hq₂).trans (.hgetall cart v₃ past₂)).clean hc))
  · rw [if_neg hnoop]
    exact ensured_applyChanges hin₁ hb (hq₁.clean hc)

end Update

end PracticalMicroservice.Cart
