import PracticalMicroservice.Cart.Proofs.CheckoutProofs
import PracticalMicroservice.Cart.Proofs.ReleaseProofs
import PracticalMicroservice.Cart.Proofs.UpdateProofs

/-!
# The calls of the service, from lock to lock

Each call enters its section at most once, under the cart's write lock, and leaves it whatever
happens inside.
-/

namespace PracticalMicroservice.Cart

open Foundations (Ensured ensured_bind ensured_pure ensured_tryCatch)

variable {env : Env} {cart : SessionId} {context : CallContext} {lossy : Bool} {g : Section}

/-! ## Around the section -/

/-- The call has not entered its section, and has done nothing that counts. -/
structure Outside (cart : SessionId) (g : Section) : Prop where
  cart : g.cart = cart
  stage : g.stage = .before
  clean : Clean g.past
  blank : ∀ orderId, Blank orderId g.past

/-- The call has just entered its section. -/
def Entered (cart : SessionId) (g : Section) : Prop :=
  ∃ fields past, Entries.Distinct fields ∧
    Inside cart fields fields (fun _ => 0) (fun _ => 0) past g ∧ Clean past ∧
      ∀ orderId, Blank orderId past

theorem outside_fresh (cart : SessionId) : Outside cart (.fresh cart) where
  cart := rfl
  stage := rfl
  clean := ⟨rfl, rfl⟩
  blank := fun _ => ⟨fun _ => rfl, rfl, rfl⟩

/-- A command that is no call to inventory and drops no record. -/
def neutral : Command → Bool
  | .post _ _ => false
  | .cartFinish _ => false
  | .cartDiscard _ => false
  | _ => true

theorem Clean.neutral {past : Past} (h : Clean past) {command : Command}
    (hc : Cart.neutral command = true) (v : Verdict) : Clean ((command, v) :: past) := by
  cases command with
  | post t body => cases hc
  | cartFinish cart => cases hc
  | cartDiscard cart => cases hc
  | _ => exact ⟨h.undoFailed, h.owedFailed⟩

theorem Blank.neutral {orderId : SessionId} {past : Past} (h : Blank orderId past)
    {command : Command} (hc : Cart.neutral command = true) (v : Verdict) :
    Blank orderId ((command, v) :: past) := by
  cases command with
  | post t body => cases hc
  | cartFinish cart => cases hc
  | cartDiscard cart => cases hc
  | _ => exact ⟨h.handed, h.orderUntold, h.discardFailed⟩

theorem Outside.note (h : Outside cart g) {command : Command} (hc : neutral command = true)
    (v : Verdict) : Outside cart (g.note command v) :=
  ⟨h.cart, h.stage, h.clean.neutral hc v, fun orderId => (h.blank orderId).neutral hc v⟩

theorem lockable_write (lossy : Bool) (cart : SessionId) :
    Lockable (sectionContract lossy) (.writeLock cart) (Outside cart) (Entered cart) where
  uuid := by
    intro g h
    refine ⟨trivial, ?_⟩
    rintro reply g' ⟨v, -, rfl⟩
    exact h.note rfl v
  set := by
    intro token g h
    refine ⟨⟨h.cart.symm, h.stage⟩, ?_⟩
    rintro reply g' ⟨v, -, hr⟩
    rcases hr with ⟨-, rfl, fields, hf, rfl⟩ | ⟨-, hno, rfl⟩
    · refine ⟨fun _ => ⟨fields, (.lockSet (.writeLock cart) token, v) :: g.past, hf, ?_,
        h.clean.neutral rfl v, fun o => (h.blank o).neutral rfl v⟩, fun hne => absurd rfl hne⟩
      exact ⟨h.cart, rfl, rfl, rfl, fun _ => rfl, fun _ => rfl, rfl⟩
    · exact ⟨fun he => absurd he hno, fun _ => h.note rfl v⟩

theorem lockable_release (lossy : Bool) (cart : SessionId) :
    Lockable (sectionContract lossy) (.releaseLock cart) (Outside cart) (Outside cart) where
  uuid := (lockable_write lossy cart).uuid
  set := by
    intro token g h
    refine ⟨trivial, ?_⟩
    rintro reply g' ⟨v, -, rfl⟩
    exact ⟨fun _ => h.note rfl v, fun _ => h.note rfl v⟩

/-- Leaving the section, with an account that covers the record. -/
theorem leaves {origin : List (String × Int)} (h : Here cart origin g)
    (hs : lossy = false → Sound g) (token : String) {post : Section → Prop}
    (hpost : ∀ v, post (g.leave.note (.lockRelease (.writeLock cart) token) v)) :
    (sectionContract lossy).allows (.lockRelease (.writeLock cart) token) g ∧
      ∀ reply g', (sectionContract lossy).replies (.lockRelease (.writeLock cart) token) g reply g' →
        post g' := by
  refine ⟨⟨h.cart.symm, h.stage, hs⟩, ?_⟩
  rintro reply g' ⟨v, -, rfl⟩
  exact hpost v

/-! ## The three calls -/

/-- How an update that threw left the account. -/
def UpdateThrew (g : Section) : Prop :=
  (g.stage = .before ∧ undoFailed g.past = false) ∨
    (g.stage = .after ∧ g.fields = g.origin ∧ (∀ p, g.otherNet p = 0) ∧
      Aborted g.cartNet g.past)

theorem Settled.sound {origin : List (String × Int)} (h : Settled cart origin g) :
    Here cart origin g ∧ Sound g := by
  obtain ⟨fields, net, past, hin, hcover⟩ := h
  refine ⟨hin.here, fun _ p => ?_⟩
  have := hcover p
  rw [hin.claim, hin.fields]
  omega

theorem Aborted.congr {net net' : String → Int} {past : Past} (h : Aborted net past)
    (hn : ∀ p, net' p = net p) : Aborted net' past := by
  have he : net' = net := funext hn
  exact he ▸ h

theorem Unsettled.sound {origin : List (String × Int)} (h : Unsettled cart origin g) :
    Here cart origin g ∧ Sound g := by
  obtain ⟨net, past, hin, hab⟩ := h
  refine ⟨hin.here, fun howed p => ?_⟩
  rw [hin.claim, hin.fields]
  rw [hin.past] at howed
  cases hab with
  | restored _ hzero =>
    have := hzero p
    omega
  | broken _ _ hnonneg =>
    have := hnonneg howed p
    omega

theorem ensured_setLines {requested : List CartLine} (h : Outside cart g) :
    Ensured (sectionContract false) (CartService.setLines env.overHttp requested cart context)
      (fun _ _ => True) (fun _ => UpdateThrew) g := by
  unfold CartService.setLines
  dsimp only
  have hbefore : ∀ g', Outside cart g' → UpdateThrew g' := fun g' h' =>
    .inl ⟨h'.stage, h'.clean.undoFailed⟩
  by_cases hdup : (duplicateProductIds requested).length > 0
  · rw [if_pos hdup, ensured_bind]
    exact hbefore g h
  rw [if_neg hdup, ensured_bind]
  have hn : (requested.map (·.productId)).Nodup := nodup_of_no_duplicates (by omega)
  refine ensured_withLock (lockable_write false cart) _
    (fun _ g' => ∃ origin, Settled cart origin g') (fun _ g' => ∃ origin, Unsettled cart origin g')
    (fun g' hg' => ?_) (fun token a g' hg' => ?_) (fun token e g' hg' => ?_) (fun g' hg' => ?_) h
  · obtain ⟨fields, past, hf, hin, hc, -⟩ := hg'
    exact (ensured_applyRequested hin hf hc hn).mono (fun _ _ hs => ⟨fields, hs⟩)
      fun _ _ hu => ⟨fields, hu⟩
  · obtain ⟨origin, hs⟩ := hg'
    obtain ⟨hhere, hsound⟩ := hs.sound
    exact leaves hhere (fun _ => hsound) token fun v => trivial
  · obtain ⟨origin, hu⟩ := hg'
    obtain ⟨hhere, hsound⟩ := hu.sound
    refine leaves hhere (fun _ => hsound) token fun v => .inr ⟨rfl, ?_⟩
    obtain ⟨net, past, hin, hab⟩ := hu
    refine ⟨hin.fields.trans hin.origin.symm, hin.otherNet, ?_⟩
    have hab' : Aborted net ((.lockRelease (.writeLock cart) token, v) :: past) := by
      cases hab with
      | restored hu hz => exact .restored hu hz
      | broken hu hne ho => exact .broken hu hne ho
    rw [← hin.past] at hab'
    exact hab'.congr hin.cartNet
  · exact ⟨hbefore g' hg', hbefore g' hg'⟩

/-- How a checkout left the account, whether it returned or threw. -/
def CheckoutEnded (orderId : SessionId) (g : Section) : Prop :=
  (g.stage = .before ∧ Blank orderId g.past) ∨
    (g.stage = .after ∧ Transferred orderId g.origin g)

theorem Transferred.leave {orderId : SessionId} {origin : List (String × Int)}
    (h : Transferred orderId origin g) (token : String) (v : Verdict) :
    Transferred orderId origin (g.leave.note (.lockRelease (.writeLock cart) token) v) := by
  cases h with
  | kept hf hh hu hd => exact .kept hf hh hu hd
  | moved hf hh hu hd => exact .moved hf hh hu hd
  | doubled hf hh hp hud => exact .doubled hf hh hp hud

theorem ensured_checkout {orderId : SessionId} (h : Outside cart g) :
    Ensured (sectionContract lossy) (CartService.checkout env cart orderId context)
      (fun r g' => CheckoutEnded orderId g' ∧ g'.stage = .after ∧
        ∀ p, (quantityOf r.lines p : Int) ≤ g'.share p)
      (fun _ => CheckoutEnded orderId) g := by
  unfold CartService.checkout
  rw [ensured_bind]
  have hbefore : ∀ g', Outside cart g' → CheckoutEnded orderId g' := fun g' h' =>
    .inl ⟨h'.stage, h'.blank orderId⟩
  refine ensured_withLock (lockable_write lossy cart) _
    (fun r g' => ∃ origin, Here cart origin g' ∧ Transferred orderId origin g' ∧
      ∀ p, (quantityOf r.lines p : Int) + recorded g'.fields p ≤ g'.claim p)
    (fun _ g' => ∃ origin, TransferFailed lossy cart orderId origin g')
    (fun g' hg' => ?_) (fun token r g' hg' => ?_) (fun token e g' hg' => ?_) (fun g' hg' => ?_) h
  · obtain ⟨fields, past, -, hin, -, hb⟩ := hg'
    exact (ensured_checkoutHeld hin (hb orderId)).mono (fun _ _ hr => ⟨fields, hr⟩)
      fun _ _ hf => ⟨fields, hf⟩
  · obtain ⟨origin, hhere, htr, hcover⟩ := hg'
    refine leaves hhere (fun _ _ p => ?_) token fun v => ⟨.inr ⟨rfl, ?_⟩, rfl, fun p => ?_⟩
    · have := hcover p
      omega
    · obtain rfl := hhere.origin
      exact htr.leave token v
    · have := hcover p
      show (quantityOf r.lines p : Int) ≤ g'.claim p - recorded g'.fields p
      omega
  · obtain ⟨origin, hf⟩ := hg'
    refine leaves hf.here hf.sound token fun v => .inr ⟨rfl, ?_⟩
    obtain rfl := hf.here.origin
    exact hf.transferred.leave token v
  · exact ⟨hbefore g' hg', hbefore g' hg'⟩

theorem ensured_releaseSession {cause : ReleaseCause} (h : Outside cart g) :
    Ensured (sectionContract false) (CartService.releaseSession env.overHttp cart cause)
      (fun _ _ => True) (fun _ _ => True) g := by
  unfold CartService.releaseSession
  rw [ensured_bind]
  refine ensured_withLock (lockable_release false cart) _ (fun _ _ => True) (fun _ _ => True)
    (fun g' hg' => ?_) (fun token a g' _ => ⟨trivial, fun _ g'' _ => ?_⟩)
    (fun token e g' _ => ⟨trivial, fun _ _ _ => trivial⟩)
    (fun g' _ => ⟨trivial, trivial⟩) h
  rotate_left
  · cases a with
    | none => trivial
    | some outcome => trivial
  refine ensured_withLock (lockable_write false cart) _ (fun _ => Released cart)
    (fun _ => Released cart) (fun g'' hg'' => ?_) (fun token a g'' hg'' => ?_)
    (fun token e g'' hg'' => ?_) (fun _ _ => ⟨trivial, trivial⟩) hg'
  · obtain ⟨fields, past, -, hin, -, -⟩ := hg''
    exact ensured_releaseTaken hin
  · obtain ⟨⟨fields, hhere⟩, hsound⟩ := hg''
    exact leaves hhere (fun _ => hsound) token fun _ => trivial
  · obtain ⟨⟨fields, hhere⟩, hsound⟩ := hg''
    exact leaves hhere (fun _ => hsound) token fun _ => trivial

end PracticalMicroservice.Cart
