import PracticalMicroservice.Cart.Proofs.SectionProofs

/-!
# A release inside its section

What is given back is struck off the record, or owed.
-/

namespace PracticalMicroservice.Cart

open Foundations (Ensured ensured_bind ensured_pure ensured_tryCatch)
open Inventory (Transition BulkBody Response units)

/-! ## A release -/

section Release

variable {env : Env} {cart : SessionId} {cause : ReleaseCause}
  {fields : List (String × Int)} {net : String → Int} {past : Past} {g : Section}
  {lines : List CartLine}

/-- How a release leaves the account, whether it returns or throws. -/
def Released (cart : SessionId) (g : Section) : Prop :=
  (∃ fields, Here cart fields g) ∧ Sound g

theorem released_of_still {other : String → Int}
    (h : Inside cart fields fields net other past g) (hnet : ∀ p, net p + other p = 0) :
    Released cart g := by
  refine ⟨⟨_, h.here⟩, fun _ p => ?_⟩
  have := hnet p
  rw [h.claim, h.fields]
  omega

/-- Retiring the record settles the account, or leaves what it owed unsettled. -/
theorem ensured_retire {other : String → Int} (h : Inside cart fields fields net other past g)
    (hclaim : ∀ p, 0 ≤ recorded fields p + net p + other p)
    (hgave : gave past = true ∨ ∀ p, net p + other p = 0) :
    Ensured (sectionContract false) (CartRepository.retire cart)
      (fun _ => Released cart) (fun _ => Released cart) g := by
  unfold CartRepository.retire
  rw [ensured_bind, ensured_call]
  refine ⟨⟨h.cart.symm, h.stage⟩, ?_⟩
  rintro reply g' ⟨v, -, hr⟩
  rw [ensured_reply]
  have hreleased : Released cart g' := by
    rcases hr with ⟨-, -, rfl⟩ | ⟨rfl, -, rfl⟩
    · have h' := (h.write []).note (.cartFinish cart) v
      refine ⟨⟨_, h'.here⟩, fun _ p => ?_⟩
      have := hclaim p
      rw [h'.claim, h'.fields, recorded_nil]
      omega
    · have h' := h.note (.cartFinish cart) .failed
      refine ⟨⟨_, h'.here⟩, fun howed p => ?_⟩
      rcases hgave with hg | hnet
      · rw [h'.past] at howed
        simp [hg, retires] at howed
      · have := hnet p
        rw [h'.claim, h'.fields]
        omega
  match reply with
  | some () => exact hreleased
  | none => exact hreleased

/-- What follows a dispatch: the record is retired if it took place. -/
def afterDispatch (cart : SessionId) (lines : List CartLine) (dispatched : Bool) :
    Promise ReleaseOutcome :=
  if dispatched then do
    CartRepository.retire cart
    return { released := true, skipped := none, lines := lines.length }
  else return { released := false, skipped := some .notHeld, lines := lines.length }

theorem ensured_afterDispatch (h : Inside cart fields fields net (fun _ => 0) past g)
    (hclaim : ∀ p, 0 ≤ recorded fields p + net p)
    (hgave : gave past = true ∨ ∀ p, net p = 0) :
    Ensured (sectionContract false) (afterDispatch cart lines true)
      (fun _ => Released cart) (fun _ => Released cart) g := by
  unfold afterDispatch
  rw [if_pos rfl, ensured_bind]
  refine (ensured_retire h (fun p => ?_) (hgave.imp_right fun hn p => ?_)).mono
    (fun _ _ hr => hr) fun _ _ hr => hr
  · have := hclaim p
    omega
  · have := hn p
    omega

/-- A dispatch that threw gave nothing back: the record goes or stays, and the account covers it. -/
theorem ensured_releaseFailed (h : Inside cart fields fields (fun _ => 0) (fun _ => 0) past g)
    (e : Exception) :
    Ensured (sectionContract false) (CartService.releaseFailed env cart e)
      (fun dispatched g' => Ensured (sectionContract false) (afterDispatch cart lines dispatched)
        (fun _ => Released cart) (fun _ => Released cart) g')
      (fun _ => Released cart) g := by
  have hschedule : Ensured (sectionContract false)
      (do
        CartRepository.scheduleRelease cart
          ((← Promise.dateNow) + env.CART_RELEASE_RETRY_DELAY_MS.value)
        throw e : Promise Bool)
      (fun dispatched g' => Ensured (sectionContract false) (afterDispatch cart lines dispatched)
        (fun _ => Released cart) (fun _ => Released cart) g')
      (fun _ => Released cart) g := by
    unfold CartRepository.scheduleRelease
    rw [ensured_bind, ensured_dateNow]
    refine ⟨trivial, ?_⟩
    rintro now g₁ ⟨v₁, -, rfl⟩
    rw [ensured_bind, ensured_bind, ensured_call]
    refine ⟨trivial, ?_⟩
    rintro reply g₂ ⟨v₂, -, rfl⟩
    have h₂ := (h.note .dateNow v₁).note
      (.zadd cart (now + env.CART_RELEASE_RETRY_DELAY_MS.value)) v₂
    have hr := released_of_still h₂ fun p => rfl
    rw [ensured_reply]
    match reply with
    | some () => exact hr
    | none => exact hr
  cases e with
  | InsufficientStockException message failures =>
    unfold CartService.releaseFailed
    rw [ensured_bind]
    exact (ensured_retire h (fun p => by omega) (.inr fun p => rfl)).mono
      (fun _ g' hr => hr) fun _ _ hr => hr
  | _ => exact hschedule

/-- The release itself. -/
theorem ensured_releaseHeld (h : Inside cart fields fields (fun _ => 0) (fun _ => 0) past g)
    (hq : ∀ p, quantityOf lines p = recorded fields p) :
    Ensured (sectionContract false) (CartService.releaseHeld env.overHttp cart lines cause)
      (fun _ => Released cart) (fun _ => Released cart) g := by
  unfold CartService.releaseHeld
  rw [ensured_bind, ensured_randomUUID]
  refine ⟨trivial, ?_⟩
  rintro requestId g₁ ⟨v₁, -, rfl⟩
  have h₁ := h.note .randomUUID v₁
  dsimp only
  rw [ensured_bind, ensured_tryCatch, ensured_bind]
  refine ensured_bulk_own .release h₁ (fun _ _ p => ?_) (fun hnil => ?_)
    (fun g' _ _ hin => ?_) (fun hl => by cases hl) (fun e g' _ hin => ?_) (fun e _ => ?_)
  · have := hq p
    omega
  · exact ensured_afterDispatch h₁ (fun p => by omega) (.inr fun p => rfl)
  · refine ensured_afterDispatch hin (fun p => ?_) (.inl ?_)
    · have := hq p
      simp only [moves]
      omega
    · simp
  · exact ensured_releaseFailed hin e
  · exact ensured_releaseFailed h₁ e

/-- What `releaseSession` does under both locks. -/
theorem ensured_releaseTaken (h : Inside cart fields fields (fun _ => 0) (fun _ => 0) past g) :
    Ensured (sectionContract false) (CartService.releaseTaken env.overHttp cart cause)
      (fun _ => Released cart) (fun _ => Released cart) g := by
  unfold CartService.releaseTaken CartRepository.takeHeldLines
  rw [ensured_bind, ensured_bind, ensured_call]
  refine ⟨⟨h.cart.symm, h.stage⟩, ?_⟩
  rintro reply g₁ ⟨v₁, -, rfl, hread⟩
  have h₁ := h.note (.cartTake cart env.overHttp.inFlightTtlSeconds) v₁
  rw [ensured_bind, ensured_reply]
  have hforget : ∀ lines : Nat, Ensured (sectionContract false)
      (do
        CartRepository.forget cart
        return { released := false, skipped := some .empty, lines } : Promise ReleaseOutcome)
      (fun _ => Released cart) (fun _ => Released cart)
      (g.note (.cartTake cart env.overHttp.inFlightTtlSeconds) v₁) := by
    intro lines
    unfold CartRepository.forget
    rw [ensured_bind, ensured_bind, ensured_call]
    refine ⟨trivial, ?_⟩
    rintro reply g₂ ⟨v₂, -, rfl⟩
    have hr := released_of_still (h₁.note (.zrem cart) v₂) fun p => rfl
    rw [ensured_reply]
    match reply with
    | some () => exact hr
    | none => exact hr
  rcases hread with rfl | rfl | rfl
  · dsimp only
    rw [ensured_pure]
    split
    · exact hforget 0
    · refine ensured_releaseHeld h₁ fun p => ?_
      rw [quantityOf_recorded, h.fields]
  · exact hforget 0
  · exact released_of_still h₁ fun p => rfl

end Release

end PracticalMicroservice.Cart
