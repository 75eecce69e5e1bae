import PracticalMicroservice.Auth.Reaper
import PracticalMicroservice.Auth.Proofs.FamilyProofs

/-!
# What sweeps and requests do to the tokens

A sweep deletes what it found by a cutoff it read the clock for. The tokens only age: a revoked row
stays as it is until a sweep takes it.
-/

namespace PracticalMicroservice.Auth

open Foundations (Called Ensured History KeyedTable Meets Pool Recounted pastOf recounting)
open PrismaAuthRepository

/-! ## The sweeps, analysed -/

/-- What a sweep that read the clock deletes. -/
def ReaperOptions.purges (options : ReaperOptions) (now : Nat) : List Purge :=
  [.expiredTokens (daysBefore options.expiredGraceDays now),
    .revokedTokens (daysBefore options.revokedRetentionDays now)
      (daysBefore options.expiredGraceDays now),
    .verifications (daysBefore options.verificationRetentionDays now),
    .loginHistory (daysBefore options.loginHistoryRetentionDays now)]

/-- What a sweep has been told. -/
abbrev Swept := History SweepCommand SweepCommand.Reply

/-- A deletion is of rows the sweep found by a cutoff it read the clock for. -/
def SweepGrounds (options : ReaperOptions) (_ : Unit) (past : Swept) : SweepCommand → Prop
  | .deleteMany whose ids => ∃ (now take : Nat), ⟨.now, now⟩ ∈ past ∧
    ⟨.findMany whose take, .ok ids⟩ ∈ past ∧ whose ∈ options.purges now
  | _ => True

/-- Any reply. -/
def anyReply (command : SweepCommand) (_ : command.Reply) : Prop := True

section

variable {options : ReaperOptions} {past : Swept}

theorem tells_deleteWhere {whose : Purge} {limit now : Nat} (hnow : ⟨.now, now⟩ ∈ past)
    (hw : whose ∈ options.purges now) :
    Foundations.Tells (SweepGrounds options) anyReply () (deleteWhere whose limit)
      (fun _ past' => past ⊆ past') (fun _ _ => True) past := by
  refine Foundations.tells_bind (Foundations.tells_request trivial fun found _ => ?_)
  refine Foundations.tells_bind (Foundations.tells_result (fun ids hids => ?_) fun _ _ => trivial)
  subst hids
  split
  · exact Foundations.tells_pure fun _ hx => List.mem_cons_of_mem _ hx
  · refine Foundations.tells_bind (Foundations.tells_request ⟨now, limit, List.mem_cons_of_mem _ hnow, List.mem_cons_self,
      hw⟩ fun deleted _ => ?_)
    refine Foundations.tells_result (fun _ _ _ hx => ?_) fun _ _ => trivial
    exact List.mem_cons_of_mem _ (List.mem_cons_of_mem _ hx)

theorem tells_unlessDisabled {days limit now : Nat} {whose : Purge} (hnow : ⟨.now, now⟩ ∈ past)
    (hw : whose ∈ options.purges now) :
    Foundations.Tells (SweepGrounds options) anyReply ()
      (AuthReaper.unlessDisabled days (deleteWhere whose limit))
      (fun _ past' => past ⊆ past') (fun _ _ => True) past := by
  unfold AuthReaper.unlessDisabled
  split
  · exact tells_deleteWhere hnow hw
  · exact Foundations.tells_pure fun _ hx => hx

theorem tells_runOnce :
    Foundations.Tells (SweepGrounds options) anyReply () (AuthReaper.runOnce options) (fun _ _ => True)
      (fun _ _ => True) [] := by
  refine Foundations.tells_bind (Foundations.tells_request trivial fun now _ => ?_)
  have hnow : (⟨.now, now⟩ : (command : SweepCommand) × command.Reply) ∈
      [(⟨.now, now⟩ : (command : SweepCommand) × command.Reply)] := List.mem_cons_self
  refine Foundations.tells_bind (Foundations.tells_bind ((tells_deleteWhere hnow (by simp [ReaperOptions.purges])).mono
    (fun expired past₁ h₁ => ?_) fun _ _ _ => trivial))
  refine Foundations.tells_bind ((tells_deleteWhere (h₁ hnow) (by simp [ReaperOptions.purges])).mono
    (fun revoked past₂ h₂ => ?_) fun _ _ _ => trivial)
  refine Foundations.tells_pure (Foundations.tells_bind ((tells_unlessDisabled (h₂ (h₁ hnow))
    (by simp [ReaperOptions.purges])).mono (fun verifications past₃ h₃ => ?_) fun _ _ _ => trivial))
  refine Foundations.tells_bind ((tells_unlessDisabled (h₃ (h₂ (h₁ hnow)))
    (by simp [ReaperOptions.purges])).mono (fun loginHistory past₄ _ => ?_) fun _ _ _ => trivial)
  exact Foundations.tells_pure trivial

theorem meets_runOnce (task : Unit) :
    Meets (recounting (SweepGrounds options) anyReply) (AuthReaper.runOnce options).run
      (fun _ _ => True) (task, []) :=
  Ensured.meets tells_runOnce (fun _ _ _ => trivial) fun _ _ _ => trivial

end

/-! ## How tokens age -/

/-- The token some time later: the same one, or revoked by now. -/
structure Aged (now : Nat) (t t' : RefreshToken) : Prop where
  id : t'.id = t.id
  familyId : t'.familyId = t.familyId
  tokenHash : t'.tokenHash = t.tokenHash
  expiresAt : t'.expiresAt = t.expiresAt
  revoked : t' = t ∨ isLive t = true ∧ ∃ at_ reason, t'.revokedAt = some at_ ∧
    t'.revokedReason = some reason ∧ (at_ = now ∨ reason ≠ .ROTATED)

section

variable {env : Env} {options : ReaperOptions} {now : Nat} {db db' : Database} {c : Call}
  {t t' : RefreshToken}

theorem Aged.refl (t : RefreshToken) : Aged now t t := ⟨rfl, rfl, rfl, rfl, .inl rfl⟩

/-- A revoked token does not age. -/
theorem Aged.eq_of_revoked (h : Aged now t t') (hr : isLive t = false) : t' = t := by
  rcases h.revoked with rfl | ⟨hlive, -⟩
  · rfl
  · rw [hr] at hlive
    cases hlive

theorem aged_revoke {at_ : Nat} {reason : RevokeReason} (hlive : isLive t = true)
    (hstamp : at_ = now ∨ reason ≠ .ROTATED) : Aged now t (revoke at_ reason t) :=
  ⟨rfl, rfl, rfl, rfl, .inr ⟨hlive, at_, reason, rfl, rfl, hstamp⟩⟩

theorem aged_replaced {newId : Nat} (hlive : isLive t = true) :
    Aged now t (replaced now newId t) :=
  ⟨rfl, rfl, rfl, rfl, .inr ⟨hlive, now, .ROTATED, rfl, rfl, .inl rfl⟩⟩

theorem aged_if {p : Prop} [Decidable p] {f : RefreshToken → RefreshToken}
    (h : p → Aged now t (f t)) : Aged now t (if p then f t else t) := by
  split
  · rename_i hp
    exact h hp
  · exact .refl t

/-- The token the call asks for. -/
def Call.asksFor : Call → Option NewRefreshTokenRecord
  | .createRefreshToken input | .rotateRefreshToken _ input => some input
  | _ => none

/-- The tokens after a call: those there were, aged, and perhaps the one it asked for. -/
theorem TokenEffect.ages (h : TokenEffect now db db' c) :
    ∃ (g : RefreshToken → RefreshToken) (new : List RefreshToken),
      db'.tokens = db.tokens.map g ++ new.map g ∧ (∀ t, Aged now t (g t)) ∧
        (new = [] ∨ ∃ input, c.asksFor = some input ∧ new = [tokenRow db.nextKey now input] ∧
          (∀ t ∈ db.tokens, t.tokenHash ≠ input.tokenHash) ∧ db'.nextKey = db.nextKey + 1) := by
  cases h with
  | kept _ tokens key => exact ⟨id, [], by simpa using tokens, Aged.refl, .inl rfl⟩
  | swept _ p at_ reason live stamp tokens key =>
    refine ⟨fun t => if p t then revoke at_ reason t else t, [], ?_, fun t => ?_, .inl rfl⟩
    · rw [tokens, List.map_nil, List.append_nil]
      rfl
    · exact aged_if fun hp => aged_revoke (live t hp) stamp
  | opened input hash tokens key =>
    exact ⟨id, [tokenRow db.nextKey now input], by simpa using tokens, Aged.refl,
      .inr ⟨input, rfl, rfl, hash, key⟩⟩
  | rotated currentId next hash live tokens key =>
    refine ⟨_, [tokenRow db.nextKey now next], tokens.trans List.map_append, fun t => ?_,
      .inr ⟨next, rfl, rfl, hash, key⟩⟩
    exact aged_if fun hp => aged_replaced hp.2

/-- A revoked token stays as it is. -/
theorem TokenEffect.stays (h : TokenEffect now db db' c) (ht : t ∈ db.tokens)
    (hr : isLive t = false) : t ∈ db'.tokens := by
  obtain ⟨g, new, hg, haged, -⟩ := h.ages
  rw [hg, ← (haged t).eq_of_revoked hr]
  exact List.mem_append_left _ (List.mem_map_of_mem ht)

/-- A token after a call was there before, or has the next key. -/
theorem TokenEffect.origin (h : TokenEffect now db db' c) (ht : t' ∈ db'.tokens) :
    (∃ t ∈ db.tokens, Aged now t t') ∨ t'.id = db.nextKey := by
  obtain ⟨g, new, hg, haged, hnew⟩ := h.ages
  rw [hg] at ht
  rcases List.mem_append.mp ht with ht | ht
  · obtain ⟨t, hmem, rfl⟩ := List.mem_map.mp ht
    exact .inl ⟨t, hmem, haged t⟩
  · obtain ⟨t, hmem, rfl⟩ := List.mem_map.mp ht
    rcases hnew with rfl | ⟨input, -, rfl, -, -⟩
    · cases hmem
    · obtain rfl := List.mem_singleton.mp hmem
      exact .inr (haged _).id

/-- A token keeps to its lifetime as it ages. -/
theorem Lifelong.aged (h : Lifelong env now t) (haged : Aged now t t') : Lifelong env now t' := by
  rcases haged.revoked with rfl | ⟨hlive, at_, reason, hat, hreason, hstamp⟩
  · exact h
  refine ⟨fun hl => ?_, fun hrotated => ⟨at_, hat, ?_⟩⟩
  · simp [isLive, hat] at hl
  · rcases hstamp with rfl | hne
    · rw [haged.expiresAt]
      exact h.live hlive
    · rw [hreason] at hrotated
      exact absurd (Option.some.inj hrotated) hne

theorem Lifelong.later {now' : Nat} (h : Lifelong env now t) (hle : now ≤ now') :
    Lifelong env now' t where
  live hl := Nat.le_trans (h.live hl) (Nat.add_le_add_right hle _)
  rotated := h.rotated

/-- A call that asks for tokens of the lifetime they have keeps the table well. -/
theorem TokenEffect.wellKept {w w' : World} (h : TokenEffect w.now w.db w'.db c)
    (hnow : w'.now = w.now) (hk : WellKept env w)
    (hasks : ∀ input, c.asksFor = some input → input.expiresAt ≤ w.now + env.refreshTokenTtlMs) :
    WellKept env w' := by
  refine ⟨⟨h.below hk.keyed.below, h.nodup hk.keyed.below hk.keyed.distinct⟩, ?_, ?_⟩
  · obtain ⟨g, new, hg, haged, hnew⟩ := h.ages
    have hmap : ∀ ts : List RefreshToken,
        (ts.map g).map (·.tokenHash) = ts.map (·.tokenHash) := by
      intro ts
      rw [List.map_map]
      exact List.map_congr_left fun t _ => (haged t).tokenHash
    rw [hg, List.map_append, hmap, hmap]
    rcases hnew with rfl | ⟨input, -, rfl, hhash, -⟩
    · simpa using hk.hashes
    · refine hk.hashes.append (List.nodup_singleton _) fun x hx hx' => ?_
      obtain ⟨t, ht, rfl⟩ := List.mem_map.mp hx
      exact hhash t ht (List.mem_singleton.mp hx')
  · intro t' ht'
    rw [hnow]
    obtain ⟨g, new, hg, haged, hnew⟩ := h.ages
    rw [hg] at ht'
    rcases List.mem_append.mp ht' with ht' | ht'
    · obtain ⟨t, ht, rfl⟩ := List.mem_map.mp ht'
      exact (hk.lifelong t ht).aged (haged t)
    · obtain ⟨t, ht, rfl⟩ := List.mem_map.mp ht'
      rcases hnew with rfl | ⟨input, hinput, rfl, -, -⟩
      · cases ht
      · obtain rfl := List.mem_singleton.mp ht
        refine Lifelong.aged ⟨fun _ => hasks input hinput, fun hr => ?_⟩ (haged _)
        cases hr

/-! ## How a step ages the table -/

/-- The tables some steps later: the tokens have aged, or sweeps took them. -/
structure Ages (env : Env) (options : ReaperOptions) (w w' : World) : Prop where
  now : w.now ≤ w'.now
  nextKey : w.db.nextKey ≤ w'.db.nextKey
  origin : ∀ t' ∈ w'.db.tokens, (∃ t ∈ w.db.tokens, Aged w.now t t') ∨ w.db.nextKey ≤ t'.id
  revoked : ∀ t ∈ w.db.tokens, isLive t = false →
    t ∈ w'.db.tokens ∨ options.takes w.now t = true
  lost : ∀ t ∈ w.db.tokens, (∀ t' ∈ w'.db.tokens, t'.id ≠ t.id) → options.takes w.now t = true
  wellKept : WellKept env w → WellKept env w'

variable {w w' : World}

/-- Steps that leave the tokens alone. -/
theorem ages_of_eq (hnow : w.now ≤ w'.now) (hkey : w.db.nextKey ≤ w'.db.nextKey)
    (htokens : w'.db.tokens = w.db.tokens) : Ages env options w w' where
  now := hnow
  nextKey := hkey
  origin t ht := .inl ⟨t, htokens ▸ ht, .refl t⟩
  revoked t ht _ := .inl (htokens ▸ ht)
  lost t ht hgone := absurd rfl (hgone t (htokens ▸ ht))
  wellKept h := by
    refine ⟨⟨fun t ht => ?_, ?_⟩, ?_, fun t ht => ?_⟩
    · exact Nat.lt_of_lt_of_le (h.keyed.below t (htokens ▸ ht)) hkey
    · rw [htokens]
      exact h.keyed.distinct
    · rw [htokens]
      exact h.hashes
    · exact (h.lifelong t (htokens ▸ ht)).later hnow

theorem Ages.refl (w : World) : Ages env options w w :=
  ages_of_eq (Nat.le_refl _) (Nat.le_refl _) rfl

/-- A call of the repository. -/
theorem ages_call (hdb : w'.db = w.db.after w.now c) (hnow : w'.now = w.now)
    (hasks : ∀ input, c.asksFor = some input → input.expiresAt ≤ w.now + env.refreshTokenTtlMs) :
    Ages env options w w' := by
  have heffect : TokenEffect w.now w.db w'.db c := by
    rw [hdb]
    exact token_effect w.now w.db c
  refine ⟨Nat.le_of_eq hnow.symm, heffect.nextKey_le, fun t' ht' => ?_, fun t ht hr => ?_,
    fun t ht hgone => ?_, fun hk => heffect.wellKept hnow hk hasks⟩
  · exact (heffect.origin ht').imp_right fun hid => Nat.le_of_eq hid.symm
  · exact .inl (heffect.stays ht hr)
  · obtain ⟨t', ht', hsame⟩ := heffect.mem ht
    exact absurd hsame.id (hgone t' ht')

/-- What is left of one table when rows are deleted. -/
theorem filterMap_delete {α : Type} {get : Row → Option α} {mk : α → Row}
    (hmk : ∀ row a, get row = some a → row = mk a) (whose : Purge) (ids : List Nat) :
    (db.delete whose ids).rows.filterMap get =
      (db.rows.filterMap get).filter fun a => !whose.picks ids (mk a) := by
  unfold Database.delete
  dsimp only
  induction db.rows with
  | nil => rfl
  | cons row rows ih =>
    rw [List.filter_cons]
    cases hget : get row with
    | none =>
      rw [List.filterMap_cons_none hget, ← ih]
      split
      · exact List.filterMap_cons_none hget
      · rfl
    | some a =>
      obtain rfl := hmk row a hget
      rw [List.filterMap_cons_some hget, List.filter_cons, ← ih]
      split
      · exact List.filterMap_cons_some hget
      · rfl

theorem tokens_delete (whose : Purge) (ids : List Nat) :
    (db.delete whose ids).tokens = db.tokens.filter fun t => !whose.picks ids (.token t) := by
  refine filterMap_delete (fun row t h => ?_) whose ids
  cases row <;> cases h
  rfl

theorem loginHistory_delete (whose : Purge) (ids : List Nat) :
    (db.delete whose ids).loginHistory =
      db.loginHistory.filter fun h => !whose.picks ids (.history h) := by
  refine filterMap_delete (fun row h hget => ?_) whose ids
  cases row <;> cases hget
  rfl

/-- A deletion of tokens a sweep takes. -/
theorem ages_delete {whose : Purge} {ids : List Nat}
    (hpicks : ∀ t ∈ w.db.tokens, whose.picks ids (.token t) = true → options.takes w.now t = true) :
    Ages env options w { w with db := w.db.delete whose ids } := by
  have hmem : ∀ {t}, t ∈ (w.db.delete whose ids).tokens →
      t ∈ w.db.tokens := fun ht => List.mem_of_mem_filter (tokens_delete whose ids ▸ ht)
  have hstays : ∀ t ∈ w.db.tokens, t ∈ (w.db.delete whose ids).tokens ∨
      options.takes w.now t = true := by
    intro t ht
    cases hp : whose.picks ids (.token t) with
    | true => exact .inr (hpicks t ht hp)
    | false =>
      refine .inl ?_
      rw [tokens_delete]
      exact List.mem_filter.mpr ⟨ht, by rw [hp]; rfl⟩
  refine ⟨Nat.le_refl _, Nat.le_refl _, fun t ht => .inl ⟨t, hmem ht, .refl t⟩,
    fun t ht _ => hstays t ht, fun t ht hgone => ?_, fun hk => ?_⟩
  · exact (hstays t ht).resolve_left fun hkept => hgone t hkept rfl
  · have hsub : (w.db.delete whose ids).tokens.Sublist w.db.tokens := by
      rw [tokens_delete]
      exact List.filter_sublist
    exact ⟨⟨fun t ht => hk.keyed.below t (hmem ht), hk.keyed.distinct.sublist (hsub.map _)⟩,
      hk.hashes.sublist (hsub.map _), fun t ht => hk.lifelong t (hmem ht)⟩

theorem ages_move {m : Move} (h : World.move m w = some w') : Ages env options w w' := by
  cases m with
  | tick ms =>
    cases h
    exact ages_of_eq (Nat.le_add_right _ _) (Nat.le_refl _) rfl
  | setStatus id status =>
    cases h
    exact ages_of_eq (Nat.le_refl _) (Nat.le_refl _) (tokens_update_user _ _)

end

end PracticalMicroservice.Auth
