import PracticalMicroservice.Auth.Proofs.EnumerationProofs
import PracticalMicroservice.Auth.Proofs.ReaperProofs

/-!
# Stolen tokens are not forgotten

Whatever requests and sweeps run, a sweep only takes tokens that were old enough when it looked.
Where revoked tokens are kept as long as tokens last, an exchanged token is there until it expires.
-/

namespace PracticalMicroservice.Auth

open Foundations (Called Ensured Meets Pool Recounted Store ensured_bind pastOf pool_step_cases)
open PrismaAuthRepository

section

variable {env : Env} {options : ReaperOptions} {w w' : World} {t t' : RefreshToken}
  {whose : Purge} {ids : List Nat}

/-! ## What a sweep has found -/

/-- Of the tokens there are, a deletion only picks those that fit. -/
structure Doomed (w : World) (whose : Purge) (ids : List Nat) : Prop where
  below : ∀ t, whose.table (.token t) = true → ∀ id ∈ ids, id < w.db.nextKey
  fits : ∀ t ∈ w.db.tokens, whose.picks ids (.token t) = true → whose.fits (.token t) = true

theorem picks_token : whose.picks ids (.token t) = true ↔
    whose.table (.token t) = true ∧ t.id ∈ ids := by
  unfold Purge.picks
  rw [Bool.and_eq_true, decide_eq_true_eq]
  rfl

/-- A token a sweep is after stays one. -/
theorem fits_aged {now : Nat} (h : Aged now t t') (hf : whose.fits (.token t) = true) :
    whose.fits (.token t') = true := by
  cases whose with
  | expiredTokens before =>
    rw [Purge.fits, decide_eq_true_eq] at hf ⊢
    rw [h.expiresAt]
    exact hf
  | revokedTokens revokedBefore expiredBefore =>
    have hrevoked : isLive t = false := by
      cases hr : t.revokedAt with
      | none => simp [Purge.fits, hr] at hf
      | some r => simp [isLive, hr]
    rw [h.eq_of_revoked hrevoked]
    exact hf
  | verifications before => cases hf
  | loginHistory before => cases hf

theorem table_token (t t' : RefreshToken) :
    whose.table (.token t) = whose.table (.token t') := by
  cases whose <;> rfl

theorem Doomed.ages (h : Doomed w whose ids) (ha : Ages env options w w') :
    Doomed w' whose ids where
  below t ht id hid := Nat.lt_of_lt_of_le (h.below t ht id hid) ha.nextKey
  fits t' ht' hp := by
    obtain ⟨htable, hid⟩ := picks_token.mp hp
    rcases ha.origin t' ht' with ⟨t, ht, haged⟩ | hnew
    · refine fits_aged haged (h.fits t ht (picks_token.mpr ⟨?_, haged.id ▸ hid⟩))
      exact (table_token t t').trans htable
    · exact absurd (h.below t' htable _ hid) (Nat.not_lt.mpr hnew)

/-- What a select finds. -/
theorem doomed_of_selects {take : Nat} (hk : WellKept env w)
    (h : w.db.selects whose take ids) : Doomed w whose ids := by
  have hfound : ∀ t, whose.table (.token t) = true → ∀ id ∈ ids,
      ∃ t₀ ∈ w.db.tokens, t₀.id = id ∧ whose.fits (.token t₀) = true := by
    intro t ht id hid
    obtain ⟨row, hrow, hfits, hrid⟩ := h.2.1 id hid
    cases row with
    | token t₀ => exact ⟨t₀, List.mem_filterMap.mpr ⟨_, hrow, rfl⟩, hrid, hfits⟩
    | user u => cases whose <;> simp [Purge.fits] at hfits
    | verification v => cases whose <;> simp [Purge.fits, Purge.table] at hfits ht
    | history r => cases whose <;> simp [Purge.fits, Purge.table] at hfits ht
  refine ⟨fun t ht id hid => ?_, fun t ht hp => ?_⟩
  · obtain ⟨t₀, ht₀, rfl, -⟩ := hfound t ht id hid
    exact hk.keyed.below t₀ ht₀
  · obtain ⟨htable, hid⟩ := picks_token.mp hp
    obtain ⟨t₀, ht₀, hid₀, hfits⟩ := hfound t htable t.id hid
    rwa [← hk.keyed.eq_of_key ht₀ ht hid₀]

theorem daysBefore_mono (days : Nat) {now now' : Nat} (h : now ≤ now') :
    daysBefore days now ≤ daysBefore days now' := Nat.sub_le_sub_right h _

/-- What fits the deletion of a sweep is still taken later. -/
theorem takes_of_fits {now now' : Nat} (hw : whose ∈ options.purges now) (hle : now ≤ now')
    (hf : whose.fits (.token t) = true) : options.takes now' t = true := by
  unfold ReaperOptions.takes
  rw [Bool.or_eq_true, decide_eq_true_eq]
  simp only [ReaperOptions.purges, List.mem_cons, List.not_mem_nil, or_false] at hw
  rcases hw with rfl | rfl | rfl | rfl
  · rw [Purge.fits, decide_eq_true_eq] at hf
    exact .inl (Nat.lt_of_lt_of_le hf (daysBefore_mono _ hle))
  · rw [Purge.fits, Bool.and_eq_true] at hf
    obtain ⟨r, hr, hbefore⟩ := (Option.any_eq_true _ _).mp hf.1
    rw [decide_eq_true_eq] at hbefore
    refine .inr ((Option.any_eq_true _ _).mpr ⟨r, hr, decide_eq_true ?_⟩)
    exact Nat.lt_of_lt_of_le hbefore (daysBefore_mono _ hle)
  · simp [Purge.fits] at hf
  · simp [Purge.fits] at hf

theorem sweep_findMany {fate : SweepFate} {take : Nat} {reply : Except AppError (List Nat)}
    (h : World.sweep fate (.findMany whose take) w = some (reply, w')) :
    w' = w ∧ ∀ ids, reply = .ok ids → w.db.selects whose take ids := by
  cases fate with
  | served ids =>
    by_cases hs : w.db.selects whose take ids
    · rw [World.sweep, if_pos hs] at h
      cases h
      refine ⟨rfl, fun ids' he => ?_⟩
      cases he
      exact hs
    · rw [World.sweep, if_neg hs] at h
      cases h
  | refused e =>
    cases h
    exact ⟨rfl, fun _ he => nomatch he⟩
  | unanswered e =>
    cases h
    exact ⟨rfl, fun _ he => nomatch he⟩

theorem sweep_deleteMany {fate : SweepFate} {reply : Except AppError Nat}
    (h : World.sweep fate (.deleteMany whose ids) w = some (reply, w')) :
    w' = w ∨ fate.isRefused = false ∧ w' = { w with db := w.db.delete whose ids } := by
  cases fate with
  | served _ => exact .inr ⟨rfl, (Prod.mk.inj (Option.some.inj h)).2.symm⟩
  | refused e => exact .inl (Prod.mk.inj (Option.some.inj h)).2.symm
  | unanswered e => exact .inr ⟨rfl, (Prod.mk.inj (Option.some.inj h)).2.symm⟩

/-! ## The states reached -/

/-- What holds in every state the requests and the sweeps reach. -/
structure Tended (env : Env) (options : ReaperOptions) (s : Housekept.System) : Prop where
  requests : Recounted (Justified env) Plausible (Concluded env) s
  sweeps : Recounted (SweepGrounds options) anyReply (fun _ _ => True) s.world
  told : ∀ e ∈ s.trace, ∀ now : Nat, e.told = ⟨.now, now⟩ → now ≤ s.tables.now
  swept : ∀ e ∈ s.world.trace, ∀ now : Nat, e.told = ⟨.now, now⟩ → now ≤ s.tables.now
  found : ∀ e ∈ s.world.trace, ∀ whose take ids, e.told = ⟨.findMany whose take, .ok ids⟩ →
    Doomed s.tables whose ids
  wellKept : WellKept env s.tables

theorem tended_start (h : WellKept env w) : Tended env options (Housekept.System.start w) where
  requests := Foundations.recounted_start
  sweeps := Foundations.recounted_start
  told _ he := nomatch he
  swept _ he := nomatch he
  found _ he := nomatch he
  wellKept := h

variable {s s' : Housekept.System} {sweeps : Sweeps}

/-- A step of the sweeps, or of the clock and the operators. -/
theorem Tended.sweep (h : Tended env options s) {l : SweepLabel}
    (hs : s.world.step options l = some sweeps)
    (hr : Recounted (Justified env) Plausible (Concluded env) { s with world := sweeps }) :
    Ages env options s.tables sweeps.world ∧ Tended env options { s with world := sweeps } := by
  have hsweeps := h.sweeps.step meets_runOnce (fun _ _ _ _ _ _ _ => trivial) hs
  have hkeep : ∀ {sweeps : Sweeps}, Ages env options s.tables sweeps.world →
      Recounted (Justified env) Plausible (Concluded env) { s with world := sweeps } →
      Recounted (SweepGrounds options) anyReply (fun _ _ => True) sweeps →
      (∀ e ∈ sweeps.trace, e ∈ s.world.trace ∨
        (∀ now : Nat, e.told = ⟨.now, now⟩ → now ≤ sweeps.world.now) ∧
        ∀ whose take ids, e.told = ⟨.findMany whose take, .ok ids⟩ →
          Doomed sweeps.world whose ids) →
      Ages env options s.tables sweeps.world ∧ Tended env options { s with world := sweeps } := by
    intro sweeps ha hr hsweeps htrace
    refine ⟨ha, hr, hsweeps, fun e he now hnow => Nat.le_trans (h.told e he now hnow) ha.now,
      fun e he now hnow => ?_, fun e he whose take ids hfind => ?_, ha.wellKept h.wellKept⟩
    · rcases htrace e he with hold | ⟨hnew, -⟩
      · exact Nat.le_trans (h.swept e hold now hnow) ha.now
      · exact hnew now hnow
    · rcases htrace e he with hold | ⟨-, hnew⟩
      · exact (h.found e hold whose take ids hfind).ages ha
      · exact hnew whose take ids hfind
  rcases pool_step_cases hs with ⟨task, -, rfl⟩ | ⟨i, fate, task, command, next, reply, -, hc⟩ |
    ⟨m, world, -, hw, rfl⟩
  · exact hkeep (.refl _) hr hsweeps fun e he => .inl he
  · have hp : World.sweep fate command s.tables = some (reply, sweeps.world) := hc.perform
    have hallow := h.sweeps.allowed hc.thread
    have htrace : ∀ e ∈ sweeps.trace, e = ⟨i, command, reply, s.world.world, sweeps.world⟩ ∨
        e ∈ s.world.trace := fun e he => List.mem_cons.mp (hc.trace ▸ he)
    cases command with
    | now =>
      obtain ⟨hreply, hworld⟩ := Prod.mk.inj (Option.some.inj hp)
      refine hkeep (hworld ▸ .refl _) hr hsweeps fun e he => ?_
      rcases htrace e he with rfl | hold
      · refine .inr ⟨fun now htold => ?_, fun whose take ids htold => nomatch htold⟩
        cases htold
        exact Nat.le_of_eq (hreply.symm.trans (congrArg World.now hworld))
      · exact .inl hold
    | findMany whose take =>
      obtain ⟨hworld, hselects⟩ := sweep_findMany hp
      refine hkeep (hworld ▸ .refl _) hr hsweeps fun e he => ?_
      rcases htrace e he with rfl | hold
      · refine .inr ⟨(fun now htold => nomatch htold), fun whose take ids htold => ?_⟩
        cases htold
        rw [hworld]
        exact doomed_of_selects h.wellKept (hselects ids rfl)
      · exact .inl hold
    | deleteMany whose ids =>
      obtain ⟨now, take, hnow, hfound, hwhose⟩ := hallow
      obtain ⟨e₁, he₁, -, htold₁⟩ := Foundations.mem_pastOf hnow
      obtain ⟨e₂, he₂, -, htold₂⟩ := Foundations.mem_pastOf hfound
      have hpicks : ∀ t ∈ s.tables.db.tokens, whose.picks ids (.token t) = true →
          options.takes s.tables.now t = true := fun t ht hpick =>
        takes_of_fits hwhose (h.swept e₁ he₁ now htold₁)
          ((h.found e₂ he₂ whose take ids htold₂).fits t ht hpick)
      have hages : Ages env options s.tables sweeps.world := by
        rcases sweep_deleteMany hp with hworld | ⟨-, hworld⟩
        · exact hworld ▸ .refl _
        · exact hworld ▸ ages_delete hpicks
      refine hkeep hages hr hsweeps fun e he => ?_
      rcases htrace e he with rfl | hold
      · exact .inr ⟨(fun now htold => nomatch htold), fun whose take ids htold => nomatch htold⟩
      · exact .inl hold
  · exact hkeep (ages_move hw) hr hsweeps fun e he => .inl he

/-- A token a request asks for expires a lifetime after a time it was told. -/
theorem expires_of_grounds {task : Task} {past : Told} {c : Call} {input : NewRefreshTokenRecord}
    (h : Grounds env task past (.repository c)) (hc : c.asksFor = some input) :
    past.Expires env input := by
  cases c with
  | createRefreshToken input' =>
    cases hc
    obtain ⟨token, familyId, rest, -, -, -, -, hexpires, -⟩ := h
    exact hexpires
  | rotateRefreshToken currentId next =>
    cases hc
    obtain ⟨presented, info, stored, -, -, -, -, -, -, hexpires⟩ := h
    exact hexpires
  | _ => cases hc

/-- A step of the service with its housekeeping. -/
theorem Tended.step (h : Tended env options s) {l : Housekept.Label}
    (hs : Housekept.System.step env options s l = some s') :
    Ages env options s.tables s'.tables ∧ Tended env options s' := by
  have hr := h.requests.step (meets_task env)
    (fun _ _ _ _ _ _ hp => by
      obtain ⟨⟨reply, w'⟩, hdone, heq⟩ := Option.map_eq_some_iff.mp hp
      cases heq
      exact plausible_of_perform hdone) hs
  rcases pool_step_cases hs with ⟨task, -, rfl⟩ | ⟨i, fate, task, command, next, reply, -, hc⟩ |
    ⟨l, sweeps, -, hw, rfl⟩
  · exact ⟨.refl _, hr, h.sweeps, h.told, h.swept, h.found, h.wellKept⟩
  · obtain ⟨⟨reply', w'⟩, hp, heq⟩ := Option.map_eq_some_iff.mp hc.perform
    obtain ⟨rfl, hworld⟩ := Prod.mk.inj heq
    have htables : s'.tables = w' := congrArg Pool.world hworld.symm
    have hnow : s'.tables.now = s.tables.now := by
      rw [htables]
      exact perform_now hp
    have hages : Ages env options s.tables s'.tables := by
      rcases perform_db hp with hdb | ⟨c, rfl, hdb⟩
      · refine ages_of_eq (Nat.le_of_eq hnow.symm) ?_ ?_
        · rw [htables, hdb]
          exact Nat.le_refl _
        · rw [htables, hdb]
          rfl
      · refine ages_call (htables ▸ hdb) hnow fun input hinput => ?_
        obtain ⟨now, hheard, hexpires⟩ := expires_of_grounds (h.requests.allowed hc.thread).2 hinput
        obtain ⟨e, he, -, htold⟩ := Foundations.mem_pastOf hheard
        rw [hexpires]
        exact Nat.add_le_add_right (h.told e he now htold) _
    have hsweeps : s'.world.trace = s.world.trace := by rw [← hworld]
    refine ⟨hages, hr, ?_, fun e he now htold => ?_, fun e he now htold => ?_,
      fun e he whose take ids htold => ?_, hages.wellKept h.wellKept⟩
    · rw [← hworld]
      exact ⟨h.sweeps.meets, h.sweeps.unborn, h.sweeps.accounted⟩
    · rw [hnow]
      rcases List.mem_cons.mp (hc.trace ▸ he) with rfl | hold
      · cases htold
        exact Nat.le_of_eq (Prod.mk.inj (Option.some.inj hp)).1.symm
      · exact h.told e hold now htold
    · rw [hnow]
      exact h.swept e (hsweeps ▸ he) now htold
    · exact (h.found e (hsweeps ▸ he) whose take ids htold).ages hages
  · exact h.sweep hw hr

/-! ## Exchanged tokens -/

theorem refreshTokenTtlMs_le (h : env.REFRESH_TOKEN_TTL_DAYS ≤ options.revokedRetentionDays) :
    env.refreshTokenTtlMs ≤ options.revokedRetentionDays * MS_PER_DAY := by
  unfold Env.refreshTokenTtlMs MS_PER_DAY
  omega

/-- A token is taken before it expires only if revoked tokens are kept for less than a lifetime. -/
theorem expired_of_takes {now : Nat}
    (hretain : env.REFRESH_TOKEN_TTL_DAYS ≤ options.revokedRetentionDays)
    (ht : Lifelong env now t) (hrotated : t.revokedReason = some .ROTATED)
    (h : options.takes now t = true) : t.expiresAt < now := by
  unfold ReaperOptions.takes at h
  rw [Bool.or_eq_true, decide_eq_true_eq] at h
  rcases h with h | h
  · exact Nat.lt_of_lt_of_le h (Nat.sub_le _ _)
  · obtain ⟨r, hr, hexpires⟩ := ht.rotated hrotated
    rw [hr, Option.any_some, decide_eq_true_eq] at h
    have hkept : r + options.revokedRetentionDays * MS_PER_DAY < now := Nat.add_lt_of_lt_sub h
    have hbound := refreshTokenTtlMs_le hretain
    exact Nat.lt_of_le_of_lt (Nat.le_trans hexpires (Nat.add_le_add_left hbound r)) hkept

theorem run_tended {ls : List Housekept.Label} (h : Tended env options s)
    (hr : Foundations.runs (Housekept.System.step env options) s ls = some s') :
    s.tables.now ≤ s'.tables.now ∧ Tended env options s' := by
  induction ls generalizing s with
  | nil =>
    cases hr
    exact ⟨Nat.le_refl _, h⟩
  | cons l ls ih =>
    obtain ⟨s₁, hs, hrest⟩ := Option.bind_eq_some_iff.mp hr
    obtain ⟨hages, h₁⟩ := h.step hs
    obtain ⟨hle, h'⟩ := ih h₁ hrest
    exact ⟨Nat.le_trans hages.now hle, h'⟩

/-- An exchanged token is there until it expires. -/
theorem exchanged_stays {ls : List Housekept.Label}
    (hretain : env.REFRESH_TOKEN_TTL_DAYS ≤ options.revokedRetentionDays)
    (h : Tended env options s)
    (hr : Foundations.runs (Housekept.System.step env options) s ls = some s')
    (ht : t ∈ s.tables.db.tokens) (hrotated : t.revokedReason = some .ROTATED)
    (hexpires : s'.tables.now < t.expiresAt) : t ∈ s'.tables.db.tokens := by
  induction ls generalizing s with
  | nil =>
    cases hr
    exact ht
  | cons l ls ih =>
    obtain ⟨s₁, hs, hrest⟩ := Option.bind_eq_some_iff.mp hr
    obtain ⟨hages, h₁⟩ := h.step hs
    have hlife := h.wellKept.lifelong t ht
    have hrevoked : isLive t = false := by
      obtain ⟨r, hr, -⟩ := hlife.rotated hrotated
      simp [isLive, hr]
    refine ih h₁ hrest ((hages.revoked t ht hrevoked).resolve_right fun htakes => ?_)
    have hexpired := expired_of_takes hretain hlife hrotated htakes
    have hlater := Nat.le_trans hages.now (run_tended h₁ hrest).1
    exact absurd hexpires (Nat.not_lt.mpr (Nat.le_of_lt (Nat.lt_of_lt_of_le hexpired hlater)))

/-! ## A token presented -/

/-- The row a presented token is looked up by is its own. -/
theorem find_of_hash (h : WellKept env w) (ht : t ∈ w.db.tokens) :
    w.db.tokens.find? (·.tokenHash = t.tokenHash) = some t := by
  cases hf : w.db.tokens.find? (·.tokenHash = t.tokenHash) with
  | none => exact absurd (List.find?_eq_none.mp hf t ht) (by simp)
  | some u =>
    have hhash : u.tokenHash = t.tokenHash := by simpa using List.find?_some hf
    rw [List.inj_on_of_nodup_map h.hashes (List.mem_of_find?_eq_some hf) ht hhash]

theorem tokens_revokeFamily (db : Database) (now : Nat) (familyId : String)
    (reason : RevokeReason) :
    (db.after now (.revokeFamily familyId reason)).tokens =
      sweptTokens (fun t => t.familyId = familyId ∧ isLive t) now reason db.tokens :=
  tokens_update_token _ _

/-- No token of a revoked family is live. -/
theorem ended_by_revokeFamily {db : Database} {now : Nat} {familyId : String}
    {reason : RevokeReason} : ∀ t ∈ (db.after now (.revokeFamily familyId reason)).tokens,
      t.familyId = familyId → isLive t = false := by
  intro t ht hf
  rw [tokens_revokeFamily] at ht
  obtain ⟨t', -, rfl⟩ := List.mem_map.mp ht
  by_cases hp : t'.familyId = familyId ∧ isLive t' = true
  · rw [if_pos (by simpa using hp)]
    rfl
  · rw [if_neg (by simpa using hp)] at hf ⊢
    exact Bool.eq_false_iff.mpr fun hl => hp ⟨hf, hl⟩

/-- The tokens of the other families stay as they are. -/
theorem mem_revokeFamily {db : Database} {now : Nat} {familyId : String} {reason : RevokeReason}
    (ht : t ∈ db.tokens) (hf : t.familyId ≠ familyId) :
    t ∈ (db.after now (.revokeFamily familyId reason)).tokens := by
  rw [tokens_revokeFamily]
  refine List.mem_map.mpr ⟨t, ht, if_neg ?_⟩
  simp [hf]

theorem run_revokeFamily (db : Database) (now : Nat) (familyId : String) (reason : RevokeReason) :
    ∃ n, (Store.run ((Call.revokeFamily familyId reason).transaction now) db).1 = .ok n :=
  ⟨_, congrArg Prod.fst (run_updateManyTokens _ _)⟩

/-- A token presented after a sweep took it would have revoked nothing of use. -/
theorem spent_of_taken (hk : WellKept env w) (ht : t ∈ w.db.tokens)
    (htakes : options.takes w.now t = true) (hspares : Spares options w) : Spent env w t := by
  intro token info answer w' hhash hends
  have hleads : Leads env (fun _ => true) (AuthService.refresh env token info) (fun _ _ => False)
      (fun _ w' => ∀ t' ∈ w.db.tokens, Usable w t' → t' ∈ w'.db.tokens) w := by
    refine leads_bind (leads_read (fun _ => run_findRefreshTokenByHash _) fun ms => ?_)
    rw [hhash, find_of_hash hk ht]
    dsimp only
    split
    · rename_i hrevoked
      refine leads_bind (leads_repository fun ms' => ?_)
      obtain ⟨n, hn⟩ := run_revokeFamily w.db (w.now + ms + ms') t.familyId .REUSE_DETECTED
      refine ⟨n, hn, fun t' ht' husable => mem_revokeFamily ht' fun hfamily => ?_⟩
      have hdead : isLive t = false := by
        obtain ⟨r, hr⟩ := Option.isSome_iff_exists.mp hrevoked
        simp [isLive, hr]
      rw [hspares t ht t' ht' hfamily husable hdead] at htakes
      cases htakes
    · rename_i hlive
      have hnone : t.revokedAt = none := by simpa using hlive
      have hexpired : t.expiresAt < w.now := by
        unfold ReaperOptions.takes at htakes
        rw [hnone, Option.any_none, Bool.or_false, decide_eq_true_eq] at htakes
        exact Nat.lt_of_lt_of_le htakes (Nat.sub_le _ _)
      refine leads_bind (leads_call fun ms' fate now w₁ _ hp => ?_)
      obtain ⟨rfl, rfl⟩ := Prod.mk.inj (Option.some.inj hp)
      have hpast : t.expiresAt ≤ w.now + ms + ms' := by omega
      rw [if_pos hpast]
      exact fun t' ht' _ => ht'
  have hrequest : Leads env (fun _ => true) (Task.promise env (.refresh token info))
      (fun _ _ => False) (fun _ w' => ∀ t' ∈ w.db.tokens, Usable w t' → t' ∈ w'.db.tokens) w :=
    leads_bind (hleads.mono (fun _ _ hf => hf.elim) fun _ _ he => he)
  have hmeets : Meets (unattended env fun _ => true) (Task.run env (.refresh token info))
      (fun _ w' => ∀ t' ∈ w.db.tokens, Usable w t' → t' ∈ w'.db.tokens) w :=
    hrequest.meets (fun _ _ hf => hf.elim) fun _ _ he => he
  exact hmeets.ends hends

/-! ## A token presented amid everything else -/

section

variable {α β : Type} {g : Bool × Housekept.System} {ok : α → Bool × Housekept.System → Prop}
  {err : AppError → Bool × Housekept.System → Prop}

abbrev Amid (env : Env) (options : ReaperOptions) (p : Promise α)
    (ok : α → Bool × Housekept.System → Prop) (err : AppError → Bool × Housekept.System → Prop)
    (g : Bool × Housekept.System) : Prop :=
  Ensured (amid env options) p ok err g

theorem amid_bind {p : Promise β} {f : β → Promise α}
    (h : Amid env options p (fun b g' => Amid env options (f b) ok err g') err g) :
    Amid env options (p >>= f) ok err g := ensured_bind.mpr h

/-- A call of the repository, after any steps of the others, succeeds. -/
theorem amid_repository {c : Call} {ok : c.Result → Bool × Housekept.System → Prop}
    (h : ∀ ls s, Foundations.runs (Housekept.System.step env options) g.2 ls = some s →
      (g.1 = false → ls = []) →
      ∃ result, (Store.run (c.transaction s.tables.now) s.tables.db).1 = .ok result ∧
        ok result (true, s.withTables
          { s.tables with db := s.tables.db.after s.tables.now c })) :
    Amid env options (Promise.repository c) ok err g := by
  refine amid_bind ⟨trivial, ?_⟩
  rintro reply g' ⟨ls, s, fate, w', hr, hfirst, hfate, hp, rfl⟩
  cases fate with
  | served =>
    obtain ⟨result, hrun, hok⟩ := h ls s hr hfirst
    obtain ⟨hreply, rfl⟩ := Prod.mk.inj (Option.some.inj hp)
    have hserved : reply = .ok result :=
      hreply.symm.trans (congrArg (Except.mapError toAppError) hrun)
    subst hserved
    exact hok
  | refused e => cases hfate
  | unanswered e => cases hfate
  | remote r => cases hfate

/-- A revoked token that is presented ends its family. -/
theorem endsFamily_of_revoked (hk : WellKept env s.tables) (ht : t ∈ s.tables.db.tokens)
    (hrevoked : t.revokedAt.isSome) : EndsFamily env options s t := by
  intro token info hhash
  have hrefresh : Amid env options (AuthService.refresh env token info) (fun _ _ => False)
      (fun e g' => e = AuthService.reuseError ∧
        ∀ t' ∈ g'.2.tables.db.tokens, t'.familyId = t.familyId → isLive t' = false)
      (false, s) := by
    refine amid_bind (amid_repository fun ls s₁ hr hfirst => ?_)
    obtain rfl := hfirst rfl
    cases hr
    refine ⟨some t, ?_, ?_⟩
    · rw [hhash]
      exact (congrArg Prod.fst (run_findRefreshTokenByHash _)).trans
        (congrArg Except.ok (find_of_hash hk ht))
    dsimp only
    rw [if_pos hrevoked]
    refine amid_bind (amid_repository fun ls s₂ _ _ => ?_)
    obtain ⟨n, hn⟩ := run_revokeFamily s₂.tables.db s₂.tables.now t.familyId .REUSE_DETECTED
    exact ⟨n, hn, rfl, ended_by_revokeFamily⟩
  have hrequest : Amid env options (Task.promise env (.refresh token info)) (fun _ _ => False)
      (fun e g' => e = AuthService.reuseError ∧
        ∀ t' ∈ g'.2.tables.db.tokens, t'.familyId = t.familyId → isLive t' = false) (false, s) :=
    amid_bind (hrefresh.mono (fun _ _ hf => hf.elim) fun _ _ he => he)
  have hmeets : Meets (amid env options) (Task.run env (.refresh token info))
      (fun answer g' => answer = .error AuthService.reuseError ∧
        ∀ t' ∈ g'.2.tables.db.tokens, t'.familyId = t.familyId → isLive t' = false) (false, s) :=
    hrequest.meets (fun _ _ hf => hf.elim) fun _ _ he => ⟨congrArg Except.error he.1, he.2⟩
  refine ⟨?_, fun answer g hends => hmeets.ends hends⟩
  refine Foundations.ends_total (fun command g => ?_) _ _
  obtain ⟨fate, hfate, reply, w', hp⟩ := performs env (fun _ => true) command g.2.tables
  exact ⟨reply, _, [], g.2, fate, w', rfl, fun _ => rfl, hfate, hp, rfl⟩

/-- A token that is gone is not known to be stolen. -/
theorem not_endsFamily_of_gone {token : String} (hhash : env.hashRefreshToken token = t.tokenHash)
    (hgone : s.tables.db.tokens.find? (·.tokenHash = t.tokenHash) = none) :
    ¬ EndsFamily env options s t := by
  intro hends
  have hrefresh : Amid env options (AuthService.refresh env token {}) (fun _ _ => False)
      (fun e _ => e = AuthService.invalidSessionError) (false, s) := by
    refine amid_bind (amid_repository fun ls s₁ hr hfirst => ?_)
    obtain rfl := hfirst rfl
    cases hr
    refine ⟨none, ?_, rfl⟩
    rw [hhash]
    exact (congrArg Prod.fst (run_findRefreshTokenByHash _)).trans (congrArg Except.ok hgone)
  have hrequest : Amid env options (Task.promise env (.refresh token {})) (fun _ _ => False)
      (fun e _ => e = AuthService.invalidSessionError) (false, s) :=
    amid_bind (hrefresh.mono (fun _ _ hf => hf.elim) fun _ _ he => he)
  have hmeets : Meets (amid env options) (Task.run env (.refresh token {}))
      (fun answer _ => answer = .error AuthService.invalidSessionError) (false, s) :=
    hrequest.meets (fun _ _ hf => hf.elim) fun _ _ he => congrArg Except.error he
  obtain ⟨⟨answer, g, hend⟩, hall⟩ := hends token {} hhash
  have hinvalid := hmeets.ends hend
  rw [(hall answer g hend).1] at hinvalid
  simp [AuthService.reuseError, AuthService.invalidSessionError] at hinvalid

end

/-- Where revoked tokens are kept as long as tokens last, whatever ran before, presenting an
exchanged token that has not expired ends its family; and a step that removes a token removes one
that was of no more use, unless a family in use had a revoked token a sweep takes. -/
theorem reuse_stays_detected {ls ls' : List Housekept.Label} (hw : WellKept env w)
    (h : Foundations.runs (Housekept.System.step env options) (Housekept.System.start w) ls = some s)
    (h' : Foundations.runs (Housekept.System.step env options) s ls' = some s') :
    (env.REFRESH_TOKEN_TTL_DAYS ≤ options.revokedRetentionDays →
      ∀ t ∈ s.tables.db.tokens, t.revokedReason = some .ROTATED → s'.tables.now < t.expiresAt →
        EndsFamily env options s' t) ∧
    ∀ l s'', Housekept.System.step env options s' l = some s'' → Spares options s'.tables →
      ∀ t, Removed s' s'' t → Spent env s'.tables t := by
  have htended := (run_tended (tended_start hw) h).2
  have htended' := (run_tended htended h').2
  constructor
  · intro hretain t ht hrotated hexpires
    have hmem := exchanged_stays hretain htended h' ht hrotated hexpires
    obtain ⟨r, hr, -⟩ := (htended'.wellKept.lifelong t hmem).rotated hrotated
    exact endsFamily_of_revoked htended'.wellKept hmem (Option.isSome_iff_exists.mpr ⟨r, hr⟩)
  · intro l s'' hs hspares t hremoved
    obtain ⟨ht, hgone⟩ := hremoved
    have htakes := (htended'.step hs).1.lost t ht hgone
    exact spent_of_taken htended'.wellKept ht htakes hspares

end

/-! ## A token exchanged, and a sweep some days later -/

/-- Revoked tokens are kept as long as tokens last. -/
def monthLong : ReaperOptions where
  expiredGraceDays := 1
  revokedRetentionDays := 30
  verificationRetentionDays := 7
  loginHistoryRetentionDays := 180
  batchSize := 5000

/-- Revoked tokens are kept for a week. -/
def weekLong : ReaperOptions := { monthLong with revokedRetentionDays := 7 }

def adasRefreshToken : RefreshToken where
  id := 1
  authUserId := 0
  tokenHash := "stolen"
  familyId := "family"
  expiresAt := 30 * MS_PER_DAY
  ip := none
  userAgent := none
  createdAt := 0

/-- A service with one account, and a session of it. -/
def adasSession : World :=
  { adasWorld with db := { rows := [.user ada, .token adasRefreshToken], nextKey := 2 } }

theorem adasSession_wellKept : WellKept sampleEnv adasSession := by
  have htokens : adasSession.db.tokens = [adasRefreshToken] := rfl
  refine ⟨⟨fun t ht => ?_, ?_⟩, ?_, fun t ht => ?_⟩
  · rw [htokens, List.mem_singleton] at ht
    subst ht
    decide
  · rw [htokens]
    exact List.nodup_singleton _
  · rw [htokens]
    exact List.nodup_singleton _
  · rw [htokens, List.mem_singleton] at ht
    subst ht
    exact ⟨fun _ => by decide, fun hr => nomatch hr⟩

/-- The session is refreshed. -/
def exchange : List Housekept.Label :=
  .spawn (.refresh "stolen" {}) :: List.replicate 8 (.call 0 .served)

/-- Some days later a sweep runs, as far as its look for revoked tokens, which finds these. -/
def sweptAfter (days : Nat) (found : List Nat) : List Housekept.Label :=
  [.move (.move (.tick (days * MS_PER_DAY))), .move (.spawn ()), .move (.call 0 (.served [])),
    .move (.call 0 (.served [])), .move (.call 0 (.served found))]

/-- Its last statement deletes them. -/
def deleted : Housekept.Label := .move (.call 0 (.served []))

/-- The token of the session once it is exchanged. -/
def exchangedToken : RefreshToken :=
  { adasRefreshToken with
    revokedAt := some 0, revokedReason := some .ROTATED, replacedById := some 2 }

/-- Where tokens are kept for a month, a sweep after a week leaves the exchanged one. -/
theorem reuse_stays_detected_month : ∃ s,
    Foundations.runs (Housekept.System.step sampleEnv monthLong)
      (Housekept.System.start adasSession) (exchange ++ sweptAfter 8 []) = some s ∧
    EndsFamily sampleEnv monthLong s exchangedToken := by
  have hexchanged : ((Foundations.runs (Housekept.System.step sampleEnv monthLong)
      (Housekept.System.start adasSession) exchange).any fun s =>
        decide (exchangedToken ∈ s.tables.db.tokens)) = true := by decide +kernel
  obtain ⟨s, hs, hmem⟩ := (Option.any_eq_true _ _).mp hexchanged
  have hswept : ((Foundations.runs (Housekept.System.step sampleEnv monthLong)
      (Housekept.System.start adasSession) (exchange ++ sweptAfter 8 [])).any fun s' =>
        decide (s'.tables.now < exchangedToken.expiresAt)) = true := by decide +kernel
  obtain ⟨s', hs', hnow⟩ := (Option.any_eq_true _ _).mp hswept
  have hrest : Foundations.runs (Housekept.System.step sampleEnv monthLong) s (sweptAfter 8 []) =
      some s' := by
    rw [Foundations.runs_append, hs] at hs'
    exact hs'
  exact ⟨s', hs', (reuse_stays_detected adasSession_wellKept hs hrest).1 (by decide)
    exchangedToken (of_decide_eq_true hmem) rfl (of_decide_eq_true hnow)⟩

theorem weekLong_accepted : EnvAccepted sampleEnv weekLong where
  accessTtl := by decide
  refreshTtl := by decide
  batchSize := by decide
  expiredGrace := by decide
  revokedRetention := by decide
  verificationRetention := by decide
  loginHistoryRetention := by decide
  outlasts := by decide
  retained := by decide

/-- Where they are kept for a week, the sweep makes the service forget it. -/
theorem swept_token_forgotten :
    ¬ ∀ (env : Env) (options : ReaperOptions) (w : World) (ls ls' : List Housekept.Label)
      (s s' : Housekept.System), EnvAccepted env options → WellKept env w →
      Foundations.runs (Housekept.System.step env options) (Housekept.System.start w) ls =
        some s → Foundations.runs (Housekept.System.step env options) s ls' = some s' →
      (∀ t ∈ s.tables.db.tokens, t.revokedReason = some .ROTATED → s'.tables.now < t.expiresAt →
        EndsFamily env options s' t) ∧
      ∀ l s'', Housekept.System.step env options s' l = some s'' →
        ∀ t, Removed s' s'' t → Spent env s'.tables t := by
  intro h
  have hexchanged : ((Foundations.runs (Housekept.System.step sampleEnv weekLong)
      (Housekept.System.start adasSession) exchange).any fun s =>
        decide (exchangedToken ∈ s.tables.db.tokens)) = true := by decide +kernel
  obtain ⟨s, hs, hmem⟩ := (Option.any_eq_true _ _).mp hexchanged
  have hswept : ((Foundations.runs (Housekept.System.step sampleEnv weekLong)
      (Housekept.System.start adasSession) (exchange ++ (sweptAfter 8 [1] ++ [deleted]))).any
        fun s' => decide (s'.tables.now < exchangedToken.expiresAt ∧
          s'.tables.db.tokens.find? (·.tokenHash = exchangedToken.tokenHash) = none)) = true := by
    decide +kernel
  obtain ⟨s', hs', hforgotten⟩ := (Option.any_eq_true _ _).mp hswept
  obtain ⟨hnow, hgone⟩ := of_decide_eq_true hforgotten
  rw [Foundations.runs_append, hs] at hs'
  have hends := (h sampleEnv weekLong adasSession _ _ s s' weekLong_accepted adasSession_wellKept
    hs hs').1 exchangedToken (of_decide_eq_true hmem) rfl hnow
  have hhash : sampleEnv.hashRefreshToken "stolen" = exchangedToken.tokenHash := rfl
  exact not_endsFamily_of_gone hhash hgone hends

end PracticalMicroservice.Auth
