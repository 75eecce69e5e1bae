import PracticalMicroservice.Auth.Proofs.FamilyProofs
import Mathlib.Data.List.Pairwise

/-!
# The discipline of refresh-token families

The invariant of the system and, from it, what every run keeps to: families that are chains, at most
one successor of a token, and no token of a family after a reuse of it has been answered.
-/

namespace PracticalMicroservice.Auth

open Foundations (Called Pool Recounted moveGhost pastOf)
open PrismaAuthRepository

/-- The family id a request has drawn and not used yet. -/
def held : Told → Option String
  | ⟨.randomUUID, familyId⟩ :: _ => some familyId
  | ⟨.randomToken, _⟩ :: ⟨.randomUUID, familyId⟩ :: _ => some familyId
  | _ => none

/-- Two events that mint no successor of the same token. -/
def MintApart (e e' : Event) : Prop := ∀ id, Mints e id → ¬ Mints e' id

instance : Std.Symm MintApart where
  symm _ _ h id hm hm' := h id hm' hm

/-- What holds of the tokens, of the requests in flight and of what the trace has shown. -/
structure Disciplined (env : Env) (s : System) : Prop where
  rows : Chainwise s.world.db
  drawn : ∀ t ∈ s.world.db.tokens, ∃ n < s.world.draws, env.uuid n = t.familyId
  fresh : ∀ i familyId, held (pastOf i s.trace) = some familyId →
    (∃ n < s.world.draws, env.uuid n = familyId) ∧
      ∀ t ∈ s.world.db.tokens, t.familyId ≠ familyId
  once : ∀ i j familyId, held (pastOf i s.trace) = some familyId →
    held (pastOf j s.trace) = some familyId → i = j
  found : ∀ e ∈ s.trace, ∀ hash stored,
    e.told = ⟨.repository (.findRefreshTokenByHash hash), .ok (some stored)⟩ →
    ∃ t, tokenOf s.world.db.tokens hash = some t ∧ SameToken stored t
  ended : ∀ e ∈ s.trace, ∀ familyId reason n,
    e.told = ⟨.repository (.revokeFamily familyId reason), .ok n⟩ →
    (∃ t ∈ s.world.db.tokens, t.familyId = familyId) ∧
      ∀ t ∈ s.world.db.tokens, t.familyId = familyId → isLive t = false
  minted : ∀ e ∈ s.trace, ∀ id, Mints e id → ∃ t ∈ s.world.db.tokens, t.id = id ∧ isLive t = false
  mintedOnce : s.trace.Pairwise MintApart

section

variable {env : Env} {s s' : System}

theorem disciplined_start {world : World} (hw : world.db.tokens = []) :
    Disciplined env (Pool.start world) where
  rows := by
    refine ⟨?_, ?_, fun _ => ?_⟩ <;> simp [Pool.start, hw, familyOf, Foundations.Chained]
  drawn := by simp [Pool.start, hw]
  fresh i familyId h := by cases h
  once i j familyId h := by cases h
  found e he := by cases he
  ended e he := by cases he
  minted e he := by cases he
  mintedOnce := List.Pairwise.nil

/-! ## What a request may ask for -/

/-- A request asks for a family it has drawn, and for successors in the family it read. -/
theorem Disciplined.asks (h : Disciplined env s) {i : Nat} {task : Task} {c : Call}
    (hj : Justified env task (pastOf i s.trace) (.repository c)) : Asks s.world.db.tokens c := by
  cases c with
  | createRefreshToken input =>
    obtain ⟨-, token, familyId, rest, hp, rfl, -⟩ := hj
    refine (h.fresh i _ ?_).2
    rw [hp]
    rfl
  | rotateRefreshToken currentId next =>
    obtain ⟨-, presented, info, stored, -, hheard, rfl, hfam, -⟩ := hj
    obtain ⟨e, he, -, htold⟩ := Foundations.mem_pastOf hheard
    obtain ⟨t, ht, hsame⟩ := h.found e he _ _ htold
    exact ⟨t, List.mem_of_find?_eq_some ht, hsame.id, hsame.familyId.trans hfam.symm⟩
  | _ => trivial

/-! ## What an event shows -/

section

variable {fate : Fate} {w w' : World}

/-- The row a lookup answers with is there. -/
theorem tokenOf_of_perform {hash : String} {stored : RefreshToken}
    (h : World.perform env fate (.repository (.findRefreshTokenByHash hash)) w =
      some ((.ok (some stored) : Except AppError (Option RefreshToken)), w')) :
    tokenOf w'.db.tokens hash = some stored := by
  rcases perform_repository h with ⟨rfl, hr | ⟨e, hr⟩⟩ | ⟨-, e, hr⟩
  · have hfind := findRefreshTokenByHash_answer (mapError_ok hr.symm)
    have hkeep : Keeps Database.tokens (findRefreshTokenByHash hash) :=
      (keeps_findMany _).bind fun _ => keeps_pure _
    show (Database.tokens (w.db.after w.now _)).find? _ = some stored
    rw [show Database.tokens (w.db.after w.now (.findRefreshTokenByHash hash)) = w.db.tokens from
      (hkeep.atomically w.db).1]
    exact hfind
  · cases hr
  · cases hr

/-- Once a family's revocation is answered, no token of it is live. -/
theorem ended_of_perform {familyId : String} {reason : RevokeReason} {n : Nat}
    (h : World.perform env fate (.repository (.revokeFamily familyId reason)) w =
      some ((.ok n : Except AppError Nat), w')) :
    ∀ t ∈ w'.db.tokens, t.familyId = familyId → isLive t = false := by
  rcases perform_repository h with ⟨rfl, -⟩ | ⟨-, e, hr⟩
  · intro t ht hf
    have htokens : Database.tokens (w.db.after w.now (.revokeFamily familyId reason)) =
        sweptTokens (fun t => t.familyId = familyId ∧ isLive t) w.now reason w.db.tokens :=
      tokens_update_token _ _
    rw [show (World.db { w with db := w.db.after w.now (.revokeFamily familyId reason) }).tokens =
      _ from htokens] at ht
    obtain ⟨t', ht', rfl⟩ := List.mem_map.mp ht
    by_cases hp : t'.familyId = familyId ∧ isLive t' = true
    · rw [if_pos (by simpa using hp)]
      rfl
    · rw [if_neg (by simpa using hp)] at hf ⊢
      exact Bool.eq_false_iff.mpr fun hl => hp ⟨hf, hl⟩
  · cases hr

end

/-! ## The steps -/

theorem held_cons {command : Command} {reply : command.Reply} {past : Told} {familyId : String}
    (h : held (⟨command, reply⟩ :: past) = some familyId) :
    (⟨command, reply⟩ : (c : Command) × c.Reply) = ⟨.randomUUID, familyId⟩ ∨
      command = .randomToken ∧ held past = some familyId := by
  cases command with
  | randomUUID =>
    obtain rfl : reply = familyId := Option.some.inj h
    exact .inl rfl
  | randomToken =>
    refine .inr ⟨rfl, ?_⟩
    unfold held at h
    split at h
    · rename_i he
      cases he
    · rename_i he
      cases he
      exact h
    · cases h
  | _ => cases h

/-- What a thread's command does to the tokens, given that it asks for no more than it may. -/
structure Moved (w w' : World) (c : Command) : Prop where
  rows : Chainwise w'.db
  same : ∀ t ∈ w.db.tokens, ∃ t' ∈ w'.db.tokens, SameToken t t'
  lookup : ∀ hash t, tokenOf w.db.tokens hash = some t →
    ∃ t', tokenOf w'.db.tokens hash = some t' ∧ SameToken t t'
  ended : ∀ familyId, (∃ t ∈ w.db.tokens, t.familyId = familyId) →
    (∀ t ∈ w.db.tokens, t.familyId = familyId → isLive t = false) →
    ∀ t ∈ w'.db.tokens, t.familyId = familyId → isLive t = false
  families : ∀ t' ∈ w'.db.tokens, (∃ t ∈ w.db.tokens, t.familyId = t'.familyId) ∨
    ∃ input, c = .repository (.createRefreshToken input) ∧ t'.familyId = input.familyId
  minted : w.db.tokens.length < w'.db.tokens.length →
    ∀ currentId next, c = .repository (.rotateRefreshToken currentId next) →
      (∃ t ∈ w.db.tokens, t.id = currentId ∧ isLive t = true) ∧
        ∃ t ∈ w'.db.tokens, t.id = currentId ∧ isLive t = false

theorem moved_of_db {w w' : World} {c : Command} (hc : Chainwise w.db) (h : w'.db = w.db) :
    Moved w w' c where
  rows := h ▸ hc
  same t ht := ⟨t, h ▸ ht, .refl t⟩
  lookup hash t ht := ⟨t, h ▸ ht, .refl t⟩
  ended familyId _ he := h ▸ he
  families t' ht' := .inl ⟨t', h ▸ ht', rfl⟩
  minted hlt := by
    rw [h] at hlt
    exact absurd hlt (Nat.lt_irrefl _)

theorem moved_of_effect {w w' : World} (now : Nat) {c : Call} (hc : Chainwise w.db)
    (h : TokenEffect now w.db w'.db c) (ha : Asks w.db.tokens c) : Moved w w' (.repository c) where
  rows := hc.effect h ha
  same t ht := h.mem ht
  lookup hash t ht := h.tokenOf ht
  ended familyId hsome he := ended_effect hc h ha hsome he
  families t' ht' := by
    cases h with
    | kept _ tokens key => exact .inl ⟨t', tokens ▸ ht', rfl⟩
    | swept _ p at_ reason live _ tokens key =>
      rw [tokens] at ht'
      obtain ⟨t, ht, rfl⟩ := List.mem_map.mp ht'
      exact .inl ⟨t, ht, (sameToken_if (sameToken_revoke _ _ t)).familyId.symm⟩
    | opened input hash tokens key =>
      rw [tokens] at ht'
      rcases List.mem_append.mp ht' with ht | ht
      · exact .inl ⟨t', ht, rfl⟩
      · obtain rfl := List.mem_singleton.mp ht
        exact .inr ⟨input, rfl, rfl⟩
    | rotated currentId next hash live tokens key =>
      rw [tokens] at ht'
      obtain ⟨t, ht, rfl⟩ := List.mem_map.mp ht'
      rw [(sameToken_if (sameToken_replaced now (tokenRow w.db.nextKey now next).id t)).familyId]
      rcases List.mem_append.mp ht with ht | ht
      · exact .inl ⟨t, ht, rfl⟩
      · obtain rfl := List.mem_singleton.mp ht
        obtain ⟨t₀, h₀, -, hfam⟩ := ha
        exact .inl ⟨t₀, h₀, hfam⟩
  minted hlt currentId next he := by
    cases he
    cases h with
    | kept _ tokens key =>
      rw [tokens] at hlt
      exact absurd hlt (Nat.lt_irrefl _)
    | swept _ p at_ reason live _ tokens key =>
      rw [tokens, sweptTokens, List.length_map] at hlt
      exact absurd hlt (Nat.lt_irrefl _)
    | rotated _ _ hash live tokens key =>
      obtain ⟨t₀, h₀, rfl, -⟩ := ha
      have hlive := current_of_live hc.key hc.ids h₀ live
      refine ⟨⟨t₀, h₀, rfl, hlive⟩, replaced now (tokenRow w.db.nextKey now next).id t₀, ?_, rfl, rfl⟩
      rw [tokens]
      exact List.mem_map.mpr ⟨t₀, List.mem_append_left _ h₀, if_pos ⟨rfl, hlive⟩⟩

/-- A command of a request moves the tokens only as it may. -/
theorem Disciplined.moved (h : Disciplined env s) {fate : Fate} {i : Nat} {task : Task}
    {command : Command} {reply : command.Reply} {w' : World}
    (hj : Justified env task (pastOf i s.trace) command)
    (hp : World.perform env fate command s.world = some (reply, w')) : Moved s.world w' command := by
  rcases perform_db hp with hdb | ⟨c, rfl, hdb⟩
  · exact moved_of_db h.rows hdb
  · refine moved_of_effect s.world.now h.rows ?_ (h.asks hj)
    rw [hdb]
    exact token_effect _ _ c

section Call

variable {fate : Fate} {i : Nat} {task : Task} {command : Command}
  {next : command.Reply → Code} {reply : command.Reply}

/-- A family held after a step has just been drawn, or was held before and has not been used. -/
theorem Disciplined.held_of_call (h : Disciplined env s)
    (hr : Recounted (Justified env) Plausible (Concluded env) s)
    (hc : Called (machine env) s s' i fate task command next reply) {j : Nat} {familyId : String}
    (hheld : held (pastOf j s'.trace) = some familyId) :
    (j = i ∧ (⟨command, reply⟩ : (c : Command) × c.Reply) = ⟨.randomUUID, familyId⟩) ∨
      held (pastOf j s.trace) = some familyId ∧
        ∀ input, command = .repository (.createRefreshToken input) →
          input.familyId ≠ familyId := by
  by_cases hji : j = i
  · subst hji
    rw [hc.pastOf_self] at hheld
    rcases held_cons hheld with hdrawn | ⟨rfl, hbefore⟩
    · exact .inl ⟨rfl, hdrawn⟩
    · exact .inr ⟨hbefore, fun input he => by cases he⟩
  · rw [hc.pastOf_of_ne hji] at hheld
    refine .inr ⟨hheld, fun input he hf => hji ?_⟩
    subst he
    obtain ⟨-, token, drawn, rest, hpast, hdrawn, -⟩ := hr.allowed hc.thread
    refine h.once j i familyId hheld ?_
    rw [hpast, ← hf, hdrawn]
    rfl

theorem Disciplined.call (henv : Function.Injective env.uuid) (h : Disciplined env s)
    (hr : Recounted (Justified env) Plausible (Concluded env) s)
    (hc : Called (machine env) s s' i fate task command next reply) : Disciplined env s' := by
  have hp : World.perform env fate command s.world = some (reply, s'.world) := hc.perform
  have hm := h.moved (hr.allowed hc.thread) hp
  have hdraws := perform_draws hp
  -- a draw of this step is the next of all draws, and the tokens are as they were
  have hdrawn : ∀ familyId,
      (⟨command, reply⟩ : (c : Command) × c.Reply) = ⟨.randomUUID, familyId⟩ →
      familyId = env.uuid s.world.draws ∧ s'.world.draws = s.world.draws + 1 ∧
        s'.world.db = s.world.db := by
    rintro familyId ⟨⟩
    obtain ⟨hreply, hworld⟩ := Prod.mk.inj (Option.some.inj hp)
    rw [← hworld]
    exact ⟨hreply.symm, rfl, rfl⟩
  refine
    { rows := hm.rows
      drawn := fun t' ht' => ?_
      fresh := fun j familyId hheld => ?_
      once := fun j k familyId hj hk => ?_
      found := fun e he hash stored htold => ?_
      ended := fun e he familyId reason n htold => ?_
      minted := fun e he id hmint => ?_
      mintedOnce := ?_ }
  · rcases hm.families t' ht' with ⟨t, ht, hf⟩ | ⟨input, hcreate, hf⟩
    · obtain ⟨n, hn, hu⟩ := h.drawn t ht
      exact ⟨n, by omega, hu.trans hf⟩
    · subst hcreate
      obtain ⟨-, token, drawn, rest, hpast, hdrawn, -⟩ := hr.allowed hc.thread
      have hheld : held (pastOf i s.trace) = some input.familyId := by
        rw [hpast, hdrawn]
        rfl
      obtain ⟨⟨n, hn, hu⟩, -⟩ := h.fresh i _ hheld
      exact ⟨n, by omega, hu.trans hf.symm⟩
  · rcases h.held_of_call hr hc hheld with ⟨-, hdraw⟩ | ⟨hbefore, hunused⟩
    · obtain ⟨rfl, hnext, hdb⟩ := hdrawn familyId hdraw
      refine ⟨⟨s.world.draws, by omega, rfl⟩, fun t ht hf => ?_⟩
      rw [hdb] at ht
      obtain ⟨n, hn, hu⟩ := h.drawn t ht
      have := henv (hu.trans hf)
      omega
    · obtain ⟨⟨n, hn, hu⟩, hnone⟩ := h.fresh j familyId hbefore
      refine ⟨⟨n, by omega, hu⟩, fun t' ht' he => ?_⟩
      rcases hm.families t' ht' with ⟨t, ht, hf⟩ | ⟨input, hcreate, hf⟩
      · exact hnone t ht (hf.trans he)
      · exact hunused input hcreate (hf.symm.trans he)
  · have hnew : ∀ j, held (pastOf j s.trace) = some familyId → j ≠ i →
        (⟨command, reply⟩ : (c : Command) × c.Reply) ≠ ⟨.randomUUID, familyId⟩ := by
      intro j hbefore _ hdraw
      obtain ⟨rfl, -, -⟩ := hdrawn familyId hdraw
      obtain ⟨⟨n, hn, hu⟩, -⟩ := h.fresh j _ hbefore
      have := henv hu
      omega
    rcases h.held_of_call hr hc hj with ⟨rfl, hdraw⟩ | ⟨hj', -⟩
    · rcases h.held_of_call hr hc hk with ⟨rfl, -⟩ | ⟨hk', -⟩
      · rfl
      · by_contra hne
        exact hnew k hk' (Ne.symm hne) hdraw
    · rcases h.held_of_call hr hc hk with ⟨rfl, hdraw⟩ | ⟨hk', -⟩
      · by_contra hne
        exact hnew j hj' hne hdraw
      · exact h.once j k familyId hj' hk'
  · rw [hc.trace] at he
    rcases List.mem_cons.mp he with rfl | he
    · cases htold
      exact ⟨stored, tokenOf_of_perform hp, .refl stored⟩
    · obtain ⟨t, ht, hsame⟩ := h.found e he hash stored htold
      obtain ⟨t', ht', hsame'⟩ := hm.lookup hash t ht
      exact ⟨t', ht', hsame.trans hsame'⟩
  · rw [hc.trace] at he
    rcases List.mem_cons.mp he with rfl | he
    · cases htold
      obtain ⟨-, hash, stored, hheard, rfl⟩ := hr.allowed hc.thread
      obtain ⟨e', he', -, htold'⟩ := Foundations.mem_pastOf hheard
      obtain ⟨t, ht, hsame⟩ := h.found e' he' hash stored htold'
      obtain ⟨t', ht', hsame'⟩ := hm.same t (List.mem_of_find?_eq_some ht)
      exact ⟨⟨t', ht', (hsame.trans hsame').familyId⟩, ended_of_perform hp⟩
    · obtain ⟨⟨t, ht, hf⟩, hended⟩ := h.ended e he familyId reason n htold
      obtain ⟨t', ht', hsame⟩ := hm.same t ht
      exact ⟨⟨t', ht', hsame.familyId.trans hf⟩, hm.ended familyId ⟨t, ht, hf⟩ hended⟩
  · rw [hc.trace] at he
    rcases List.mem_cons.mp he with rfl | he
    · obtain ⟨⟨next, hcommand⟩, hlt⟩ := hmint
      exact (hm.minted hlt id next hcommand).2
    · obtain ⟨t, ht, hid, hdead⟩ := h.minted e he id hmint
      obtain ⟨t', ht', hsame⟩ := hm.same t ht
      exact ⟨t', ht', hsame.id.trans hid, hsame.dead hdead⟩
  · rw [hc.trace]
    refine List.Pairwise.cons (fun e' he' id hmint hmint' => ?_) h.mintedOnce
    obtain ⟨⟨next, hcommand⟩, hlt⟩ := hmint
    obtain ⟨⟨t, ht, hid, hlive⟩, -⟩ := hm.minted hlt id next hcommand
    obtain ⟨t', ht', hid', hdead⟩ := h.minted e' he' id hmint'
    rw [eq_of_id h.rows.ids ht ht' (hid.trans hid'.symm), hdead] at hlive
    cases hlive

end Call

/-- A step of the world's own leaves the tokens and the trace as they are. -/
theorem Disciplined.move (h : Disciplined env s) {move : Move} {world : World}
    (hm : World.move move s.world = some world) : Disciplined env { s with world } := by
  have hsame : world.db.tokens = s.world.db.tokens ∧ world.db.nextKey = s.world.db.nextKey ∧
      world.draws = s.world.draws := by
    cases move with
    | tick ms => cases hm; exact ⟨rfl, rfl, rfl⟩
    | setStatus id status => cases hm; exact ⟨tokens_update_user _ _, rfl, rfl⟩
  obtain ⟨htokens, hkey, hdraws⟩ := hsame
  refine ⟨⟨?_, ?_, ?_⟩, ?_, ?_, h.once, ?_, ?_, ?_, h.mintedOnce⟩
  all_goals dsimp only
  all_goals rw [htokens]
  · rw [hkey]
    exact h.rows.key
  · exact h.rows.ids
  · exact h.rows.chained
  · rw [hdraws]
    exact h.drawn
  · rw [hdraws]
    exact h.fresh
  · exact h.found
  · exact h.ended
  · exact h.minted

/-- One step keeps the discipline. -/
theorem Disciplined.step (henv : Function.Injective env.uuid) (h : Disciplined env s)
    (hr : Recounted (Justified env) Plausible (Concluded env) s) {l : Label}
    (hs : System.step env s l = some s') : Disciplined env s' := by
  rcases Foundations.pool_step_cases hs with ⟨task, -, rfl⟩ |
    ⟨i, fate, task, command, next, reply, -, hc⟩ | ⟨move, world, -, hmove, rfl⟩
  · exact ⟨h.rows, h.drawn, h.fresh, h.once, h.found, h.ended, h.minted, h.mintedOnce⟩
  · exact h.call henv hr hc
  · exact h.move hmove

end

/-- Every run keeps the discipline. -/
theorem disciplined_of_run {env : Env} (henv : Function.Injective env.uuid) {world : World}
    (hw : world.db.tokens = []) {ls : List Label} {s : System}
    (hr : Foundations.runs (System.step env) (Pool.start world) ls = some s) :
    Disciplined env s := by
  have h := Foundations.invariant_of_steps
    (P := fun s => Disciplined env s ∧ Recounted (Justified env) Plausible (Concluded env) s)
    (fun s l s' hs h => ⟨h.1.step henv h.2 hs, ?_⟩) hr
    ⟨disciplined_start hw, Foundations.recounted_start⟩
  · exact h.1
  · exact h.2.step (meets_task env) (fun _ _ _ _ _ _ hp => plausible_of_perform hp) hs

section

variable {env : Env} {s : System}

theorem Disciplined.orderly (h : Disciplined env s) (familyId : String) :
    Orderly (familyOf s.world.db.tokens familyId) where
  oneLive := (h.rows.chained familyId).live_le_one
  distinct := familyOf_nodup h.rows.ids familyId
  linked _ _ ht := (h.rows.chained familyId).next_eq ht

/-- The successor a refresh mints replaces the token it presented. -/
theorem Disciplined.presented (h : Disciplined env s)
    (hr : Recounted (Justified env) Plausible (Concluded env) s) {e : Event} (he : e ∈ s.trace)
    {currentId : Nat} (hm : Mints e currentId) {presented : String} {info : RequestMeta}
    (ht : s.task e.thread = some (.refresh presented info)) :
    (tokenOf s.world.db.tokens (env.hashRefreshToken presented)).map (·.id) = some currentId := by
  obtain ⟨⟨next, hcommand⟩, -⟩ := hm
  obtain ⟨newer, older, htrace⟩ := List.append_of_mem he
  obtain ⟨⟨task, htask, -, hgrounds⟩, -⟩ := hr.accounted.split htrace
  rw [hcommand] at hgrounds
  obtain ⟨presented', info', stored, rfl, hheard, rfl, -⟩ := hgrounds
  rw [ht] at htask
  cases htask
  obtain ⟨e', he', -, htold⟩ := Foundations.mem_pastOf hheard
  obtain ⟨t, htoken, hsame⟩ := h.found e'
    (htrace ▸ List.mem_append_right _ (List.mem_cons_of_mem _ he')) _ _ htold
  rw [htoken]
  exact congrArg some hsame.id

/-- Of the refreshes of one token, one mints a successor. -/
theorem Disciplined.minted_unique (h : Disciplined env s)
    (hr : Recounted (Justified env) Plausible (Concluded env) s) {i j : Nat} {presented : String}
    {info info' : RequestMeta} (hi : s.task i = some (.refresh presented info))
    (hj : s.task j = some (.refresh presented info')) (hmi : s.minted i) (hmj : s.minted j) :
    i = j := by
  obtain ⟨e, he, rfl, id, hm⟩ := hmi
  obtain ⟨e', he', rfl, id', hm'⟩ := hmj
  have hid := (h.presented hr he hm hi).symm.trans (h.presented hr he' hm' hj)
  obtain rfl := Option.some.inj hid
  by_contra hne
  exact h.mintedOnce.forall he he' (fun heq => hne (congrArg Foundations.Event.thread heq)) id hm hm'

/-- When a reuse is answered, the family of the token is over. -/
theorem Disciplined.reuse_ends (h : Disciplined env s)
    (hr : Recounted (Justified env) Plausible (Concluded env) s) {i : Nat} {presented : String}
    {info : RequestMeta} (ht : s.task i = some (.refresh presented info))
    (hi : s.result i = some (.error AuthService.reuseError)) : s.familyEnded env presented := by
  obtain ⟨task, hthread⟩ := Foundations.result_eq_some hi
  have htask : s.task i = some task := congrArg (Option.map Foundations.Thread.task) hthread
  rw [ht] at htask
  cases htask
  obtain ⟨stored, n, hpast⟩ := (hr.returned hthread).reuse presented info rfl rfl
  have hmem : ∀ x ∈ pastOf i s.trace, ∃ e ∈ s.trace, e.told = x := by
    intro x hx
    obtain ⟨e, he, -, htold⟩ := Foundations.mem_pastOf hx
    exact ⟨e, he, htold⟩
  dsimp only at hpast
  rw [hpast] at hmem
  obtain ⟨e, he, htold⟩ := hmem _ List.mem_cons_self
  obtain ⟨e', he', htold'⟩ := hmem _ (List.mem_cons_of_mem _ List.mem_cons_self)
  obtain ⟨t, htoken, hsame⟩ := h.found e' he' _ _ htold'
  refine ⟨t, htoken, fun t' ht' hf => ?_⟩
  exact (h.ended e he _ _ _ htold).2 t' ht' (hf.trans hsame.familyId)

end

/-- In every run, each family of refresh tokens is one chain in the order of issue with at most one
live token, of the refreshes of one token at most one mints a successor, and once a reuse has been
answered no token of the family is live. -/
theorem families_disciplined (env : Env) (henv : Function.Injective env.uuid) {world : World}
    (hw : world.db.tokens = []) {ls : List Label} {s : System}
    (hr : Foundations.runs (System.step env) (Pool.start world) ls = some s) :
    (∀ familyId, Orderly (familyOf s.world.db.tokens familyId)) ∧
      (∀ i j presented info info', s.task i = some (.refresh presented info) →
        s.task j = some (.refresh presented info') → s.minted i → s.minted j → i = j) ∧
      ∀ i presented info, s.task i = some (.refresh presented info) →
        s.result i = some (.error AuthService.reuseError) → s.familyEnded env presented := by
  have h := disciplined_of_run henv hw hr
  have hrec := recounted_of_run hr
  exact ⟨h.orderly, fun _ _ _ _ _ hi hj => h.minted_unique hrec hi hj,
    fun _ _ _ ht hi => h.reuse_ends hrec ht hi⟩

/-- Ada logs in, her token is refreshed, and then presented again. -/
def tokenReplayed : List Label :=
  alone 0 10 (.login "ada@example.com" "right" {}) ++ alone 1 8 (.refresh (sampleDraw 1) {}) ++
    alone 2 2 (.refresh (sampleDraw 1) {})

theorem families_disciplined_tokenReplayed :
    ∃ s, Foundations.runs (System.step sampleEnv) (Pool.start adasWorld) tokenReplayed = some s ∧
      s.world.db.tokens.length = 2 ∧ Orderly (familyOf s.world.db.tokens (sampleDraw 0)) ∧
      s.familyEnded sampleEnv (sampleDraw 1) := by
  have hrun : (Foundations.runs (System.step sampleEnv) (Pool.start adasWorld) tokenReplayed).any
      (fun s => s.world.db.tokens.length = 2 ∧ s.task 2 = some (.refresh (sampleDraw 1) {}) ∧
        s.result 2 = some (.error AuthService.reuseError)) = true := by
    decide +kernel
  obtain ⟨s, hs, hall⟩ := (Option.any_eq_true _ _).mp hrun
  obtain ⟨hlength, htask, hresult⟩ := of_decide_eq_true hall
  obtain ⟨horderly, -, hended⟩ := families_disciplined sampleEnv sampleDraw_injective rfl hs
  exact ⟨s, hs, hlength, horderly _, hended 2 _ _ htask hresult⟩

end PracticalMicroservice.Auth
