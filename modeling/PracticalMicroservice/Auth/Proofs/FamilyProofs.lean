import PracticalMicroservice.Auth.Families
import PracticalMicroservice.Auth.Proofs.TokenProofs
import PracticalMicroservice.Auth.Proofs.WorldProofs

/-!
# Refresh-token families over whole runs

First what a call does to the families, given what the requests are known to ask for; then the
invariant of the system, which adds what the requests in flight hold and what the trace has shown.
-/

namespace PracticalMicroservice.Auth

open Foundations (Called Chained Pool Recounted pastOf)
open PrismaAuthRepository

/-! ## The families in the table -/

/-- Keys are handed out once, and every family is a chain. -/
structure Chainwise (db : Database) : Prop where
  key : ∀ t ∈ db.tokens, t.id < db.nextKey
  ids : (db.tokens.map (·.id)).Nodup
  chained : ∀ familyId, Chained tokenLinks (familyOf db.tokens familyId)

/-- What a call may ask for: a new family, or a successor in the family of the token it replaces. -/
def Asks (tokens : List RefreshToken) : Call → Prop
  | .createRefreshToken input => ∀ t ∈ tokens, t.familyId ≠ input.familyId
  | .rotateRefreshToken currentId next => ∃ t ∈ tokens, t.id = currentId ∧ t.familyId = next.familyId
  | _ => True

/-- A row after a call is the same token, and does not come back to life. -/
structure SameToken (t t' : RefreshToken) : Prop where
  id : t'.id = t.id
  familyId : t'.familyId = t.familyId
  authUserId : t'.authUserId = t.authUserId
  tokenHash : t'.tokenHash = t.tokenHash
  dead : isLive t = false → isLive t' = false

theorem SameToken.refl (t : RefreshToken) : SameToken t t := ⟨rfl, rfl, rfl, rfl, fun h => h⟩

theorem SameToken.trans {t t' t'' : RefreshToken} (h : SameToken t t') (h' : SameToken t' t'') :
    SameToken t t'' where
  id := h'.id.trans h.id
  familyId := h'.familyId.trans h.familyId
  authUserId := h'.authUserId.trans h.authUserId
  tokenHash := h'.tokenHash.trans h.tokenHash
  dead hd := h'.dead (h.dead hd)

section

variable {tokens : List RefreshToken} {db db' : Database} {now : Nat} {c : Call}

theorem sameToken_if {p : Prop} [Decidable p] {f : RefreshToken → RefreshToken} {t : RefreshToken}
    (h : SameToken t (f t)) : SameToken t (if p then f t else t) := by
  split
  · exact h
  · exact .refl t

theorem sameToken_revoke (at_ : Nat) (reason : RevokeReason) (t : RefreshToken) :
    SameToken t (revoke at_ reason t) := ⟨rfl, rfl, rfl, rfl, fun _ => rfl⟩

theorem sameToken_replaced (at_ newId : Nat) (t : RefreshToken) :
    SameToken t (replaced at_ newId t) := ⟨rfl, rfl, rfl, rfl, fun _ => rfl⟩

/-- The rows of a table after a call: the same tokens, and perhaps one more under the next key. -/
theorem TokenEffect.grows (h : TokenEffect now db db' c) :
    ∃ (g : RefreshToken → RefreshToken) (new : List RefreshToken),
      db'.tokens = db.tokens.map g ++ new ∧ (∀ t, SameToken t (g t)) ∧
        (∀ t ∈ new, t.id = db.nextKey) ∧ new.length ≤ 1 ∧ db.nextKey + new.length ≤ db'.nextKey := by
  cases h with
  | kept _ tokens key =>
    exact ⟨id, [], by simpa using tokens, SameToken.refl, by simp, by simp, key⟩
  | swept _ p at_ reason live _ tokens key =>
    exact ⟨_, [], by rw [tokens, List.append_nil]; rfl, fun t => sameToken_if (sameToken_revoke _ _ t),
      by simp, by simp, key⟩
  | opened input hash tokens key =>
    exact ⟨id, [tokenRow db.nextKey now input], by simpa using tokens, SameToken.refl,
      by simp [tokenRow], by simp, Nat.le_of_eq key.symm⟩
  | rotated currentId next hash live tokens key =>
    refine ⟨_, _, tokens.trans List.map_append, fun t => sameToken_if (sameToken_replaced _ _ t),
      fun t ht => ?_, by simp, Nat.le_of_eq key.symm⟩
    obtain rfl := List.mem_singleton.mp ht
    exact (sameToken_if (sameToken_replaced _ _ _)).id

theorem TokenEffect.nextKey_le (h : TokenEffect now db db' c) : db.nextKey ≤ db'.nextKey := by
  cases h with
  | kept _ tokens key => exact key
  | swept _ p at_ reason live _ tokens key => exact key
  | opened input hash tokens key => omega
  | rotated currentId next hash live tokens key => omega

/-- The row a token is looked up by stays the one it is. -/
theorem TokenEffect.tokenOf (h : TokenEffect now db db' c) {hash : String} {t : RefreshToken}
    (ht : tokenOf db.tokens hash = some t) :
    ∃ t', Auth.tokenOf db'.tokens hash = some t' ∧ SameToken t t' := by
  obtain ⟨g, new, hg, hsame, -, -, -⟩ := h.grows
  refine ⟨g t, ?_, hsame t⟩
  have hp : (fun t => decide (t.tokenHash = hash)) ∘ g = fun t => decide (t.tokenHash = hash) := by
    funext t
    show decide ((g t).tokenHash = hash) = _
    rw [(hsame t).tokenHash]
  unfold Auth.tokenOf at ht ⊢
  rw [hg, List.find?_append, List.find?_map, hp, ht]
  rfl

/-- A token there before a call is there after it. -/
theorem TokenEffect.mem (h : TokenEffect now db db' c) {t : RefreshToken} (ht : t ∈ db.tokens) :
    ∃ t' ∈ db'.tokens, SameToken t t' := by
  obtain ⟨g, new, hg, hsame, -, -, -⟩ := h.grows
  refine ⟨g t, ?_, hsame t⟩
  rw [hg]
  exact List.mem_append_left _ (List.mem_map_of_mem ht)

theorem familyOf_map {g : RefreshToken → RefreshToken} (hg : ∀ t, (g t).familyId = t.familyId)
    (familyId : String) : familyOf (tokens.map g) familyId = (familyOf tokens familyId).map g := by
  unfold familyOf
  rw [List.filter_map]
  congr 2
  funext t
  show decide ((g t).familyId = familyId) = _
  rw [hg]

theorem familyOf_append (new : RefreshToken) (familyId : String) :
    familyOf (tokens ++ [new]) familyId =
      familyOf tokens familyId ++ if new.familyId = familyId then [new] else [] := by
  unfold familyOf
  rw [List.filter_append]
  congr 1
  by_cases h : new.familyId = familyId
  · rw [if_pos h, List.filter_cons_of_pos (by simpa using h), List.filter_nil]
  · rw [if_neg h, List.filter_cons_of_neg (by simpa using h), List.filter_nil]

theorem mem_familyOf {familyId : String} {t : RefreshToken} :
    t ∈ familyOf tokens familyId ↔ t ∈ tokens ∧ t.familyId = familyId := by
  unfold familyOf
  rw [List.mem_filter, decide_eq_true_eq]

theorem familyOf_nodup (h : (tokens.map (·.id)).Nodup) (familyId : String) :
    ((familyOf tokens familyId).map (·.id)).Nodup :=
  h.sublist (List.filter_sublist.map _)

theorem eq_of_id {t t' : RefreshToken} (h : (tokens.map (·.id)).Nodup) (ht : t ∈ tokens)
    (ht' : t' ∈ tokens) (he : t.id = t'.id) : t = t' := List.inj_on_of_nodup_map h ht ht' he

/-- The token a rotation replaces is one of the table: the row just inserted has another key. -/
theorem current_of_live (hkey : ∀ t ∈ db.tokens, t.id < db.nextKey)
    (hids : (db.tokens.map (·.id)).Nodup) {next : NewRefreshTokenRecord}
    {t₀ : RefreshToken} (h₀ : t₀ ∈ db.tokens)
    (hlive : ∃ t ∈ db.tokens ++ [tokenRow db.nextKey now next], t.id = t₀.id ∧ isLive t = true) :
    isLive t₀ = true := by
  obtain ⟨t, ht, hid, hl⟩ := hlive
  rcases List.mem_append.mp ht with ht | ht
  · rw [← eq_of_id hids ht h₀ hid]
    exact hl
  · obtain rfl := List.mem_singleton.mp ht
    have := hkey t₀ h₀
    simp only [tokenRow] at hid
    omega

theorem TokenEffect.below (h : TokenEffect now db db' c)
    (hkey : ∀ t ∈ db.tokens, t.id < db.nextKey) : ∀ t ∈ db'.tokens, t.id < db'.nextKey := by
  obtain ⟨g, new, hg, hsame, hnew, -, hle⟩ := h.grows
  intro t ht
  rw [hg] at ht
  rcases List.mem_append.mp ht with ht | ht
  · obtain ⟨t', ht', rfl⟩ := List.mem_map.mp ht
    have := hkey t' ht'
    rw [(hsame t').id]
    omega
  · have := List.length_pos_of_mem ht
    rw [hnew t ht]
    omega

theorem TokenEffect.nodup (h : TokenEffect now db db' c)
    (hkey : ∀ t ∈ db.tokens, t.id < db.nextKey) (hids : (db.tokens.map (·.id)).Nodup) :
    (db'.tokens.map (·.id)).Nodup := by
  obtain ⟨g, new, hg, hsame, hnew, hone, -⟩ := h.grows
  have hold : (db.tokens.map g).map (·.id) = db.tokens.map (·.id) := by
    rw [List.map_map]
    exact List.map_congr_left fun t _ => (hsame t).id
  rw [hg, List.map_append, hold]
  refine List.Nodup.append hids ?_ ?_
  · match new, hone with
    | [], _ => simp
    | [t], _ => simp
  · intro x hx hx'
    obtain ⟨t, ht, rfl⟩ := List.mem_map.mp hx
    obtain ⟨t', ht', he⟩ := List.mem_map.mp hx'
    have := hkey t ht
    rw [hnew t' ht'] at he
    omega

/-- A call that asks for no more than it may keeps every family a chain. -/
theorem Chainwise.effect (hc : Chainwise db) (h : TokenEffect now db db' c)
    (ha : Asks db.tokens c) : Chainwise db' := by
  have hkey := h.below hc.key
  have hids := h.nodup hc.key hc.ids
  refine ⟨hkey, hids, fun familyId => ?_⟩
  have hchain := hc.chained familyId
  cases h with
  | kept _ tokens key =>
    rw [tokens]
    exact hchain
  | swept _ p at_ reason live _ tokens key =>
    rw [tokens, sweptTokens, familyOf_map fun t => (sameToken_if (sameToken_revoke _ _ t)).familyId]
    refine hchain.map (fun t => (sameToken_if (sameToken_revoke _ _ t)).id) (fun t => ?_)
      fun t => (sameToken_if (sameToken_revoke _ _ t)).dead
    show (if p t then revoke at_ reason t else t).replacedById = t.replacedById
    split <;> rfl
  | opened input hash tokens key =>
    rw [tokens, familyOf_append]
    by_cases hf : (tokenRow db.nextKey now input).familyId = familyId
    · have hnone : familyOf db.tokens familyId = [] := by
        refine List.filter_eq_nil_iff.mpr fun t ht => ?_
        have := ha t ht
        simp only [tokenRow] at hf
        simp [hf ▸ this]
      rw [if_pos hf, hnone]
      rfl
    · rw [if_neg hf, List.append_nil]
      exact hchain
  | rotated currentId next hash live tokens key =>
    obtain ⟨t₀, h₀, rfl, hfam⟩ := ha
    have hlive₀ := current_of_live hc.key hc.ids h₀ live
    rw [tokens, rotatedTokens,
      familyOf_map fun t => (sameToken_if (sameToken_replaced _ _ t)).familyId, familyOf_append]
    by_cases hf : (tokenRow db.nextKey now next).familyId = familyId
    · rw [if_pos hf]
      refine hchain.exchange (c := t₀) (mem_familyOf.mpr ⟨h₀, hfam.trans hf⟩) hlive₀
        (familyOf_nodup hc.ids familyId) rfl ?_ (fun _ => rfl) (fun _ => rfl) fun _ => rfl
      have := hc.key t₀ h₀
      show db.nextKey ≠ t₀.id
      omega
    · rw [if_neg hf, List.append_nil]
      rw [List.map_congr_left (g := id) fun t ht => ?_, List.map_id]
      · exact hchain
      · obtain ⟨htmem, htfam⟩ := mem_familyOf.mp ht
        refine if_neg fun hcond => hf ?_
        rw [eq_of_id hc.ids htmem h₀ hcond.1, hfam] at htfam
        exact htfam

/-- A family all of whose tokens are revoked stays so. -/
theorem ended_effect (hc : Chainwise db) (h : TokenEffect now db db' c) (ha : Asks db.tokens c)
    {familyId : String} (hsome : ∃ t ∈ db.tokens, t.familyId = familyId)
    (hended : ∀ t ∈ db.tokens, t.familyId = familyId → isLive t = false) :
    ∀ t ∈ db'.tokens, t.familyId = familyId → isLive t = false := by
  intro t ht hf
  cases h with
  | kept _ tokens key =>
    rw [tokens] at ht
    exact hended t ht hf
  | swept _ p at_ reason live _ tokens key =>
    rw [tokens] at ht
    obtain ⟨t', ht', rfl⟩ := List.mem_map.mp ht
    have hs := sameToken_if (p := p t' = true) (sameToken_revoke at_ reason t')
    exact hs.dead (hended t' ht' (hs.familyId ▸ hf))
  | opened input hash tokens key =>
    rw [tokens] at ht
    rcases List.mem_append.mp ht with ht | ht
    · exact hended t ht hf
    · obtain rfl := List.mem_singleton.mp ht
      obtain ⟨t', ht', hf'⟩ := hsome
      exact absurd (hf'.trans hf.symm) (ha t' ht')
  | rotated currentId next hash live tokens key =>
    obtain ⟨t₀, h₀, rfl, hfam⟩ := ha
    rw [tokens] at ht
    obtain ⟨t', ht', rfl⟩ := List.mem_map.mp ht
    have hs := sameToken_if (p := t'.id = t₀.id ∧ isLive t' = true)
      (sameToken_replaced now (tokenRow db.nextKey now next).id t')
    rcases List.mem_append.mp ht' with ht' | ht'
    · exact hs.dead (hended t' ht' (hs.familyId ▸ hf))
    · obtain rfl := List.mem_singleton.mp ht'
      have hlive₀ := current_of_live hc.key hc.ids h₀ live
      rw [hs.familyId] at hf
      rw [hended t₀ h₀ (hfam.trans hf)] at hlive₀
      cases hlive₀

end

end PracticalMicroservice.Auth
