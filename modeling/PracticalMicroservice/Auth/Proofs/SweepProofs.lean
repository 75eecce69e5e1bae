import PracticalMicroservice.Auth.Proofs.ChainProofs

/-!
# What a wholesale revocation catches

From its snapshot on, a wholesale revocation follows a set of tokens: those it is to revoke, and
whatever they were exchanged for. A token of the set that it is done with is dead or held by it, and
its successor is in the set. Once it commits, all of the set is dead, and stays so.
-/

namespace PracticalMicroservice.Auth

open Foundations (Access Accesses AllSteps Due Pool Slot Traffic Undertaking Unended Versions moveGhost
  moveGhost_of_ne moveGhost_self runs)
open PrismaAuthRepository

/-! ## The tokens a revocation follows -/

/-- The tokens that a revocation under way follows, with some rows still due. -/
structure Pursuit (v : Versions Row) (i : Nat) (sel : RefreshToken → Bool)
    (due : Nat → Prop) (ids : Nat → Prop) : Prop where
  present : ∀ id, ids id → ∃ key ∈ v.rows.map Row.key, key.id = id
  chosen : ∀ {k : Nat} {slot : Slot Row}, v.slots[k]? = some slot → ∀ {t : RefreshToken},
    slot.committed = some (.token t) → ids t.id → sel t = true
  alive : ∀ {k : Nat} {slot : Slot Row}, v.slots[k]? = some slot → ∀ {t : RefreshToken},
    slot.committed = some (.token t) → ids t.id → isLive t = true →
      due k ∨ ∃ row, slot.written = some (i, row)
  onward : ∀ {k : Nat} {slot : Slot Row}, v.slots[k]? = some slot → ∀ {t : RefreshToken},
    slot.committed = some (.token t) → ids t.id → ∀ {n : Nat}, t.replacedById = some n →
      due k ∨ ids n

/-- Tokens that are all dead, with all they were exchanged for. -/
structure Extinct (v : Versions Row) (ids : Nat → Prop) : Prop where
  present : ∀ id, ids id → ∃ key ∈ v.rows.map Row.key, key.id = id
  dead : ∀ {k : Nat} {slot : Slot Row}, v.slots[k]? = some slot → ∀ {t : RefreshToken},
    slot.committed = some (.token t) → ids t.id → isLive t = false
  onward : ∀ {k : Nat} {slot : Slot Row}, v.slots[k]? = some slot → ∀ {t : RefreshToken},
    slot.committed = some (.token t) → ids t.id → ∀ {n : Nat}, t.replacedById = some n → ids n

/-- The tokens a revocation is to revoke when it begins. -/
def Targeted (begun : Versions Row) (sel : RefreshToken → Bool) (ids : Nat → Prop) : Prop :=
  ∀ t, .token t ∈ begun.rows → sel t = true → ids t.id

/-- Every wholesale revocation under way follows its tokens, from its snapshot on. -/
def Pursuing (c : Traffic Row (Call × Nat)) : Prop :=
  ∀ (i : Nat) (u : Transacting), c.under i = some u → Unended u.made →
    ∀ {sel : RefreshToken → Bool}, u.task.1.sweeps = some sel →
    ∀ {whose : Row → Bool} {indices : List Nat} {newer older : Accesses Row},
      u.made = newer ++ ⟨.targets whose, indices⟩ :: older →
      (∀ t, whose (.token t) = (sel t && isLive t)) →
      ∃ ids, Targeted u.begun sel ids ∧
        Pursuit c.tables i sel (Due whose indices newer) ids

/-- What the wholesale revocations that have committed were to revoke is dead. -/
def Eradicated (c : Traffic Row (Call × Nat)) : Prop :=
  ∀ u ∈ c.done, ∀ {sel : RefreshToken → Bool}, u.task.1.sweeps = some sel →
    ∃ ids, Targeted u.begun sel ids ∧ Extinct c.tables ids

structure Weeding (c : Traffic Row (Call × Nat)) : Prop where
  chained : Chained c
  pursuing : Pursuing c
  eradicated : Eradicated c

/-- A wholesale revocation chooses by what stays the same about a token. -/
theorem sweeps_congr {call : Call} {sel : RefreshToken → Bool} (h : call.sweeps = some sel)
    {t t' : RefreshToken} (haccount : t.authUserId = t'.authUserId)
    (hfamily : t.familyId = t'.familyId) : sel t = sel t' := by
  cases call <;> cases h <;> simp [haccount, hfamily]

/-! ## What an access of anyone keeps -/

section Access

variable {c : Traffic Row (Call × Nat)} {i j k : Nat} {u : Transacting} {a : Access Row}
  {reply : a.Reply} {tables : Versions Row} {slot' : Slot Row} {t : RefreshToken}
  {ids : Nat → Prop}

/-- A token that was there is still there, or is the version its writer has just committed. -/
theorem committed_before {ok : Traffic Row (Call × Nat) → Nat → Transacting → Access Row → Prop}
    (hs : Traffic.Sound (discipline ok) c)
    (hpresent : ∃ key ∈ c.tables.rows.map Row.key, key.id = t.id)
    (hp : c.tables.Performed j a reply tables) (hk : tables.slots[k]? = some slot')
    (hc : slot'.committed = some (.token t)) :
    ∃ slot t₀, c.tables.slots[k]? = some slot ∧ slot.committed = some (.token t₀) ∧
      (Row.token t₀).key = (Row.token t).key ∧
      (t₀ = t ∨ a = .commit ∧ slot.written = some (j, .token t)) := by
  obtain ⟨slot, hslot, hversion⟩ := hp.committed_after hk hc
  have ht : .token t ∈ slot.versions := by
    rcases hversion with hc | ⟨-, hw, -⟩
    · exact Slot.committed_mem hc
    · exact Slot.written_mem hw
  obtain ⟨key, hkey, hid⟩ := hpresent
  obtain ⟨k', slot₁, row, hk', hc₁, rfl⟩ := (Traffic.mem_keys (d := discipline ok)).mp hkey
  obtain rfl : k' = k := hs.distinct hk' hslot (Slot.committed_mem hc₁) ht hid
  obtain rfl := Option.some.inj (hslot.symm.trans hk')
  have hsame : row.key = (Row.token t).key := hs.coherent hslot (Slot.committed_mem hc₁) ht
  cases row with
  | token t₀ =>
    refine ⟨slot, t₀, hslot, hc₁, hsame, ?_⟩
    rcases hversion with hc | ⟨ha, hw, -⟩
    · exact .inl (Row.token.inj (Option.some.inj (hc₁.symm.trans hc)))
    · exact .inr ⟨ha, hw⟩
  | _ => cases hsame

/-- A token that an update is to change is held by it once it has visited the row. -/
theorem held_visit {whose : Row → Bool} {change : Row → Row} {slot : Slot Row}
    {reply : (Access.visit k whose change).Reply} (hslot : c.tables.slots[k]? = some slot)
    (hc : slot.committed = some (.token t)) (hmeant : whose (.token t) = true)
    (hp : c.tables.Performed i (.visit k whose change) reply tables)
    (hk : tables.slots[k]? = some slot') : ∃ row, slot'.written = some (i, row) := by
  cases hp with
  | missed hnone =>
    obtain rfl := Option.some.inj (hslot.symm.trans hk)
    by_contra hfree
    have hsees : slot.seenBy i = slot.committed :=
      Slot.seenBy_of_not_written fun row hw => hfree ⟨row, hw⟩
    have hfilter := (hnone slot hslot).2
    rw [hsees, hc] at hfilter
    simp [hmeant] at hfilter
  | @wrote index whose change slot₁ old hslot₁ hfree hseen hmeant =>
    rw [Foundations.getElem?_write, if_pos rfl, hslot₁] at hk
    cases hk
    exact ⟨_, rfl⟩

/-- What a revocation follows, it goes on following: a row of its snapshot that it visits is a token
it has revoked by then, or one that was revoked before. -/
theorem Pursuit.access {sel : RefreshToken → Bool} {due due' : Nat → Prop}
    {whose : Row → Bool} (h : Pursuit c.tables i sel due ids)
    (hchained : Chained c) (hs : Traffic.Sound (discipline MeetsUnrotated) c)
    (hu : c.under j = some u) (hallowed : (discipline MeetsUnrotated).allows c j u a)
    (hp : c.tables.Performed j a reply tables) (hends : a.ends = true → i ≠ j)
    (hsel : ∀ {t t' : RefreshToken}, t.authUserId = t'.authUserId → t.familyId = t'.familyId →
      sel t = sel t')
    (hwhose : ∀ t, whose (.token t) = (sel t && isLive t))
    (hdue : ∀ k, due k → due' k ∨
      i = j ∧ u.task.1.sweeps.isSome = true ∧ ∃ change, a = .visit k whose change) :
    Pursuit tables i sel due' ids where
  present id hid := by
    obtain ⟨key, hmem, he⟩ := h.present id hid
    exact ⟨key, Traffic.keys_access hs hp hmem, he⟩
  chosen {k slot'} hk t hc hid := by
    obtain ⟨slot, t₀, hslot, hc₀, hsame, -⟩ := committed_before hs (h.present _ hid) hp hk hc
    obtain ⟨hid₀, haccount, hfamily⟩ := token_of_key hsame
    rw [← hsel haccount hfamily]
    exact h.chosen hslot hc₀ (hid₀ ▸ hid)
  alive {k slot'} hk t hc hid hlive := by
    obtain ⟨slot, t₀, hslot, hc₀, hsame, rfl | ⟨-, hw⟩⟩ :=
      committed_before hs (h.present _ hid) hp hk hc
    · rcases h.alive hslot hc₀ hid hlive with hd | ⟨row, hw⟩
      · rcases hdue k hd with hd | ⟨rfl, -, change, rfl⟩
        · exact .inl hd
        · exact .inr (held_visit hslot hc₀ (by rw [hwhose, h.chosen hslot hc₀ hid, hlive]; rfl) hp hk)
      · obtain ⟨slot₁, hk₁, hbecame⟩ := hp.goes hslot
        obtain rfl := Option.some.inj (hk.symm.trans hk₁)
        rcases hbecame.still_written hw hends with hw' | ⟨_, _, -, rfl, -, rfl⟩
        · exact .inr ⟨row, hw'⟩
        · exact .inr ⟨_, rfl⟩
    · obtain ⟨t', he, hdead⟩ := hchained.overwritten hslot hc₀ hw
      cases he
      exact Bool.noConfusion (hdead.symm.trans hlive)
  onward {k slot'} hk t hc hid n hn := by
    obtain ⟨slot, t₀, hslot, hc₀, hsame, rfl | ⟨rfl, hw⟩⟩ :=
      committed_before hs (h.present _ hid) hp hk hc
    · rcases h.onward hslot hc₀ hid hn with hd | hn'
      · rcases hdue k hd with hd | ⟨-, hsweeps, change, rfl⟩
        · exact .inl hd
        · have hunrotated : t₀.replacedById.isNone = true :=
            hallowed.2 hsweeps slot hslot (.token t₀) hc₀
          rw [hn] at hunrotated
          cases hunrotated
      · exact .inr hn'
    · -- a rotation has committed: its token was live, so the revocation has not been there
      obtain ⟨hid₀, -⟩ := token_of_key hsame
      have hlive : isLive t₀ = true := by
        refine Bool.not_eq_false _ ▸ fun hdead => ?_
        exact nomatch (hchained.frozen hslot hc₀ hdead).symm.trans hw
      rcases h.alive hslot hc₀ (hid₀ ▸ hid) hlive with hd | ⟨row, hw'⟩
      · rcases hdue k hd with hd | ⟨-, -, change, ha⟩
        · exact .inl hd
        · cases ha
      · have hij : i = j := congrArg Prod.fst (Option.some.inj (hw'.symm.trans hw))
        exact absurd hij (hends rfl)

/-- A revocation follows all that it is to revoke as it takes its snapshot. -/
theorem pursuit_start {sel : RefreshToken → Bool} {whose : Row → Bool} {indices : List Nat}
    (hchained : Chained c) (hs : Traffic.Sound (discipline MeetsUnrotated) c)
    (hu : c.under i = some u) (hsweeps : u.task.1.sweeps = some sel)
    (hwhose : ∀ t, whose (.token t) = (sel t && isLive t))
    (hperm : indices.Perm (c.tables.matching i whose)) :
    ∃ ids, Targeted u.begun sel ids ∧ Pursuit c.tables i sel (Due whose indices []) ids := by
  have hcommitted : ∀ {k : Nat} {slot : Slot Row}, c.tables.slots[k]? = some slot →
      ∀ {t : RefreshToken}, slot.committed = some (.token t) →
      (∃ t', .token t' ∈ c.tables.rows ∧ t'.id = t.id ∧ sel t' = true) → sel t = true := by
    rintro k slot hk t hc ⟨t', ht', hid, hsel⟩
    obtain ⟨k', slot', hk', hc'⟩ := mem_rows_iff.mp ht'
    obtain rfl : k' = k := hs.distinct hk' hk (Slot.committed_mem hc') (Slot.committed_mem hc) hid
    obtain rfl := Option.some.inj (hk.symm.trans hk')
    cases hc.symm.trans hc'
    exact hsel
  refine ⟨fun id => ∃ t, .token t ∈ c.tables.rows ∧ t.id = id ∧ sel t = true, ?_, ?_, ?_, ?_, ?_⟩
  · intro t ht hsel
    obtain ⟨row, hrow, hkey⟩ := List.mem_map.mp (hs.begun hu _ (List.mem_map_of_mem ht))
    cases row with
    | token t' =>
      obtain ⟨hid, haccount, hfamily⟩ := token_of_key hkey
      exact ⟨t', hrow, hid, (sweeps_congr hsweeps haccount hfamily).trans hsel⟩
    | _ => cases hkey
  · rintro _ ⟨t, ht, rfl, -⟩
    exact ⟨_, List.mem_map_of_mem ht, rfl⟩
  · exact fun hk t hc hid => hcommitted hk hc hid
  · intro k slot hk t hc hid hlive
    by_cases hwritten : ∃ row, slot.written = some (i, row)
    · exact .inr hwritten
    · have hsees : slot.seenBy i = some (.token t) := by
        rw [Slot.seenBy_of_not_written fun row hw => hwritten ⟨row, hw⟩, hc]
      have hmeant : whose (.token t) = true := by
        rw [hwhose, hcommitted hk hc hid, hlive]
        rfl
      exact .inl (Foundations.due_nil (hperm.mem_iff.mpr (Versions.mem_matching hk hsees hmeant)))
  · intro k slot hk t hc hid n hn
    obtain ⟨row, hrow, hkey⟩ := List.mem_map.mp (hchained.linked hk hc hn)
    cases row with
    | token t' =>
      obtain ⟨hid', haccount, hfamily⟩ : t'.id = n ∧ t'.authUserId = t.authUserId ∧
          t'.familyId = t.familyId := by simpa [Row.key] using hkey
      have hsel : sel t' = sel t := sweeps_congr hsweeps haccount hfamily
      exact .inr ⟨t', hrow, hid', hsel.trans (hcommitted hk hc hid)⟩
    | _ => cases hkey

/-- With no row of its snapshot left, a revocation that commits leaves its tokens dead. -/
theorem Pursuit.commit {sel : RefreshToken → Bool} {due : Nat → Prop}
    (h : Pursuit c.tables i sel due ids) (hchained : Chained c)
    (hs : Traffic.Sound (discipline MeetsUnrotated) c) (hu : c.under i = some u)
    (hsweeps : u.task.1.sweeps = some sel) (hover : ∀ k, ¬ due k) :
    Extinct (c.tables.commit i) ids where
  present id hid := by
    obtain ⟨key, hmem, he⟩ := h.present id hid
    exact ⟨key, Traffic.keys_access hs (.committed (i := i)) hmem, he⟩
  dead {k slot'} hk t hc hid := by
    have hp : c.tables.Performed i .commit () (c.tables.commit i) := .committed
    obtain ⟨slot, t₀, hslot, hc₀, hsame, rfl | ⟨-, hw⟩⟩ :=
      committed_before hs (h.present _ hid) hp hk hc
    · by_contra hdead
      rcases h.alive hslot hc₀ hid (Bool.not_eq_false _ ▸ hdead) with hd | ⟨row, hw⟩
      · exact hover k hd
      · obtain ⟨t', rfl, hdead'⟩ := hchained.overwritten hslot hc₀ hw
        have hk' : (c.tables.commit i).slots[k]? = some (slot.commit i) :=
          List.getElem?_map.trans (congrArg (Option.map (Slot.commit i)) hslot)
        obtain rfl := Option.some.inj (hk.symm.trans hk')
        have hrow : (slot.commit i).committed = some (.token t') := by
          unfold Slot.commit
          rw [hw]
          exact congrArg Slot.committed (if_pos rfl)
        cases hc.symm.trans hrow
        exact hdead hdead'
    · obtain ⟨t', he, hdead⟩ := hchained.overwritten hslot hc₀ hw
      cases he
      exact hdead
  onward {k slot'} hk t hc hid n hn := by
    have hp : c.tables.Performed i .commit () (c.tables.commit i) := .committed
    obtain ⟨slot, t₀, hslot, hc₀, hsame, rfl | ⟨-, hw⟩⟩ :=
      committed_before hs (h.present _ hid) hp hk hc
    · exact (h.onward hslot hc₀ hid hn).resolve_left (hover k)
    · obtain ⟨-, u', next, hu', htask⟩ := hchained.linking hslot hw hn
      obtain rfl := Option.some.inj (hu.symm.trans hu')
      rw [htask] at hsweeps
      cases hsweeps

/-- What is dead stays so, whoever makes an access. -/
theorem Extinct.access (h : Extinct c.tables ids) (hchained : Chained c)
    (hs : Traffic.Sound (discipline MeetsUnrotated) c) (hp : c.tables.Performed j a reply tables) :
    Extinct tables ids := by
  have hsame : ∀ {k : Nat} {slot' : Slot Row}, tables.slots[k]? = some slot' →
      ∀ {t : RefreshToken}, slot'.committed = some (.token t) → ids t.id →
      ∃ slot, c.tables.slots[k]? = some slot ∧ slot.committed = some (.token t) := by
    intro k slot' hk t hc hid
    obtain ⟨slot, t₀, hslot, hc₀, hsame, rfl | ⟨-, hw⟩⟩ :=
      committed_before hs (h.present _ hid) hp hk hc
    · exact ⟨slot, hslot, hc₀⟩
    · obtain ⟨hid₀, -⟩ := token_of_key hsame
      have hdead := h.dead hslot hc₀ (hid₀ ▸ hid)
      exact nomatch (hchained.frozen hslot hc₀ hdead).symm.trans hw
  constructor
  · intro id hid
    obtain ⟨key, hmem, he⟩ := h.present id hid
    exact ⟨key, Traffic.keys_access hs hp hmem, he⟩
  · intro k slot' hk t hc hid
    obtain ⟨slot, hslot, hc₀⟩ := hsame hk hc hid
    exact h.dead hslot hc₀ hid
  · intro k slot' hk t hc hid n hn
    obtain ⟨slot, hslot, hc₀⟩ := hsame hk hc hid
    exact h.onward hslot hc₀ hid hn

end Access

/-! ## What every step keeps -/

section Step

variable {c c' : Traffic Row (Call × Nat)} {i : Nat} {u : Transacting} {a : Access Row}
  {reply : a.Reply} {tables : Versions Row}

theorem pursuing_access (h : Weeding c) (hs : Traffic.Sound (discipline MeetsUnrotated) c)
    (hu : c.under i = some u) (hallowed : (discipline MeetsUnrotated).allows c i u a)
    (hp : c.tables.Performed i a reply tables) (done : List Transacting) :
    Pursuing { tables, under := moveGhost c.under i (some (Traffic.push u a reply)), done } := by
  intro j u' hu' hopen sel hsweeps whose indices newer older hmade hwhose
  by_cases hj : j = i
  · subst hj
    obtain rfl := Option.some.inj ((moveGhost_self _ _ _).symm.trans hu')
    obtain ⟨ha, hunended⟩ := Traffic.push_unended hopen
    cases newer with
    | nil =>
      -- the snapshot is just taken
      obtain ⟨he, -⟩ := List.cons.inj hmade
      obtain ⟨rfl, hreply⟩ := Sigma.mk.inj he
      cases hreply
      cases hp with
      | aimed hperm =>
        obtain ⟨ids, htargeted, hpursuit⟩ :=
          pursuit_start h.chained hs hu hsweeps hwhose hperm
        exact ⟨ids, htargeted, hpursuit⟩
    | cons m newer =>
      obtain ⟨rfl, hrest⟩ : (⟨a, reply⟩ : (a : Access Row) × a.Reply) = m ∧
          u.made = newer ++ ⟨.targets whose, indices⟩ :: older := List.cons.inj hmade
      obtain ⟨ids, htargeted, hpursuit⟩ := h.pursuing _ _ hu hunended hsweeps hrest hwhose
      refine ⟨ids, htargeted, hpursuit.access h.chained hs hu hallowed hp
        (fun he => Bool.noConfusion (ha.symm.trans he))
        (fun haccount hfamily => sweeps_congr hsweeps haccount hfamily) hwhose ?_⟩
      exact fun k hk => (Foundations.due_cons hk).imp_right fun hvisit =>
        ⟨rfl, Option.isSome_iff_exists.mpr ⟨sel, hsweeps⟩, hvisit⟩
  · have hu₀ : c.under j = some u' := (moveGhost_of_ne hj).symm.trans hu'
    obtain ⟨ids, htargeted, hpursuit⟩ := h.pursuing _ _ hu₀ hopen hsweeps hmade hwhose
    exact ⟨ids, htargeted, hpursuit.access h.chained hs hu hallowed hp (fun _ => hj)
      (fun haccount hfamily => sweeps_congr hsweeps haccount hfamily) hwhose
      (fun _ hk => .inl hk)⟩

/-- A revocation that commits has visited its snapshot. -/
theorem extinct_commit (h : Weeding c) (hs : Traffic.Sound (discipline MeetsUnrotated) c)
    (hu : c.under i = some u) (hunended : Unended u.made) {sel : RefreshToken → Bool}
    (hsweeps : u.task.1.sweeps = some sel) (hswept : SweptAll sel u.made) :
    ∃ ids, Targeted u.begun sel ids ∧ Extinct (c.tables.commit i) ids := by
  obtain ⟨whose, change, before, _, later, hmade, ⟨indices, seen, rfl, hall⟩, hwhose⟩ := hswept
  have hsplit : u.made = (later ++ Foundations.visits whose change seen) ++
      ⟨.targets whose, indices⟩ :: before := by rw [hmade, List.append_assoc]
  obtain ⟨ids, htargeted, hpursuit⟩ := h.pursuing _ _ hu hunended hsweeps hsplit hwhose
  exact ⟨ids, htargeted, hpursuit.commit h.chained hs hu hsweeps fun _ =>
    Foundations.not_due_visits later hall⟩

theorem eradicated_access (h : Weeding c) (hs : Traffic.Sound (discipline MeetsUnrotated) c)
    (hu : c.under i = some u) (hunended : Unended u.made)
    (hallowed : (discipline MeetsUnrotated).allows c i u a)
    (hp : c.tables.Performed i a reply tables) (under : Nat → Option Transacting) :
    Eradicated { tables, under, done := if Traffic.commits a then u :: c.done else c.done } := by
  have hstays : ∀ u' ∈ c.done, ∀ {sel : RefreshToken → Bool}, u'.task.1.sweeps = some sel →
      ∃ ids, Targeted u'.begun sel ids ∧ Extinct tables ids := by
    intro u' hu' sel hsweeps
    obtain ⟨ids, htargeted, hextinct⟩ := h.eradicated u' hu' hsweeps
    exact ⟨ids, htargeted, hextinct.access h.chained hs hp⟩
  intro u' hu' sel hsweeps
  cases a with
  | commit =>
    rcases List.mem_cons.mp hu' with rfl | hu'
    · cases hp
      exact extinct_commit h hs hu hunended hsweeps (hallowed.1.2 sel hsweeps)
    · exact hstays u' hu' hsweeps
  | _ => exact hstays u' hu' hsweeps

theorem Pursuing.change (h : Pursuing c) (hs : Traffic.Sound (discipline MeetsUnrotated) c)
    {f : Slot Row → Slot Row} (hf : ∀ slot ∈ c.tables.slots, StatusChanges slot (f slot)) :
    Pursuing { c with tables := { c.tables with slots := c.tables.slots.map f } } := by
  intro i u hu hopen sel hsweeps whose indices newer older hmade hwhose
  obtain ⟨ids, htargeted, hpursuit⟩ := h _ _ hu hopen hsweeps hmade hwhose
  refine ⟨ids, htargeted, ?_, ?_, ?_, ?_⟩
  · intro id hid
    obtain ⟨key, hmem, he⟩ := hpursuit.present id hid
    exact ⟨key, Traffic.keys_change (lawful MeetsUnrotated) hf hmem, he⟩
  · exact fun hk t hc => hpursuit.chosen (token_unchanged hs hf hk (Slot.committed_mem hc)) hc
  · exact fun hk t hc => hpursuit.alive (token_unchanged hs hf hk (Slot.committed_mem hc)) hc
  · exact fun hk t hc => hpursuit.onward (token_unchanged hs hf hk (Slot.committed_mem hc)) hc

theorem Eradicated.change (h : Eradicated c) (hs : Traffic.Sound (discipline MeetsUnrotated) c)
    {f : Slot Row → Slot Row} (hf : ∀ slot ∈ c.tables.slots, StatusChanges slot (f slot)) :
    Eradicated { c with tables := { c.tables with slots := c.tables.slots.map f } } := by
  intro u hu sel hsweeps
  obtain ⟨ids, htargeted, hextinct⟩ := h u hu hsweeps
  refine ⟨ids, htargeted, ?_, ?_, ?_⟩
  · intro id hid
    obtain ⟨key, hmem, he⟩ := hextinct.present id hid
    exact ⟨key, Traffic.keys_change (lawful MeetsUnrotated) hf hmem, he⟩
  · exact fun hk t hc => hextinct.dead (token_unchanged hs hf hk (Slot.committed_mem hc)) hc
  · exact fun hk t hc => hextinct.onward (token_unchanged hs hf hk (Slot.committed_mem hc)) hc

/-- With other transactions under way or none, the same rows are dead. -/
theorem Pursuing.under (h : Pursuing c) {under : Nat → Option Transacting}
    (hunder : ∀ {i : Nat} {u : Transacting}, under i = some u → c.under i = some u ∨ u.made = []) :
    Pursuing { c with under } := by
  intro i u hu hopen sel hsweeps whose indices newer older hmade hwhose
  rcases hunder hu with hu | hnil
  · exact h _ _ hu hopen hsweeps hmade hwhose
  · rw [hnil] at hmade
    exact absurd hmade.symm (by simp)

theorem Weeding.step (h : Weeding c) (hs : Traffic.Sound (discipline MeetsUnrotated) c)
    (hstep : Traffic.Step (discipline MeetsUnrotated) c c') : Weeding c' := by
  have hchained := h.chained.step hs hstep
  cases hstep with
  | @begins i task hidle _ =>
    refine ⟨hchained, h.pursuing.under fun {j u} hu => ?_, h.eradicated⟩
    by_cases hj : j = i
    · subst hj
      obtain rfl := Option.some.inj ((moveGhost_self _ _ _).symm.trans hu)
      exact .inr rfl
    · exact .inl ((moveGhost_of_ne hj).symm.trans hu)
  | accesses hu hunended hallowed hp =>
    exact ⟨hchained, pursuing_access h hs hu hallowed hp _,
      eradicated_access h hs hu hunended hallowed hp _⟩
  | @retires i hover =>
    refine ⟨hchained, h.pursuing.under fun {j u} hu => ?_, h.eradicated⟩
    by_cases hj : j = i
    · subst hj
      exact nomatch (moveGhost_self _ _ _).symm.trans hu
    · exact .inl ((moveGhost_of_ne hj).symm.trans hu)
  | changes hf => exact ⟨hchained, h.pursuing.change hs hf, h.eradicated.change hs hf⟩

end Step

/-! ## Along every run -/

section Runs

variable {env : Env} {w : SharedWorld} {s : Interleaved} {ls : List Interleaved.Label}

/-- What descends from a token that is followed is followed, once all of it is dead. -/
theorem Extinct.descends {v : Versions Row} {ids : Nat → Prop} (h : Extinct v ids) {id id' : Nat}
    (hid : ids id) (hdescends : Descends v.rows id id') : ids id' := by
  induction hdescends with
  | refl => exact hid
  | tail _ hreplaced ih =>
    obtain ⟨t, ht, rfl, hn⟩ := hreplaced
    obtain ⟨k, slot, hk, hc⟩ := mem_rows_iff.mp ht
    exact h.onward hk hc ih hn

/-- Once a wholesale revocation has committed that no rotation overtook, no token that descends from
one it was to revoke is live, then or later. -/
theorem swept_descendants (hrest : AtRest w.tables) (hunbroken : Unbroken w.tables.rows)
    (hall : AllSteps (Interleaved.step env) sweepsAhead (Pool.start w) ls)
    (hrun : runs (Interleaved.step env) (Pool.start w) ls = some s) {call : Call}
    {begun : Versions Row} (hcommitted : Committed s call begun) {sel : RefreshToken → Bool}
    (hsweeps : call.sweeps = some sel) {t t' : RefreshToken} (ht : .token t ∈ begun.rows)
    (hsel : sel t = true) (hdescends : Descends s.world.tables.rows t.id t'.id)
    (ht' : .token t' ∈ s.world.tables.rows) : isLive t' = false := by
  have hstart : Weeding (Interleaved.traffic (Pool.start w)) :=
    ⟨chained_start env hrest hunbroken, fun _ _ hu => (nomatch hu), fun _ hu => nomatch hu⟩
  obtain ⟨-, hsweeping⟩ := heeding_invariant (P := Weeding)
    (fun _ _ hs hP hstep => hP.step hs hstep) hrest hstart hall hrun
  obtain ⟨u, hu, rfl, rfl⟩ := hcommitted
  obtain ⟨ids, htargeted, hextinct⟩ := hsweeping.eradicated u hu hsweeps
  obtain ⟨k, slot, hk, hc⟩ := mem_rows_iff.mp ht'
  exact hextinct.dead hk hc (hextinct.descends (htargeted t ht hsel) hdescends)

/-- The laptop's token was exchanged after the revocation had begun, and before its snapshot. -/
theorem swept_descendants_exchanged : ∃ s t,
    runs (Interleaved.step sampleEnv) (Pool.start adasDevices) signedOut = some s ∧
      .token t ∈ s.world.tables.rows ∧ Descends s.world.tables.rows 2 t.id ∧ t.id = 3 ∧
      isLive t = false := by
  have hsome : ((runs (Interleaved.step sampleEnv) (Pool.start adasDevices) signedOut).any fun s =>
      s.world.tables.rows.any (Row.isToken fun t => t.id = 2 && t.replacedById = some 3) &&
        s.world.tables.rows.any (Row.isToken fun t => t.id = 3) &&
        (committed s.trace).any fun u => u.task.1 = .revokeAllForUser ada.id .LOGOUT_ALL &&
          decide (.token (deviceToken 2 "laptop") ∈ u.begun.rows)) = true := by
    decide +kernel
  have hall : AllSteps (Interleaved.step sampleEnv) sweepsAhead (Pool.start adasDevices) signedOut := by
    unfold sweepsAhead
    decide +kernel
  obtain ⟨s, hs, hfound⟩ := (Option.any_eq_true _ _).mp hsome
  simp only [Bool.and_eq_true, List.any_eq_true, decide_eq_true_eq] at hfound
  obtain ⟨⟨⟨row, hrow, hp⟩, row', hrow', hp'⟩, u, hu, htask, hbegun⟩ := hfound
  cases row with
  | token t =>
    cases row' with
    | token t' =>
      obtain ⟨hid, hn⟩ : t.id = 2 ∧ t.replacedById = some 3 := by simpa [Row.isToken] using hp
      have hid' : t'.id = 3 := by simpa [Row.isToken] using hp'
      have hdescends : Descends s.world.tables.rows (deviceToken 2 "laptop").id t'.id :=
        hid' ▸ .single ⟨t, hrow, hid, hn⟩
      exact ⟨s, t', hs, hrow', hdescends, hid', swept_descendants adasDevices_atRest
        adasDevices_unbroken hall hs ⟨u, hu, htask, rfl⟩ rfl hbegun rfl hdescends hrow'⟩
    | _ => cases hp'
  | _ => cases hp

/-- Where a rotation overtakes the revocation, the successor stays live. -/
example : ((runs (Interleaved.step sampleEnv) (Pool.start adasDevices) overtaken).any fun s =>
    s.world.tables.rows.any (Row.isToken fun t => t.id = 3 && isLive t) &&
      (committed s.trace).any fun u => u.task.1 = .revokeAllForUser ada.id .LOGOUT_ALL) = true := by
  decide +kernel

end Runs

end PracticalMicroservice.Auth
