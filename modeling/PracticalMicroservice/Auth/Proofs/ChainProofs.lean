import PracticalMicroservice.Auth.Concurrency
import PracticalMicroservice.Auth.Proofs.InterleavingProofs

/-!
# Rotations leave unbroken chains

However the transactions interleave, a token is exchanged at most once, for a token of its account and
session that it alone names, and the exchange and the successor become visible together.
-/

namespace PracticalMicroservice.Auth

open Foundations (Access Accesses Pool Slot Traffic Undertaking Unended Versions moveGhost
  moveGhost_of_ne moveGhost_self runs)
open PrismaAuthRepository

/-! ## What a call does to a token -/

/-- A call leaves a token dead that was live, and names a successor only as it rotates. -/
theorem Changes.token {call : Call} {now : Nat} {made : Accesses Row} {old : Row}
    {t' : RefreshToken} (h : Changes call now made old (.token t')) :
    ∃ t, old = .token t ∧ isLive t = true ∧ isLive t' = false ∧
      (t'.replacedById = t.replacedById ∨
        ∃ created next, call = .rotateRefreshToken t'.id next ∧ Inserted made (.token created) ∧
          t'.replacedById = some created.id ∧ created.authUserId = next.authUserId ∧
          created.familyId = next.familyId) := by
  cases h with
  | revoked hlive _ => exact ⟨_, rfl, hlive, rfl, .inl rfl⟩
  | rotated hlive hcall hinserted haccount hfamily =>
    exact ⟨_, rfl, hlive, rfl, .inr ⟨_, _, hcall, hinserted, rfl, haccount, hfamily⟩⟩

theorem Changes.of_token {call : Call} {now : Nat} {made : Accesses Row} {t : RefreshToken}
    {row : Row} (h : Changes call now made (.token t) row) :
    isLive t = true ∧ ∃ t', row = .token t' ∧ isLive t' = false := by
  cases h with
  | revoked hlive _ => exact ⟨hlive, _, rfl, rfl⟩
  | rotated hlive _ _ _ _ => exact ⟨hlive, _, rfl, rfl⟩

/-- A token is inserted live. -/
theorem Inserts.token {call : Call} {now key : Nat} {made : Accesses Row} {row : Nat → Row}
    {t : RefreshToken} (h : Inserts made now row call) (ht : row key = .token t) :
    t.replacedById = none := by
  cases call with
  | createAuthUserWithVerification user verification =>
    rcases h with ⟨-, hrow⟩ | ⟨u, -, -, hrow⟩
    · obtain ⟨u, he, -⟩ := hrow key
      cases he.symm.trans ht
    · cases (hrow key).symm.trans ht
  | recordLoginAttempt input =>
    obtain ⟨history, he, -⟩ := h key
    cases he.symm.trans ht
  | replaceVerification authUserId input => cases (h.1 key).symm.trans ht
  | createRefreshToken input =>
    cases (h.2 key).symm.trans ht
    rfl
  | rotateRefreshToken currentId next =>
    cases (h.2 key).symm.trans ht
    rfl
  | _ => exact h.elim

theorem token_of_key {t t' : RefreshToken} (h : (Row.token t).key = (Row.token t').key) :
    t.id = t'.id ∧ t.authUserId = t'.authUserId ∧ t.familyId = t'.familyId := by
  simpa [Row.key] using h

/-! ## The chains, and the rotations under way -/

/-- What every version of a token keeps, committed or not. -/
structure Chained (c : Traffic Row (Call × Nat)) : Prop where
  live : ∀ {k : Nat} {slot : Slot Row}, c.tables.slots[k]? = some slot → ∀ {t : RefreshToken},
    .token t ∈ slot.versions → isLive t = true → t.replacedById = none
  /-- A revoked token is never written again. -/
  frozen : ∀ {k : Nat} {slot : Slot Row}, c.tables.slots[k]? = some slot → ∀ {t : RefreshToken},
    slot.committed = some (.token t) → isLive t = false → slot.written = none
  overwritten : ∀ {k : Nat} {slot : Slot Row}, c.tables.slots[k]? = some slot →
    ∀ {t : RefreshToken}, slot.committed = some (.token t) → ∀ {i : Nat} {row : Row},
      slot.written = some (i, row) → ∃ t', row = .token t' ∧ isLive t' = false
  ordered : ∀ {k : Nat} {slot : Slot Row}, c.tables.slots[k]? = some slot → ∀ {t : RefreshToken},
    .token t ∈ slot.versions → ∀ {n : Nat}, t.replacedById = some n → t.id < n
  linked : ∀ {k : Nat} {slot : Slot Row}, c.tables.slots[k]? = some slot → ∀ {t : RefreshToken},
    slot.committed = some (.token t) → ∀ {n : Nat}, t.replacedById = some n →
      .token n t.authUserId t.familyId ∈ c.tables.rows.map Row.key
  /-- A rotation under way holds its token and the successor. -/
  linking : ∀ {k : Nat} {slot : Slot Row}, c.tables.slots[k]? = some slot → ∀ {t : RefreshToken}
    {i : Nat}, slot.written = some (i, .token t) → ∀ {n : Nat}, t.replacedById = some n →
      (∃ (k' : Nat) (slot' : Slot Row) (row : Row), c.tables.slots[k']? = some slot' ∧
        slot'.written = some (i, row) ∧ slot'.committed = none ∧
        row.key = .token n t.authUserId t.familyId) ∧
      ∃ u next, c.under i = some u ∧ u.task.1 = .rotateRefreshToken t.id next
  sole : ∀ {k k' : Nat} {slot slot' : Slot Row}, c.tables.slots[k]? = some slot →
    c.tables.slots[k']? = some slot' → ∀ {t t' : RefreshToken}, .token t ∈ slot.versions →
      .token t' ∈ slot'.versions → ∀ {n : Nat}, t.replacedById = some n →
        t'.replacedById = some n → k = k'
  /-- What a call inserts is younger than what it needs. -/
  later : ∀ {i : Nat} {u : Transacting}, c.under i = some u → ∀ {row : Row},
    Inserted u.made row → ∀ k ∈ u.task.1.needs, k.id < row.id

/-! ## What an access keeps -/

section Access

variable {ok : Traffic Row (Call × Nat) → Nat → Transacting → Access Row → Prop}
  {c : Traffic Row (Call × Nat)} {i k : Nat} {u : Transacting} {a : Access Row} {reply : a.Reply}
  {tables : Versions Row} {slot' : Slot Row} {t : RefreshToken}

/-- The slot of a token that a call needs, and the account and session of the token. -/
theorem needed_token (hs : Traffic.Sound (discipline ok) c) (hu : c.under i = some u)
    {next : NewRefreshTokenRecord} (htask : u.task.1 = .rotateRefreshToken t.id next)
    {slot : Slot Row} (hk : c.tables.slots[k]? = some slot) (ht : .token t ∈ slot.versions) :
    t.authUserId = next.authUserId ∧ t.familyId = next.familyId := by
  have hneed : RowKey.token t.id next.authUserId next.familyId ∈ u.task.1.needs := by
    rw [htask]
    exact List.mem_singleton_self _
  obtain ⟨k', slot₁, row, hk', hc, he⟩ := Traffic.mem_keys.mp (hs.needed hu _ hneed)
  have hrow : row.key = .token t.id next.authUserId next.familyId := he
  have hnumber : row.key.id = (Row.token t).key.id := by rw [hrow]; rfl
  obtain rfl : k' = k := hs.distinct hk' hk (Slot.committed_mem hc) ht hnumber
  obtain rfl := Option.some.inj (hk.symm.trans hk')
  have hkey : (Row.token t).key = row.key := hs.coherent hk ht (Slot.committed_mem hc)
  rw [hrow] at hkey
  simpa [Row.key] using hkey

/-- A version of a token under way was under way before the access, or the access has just left it:
revoked with no successor, exchanged for a token its call has inserted, or new. -/
theorem token_written (h : Chained c) (hs : Traffic.Sound (discipline ok) c) (hu : c.under i = some u)
    (hfits : Fits u.task u.made a) (hp : c.tables.Performed i a reply tables)
    (hk : tables.slots[k]? = some slot') {j : Nat} (hw : slot'.written = some (j, .token t)) :
    (∃ slot, c.tables.slots[k]? = some slot ∧ slot.written = some (j, .token t)) ∨
      j = i ∧ (t.replacedById = none ∨
        isLive t = false ∧ (∃ whose change, a = .visit k whose change) ∧
          ∃ created next, u.task.1 = .rotateRefreshToken t.id next ∧
            Inserted u.made (.token created) ∧ t.replacedById = some created.id ∧
            created.authUserId = t.authUserId ∧ created.familyId = t.familyId) := by
  rcases hp.written_after hk hw with ⟨slot, hslot, hw, -⟩ |
    ⟨slot, whose, change, old, hslot, rfl, rfl, hrow, -, hseen, hmeant, -⟩ | ⟨rfl, -, f, rfl, hrow⟩
  · exact .inl ⟨slot, hslot, hw⟩
  · have hchanges : Changes u.task.1 u.task.2 u.made old (change old) := hfits.1 old hmeant
    have hkey : (Row.token t).key = old.key := hrow ▸ hchanges.key
    rw [← hrow] at hchanges
    obtain ⟨t₀, rfl, hlive, hdead, hnone | ⟨created, next, htask, hinserted, hn, ha, hf⟩⟩ :=
      hchanges.token
    · refine .inr ⟨rfl, .inl ?_⟩
      rw [hnone]
      exact h.live hslot (Slot.seenBy_mem hseen) hlive
    · obtain ⟨hid, haccount, hfamily⟩ := token_of_key hkey
      obtain ⟨haccount', hfamily'⟩ := needed_token hs hu (hid ▸ htask) hslot (Slot.seenBy_mem hseen)
      refine .inr ⟨rfl, .inr ⟨hdead, ⟨whose, change, rfl⟩, created, next, htask, hinserted, hn, ?_, ?_⟩⟩
      · rw [ha, haccount, haccount']
      · rw [hf, hfamily, hfamily']
  · exact .inr ⟨rfl, .inl (Inserts.token hfits hrow.symm)⟩

/-- So for every version of a token. -/
theorem token_access (h : Chained c) (hs : Traffic.Sound (discipline ok) c) (hu : c.under i = some u)
    (hfits : Fits u.task u.made a) (hp : c.tables.Performed i a reply tables)
    (hk : tables.slots[k]? = some slot') (ht : .token t ∈ slot'.versions) :
    (∃ slot, c.tables.slots[k]? = some slot ∧ .token t ∈ slot.versions) ∨
      t.replacedById = none ∨
      isLive t = false ∧ (∃ whose change, a = .visit k whose change) ∧
        ∃ created next, u.task.1 = .rotateRefreshToken t.id next ∧
          Inserted u.made (.token created) ∧ t.replacedById = some created.id ∧
          created.authUserId = t.authUserId ∧ created.familyId = t.familyId := by
  rcases Slot.mem_versions_iff.mp ht with hc | ⟨j, hw⟩
  · obtain ⟨slot, hslot, hc | ⟨-, hw, -⟩⟩ := hp.committed_after hk hc
    · exact .inl ⟨slot, hslot, Slot.committed_mem hc⟩
    · exact .inl ⟨slot, hslot, Slot.written_mem hw⟩
  · rcases token_written h hs hu hfits hp hk hw with ⟨slot, hslot, hw⟩ | ⟨-, hnew⟩
    · exact .inl ⟨slot, hslot, Slot.written_mem hw⟩
    · exact .inr hnew

theorem live_access (h : Chained c) (hs : Traffic.Sound (discipline ok) c) (hu : c.under i = some u)
    (hfits : Fits u.task u.made a) (hp : c.tables.Performed i a reply tables)
    (hk : tables.slots[k]? = some slot') (ht : .token t ∈ slot'.versions) (hlive : isLive t = true) :
    t.replacedById = none := by
  rcases token_access h hs hu hfits hp hk ht with ⟨slot, hslot, ht⟩ | hn | ⟨hdead, -⟩
  · exact h.live hslot ht hlive
  · exact hn
  · exact Bool.noConfusion (hdead.symm.trans hlive)

theorem frozen_access (h : Chained c) (hfits : Fits u.task u.made a)
    (hp : c.tables.Performed i a reply tables) (hk : tables.slots[k]? = some slot')
    (hc : slot'.committed = some (.token t)) (hdead : isLive t = false) : slot'.written = none := by
  obtain ⟨slot, hslot, hc₀ | ⟨-, -, hnone⟩⟩ := hp.committed_after hk hc
  · have hfree := h.frozen hslot hc₀ hdead
    refine Option.eq_none_iff_forall_not_mem.mpr fun ⟨j, row⟩ hw => ?_
    rcases hp.written_after hk hw with ⟨slot₁, hslot₁, hw, -⟩ |
      ⟨slot₁, whose, change, old, hslot₁, rfl, rfl, -, -, hseen, hmeant, -⟩ | ⟨-, hnone, -⟩
    · obtain rfl := Option.some.inj (hslot.symm.trans hslot₁)
      exact nomatch hfree.symm.trans hw
    · obtain rfl := Option.some.inj (hslot.symm.trans hslot₁)
      have hsees : slot.seenBy j = slot.committed :=
        Slot.seenBy_of_not_written fun row hrow => nomatch hfree.symm.trans hrow
      obtain rfl := Option.some.inj ((hc₀.symm.trans hsees.symm).trans hseen)
      have hlive := (Changes.of_token (hfits.1 _ hmeant)).1
      exact Bool.noConfusion (hdead.symm.trans hlive)
    · exact nomatch hnone.symm.trans hc
  · exact hnone

theorem overwritten_access (h : Chained c) (hs : Traffic.Sound (discipline ok) c)
    (hfits : Fits u.task u.made a) (hp : c.tables.Performed i a reply tables)
    (hk : tables.slots[k]? = some slot') (hc : slot'.committed = some (.token t)) {j : Nat}
    {row : Row} (hw : slot'.written = some (j, row)) : ∃ t', row = .token t' ∧ isLive t' = false := by
  obtain ⟨slot, hslot, hc₀ | ⟨-, -, hnone⟩⟩ := hp.committed_after hk hc
  · rcases hp.written_after hk hw with ⟨slot₁, hslot₁, hw, -⟩ |
      ⟨slot₁, whose, change, old, hslot₁, rfl, rfl, hrow, -, hseen, hmeant, -⟩ | ⟨-, hnone, -⟩
    · obtain rfl := Option.some.inj (hslot.symm.trans hslot₁)
      exact h.overwritten hslot hc₀ hw
    · obtain rfl := Option.some.inj (hslot.symm.trans hslot₁)
      have hkey : (Row.token t).key = old.key :=
        hs.coherent hslot (Slot.committed_mem hc₀) (Slot.seenBy_mem hseen)
      cases old with
      | token t₀ =>
        obtain ⟨-, t', he, hdead⟩ := Changes.of_token (hfits.1 _ hmeant)
        exact ⟨t', hrow.trans he, hdead⟩
      | _ => cases hkey
    · exact nomatch hnone.symm.trans hc
  · exact nomatch hnone.symm.trans hw

theorem ordered_access (h : Chained c) (hs : Traffic.Sound (discipline ok) c)
    (hu : c.under i = some u) (hfits : Fits u.task u.made a)
    (hp : c.tables.Performed i a reply tables) (hk : tables.slots[k]? = some slot')
    (ht : .token t ∈ slot'.versions) {n : Nat} (hn : t.replacedById = some n) : t.id < n := by
  rcases token_access h hs hu hfits hp hk ht with ⟨slot, hslot, ht⟩ | hnone |
    ⟨-, -, created, next, htask, hinserted, hcreated, -⟩
  · exact h.ordered hslot ht hn
  · exact nomatch hnone.symm.trans hn
  · obtain rfl := Option.some.inj (hcreated.symm.trans hn)
    refine h.later hu hinserted (.token t.id next.authUserId next.familyId) ?_
    rw [htask]
    exact List.mem_singleton_self _

theorem linked_access (h : Chained c) (hs : Traffic.Sound (discipline ok) c)
    (hp : c.tables.Performed i a reply tables) (hk : tables.slots[k]? = some slot')
    (hc : slot'.committed = some (.token t)) {n : Nat} (hn : t.replacedById = some n) :
    .token n t.authUserId t.familyId ∈ tables.rows.map Row.key := by
  obtain ⟨slot, hslot, hc | ⟨rfl, hw, -⟩⟩ := hp.committed_after hk hc
  · exact Traffic.keys_access hs hp (h.linked hslot hc hn)
  · obtain ⟨⟨k', slot₁, row, hk', hw', -, hkey⟩, -⟩ := h.linking hslot hw hn
    obtain ⟨slot₂, hk₂, hbecame⟩ := hp.goes hk'
    cases hbecame with
    | kept ha => cases ha
    | committed =>
      have he : (slot₁.commit i).committed = some row := by
        unfold Slot.commit
        rw [hw']
        exact congrArg Slot.committed (if_pos rfl)
      exact (Traffic.mem_keys (d := discipline ok)).mpr ⟨k', _, row, hk₂, he, hkey⟩

theorem linking_access (h : Chained c) (hs : Traffic.Sound (discipline ok) c)
    (hu : c.under i = some u) (hunended : Unended u.made) (hallowed : (discipline ok).allows c i u a)
    (hp : c.tables.Performed i a reply tables) (hk : tables.slots[k]? = some slot') {j : Nat}
    (hw : slot'.written = some (j, .token t)) {n : Nat} (hn : t.replacedById = some n) :
    (∃ (k' : Nat) (slot : Slot Row) (row : Row), tables.slots[k']? = some slot ∧
        slot.written = some (j, row) ∧ slot.committed = none ∧
        row.key = .token n t.authUserId t.familyId) ∧
      ∃ u' next, moveGhost c.under i (some (Traffic.push u a reply)) j = some u' ∧
        u'.task.1 = .rotateRefreshToken t.id next := by
  obtain ⟨u', hu', hopen, -⟩ := Traffic.held_access hs hu hunended hp hk hw
  have hends : a.ends = true → j ≠ i := by
    rintro hends rfl
    rw [moveGhost_self] at hu'
    obtain rfl := Option.some.inj hu'
    exact Bool.noConfusion ((Traffic.push_unended hopen).1.symm.trans hends)
  have hstays : ∀ {k' : Nat} {slot : Slot Row} {row : Row}, c.tables.slots[k']? = some slot →
      slot.written = some (j, row) → slot.committed = none →
      row.key = .token n t.authUserId t.familyId →
      ∃ (k' : Nat) (slot : Slot Row) (row : Row), tables.slots[k']? = some slot ∧
        slot.written = some (j, row) ∧ slot.committed = none ∧
        row.key = .token n t.authUserId t.familyId := by
    intro k' slot row hk' hw' hc' hkey
    obtain ⟨slot₁, row', hk₁, hw₁, hc₁, hkey'⟩ :=
      Traffic.still_written_access (lawful ok) hallowed hp hk' hw' hends
    exact ⟨k', slot₁, row', hk₁, hw₁, hc₁.trans hc', hkey'.trans hkey⟩
  rcases token_written h hs hu hallowed.1 hp hk hw with ⟨slot, hslot, hw⟩ | ⟨rfl, hnone |
    ⟨-, -, created, next, htask, hinserted, hcreated, haccount, hfamily⟩⟩
  · obtain ⟨⟨k', slot₁, row, hk', hw₁, hc₁, hkey⟩, u₀, next, hu₀, htask⟩ := h.linking hslot hw hn
    refine ⟨hstays hk' hw₁ hc₁ hkey, ?_⟩
    by_cases hj : j = i
    · subst hj
      obtain rfl := Option.some.inj (hu.symm.trans hu₀)
      exact ⟨_, next, moveGhost_self _ _ _, htask⟩
    · exact ⟨u₀, next, (moveGhost_of_ne hj).trans hu₀, htask⟩
  · exact nomatch hnone.symm.trans hn
  · obtain rfl := Option.some.inj (hcreated.symm.trans hn)
    obtain ⟨row, hm⟩ := hinserted
    obtain ⟨k', slot, r, hk', hw₁, hc₁, hkey⟩ := hs.inserted hu hunended hm
    refine ⟨hstays hk' hw₁ hc₁ (hkey.trans ?_), _, next, moveGhost_self _ _ _, htask⟩
    show (Row.token created).key = _
    rw [← haccount, ← hfamily]
    rfl

/-- A version that names the token a rotation has inserted is the rotation's. -/
theorem names_inserted (h : Chained c) (hs : Traffic.Sound (discipline ok) c)
    (hu : c.under i = some u) (hunended : Unended u.made) {id : Nat} {next : NewRefreshTokenRecord}
    (htask : u.task.1 = .rotateRefreshToken id next) {created : RefreshToken}
    (hinserted : Inserted u.made (.token created)) {slot : Slot Row}
    (hk : c.tables.slots[k]? = some slot) (ht : .token t ∈ slot.versions)
    (hn : t.replacedById = some created.id) : t.id = id := by
  obtain ⟨row, hm⟩ := hinserted
  obtain ⟨k₁, slot₁, r, hk₁, hw₁, hc₁, hkey₁⟩ := hs.inserted hu hunended hm
  have hnumber : r.key.id = created.id := congrArg RowKey.id hkey₁
  rcases Slot.mem_versions_iff.mp ht with hc | ⟨j, hw⟩
  · obtain ⟨k₂, slot₂, row₂, hk₂, hc₂, hkey₂⟩ := (Traffic.mem_keys (d := discipline ok)).mp (h.linked hk hc hn)
    have hnumber₂ : row₂.key.id = created.id := congrArg RowKey.id hkey₂
    obtain rfl : k₁ = k₂ := hs.distinct hk₁ hk₂ (Slot.written_mem hw₁) (Slot.committed_mem hc₂)
      (hnumber.trans hnumber₂.symm)
    obtain rfl := Option.some.inj (hk₁.symm.trans hk₂)
    exact nomatch hc₁.symm.trans hc₂
  · obtain ⟨⟨k₂, slot₂, row₂, hk₂, hw₂, -, hkey₂⟩, u', next', hu', htask'⟩ := h.linking hk hw hn
    have hnumber₂ : row₂.key.id = created.id := congrArg RowKey.id hkey₂
    obtain rfl : k₁ = k₂ := hs.distinct hk₁ hk₂ (Slot.written_mem hw₁) (Slot.written_mem hw₂)
      (hnumber.trans hnumber₂.symm)
    obtain rfl := Option.some.inj (hk₁.symm.trans hk₂)
    obtain rfl : i = j := congrArg Prod.fst (Option.some.inj (hw₁.symm.trans hw₂))
    obtain rfl := Option.some.inj (hu.symm.trans hu')
    have he : Call.rotateRefreshToken id next = .rotateRefreshToken t.id next' :=
      htask.symm.trans htask'
    cases he
    rfl

theorem sole_access {c' : Traffic Row (Call × Nat)} (h : Chained c)
    (hs : Traffic.Sound (discipline ok) c) (hs' : Traffic.Sound (discipline ok) c')
    (hu : c.under i = some u) (hunended : Unended u.made) (hfits : Fits u.task u.made a)
    (hp : c.tables.Performed i a reply c'.tables) {k' : Nat} {slot'' : Slot Row} {t' : RefreshToken}
    (hk : c'.tables.slots[k]? = some slot') (hk' : c'.tables.slots[k']? = some slot'')
    (ht : .token t ∈ slot'.versions) (ht' : .token t' ∈ slot''.versions) {n : Nat}
    (hn : t.replacedById = some n) (hn' : t'.replacedById = some n) : k = k' := by
  rcases token_access h hs hu hfits hp hk ht with ⟨slot, hslot, hold⟩ | hnone |
    ⟨-, ⟨whose, change, ha⟩, created, next, htask, hinserted, hcreated, -⟩
  · rcases token_access h hs hu hfits hp hk' ht' with ⟨slot₁, hslot₁, hold'⟩ | hnone |
      ⟨-, -, created, next, htask, hinserted, hcreated, -⟩
    · exact h.sole hslot hslot₁ hold hold' hn hn'
    · exact nomatch hnone.symm.trans hn'
    · obtain rfl := Option.some.inj (hcreated.symm.trans hn')
      have hid : t.id = t'.id :=
        names_inserted h hs hu hunended htask hinserted hslot hold hn
      exact hs'.distinct hk hk' ht ht' hid
  · exact nomatch hnone.symm.trans hn
  · rcases token_access h hs hu hfits hp hk' ht' with ⟨slot₁, hslot₁, hold'⟩ | hnone |
      ⟨-, ⟨whose', change', ha'⟩, -⟩
    · obtain rfl := Option.some.inj (hcreated.symm.trans hn)
      have hid : t'.id = t.id :=
        names_inserted h hs hu hunended htask hinserted hslot₁ hold' hn'
      exact hs'.distinct hk hk' ht ht' hid.symm
    · exact nomatch hnone.symm.trans hn'
    · cases ha.symm.trans ha'
      rfl

theorem later_access (h : Chained c) (hs : Traffic.Sound (discipline ok) c)
    (hu : c.under i = some u) (hp : c.tables.Performed i a reply tables)
    (hallowed : (discipline ok).allows c i u a) {j : Nat} {u' : Transacting}
    (hu' : moveGhost c.under i (some (Traffic.push u a reply)) j = some u') {row : Row}
    (hinserted : Inserted u'.made row) {key : RowKey} (hkey : key ∈ u'.task.1.needs) :
    key.id < row.id := by
  by_cases hj : j = i
  · subst hj
    rw [moveGhost_self] at hu'
    obtain rfl := Option.some.inj hu'
    obtain ⟨f, hm⟩ := hinserted
    rcases List.mem_cons.mp hm with he | hm
    · obtain ⟨rfl, hreply⟩ := Sigma.mk.inj he
      cases hreply
      cases hp
      have hid : (f c.tables.nextKey).id = c.tables.nextKey := Inserts.id hallowed.1 _
      obtain ⟨k', slot, r, hk', hc, hr⟩ := Traffic.mem_keys.mp (hs.needed hu key hkey)
      have hlt := hs.numbered hk' (Slot.committed_mem hc)
      rw [hid, ← hr]
      exact hlt
    · exact h.later hu ⟨f, hm⟩ key hkey
  · rw [moveGhost_of_ne hj] at hu'
    exact h.later hu' hinserted key hkey

end Access

/-! ## What every step keeps -/

section Step

variable {ok : Traffic Row (Call × Nat) → Nat → Transacting → Access Row → Prop}
  {c c' : Traffic Row (Call × Nat)} {i : Nat}

theorem token_unchanged (hs : Traffic.Sound (discipline ok) c) {f : Slot Row → Slot Row}
    (hf : ∀ slot ∈ c.tables.slots, StatusChanges slot (f slot)) {k : Nat} {slot' : Slot Row}
    (hk : (c.tables.slots.map f)[k]? = some slot') {t : RefreshToken}
    (ht : .token t ∈ slot'.versions) : c.tables.slots[k]? = some slot' :=
  row_unchanged hs hf hk ht fun _ h => nomatch h

theorem Chained.begin (h : Chained c) {task : Call × Nat}
    (hidle : c.under i = none) :
    Chained { c with under := moveGhost c.under i (some ⟨task, c.tables, []⟩) } where
  live := h.live
  frozen := h.frozen
  overwritten := h.overwritten
  ordered := h.ordered
  linked := h.linked
  linking {k slot} hk {t j} hw n hn := by
    obtain ⟨hnew, u, next, hu, htask⟩ := h.linking hk hw hn
    have hj : j ≠ i := fun he => nomatch (he ▸ hidle).symm.trans hu
    exact ⟨hnew, u, next, (moveGhost_of_ne hj).trans hu, htask⟩
  sole := h.sole
  later {j u} hu row hinserted := by
    by_cases hj : j = i
    · subst hj
      obtain rfl := Option.some.inj ((moveGhost_self _ _ _).symm.trans hu)
      obtain ⟨f, hm⟩ := hinserted
      cases hm
    · exact h.later ((moveGhost_of_ne hj).symm.trans hu) hinserted

theorem Chained.retire (h : Chained c) (hs : Traffic.Sound (discipline ok) c)
    (hover : ∀ u, c.under i = some u → ¬ Unended u.made) :
    Chained { c with under := moveGhost c.under i none } where
  live := h.live
  frozen := h.frozen
  overwritten := h.overwritten
  ordered := h.ordered
  linked := h.linked
  linking {k slot} hk {t j} hw n hn := by
    obtain ⟨hnew, u, next, hu, htask⟩ := h.linking hk hw hn
    obtain ⟨u', hu', hopen, -⟩ := hs.held hk hw
    have hj : j ≠ i := fun he => hover u' (he ▸ hu') hopen
    exact ⟨hnew, u, next, (moveGhost_of_ne hj).trans hu, htask⟩
  sole := h.sole
  later {j u} hu row hinserted := by
    by_cases hj : j = i
    · subst hj
      exact nomatch (moveGhost_self _ _ _).symm.trans hu
    · exact h.later ((moveGhost_of_ne hj).symm.trans hu) hinserted

theorem Chained.change (h : Chained c) (hs : Traffic.Sound (discipline ok) c) {f : Slot Row → Slot Row}
    (hf : ∀ slot ∈ c.tables.slots, StatusChanges slot (f slot)) :
    Chained { c with tables := { c.tables with slots := c.tables.slots.map f } } := by
  have hat : ∀ {k : Nat} {slot' : Slot Row}, (c.tables.slots.map f)[k]? = some slot' →
      ∀ {t : RefreshToken}, .token t ∈ slot'.versions → c.tables.slots[k]? = some slot' :=
    fun hk t ht => token_unchanged hs hf hk ht
  constructor
  · exact fun hk t ht => h.live (hat hk ht) ht
  · exact fun hk t hc => h.frozen (hat hk (Slot.committed_mem hc)) hc
  · exact fun hk t hc => h.overwritten (hat hk (Slot.committed_mem hc)) hc
  · exact fun hk t ht => h.ordered (hat hk ht) ht
  · exact fun hk t hc n hn =>
      Traffic.keys_change (lawful ok) hf (h.linked (hat hk (Slot.committed_mem hc)) hc hn)
  · intro k slot hk t j hw n hn
    obtain ⟨⟨k', slot', row, hk', hw', hc', hkey⟩, hunder⟩ :=
      h.linking (hat hk (Slot.written_mem hw)) hw hn
    have hmapped : (c.tables.slots.map f)[k']? = some (f slot') :=
      List.getElem?_map.trans (congrArg (Option.map f) hk')
    rcases hf slot' (List.mem_of_getElem? hk') with he | ⟨u, status, hc, -⟩
    · exact ⟨⟨k', slot', row, he ▸ hmapped, hw', hc', hkey⟩, hunder⟩
    · exact nomatch hc'.symm.trans hc
  · exact fun hk hk' t t' ht ht' => h.sole (hat hk ht) (hat hk' ht') ht ht'
  · exact h.later

theorem Chained.step (h : Chained c) (hs : Traffic.Sound (discipline ok) c)
    (hstep : Traffic.Step (discipline ok) c c') : Chained c' := by
  have hs' := hs.step (lawful ok) hstep
  cases hstep with
  | begins hidle _ => exact h.begin hidle
  | accesses hu hunended hallowed hp =>
    constructor
    · exact fun hk t ht => live_access h hs hu hallowed.1 hp hk ht
    · exact fun hk t hc => frozen_access h hallowed.1 hp hk hc
    · exact fun hk t hc j row hw => overwritten_access h hs hallowed.1 hp hk hc hw
    · exact fun hk t ht n hn => ordered_access h hs hu hallowed.1 hp hk ht hn
    · exact fun hk t hc n hn => linked_access h hs hp hk hc hn
    · exact fun hk t j hw n hn => linking_access h hs hu hunended hallowed hp hk hw hn
    · exact fun hk hk' t t' ht ht' n hn hn' =>
        sole_access h hs hs' hu hunended hallowed.1 hp hk hk' ht ht' hn hn'
    · exact fun hu' row hinserted k hk => later_access h hs hu hp hallowed hu' hinserted hk
  | retires hover => exact h.retire hs hover
  | changes hf => exact h.change hs hf

end Step

/-! ## Along every run -/

section Runs

variable {w : SharedWorld} {s : Interleaved} {ls : List Interleaved.Label}

theorem AtRest.committed_of_mem {v : Versions Row} (h : AtRest v) {k : Nat} {slot : Slot Row}
    (hk : v.slots[k]? = some slot) {row : Row} (hrow : row ∈ slot.versions) :
    slot.committed = some row := by
  rcases Slot.mem_versions_iff.mp hrow with hc | ⟨j, hw⟩
  · exact hc
  · exact nomatch (h.quiet slot (List.mem_of_getElem? hk)).symm.trans hw

/-- Unbroken tokens with nothing under way. -/
theorem chained_start (env : Env) (hrest : AtRest w.tables) (h : Unbroken w.tables.rows) :
    Chained (Interleaved.traffic (Pool.start w)) := by
  have hmem : ∀ {k : Nat} {slot : Slot Row}, w.tables.slots[k]? = some slot →
      ∀ {t : RefreshToken}, .token t ∈ slot.versions → .token t ∈ w.tables.rows :=
    fun hk t ht => mem_rows_iff.mpr ⟨_, _, hk, hrest.committed_of_mem hk ht⟩
  have hquiet : ∀ {k : Nat} {slot : Slot Row}, w.tables.slots[k]? = some slot →
      slot.written = none := fun hk => hrest.quiet _ (List.mem_of_getElem? hk)
  have horderly : Harmonious env (fun _ _ _ _ => True) (Pool.start w) := orderly_start hrest
  have hsound := horderly.sound
  constructor
  · exact fun hk t ht => h.live t (hmem hk ht)
  · exact fun hk t _ _ => hquiet hk
  · exact fun hk t _ j row hw => nomatch (hquiet hk).symm.trans hw
  · exact fun hk t ht n hn => (h.successor t (hmem hk ht) n hn).1
  · intro k slot hk t hc n hn
    obtain ⟨-, t', ht', hid, haccount, hfamily⟩ :=
      h.successor t (hmem hk (Slot.committed_mem hc)) n hn
    refine List.mem_map.mpr ⟨.token t', ht', ?_⟩
    rw [← haccount, ← hfamily, ← hid]
    rfl
  · exact fun hk t j hw => nomatch (hquiet hk).symm.trans hw
  · intro k k' slot slot' hk hk' t t' ht ht' n hn hn'
    obtain rfl := h.sole t t' n (hmem hk ht) (hmem hk' ht') hn hn'
    exact hsound.distinct hk hk' ht ht' rfl
  · exact fun hu => nomatch hu

theorem Chained.unbroken {c : Traffic Row (Call × Nat)} (h : Chained c) :
    Unbroken c.tables.rows := by
  constructor
  · intro t ht hlive
    obtain ⟨k, slot, hk, hc⟩ := mem_rows_iff.mp ht
    exact h.live hk (Slot.committed_mem hc) hlive
  · intro t ht n hn
    obtain ⟨k, slot, hk, hc⟩ := mem_rows_iff.mp ht
    refine ⟨h.ordered hk (Slot.committed_mem hc) hn, ?_⟩
    obtain ⟨row, hrow, hkey⟩ := List.mem_map.mp (h.linked hk hc hn)
    cases row with
    | token t' =>
      obtain ⟨hid, haccount, hfamily⟩ : t'.id = n ∧ t'.authUserId = t.authUserId ∧
          t'.familyId = t.familyId := by simpa [Row.key] using hkey
      exact ⟨t', hrow, hid, haccount, hfamily⟩
    | _ => cases hkey
  · intro t t' n ht ht' hn hn'
    obtain ⟨k, slot, hk, hc⟩ := mem_rows_iff.mp ht
    obtain ⟨k', slot', hk', hc'⟩ := mem_rows_iff.mp ht'
    obtain rfl := h.sole hk hk' (Slot.committed_mem hc) (Slot.committed_mem hc') hn hn'
    obtain rfl := Option.some.inj (hk.symm.trans hk')
    have he := Option.some.inj (hc.symm.trans hc')
    cases he
    rfl

variable {env : Env}

/-- Unbroken chains, whatever the requests do side by side. -/
theorem chained_always (hrest : AtRest w.tables) (h : Unbroken w.tables.rows)
    (hrun : runs (Interleaved.step env) (Pool.start w) ls = some s) :
    Harmonious env (fun _ _ _ _ => True) s ∧ Chained s.traffic :=
  every_kept (fun _ _ hs hc hstep => hc.step hs hstep)
    ⟨orderly_start hrest, chained_start env hrest h⟩ hrun

/-- However the transactions of the requests interleave, a live token has no successor, and one that
was exchanged names a younger token of its account and session that no other token names. -/
theorem unbroken_always (hrest : AtRest w.tables) (h : Unbroken w.tables.rows)
    (hrun : runs (Interleaved.step env) (Pool.start w) ls = some s) :
    Unbroken s.world.tables.rows :=
  (chained_always hrest h hrun).2.unbroken

theorem adasDevices_atRest : AtRest adasDevices.tables where
  quiet := by decide
  distinct := by decide
  numbered := by decide

theorem adasDevices_unbroken : Unbroken adasDevices.tables.rows where
  live t ht _ := by
    have hmem : t = deviceToken 1 "phone" ∨ t = deviceToken 2 "laptop" := by
      simpa [adasDevices, Versions.rows] using ht
    rcases hmem with rfl | rfl <;> rfl
  successor t ht n hn := by
    have hmem : t = deviceToken 1 "phone" ∨ t = deviceToken 2 "laptop" := by
      simpa [adasDevices, Versions.rows] using ht
    rcases hmem with rfl | rfl <;> cases hn
  sole t t' n ht _ hn _ := by
    have hmem : t = deviceToken 1 "phone" ∨ t = deviceToken 2 "laptop" := by
      simpa [adasDevices, Versions.rows] using ht
    rcases hmem with rfl | rfl <;> cases hn

/-- A token exchanged while all sessions are being ended. -/
theorem unbroken_always_exchanged : ∃ s,
    runs (Interleaved.step sampleEnv) (Pool.start adasDevices) signedOut = some s ∧
      Replaced s.world.tables.rows 2 3 ∧ Unbroken s.world.tables.rows := by
  have hsome : ((runs (Interleaved.step sampleEnv) (Pool.start adasDevices) signedOut).any fun s =>
      s.world.tables.rows.any (Row.isToken fun t => t.id = 2 && t.replacedById = some 3)) = true := by
    decide +kernel
  obtain ⟨s, hs, hreplaced⟩ := (Option.any_eq_true _ _).mp hsome
  refine ⟨s, hs, ?_, unbroken_always adasDevices_atRest adasDevices_unbroken hs⟩
  obtain ⟨row, hrow, hp⟩ := List.any_eq_true.mp hreplaced
  cases row with
  | token t =>
    obtain ⟨hid, hn⟩ : t.id = 2 ∧ t.replacedById = some 3 := by simpa [Row.isToken] using hp
    exact ⟨t, hrow, hid, hn⟩
  | _ => cases hp

/-- A revoked token stays in its place, as it is. -/
def Buried (k : Nat) (t : RefreshToken) (c : Traffic Row (Call × Nat)) : Prop :=
  Chained c ∧ ∃ slot, c.tables.slots[k]? = some slot ∧ slot.committed = some (.token t)

theorem buried_step {c c' : Traffic Row (Call × Nat)} {k : Nat} {t : RefreshToken}
    (hdead : isLive t = false) (hs : Traffic.Sound (discipline fun _ _ _ _ => True) c)
    (h : Buried k t c) (hstep : Traffic.Step (discipline fun _ _ _ _ => True) c c') :
    Buried k t c' := by
  obtain ⟨hchained, slot, hk, hc⟩ := h
  refine ⟨hchained.step hs hstep, ?_⟩
  cases hstep with
  | begins _ _ => exact ⟨slot, hk, hc⟩
  | accesses _ _ _ hp =>
    obtain ⟨slot', hk', hc' | ⟨-, row, hw, -⟩⟩ := hp.commits_over hk hc
    · exact ⟨slot', hk', hc'⟩
    · exact nomatch (hchained.frozen hk hc hdead).symm.trans hw
  | retires _ => exact ⟨slot, hk, hc⟩
  | @changes f hf =>
    have hmapped : (c.tables.slots.map f)[k]? = some (f slot) :=
      List.getElem?_map.trans (congrArg (Option.map f) hk)
    refine ⟨f slot, hmapped, ?_⟩
    rcases hf slot (List.mem_of_getElem? hk) with he | ⟨u, status, hu, -⟩
    · rw [he]
      exact hc
    · cases hc.symm.trans hu

/-- However the transactions of the requests interleave, a token that was revoked is never touched
again. -/
theorem revoked_always {ls' : List Interleaved.Label} {s' : Interleaved} (hrest : AtRest w.tables)
    (h : Unbroken w.tables.rows) (hrun : runs (Interleaved.step env) (Pool.start w) ls = some s)
    (hrun' : runs (Interleaved.step env) s ls' = some s') {t : RefreshToken}
    (ht : .token t ∈ s.world.tables.rows) (hdead : isLive t = false) :
    .token t ∈ s'.world.tables.rows := by
  obtain ⟨horderly, hchained⟩ := chained_always hrest h hrun
  obtain ⟨k, slot, hk, hc⟩ := mem_rows_iff.mp ht
  have hburied : Buried k t s.traffic := ⟨hchained, slot, hk, hc⟩
  obtain ⟨-, -, slot', hk', hc'⟩ :=
    every_kept (fun _ _ hs hb hstep => buried_step hdead hs hb hstep) ⟨horderly, hburied⟩ hrun'
  exact mem_rows_iff.mpr ⟨k, slot', hk', hc'⟩

/-- The token of the laptop, once it was exchanged. -/
theorem revoked_always_exchanged : ∃ s,
    runs (Interleaved.step sampleEnv) (Pool.start adasDevices) signedOut = some s ∧
      .token { revoke 0 .ROTATED (deviceToken 2 "laptop") with replacedById := some 3 } ∈
        s.world.tables.rows := by
  have hsome : ((runs (Interleaved.step sampleEnv) (Pool.start adasDevices) exchangedAhead).any
      fun s => (runs (Interleaved.step sampleEnv) s ([aiming 1 [1, 3]] ++ piecewise 1 3)).isSome &&
        decide (.token { revoke 0 .ROTATED (deviceToken 2 "laptop") with replacedById := some 3 } ∈
          s.world.tables.rows)) = true := by
    decide +kernel
  obtain ⟨s, hs, hrest⟩ := (Option.any_eq_true _ _).mp hsome
  obtain ⟨hrun', hmem⟩ := (Bool.and_eq_true _ _).mp hrest
  obtain ⟨s', hs'⟩ := Option.isSome_iff_exists.mp hrun'
  refine ⟨s', ?_, revoked_always adasDevices_atRest adasDevices_unbroken hs hs'
    (of_decide_eq_true hmem) rfl⟩
  unfold signedOut
  rw [List.append_assoc, Foundations.runs_append, hs]
  exact hs'

end Runs

end PracticalMicroservice.Auth
