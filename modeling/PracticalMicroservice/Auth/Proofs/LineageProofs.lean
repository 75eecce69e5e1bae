import PracticalMicroservice.Auth.Proofs.ChainProofs
import PracticalMicroservice.Auth.Proofs.DisciplineProofs

/-!
# A session is one chain of tokens

A token that no rotation has made is the first of its session, and a session is opened once, by the
request that drew its id. So all other tokens of a session descend from one, and at most one of them
is live.
-/

namespace PracticalMicroservice.Auth

open Foundations (Access Accesses Called Event History Pool Slot Traffic Undertaking Unended Versions
  moveGhost moveGhost_of_ne moveGhost_self pastOf pool_step_cases runs)
open PrismaAuthRepository

/-! ## The rotations under way -/

/-- What a rotation under way has done so far: it has inserted one token, and what it has revoked
stays revoked. -/
structure Rotating (c : Traffic Row (Call × Nat)) : Prop where
  single : ∀ {i : Nat} {u : Transacting}, c.under i = some u → ∀ {id next},
    u.task.1 = .rotateRefreshToken id next → ∀ {k k' : Nat} {slot slot' : Slot Row} {row row' : Row},
      c.tables.slots[k]? = some slot → c.tables.slots[k']? = some slot' →
        slot.written = some (i, row) → slot'.written = some (i, row') → slot.committed = none →
          slot'.committed = none → k = k'
  final : ∀ {i : Nat} {u : Transacting}, c.under i = some u → Unended u.made →
    ∀ {index : Nat} {whose : Row → Bool} {change : Row → Row} {t : RefreshToken},
      (⟨.visit index whose change, some (.token t)⟩ : (a : Access Row) × a.Reply) ∈ u.made →
        isLive t = false → ∃ slot, c.tables.slots[index]? = some slot ∧
          slot.written = some (i, .token t)

section Rotating

variable {ok : Traffic Row (Call × Nat) → Nat → Transacting → Access Row → Prop}
  {c c' : Traffic Row (Call × Nat)} {i j k k' : Nat} {u u' : Transacting} {a : Access Row}
  {reply : a.Reply} {tables : Versions Row} {slot slot' : Slot Row}

/-- A version of a row that has none committed was there before the access, or it is inserted. -/
theorem new_access (hp : c.tables.Performed i a reply tables) (hk : tables.slots[k]? = some slot)
    {row : Row} (hw : slot.written = some (j, row)) (hc : slot.committed = none) :
    (∃ slot₀ row₀, c.tables.slots[k]? = some slot₀ ∧ slot₀.written = some (j, row₀) ∧
        slot₀.committed = none) ∨
      j = i ∧ k = c.tables.slots.length ∧ ∃ f, a = .insert f ∧ row = f c.tables.nextKey := by
  rcases hp.came hk with ⟨slot₀, hslot₀, hbecame⟩ | ⟨hlength, -, f, ha, rfl⟩
  · rcases hbecame.written_cases hw with ⟨hw₀, he, -⟩ |
      ⟨whose, change, old, -, rfl, -, -, hseen, -, he⟩
    · exact .inl ⟨slot₀, row, hslot₀, hw₀, he.symm.trans hc⟩
    · have hnone : slot₀.committed = none := he.symm.trans hc
      by_cases hown : ∃ row₀, slot₀.written = some (j, row₀)
      · obtain ⟨row₀, hw₀⟩ := hown
        exact .inl ⟨slot₀, row₀, hslot₀, hw₀, hnone⟩
      · have hsees := Slot.seenBy_of_not_written fun row₀ hw₀ => hown ⟨row₀, hw₀⟩
        exact nomatch (hnone.symm.trans hsees.symm).trans hseen
  · obtain ⟨rfl, rfl⟩ : i = j ∧ f c.tables.nextKey = row := by simpa using hw
    exact .inr ⟨rfl, hlength, f, ha, rfl⟩

/-- What a visit finds it has written. -/
theorem wrote_visit {whose : Row → Bool} {change : Row → Row} {row : Row}
    (hp : c.tables.Performed i (.visit k whose change) (some row) tables) :
    ∃ slot, tables.slots[k]? = some slot ∧ slot.written = some (i, row) := by
  cases hp with
  | @wrote _ _ _ slot old hslot _ _ _ =>
    refine ⟨{ slot with written := some (i, change old) }, ?_, rfl⟩
    rw [Foundations.getElem?_write, if_pos rfl, hslot]
    rfl

theorem statusChanges_written (h : StatusChanges slot slot') : slot'.written = slot.written :=
  ((lawful fun _ _ _ _ => True).changes h).1

/-- A transaction that has accessed nothing holds no row. -/
theorem holds_none (hs : Traffic.Sound (discipline ok) c) (hu : c.under i = some u)
    (hmade : u.made = []) (hk : c.tables.slots[k]? = some slot) (row : Row) :
    slot.written ≠ some (i, row) := by
  intro hw
  obtain ⟨u₀, hu₀, -, m, hm, -⟩ := hs.held hk hw
  obtain rfl := Option.some.inj (hu.symm.trans hu₀)
  rw [hmade] at hm
  cases hm

theorem single_insert_access (h : Rotating c) (hs : Traffic.Sound (discipline ok) c)
    (hu : c.under i = some u) (hfits : Fits u.task u.made a)
    (hp : c.tables.Performed i a reply tables)
    (hu' : moveGhost c.under i (some (Traffic.push u a reply)) j = some u') {id : Nat}
    {next : NewRefreshTokenRecord} (htask : u'.task.1 = .rotateRefreshToken id next)
    {row row' : Row} (hk : tables.slots[k]? = some slot) (hk' : tables.slots[k']? = some slot')
    (hw : slot.written = some (j, row)) (hw' : slot'.written = some (j, row'))
    (hc : slot.committed = none) (hc' : slot'.committed = none) : k = k' := by
  have hbefore : ∃ u₀, c.under j = some u₀ ∧ u₀.task = u'.task := by
    by_cases hj : j = i
    · subst hj
      rw [moveGhost_self] at hu'
      obtain rfl := Option.some.inj hu'
      exact ⟨u, hu, rfl⟩
    · exact ⟨u', (moveGhost_of_ne hj).symm.trans hu', rfl⟩
  obtain ⟨u₀, hu₀, hsame⟩ := hbefore
  have htask₀ : u₀.task.1 = .rotateRefreshToken id next := (congrArg Prod.fst hsame).trans htask
  -- a rotation inserts before it has written anything
  have hfirst : ∀ f, a = .insert f → j = i → u.made = [] := by
    rintro f rfl rfl
    obtain rfl := Option.some.inj (hu.symm.trans hu₀)
    have hinserts : Inserts u.made u.task.2 f u.task.1 := hfits
    rw [htask₀] at hinserts
    exact hinserts.1
  rcases new_access hp hk hw hc with ⟨s₀, r₀, hs₀, hw₀, hc₀⟩ | ⟨hj, hlength, f, ha, -⟩
  · rcases new_access hp hk' hw' hc' with ⟨s₁, r₁, hs₁, hw₁, hc₁⟩ | ⟨hj, -, f, ha, -⟩
    · exact h.single hu₀ htask₀ hs₀ hs₁ hw₀ hw₁ hc₀ hc₁
    · exact absurd (hj ▸ hw₀) (holds_none hs hu (hfirst f ha hj) hs₀ r₀)
  · rcases new_access hp hk' hw' hc' with ⟨s₁, r₁, hs₁, hw₁, -⟩ | ⟨-, hlength', -⟩
    · exact absurd (hj ▸ hw₁) (holds_none hs hu (hfirst f ha hj) hs₁ r₁)
    · exact hlength.trans hlength'.symm

theorem final_access (h : Rotating c) (hu : c.under i = some u)
    (hallowed : (discipline ok).allows c i u a) (hp : c.tables.Performed i a reply tables)
    (hu' : moveGhost c.under i (some (Traffic.push u a reply)) j = some u') (hopen : Unended u'.made)
    {index : Nat} {whose : Row → Bool} {change : Row → Row} {t : RefreshToken}
    (hm : (⟨.visit index whose change, some (.token t)⟩ : (a : Access Row) × a.Reply) ∈ u'.made)
    (hdead : isLive t = false) :
    ∃ slot, tables.slots[index]? = some slot ∧ slot.written = some (j, .token t) := by
  have hstays : ∀ {slot : Slot Row}, c.tables.slots[index]? = some slot →
      slot.written = some (j, .token t) → (a.ends = true → j ≠ i) →
      ∃ slot, tables.slots[index]? = some slot ∧ slot.written = some (j, .token t) := by
    intro slot hk hw hends
    obtain ⟨slot', hk', hbecame⟩ := hp.goes hk
    rcases hbecame.still_written hw hends with hw' | ⟨whose', change', rfl, rfl, hmeant, rfl⟩
    · exact ⟨slot', hk', hw'⟩
    · have hlive := (Changes.of_token (hallowed.1.1 _ hmeant)).1
      exact Bool.noConfusion (hdead.symm.trans hlive)
  by_cases hj : j = i
  · subst hj
    rw [moveGhost_self] at hu'
    obtain rfl := Option.some.inj hu'
    obtain ⟨ha, hopen₀⟩ := Traffic.push_unended hopen
    rcases List.mem_cons.mp hm with he | hm
    · obtain ⟨rfl, hreply⟩ := Sigma.mk.inj he
      cases hreply
      exact wrote_visit hp
    · obtain ⟨slot, hk, hw⟩ := h.final hu hopen₀ hm hdead
      exact hstays hk hw fun he => Bool.noConfusion (ha.symm.trans he)
  · rw [moveGhost_of_ne hj] at hu'
    obtain ⟨slot, hk, hw⟩ := h.final hu' hopen hm hdead
    exact hstays hk hw fun _ => hj

theorem Rotating.begin (h : Rotating c) (hs : Traffic.Sound (discipline ok) c) {task : Call × Nat}
    (hidle : c.under i = none) :
    Rotating { c with under := moveGhost c.under i (some ⟨task, c.tables, []⟩) } where
  single {j u} hu id next htask k k' slot slot' row row' hk hk' hw hw' hc hc' := by
    obtain ⟨u₀, hu₀, -⟩ := hs.held hk hw
    have hj : j ≠ i := fun he => nomatch (he ▸ hidle).symm.trans hu₀
    exact h.single ((moveGhost_of_ne hj).symm.trans hu) htask hk hk' hw hw' hc hc'
  final {j u} hu hopen index whose change t hm hdead := by
    by_cases hj : j = i
    · subst hj
      obtain rfl := Option.some.inj ((moveGhost_self _ _ _).symm.trans hu)
      cases hm
    · exact h.final ((moveGhost_of_ne hj).symm.trans hu) hopen hm hdead

theorem Rotating.retire (h : Rotating c) :
    Rotating { c with under := moveGhost c.under i none } := by
  have hunder : ∀ {j : Nat} {u : Transacting}, moveGhost c.under i none j = some u →
      c.under j = some u := by
    intro j u hu
    by_cases hj : j = i
    · rw [hj, moveGhost_self] at hu
      cases hu
    · rwa [moveGhost_of_ne hj] at hu
  exact ⟨fun hu => h.single (hunder hu), fun hu => h.final (hunder hu)⟩

theorem Rotating.change (h : Rotating c) {f : Slot Row → Slot Row}
    (hf : ∀ slot ∈ c.tables.slots, StatusChanges slot (f slot)) :
    Rotating { c with tables := { c.tables with slots := c.tables.slots.map f } } := by
  have hat : ∀ {k : Nat} {slot' : Slot Row}, (c.tables.slots.map f)[k]? = some slot' →
      slot'.committed = none → c.tables.slots[k]? = some slot' := by
    intro k slot' hk hc
    rw [List.getElem?_map] at hk
    obtain ⟨slot, hslot, rfl⟩ := Option.map_eq_some_iff.mp hk
    rcases hf slot (List.mem_of_getElem? hslot) with he | ⟨u, status, -, he⟩
    · rw [he]
      exact hslot
    · rw [he] at hc
      cases hc
  constructor
  · intro i u hu id next htask k k' slot slot' row row' hk hk' hw hw' hc hc'
    exact h.single hu htask (hat hk hc) (hat hk' hc') hw hw' hc hc'
  · intro i u hu hopen index whose change t hm hdead
    obtain ⟨slot, hk, hw⟩ := h.final hu hopen hm hdead
    have hmapped : (c.tables.slots.map f)[index]? = some (f slot) :=
      List.getElem?_map.trans (congrArg (Option.map f) hk)
    exact ⟨f slot, hmapped, (statusChanges_written (hf slot (List.mem_of_getElem? hk))).trans hw⟩

theorem Rotating.step (h : Rotating c) (hs : Traffic.Sound (discipline ok) c)
    (hstep : Traffic.Step (discipline ok) c c') : Rotating c' := by
  cases hstep with
  | begins hidle _ => exact h.begin hs hidle
  | accesses hu hunended hallowed hp =>
    constructor
    · exact fun hu' _ _ htask _ _ _ _ _ _ hk hk' hw hw' hc hc' =>
        single_insert_access h hs hu hallowed.1 hp hu' htask hk hk' hw hw' hc hc'
    · exact fun hu' hopen _ _ _ _ hm hdead => final_access h hu hallowed hp hu' hopen hm hdead
  | retires _ => exact h.retire
  | changes hf => exact h.change hf

end Rotating

/-! ## The first token of a session -/

/-- A version of a token that no rotation has made. -/
def Unnamed (c : Traffic Row (Call × Nat)) (k : Nat) (t : RefreshToken) : Prop :=
  ∃ slot, c.tables.slots[k]? = some slot ∧ .token t ∈ slot.versions ∧
    (∀ id, ¬ Replaced c.tables.rows id t.id) ∧
    ∀ i row u, slot.committed = none → slot.written = some (i, row) → c.under i = some u →
      ∀ id next, u.task.1 ≠ .rotateRefreshToken id next

/-- The first token of a session is in this place. -/
def First (c : Traffic Row (Call × Nat)) (k : Nat) (familyId : String) : Prop :=
  ∃ t, Unnamed c k t ∧ t.familyId = familyId

/-- A call opens a session, and has done nothing about it yet. -/
def Opening (c : Traffic Row (Call × Nat)) (i : Nat) (familyId : String) : Prop :=
  ∃ u input, c.under i = some u ∧ u.made = [] ∧ u.task.1 = .createRefreshToken input ∧
    input.familyId = familyId

section First

variable {ok : Traffic Row (Call × Nat) → Nat → Transacting → Access Row → Prop}
  {c c' : Traffic Row (Call × Nat)} {i k : Nat} {u : Transacting} {a : Access Row}
  {reply : a.Reply} {tables : Versions Row} {slot slot' : Slot Row} {t : RefreshToken}
  {id id' : Nat} {familyId : String}

theorem replaced_iff {c : Traffic Row (Call × Nat)} :
    Replaced c.tables.rows id id' ↔ ∃ (k : Nat) (slot : Slot Row) (t : RefreshToken),
      c.tables.slots[k]? = some slot ∧ slot.committed = some (.token t) ∧ t.id = id ∧
        t.replacedById = some id' := by
  constructor
  · rintro ⟨t, ht, hid, hn⟩
    obtain ⟨k, slot, hk, hc⟩ := mem_rows_iff.mp ht
    exact ⟨k, slot, t, hk, hc, hid, hn⟩
  · rintro ⟨k, slot, t, hk, hc, hid, hn⟩
    exact ⟨t, mem_rows_iff.mpr ⟨k, slot, hk, hc⟩, hid, hn⟩

/-- A token is inserted as a session is opened, or in an exchange. -/
theorem Inserts.opens {call : Call} {now key : Nat} {made : Accesses Row} {row : Nat → Row}
    (h : Inserts made now row call) (ht : row key = .token t) :
    made = [] ∧ ((∃ input, call = .createRefreshToken input ∧ input.familyId = t.familyId) ∨
      ∃ current next, call = .rotateRefreshToken current next) := by
  cases call with
  | createAuthUserWithVerification user verification =>
    rcases h with ⟨-, hrow⟩ | ⟨u, -, -, hrow⟩
    · obtain ⟨u, he, -⟩ := hrow key
      cases he.symm.trans ht
    · cases (hrow key).symm.trans ht
  | recordLoginAttempt input =>
    obtain ⟨history, he, -⟩ := h key
    cases he.symm.trans ht
  | replaceVerification authUserId input => cases (h.1 key).symm.trans ht
  | createRefreshToken input =>
    cases (h.2 key).symm.trans ht
    exact ⟨h.1, .inl ⟨input, rfl, rfl⟩⟩
  | rotateRefreshToken currentId next => exact ⟨h.1, .inr ⟨currentId, next, rfl⟩⟩
  | _ => exact h.elim

/-- An exchange is for good. -/
theorem replaced_access (h : Chained c) (hp : c.tables.Performed i a reply tables)
    (hr : Replaced c.tables.rows id id') : Replaced tables.rows id id' := by
  obtain ⟨t, ht, hid, hn⟩ := hr
  obtain ⟨k, slot, hk, hc⟩ := mem_rows_iff.mp ht
  have hdead : isLive t = false := by
    rw [← Bool.not_eq_true]
    exact fun hlive => nomatch (h.live hk (Slot.committed_mem hc) hlive).symm.trans hn
  obtain ⟨slot', hk', hc' | ⟨-, row, hw, -⟩⟩ := hp.commits_over hk hc
  · exact ⟨t, mem_rows_iff.mpr ⟨k, slot', hk', hc'⟩, hid, hn⟩
  · exact nomatch (h.frozen hk hc hdead).symm.trans hw

/-- A rotation that commits leaves the token it has inserted with the one before it. -/
theorem replaced_commit (h : Rotating c) (hs : Traffic.Sound (discipline ok) c)
    (hu : c.under i = some u) (hunended : Unended u.made)
    (hcompletes : Completes u.made u.task.1) {current : Nat} {next : NewRefreshTokenRecord}
    (htask : u.task.1 = .rotateRefreshToken current next) (hp : c.tables.Performed i .commit () tables)
    (hk : c.tables.slots[k]? = some slot) {row : Row} (hw : slot.written = some (i, row))
    (hc : slot.committed = none) : ∃ id, Replaced tables.rows id row.id := by
  rw [htask] at hcompletes
  obtain ⟨t, created, ⟨index, whose, change, hleft⟩, ⟨f, hinserted⟩, -, hdead, hnamed⟩ := hcompletes
  obtain ⟨slot₁, hk₁, hw₁⟩ := h.final hu hunended hleft hdead
  obtain ⟨k₂, slot₂, r₂, hk₂, hw₂, hc₂, hkey⟩ := hs.inserted hu hunended hinserted
  obtain rfl := h.single hu htask hk hk₂ hw hw₂ hc hc₂
  obtain rfl := Option.some.inj (hk.symm.trans hk₂)
  obtain rfl := congrArg Prod.snd (Option.some.inj (hw.symm.trans hw₂))
  have hid : row.id = created.id := by
    rw [← Row.id_key]
    exact congrArg RowKey.id hkey
  obtain ⟨slot', hk', hbecame⟩ := hp.goes hk₁
  cases hbecame with
  | kept ha => cases ha
  | committed =>
    have hcommitted : (slot₁.commit i).committed = some (.token t) := by
      rw [Slot.commit_committed]
      exact Slot.seenBy_of_written hw₁
    exact ⟨t.id, t, mem_rows_iff.mpr ⟨index, _, hk', hcommitted⟩, rfl, hid ▸ hnamed⟩

/-- The first token of a session was there before an access, or has just been inserted. -/
theorem first_access (hchained : Chained c) (h : Rotating c) (hs : Traffic.Sound (discipline ok) c)
    (hu : c.under i = some u) (hunended : Unended u.made)
    (hallowed : (discipline ok).allows c i u a) (hp : c.tables.Performed i a reply tables)
    {done : List Transacting}
    (hf : First { tables, under := moveGhost c.under i (some (Traffic.push u a reply)), done } k
      familyId) :
    First c k familyId ∨ k = c.tables.slots.length ∧ Opening c i familyId := by
  obtain ⟨t, ⟨slot', hk', hmem, hunnamed, hfree⟩, rfl⟩ := hf
  rcases hp.came hk' with ⟨slot, hk, hbecame⟩ | ⟨hlength, -, f, rfl, rfl⟩
  · obtain ⟨r, hr, hkey⟩ : ∃ r ∈ slot.versions, r.key = (Row.token t).key := by
      refine hbecame.versions (fun whose change ha old hold => ?_) hmem
      subst ha
      exact (lawful ok).visits hallowed old hold
    obtain ⟨t₀, rfl⟩ : ∃ t₀, r = .token t₀ := by
      cases r with
      | token t₀ => exact ⟨t₀, rfl⟩
      | _ => cases hkey
    obtain ⟨hid, -, hfamily⟩ := token_of_key hkey
    refine .inl ⟨t₀, ⟨slot, hk, hr, fun id hnamed => ?_, ?_⟩, hfamily⟩
    · exact hunnamed id (hid ▸ replaced_access hchained hp hnamed)
    · intro j row u' hc hw hu' current next htask
      by_cases hends : a.ends = true → j ≠ i
      · obtain ⟨slot₁, row', hk₁, hw₁, hc₁, -⟩ :=
          Traffic.still_written_access (lawful ok) hallowed hp hk hw hends
        obtain rfl := Option.some.inj (hk'.symm.trans hk₁)
        by_cases hj : j = i
        · subst hj
          obtain rfl := Option.some.inj (hu.symm.trans hu')
          exact hfree j row' _ (hc₁.trans hc) hw₁ (moveGhost_self _ _ _) current next htask
        · exact hfree j row' u' (hc₁.trans hc) hw₁ ((moveGhost_of_ne hj).trans hu') current next htask
      · obtain ⟨ha, rfl⟩ : a.ends = true ∧ j = i := by simpa using hends
        obtain rfl := Option.some.inj (hu.symm.trans hu')
        cases a with
        | commit =>
          obtain ⟨id, hreplaced⟩ := replaced_commit h hs hu hunended hallowed.1.1 htask hp hk hw hc
          have hrow : row.id = t.id := by
            have he : row.key = (Row.token t).key :=
              (hs.coherent hk (Slot.written_mem hw) hr).trans hkey
            have hnumber := congrArg RowKey.id he
            rwa [Row.id_key, Row.id_key] at hnumber
          exact hunnamed id (hrow ▸ hreplaced)
        | rollback =>
          cases hbecame with
          | kept ha => cases ha
          | rolledBack =>
            have hgone : (slot.rollback j).versions = [] := by
              unfold Slot.rollback Slot.versions
              rw [hw]
              simp [hc]
            rw [hgone] at hmem
            cases hmem
        | select _ | insert _ | targets _ | visit _ _ _ => cases ha
  · have hrow : f c.tables.nextKey = .token t := by
      have he : Row.token t = f c.tables.nextKey := by simpa [Slot.versions] using hmem
      exact he.symm
    obtain ⟨hmade, ⟨input, htask, hfamily⟩ | ⟨current, next, htask⟩⟩ := Inserts.opens hallowed.1 hrow
    · exact .inr ⟨hlength, u, input, hu, hmade, htask, hfamily⟩
    · exact absurd htask (hfree i _ _ rfl rfl (moveGhost_self _ _ _) current next)

theorem first_change (hs : Traffic.Sound (discipline ok) c) {f : Slot Row → Slot Row}
    (hf : ∀ slot ∈ c.tables.slots, StatusChanges slot (f slot))
    (h : First { c with tables := { c.tables with slots := c.tables.slots.map f } } k familyId) :
    First c k familyId := by
  obtain ⟨t, ⟨slot', hk', hmem, hunnamed, hfree⟩, hfamily⟩ := h
  refine ⟨t, ⟨slot', token_unchanged hs hf hk' hmem, hmem, fun id hnamed => ?_, hfree⟩, hfamily⟩
  obtain ⟨k₁, slot₁, t₁, hk₁, hc₁, hid, hn⟩ := replaced_iff.mp hnamed
  have hmapped : (c.tables.slots.map f)[k₁]? = some (f slot₁) :=
    List.getElem?_map.trans (congrArg (Option.map f) hk₁)
  rcases hf slot₁ (List.mem_of_getElem? hk₁) with he | ⟨u, status, hu, -⟩
  · exact hunnamed id ⟨t₁, mem_rows_iff.mpr ⟨k₁, _, hmapped, he.symm ▸ hc₁⟩, hid, hn⟩
  · cases hc₁.symm.trans hu

/-- A session that is new has just been opened, by a call that is no longer opening it. -/
theorem first_step (hchained : Chained c) (h : Rotating c) (hs : Traffic.Sound (discipline ok) c)
    (hstep : Traffic.Step (discipline ok) c c') (hf : First c' k familyId) :
    First c k familyId ∨ k = c.tables.slots.length ∧ ∃ i, Opening c i familyId ∧
      ∃ u, c'.under i = some u ∧ u.made ≠ [] := by
  cases hstep with
  | @begins i task hidle _ =>
    obtain ⟨t, ⟨slot, hk, hmem, hunnamed, hfree⟩, hfamily⟩ := hf
    refine .inl ⟨t, ⟨slot, hk, hmem, hunnamed, fun j row u hc hw hu => ?_⟩, hfamily⟩
    have hj : j ≠ i := fun he => nomatch (he ▸ hidle).symm.trans hu
    exact hfree j row u hc hw ((moveGhost_of_ne hj).trans hu)
  | accesses hu hunended hallowed hp =>
    rcases first_access hchained h hs hu hunended hallowed hp hf with hf | ⟨hlength, hopening⟩
    · exact .inl hf
    · exact .inr ⟨hlength, _, hopening, _, moveGhost_self _ _ _, List.cons_ne_nil _ _⟩
  | @retires i hover =>
    obtain ⟨t, ⟨slot, hk, hmem, hunnamed, hfree⟩, hfamily⟩ := hf
    refine .inl ⟨t, ⟨slot, hk, hmem, hunnamed, fun j row u hc hw hu => ?_⟩, hfamily⟩
    obtain ⟨u₀, hu₀, hopen, -⟩ := hs.held hk hw
    have hj : j ≠ i := fun he => hover u₀ (he ▸ hu₀) hopen
    exact hfree j row u hc hw ((moveGhost_of_ne hj).trans hu)
  | changes hf' => exact .inl (first_change hs hf' hf)

end First

/-! ## Who may still open a session -/

/-- A request holds the id of a session that it has not opened yet. -/
def Awaits (past : Pieces) (familyId : String) : Prop :=
  openCall past = none ∧ held (toldBy past) = some familyId ∨
    ∃ input now, openCall past = some ((.createRefreshToken input, now), []) ∧
      input.familyId = familyId

section Awaits

variable {env : Env} {s s' : Interleaved} {l : Interleaved.Label} {i j : Nat} {fate : PieceFate}
  {task : Task} {piece : Piece} {next : piece.Reply → PieceCode} {reply : piece.Reply}
  {familyId : String}

theorem awaits_of_opening (h : Opening s.traffic i familyId) : Awaits (pastOf i s.trace) familyId := by
  obtain ⟨u, input, hu, hmade, htask, hfamily⟩ := h
  refine .inr ⟨input, u.task.2, ?_, hfamily⟩
  rw [openCall_of_underway hu, hmade, ← htask]

theorem not_awaits_of_made {u : Transacting} (hu : s.traffic.under i = some u) (hmade : u.made ≠ []) :
    ¬ Awaits (pastOf i s.trace) familyId := by
  have hopen := openCall_of_underway hu
  rintro (⟨hnone, -⟩ | ⟨input, now, hcall, -⟩)
  · exact nomatch hnone.symm.trans hopen
  · exact hmade (congrArg Prod.snd (Option.some.inj (hopen.symm.trans hcall)))

/-- The id of a session that a request holds has just been drawn, or was held before. -/
theorem awaits_call (hf : Followed env s)
    (hc : Called (interleaving env) s s' i fate task piece next reply)
    (h : Awaits (pastOf j s'.trace) familyId) :
    Awaits (pastOf j s.trace) familyId ∨ j = i ∧
      (⟨piece, reply⟩ : (p : Piece) × p.Reply) = ⟨.other .randomUUID, familyId⟩ := by
  by_cases hj : j = i
  · subst hj
    rw [hc.pastOf_self] at h
    have hallowed := hf.allowed hc.thread
    cases piece with
    | called call =>
      obtain ⟨hidle, hjustified⟩ := hallowed
      cases reply with
      | error e =>
        rcases h with ⟨hnone, hheld⟩ | ⟨input, now, hcall, -⟩
        · exact .inl (.inl ⟨hnone, hheld⟩)
        · exact nomatch hidle.symm.trans hcall
      | ok now =>
        rcases h with ⟨hnone, -⟩ | ⟨input, now', hcall, rfl⟩
        · cases hnone
        · cases hcall
          obtain ⟨-, token, drawn, rest, hpast, hdrawn, -⟩ := hjustified
          refine .inl (.inl ⟨hidle, ?_⟩)
          rw [hpast, hdrawn]
          rfl
    | access a =>
      obtain ⟨u, hu, -⟩ := hallowed
      have hopen : openCall (⟨.access a, reply⟩ :: pastOf j s.trace) =
          some (u.1, ⟨a, reply⟩ :: u.2) := by
        show (openCall (pastOf j s.trace)).map _ = _
        rw [hu]
        rfl
      rcases h with ⟨hnone, -⟩ | ⟨input, now, hcall, -⟩
      · exact nomatch hnone.symm.trans hopen
      · exact nomatch congrArg Prod.snd (Option.some.inj (hcall.symm.trans hopen))
    | replied call result =>
      rcases h with ⟨-, hheld⟩ | ⟨input, now, hcall, -⟩
      · cases hheld
      · cases hcall
    | other command =>
      rcases h with ⟨hnone, hheld⟩ | hcall
      · rcases held_cons hheld with he | ⟨-, hheld⟩
        · cases he
          exact .inr ⟨rfl, rfl⟩
        · exact .inl (.inl ⟨hnone, hheld⟩)
      · exact .inl (.inr hcall)
  · rw [hc.pastOf_of_ne hj] at h
    exact .inl h

theorem draws_perform {w w' : SharedWorld} {thread : Nat}
    (h : Piece.perform env thread fate piece w = some (reply, w')) : w.draws ≤ w'.draws := by
  cases piece with
  | called call =>
    unfold Piece.perform at h
    dsimp only at h
    split at h <;> cases h <;> exact Nat.le_refl _
  | access a =>
    obtain ⟨done, -, he⟩ := Option.map_eq_some_iff.mp h
    cases he
    exact Nat.le_refl _
  | replied call result =>
    unfold Piece.perform at h
    dsimp only at h
    split at h <;> cases h <;> exact Nat.le_refl _
  | other command =>
    obtain ⟨world, hp, rfl⟩ := other_perform h
    exact perform_draws hp

/-- The id drawn is the next of all. -/
theorem drawn_perform {w w' : SharedWorld} {thread : Nat}
    (h : Piece.perform env thread fate (.other .randomUUID) w = some (familyId, w')) :
    familyId = env.uuid w.draws ∧ w'.draws = w.draws + 1 := by
  obtain ⟨world, hp, rfl⟩ := other_perform h
  obtain ⟨hreply, rfl⟩ := Prod.mk.inj (Option.some.inj hp)
  exact ⟨hreply.symm, rfl⟩

end Awaits

/-! ## Sessions are opened once -/

/-- A session has one beginning: its first token, or the request that holds its id. -/
structure Lineal (env : Env) (s : Interleaved) : Prop where
  chained : Chained s.traffic
  rotating : Rotating s.traffic
  sole : ∀ {k k' : Nat} {familyId : String}, First s.traffic k familyId →
    First s.traffic k' familyId → k = k'
  apart : ∀ {k i : Nat} {familyId : String}, First s.traffic k familyId →
    ¬ Awaits (pastOf i s.trace) familyId
  once : ∀ {i j : Nat} {familyId : String}, Awaits (pastOf i s.trace) familyId →
    Awaits (pastOf j s.trace) familyId → i = j
  opened : ∀ {k : Nat} {familyId : String}, First s.traffic k familyId →
    ∀ n, s.world.draws ≤ n → env.uuid n ≠ familyId
  drawn : ∀ {i : Nat} {familyId : String}, Awaits (pastOf i s.trace) familyId →
    ∀ n, s.world.draws ≤ n → env.uuid n ≠ familyId

section Lineal

variable {env : Env} {s s' : Interleaved} {l : Interleaved.Label} {i : Nat} {fate : PieceFate}
  {task : Task} {piece : Piece} {next : piece.Reply → PieceCode} {reply : piece.Reply}

/-- What becomes of the transactions, of the requests that open a session, and of the draws. -/
theorem Lineal.of_kept (h : Lineal env s)
    (hs : Traffic.Sound (discipline fun _ _ _ _ => True) s.traffic)
    (ht : s'.traffic = s.traffic ∨
      Traffic.Step (discipline fun _ _ _ _ => True) s.traffic s'.traffic)
    (hawaits : ∀ {j familyId}, Awaits (pastOf j s'.trace) familyId → Awaits (pastOf j s.trace) familyId)
    (hdraws : s.world.draws ≤ s'.world.draws) : Lineal env s' := by
  have hfirst : ∀ {k familyId}, First s'.traffic k familyId → First s.traffic k familyId ∨
      k = s.traffic.tables.slots.length ∧ ∃ i, Awaits (pastOf i s.trace) familyId ∧
        ¬ Awaits (pastOf i s'.trace) familyId := by
    intro k familyId hf
    rcases ht with he | hstep
    · exact .inl (he ▸ hf)
    · rcases first_step h.chained h.rotating hs hstep hf with hf | ⟨hk, i, hopening, u, hu, hmade⟩
      · exact .inl hf
      · exact .inr ⟨hk, i, awaits_of_opening hopening, not_awaits_of_made hu hmade⟩
  constructor
  · rcases ht with he | hstep
    · exact he ▸ h.chained
    · exact h.chained.step hs hstep
  · rcases ht with he | hstep
    · exact he ▸ h.rotating
    · exact h.rotating.step hs hstep
  · intro k k' familyId hf hf'
    rcases hfirst hf with hf | ⟨hk, i, hopened, -⟩
    · rcases hfirst hf' with hf' | ⟨-, i, hopened, -⟩
      · exact h.sole hf hf'
      · exact absurd hopened (h.apart hf)
    · rcases hfirst hf' with hf' | ⟨hk', -⟩
      · exact absurd hopened (h.apart hf')
      · exact hk.trans hk'.symm
  · intro k i familyId hf hopened
    rcases hfirst hf with hf | ⟨-, j, hopening, hover⟩
    · exact h.apart hf (hawaits hopened)
    · obtain rfl := h.once hopening (hawaits hopened)
      exact hover hopened
  · exact fun hi hj => h.once (hawaits hi) (hawaits hj)
  · intro k familyId hf n hn
    rcases hfirst hf with hf | ⟨-, i, hopened, -⟩
    · exact h.opened hf n (Nat.le_trans hdraws hn)
    · exact h.drawn hopened n (Nat.le_trans hdraws hn)
  · exact fun hopened n hn => h.drawn (hawaits hopened) n (Nat.le_trans hdraws hn)

/-- A request that draws the id of a session is the only one that holds it. -/
theorem Lineal.of_drawn (henv : Function.Injective env.uuid) (h : Lineal env s)
    (hc : Called (interleaving env) s s' i fate task piece next reply) (hf : Followed env s)
    {drawn : String} (hdrawn : (⟨piece, reply⟩ : (p : Piece) × p.Reply) = ⟨.other .randomUUID, drawn⟩) :
    Lineal env s' := by
  cases hdrawn
  obtain ⟨rfl, hdraws⟩ := drawn_perform (piece_perform hc)
  have htraffic : s'.traffic = s.traffic := traffic_same hc (by simp) rfl
  have hawaits : ∀ {j familyId}, Awaits (pastOf j s'.trace) familyId →
      Awaits (pastOf j s.trace) familyId ∨ j = i ∧ familyId = env.uuid s.world.draws := by
    intro j familyId hopened
    rcases awaits_call hf hc hopened with hopened | ⟨hj, he⟩
    · exact .inl hopened
    · cases he
      exact .inr ⟨hj, rfl⟩
  constructor
  · exact htraffic ▸ h.chained
  · exact htraffic ▸ h.rotating
  · rw [htraffic]
    exact h.sole
  · intro k j familyId hfirst hopened
    rw [htraffic] at hfirst
    rcases hawaits hopened with hopened | ⟨-, rfl⟩
    · exact h.apart hfirst hopened
    · exact h.opened hfirst s.world.draws (Nat.le_refl _) rfl
  · intro j j' familyId hopened hopened'
    rcases hawaits hopened with hj | ⟨rfl, rfl⟩
    · rcases hawaits hopened' with hj' | ⟨-, rfl⟩
      · exact h.once hj hj'
      · exact absurd rfl (h.drawn hj s.world.draws (Nat.le_refl _))
    · rcases hawaits hopened' with hj' | ⟨rfl, -⟩
      · exact absurd rfl (h.drawn hj' s.world.draws (Nat.le_refl _))
      · rfl
  · intro k familyId hfirst n hn
    rw [htraffic] at hfirst
    exact h.opened hfirst n (by omega)
  · intro j familyId hopened n hn
    rcases hawaits hopened with hj | ⟨-, rfl⟩
    · exact h.drawn hj n (by omega)
    · intro he
      have := henv he
      omega

theorem Lineal.step (henv : Function.Injective env.uuid) (h : Lineal env s)
    (hh : Harmonious env (fun _ _ _ _ => True) s) (hs : Interleaved.step env s l = some s') :
    Lineal env s' := by
  have ht := @traffic_step env s s' l (fun _ _ _ _ => True) hh.followed
    hh.recalled (fun _ _ _ _ _ _ _ => trivial) hs
  rcases pool_step_cases hs with ⟨t, -, rfl⟩ | ⟨i, fate, t, piece, next, reply, -, hc⟩ |
    ⟨move, world, -, hmove, rfl⟩
  · exact h.of_kept hh.sound ht (fun hopened => hopened) (Nat.le_refl _)
  · by_cases hdrawn : ∃ drawn : String,
      (⟨piece, reply⟩ : (p : Piece) × p.Reply) = ⟨.other .randomUUID, drawn⟩
    · obtain ⟨drawn, hdrawn⟩ := hdrawn
      exact h.of_drawn henv hc hh.followed hdrawn
    · refine h.of_kept hh.sound ht (fun hopened => ?_) (draws_perform (piece_perform hc))
      rcases awaits_call hh.followed hc hopened with hopened | ⟨-, he⟩
      · exact hopened
      · exact absurd ⟨_, he⟩ hdrawn
  · refine h.of_kept hh.sound ht (fun hopened => hopened) ?_
    cases move with
    | tick ms =>
      cases hmove
      exact Nat.le_refl _
    | setStatus id status =>
      have hmoved : SharedWorld.move (.setStatus id status) s.world = some world := hmove
      unfold SharedWorld.move at hmoved
      dsimp only at hmoved
      split at hmoved
      · cases hmoved
      · cases hmoved
        exact Nat.le_refl _

end Lineal

/-! ## Along every run -/

section Runs

variable {env : Env} {w : SharedWorld} {s : Interleaved} {ls : List Interleaved.Label}

theorem rotating_start : Rotating (Interleaved.traffic (Pool.start w)) where
  single hu := nomatch hu
  final hu := nomatch hu

theorem not_awaits_start (i : Nat) (familyId : String) :
    ¬ Awaits (pastOf i (Pool.start w : Interleaved).trace) familyId := by
  rintro (⟨-, hheld⟩ | ⟨input, now, hcall, -⟩)
  · cases hheld
  · cases hcall

/-- What nothing has been exchanged for is no one's descendant. -/
theorem descends_unnamed {rows : List Row} {id id' : Nat} (h : Descends rows id id')
    (hunnamed : ∀ n, ¬ Replaced rows n id') : id = id' := by
  rcases Relation.ReflTransGen.cases_tail h with he | ⟨n, -, hn⟩
  · exact he.symm
  · exact absurd hn (hunnamed n)

theorem lineal_start (hrest : AtRest w.tables) (h : Unbroken w.tables.rows) (hl : Lineages env w) :
    Lineal env (Pool.start w) := by
  have hsound : Traffic.Sound (discipline fun _ _ _ _ => True)
      (Interleaved.traffic (Pool.start w)) :=
    (@orderly_start env w _ hrest).sound
  have hcommitted : ∀ {k : Nat} {t : RefreshToken}, Unnamed (Interleaved.traffic (Pool.start w)) k t →
      ∃ slot, w.tables.slots[k]? = some slot ∧ slot.committed = some (.token t) ∧
        ∀ id, ¬ Replaced w.tables.rows id t.id := by
    rintro k t ⟨slot, hk, hmem, hunnamed, -⟩
    exact ⟨slot, hk, hrest.committed_of_mem hk hmem, hunnamed⟩
  constructor
  · exact chained_start env hrest h
  · exact rotating_start
  · rintro k k' _ ⟨t, ht, rfl⟩ ⟨t', ht', hfamily⟩
    obtain ⟨slot, hk, hc, hnone⟩ := hcommitted ht
    obtain ⟨slot', hk', hc', hnone'⟩ := hcommitted ht'
    have hid : t.id = t'.id := by
      rcases hl.chains t t' (mem_rows_iff.mpr ⟨k, slot, hk, hc⟩) (mem_rows_iff.mpr ⟨k', slot', hk', hc'⟩)
        hfamily.symm with hdown | hup
      · exact descends_unnamed hdown hnone'
      · exact (descends_unnamed hup hnone).symm
    exact hsound.distinct hk hk' (Slot.committed_mem hc) (Slot.committed_mem hc') hid
  · exact fun _ => not_awaits_start _ _
  · exact fun hawaits _ => absurd hawaits (not_awaits_start _ _)
  · rintro k _ ⟨t, ht, rfl⟩ n hn
    obtain ⟨slot, hk, hc, -⟩ := hcommitted ht
    exact hl.drawn t (mem_rows_iff.mpr ⟨k, slot, hk, hc⟩) n hn
  · exact fun hawaits _ _ => absurd hawaits (not_awaits_start _ _)

theorem lineal_always (henv : Function.Injective env.uuid) (hrest : AtRest w.tables)
    (h : Unbroken w.tables.rows) (hl : Lineages env w)
    (hrun : runs (Interleaved.step env) (Pool.start w) ls = some s) :
    Harmonious env (fun _ _ _ _ => True) s ∧ Lineal env s := by
  refine Foundations.invariant_of_steps (P := fun s => Harmonious env (fun _ _ _ _ => True) s ∧
    Lineal env s) ?_ hrun ⟨orderly_start hrest, lineal_start hrest h hl⟩
  rintro s l s' hs ⟨hh, hlineal⟩
  have hone : runs (Interleaved.step env) s [l] = some s' := by
    unfold runs
    rw [hs]
    rfl
  obtain ⟨hh', -⟩ := every_kept (P := fun _ => True) (fun _ _ _ _ _ => trivial) ⟨hh, trivial⟩ hone
  exact ⟨hh', hlineal.step henv hh hs⟩

/-- Two tokens with one id are one. -/
theorem token_eq_of_id {t t' : RefreshToken} (hs : Traffic.Sound (discipline fun _ _ _ _ => True) s.traffic)
    (ht : .token t ∈ s.world.tables.rows) (ht' : .token t' ∈ s.world.tables.rows) (hid : t.id = t'.id) :
    t = t' := by
  obtain ⟨k, slot, hk, hc⟩ := mem_rows_iff.mp ht
  obtain ⟨k', slot', hk', hc'⟩ := mem_rows_iff.mp ht'
  obtain rfl := hs.distinct hk hk' (Slot.committed_mem hc) (Slot.committed_mem hc') hid
  obtain rfl := Option.some.inj (hk.symm.trans hk')
  cases Option.some.inj (hc.symm.trans hc')
  rfl

/-- Every token descends from the first of its session. -/
theorem Lineal.rooted (h : Lineal env s)
    (hs : Traffic.Sound (discipline fun _ _ _ _ => True) s.traffic) (t : RefreshToken)
    (ht : .token t ∈ s.world.tables.rows) :
    ∃ root k, Unnamed s.traffic k root ∧ root.familyId = t.familyId ∧
      Descends s.world.tables.rows root.id t.id := by
  have hunbroken : Unbroken s.world.tables.rows := h.chained.unbroken
  induction hn : t.id using Nat.strongRecOn generalizing t with
  | ind n ih =>
    subst hn
    by_cases hnamed : ∃ id, Replaced s.world.tables.rows id t.id
    · obtain ⟨id, t₀, ht₀, rfl, hnext⟩ := hnamed
      obtain ⟨hlt, t', ht', hid, -, hfamily⟩ := hunbroken.successor t₀ ht₀ t.id hnext
      obtain rfl := token_eq_of_id hs ht' ht hid
      obtain ⟨root, k, hroot, hfamily₀, hdescends⟩ := ih t₀.id hlt t₀ ht₀ rfl
      exact ⟨root, k, hroot, hfamily₀.trans hfamily.symm, hdescends.tail ⟨t₀, ht₀, rfl, hnext⟩⟩
    · obtain ⟨k, slot, hk, hc⟩ := mem_rows_iff.mp ht
      refine ⟨t, k, ⟨slot, hk, Slot.committed_mem hc, fun id hid => hnamed ⟨id, hid⟩, ?_⟩, rfl, .refl⟩
      exact fun _ _ _ hnone => nomatch hnone.symm.trans hc

theorem Lineal.lineages (h : Lineal env s)
    (hs : Traffic.Sound (discipline fun _ _ _ _ => True) s.traffic) : Lineages env s.world := by
  constructor
  · intro t t' ht ht' hfamily
    obtain ⟨root, k, hroot, hf, hdescends⟩ := h.rooted hs t ht
    obtain ⟨root', k', hroot', hf', hdescends'⟩ := h.rooted hs t' ht'
    have hk : k = k' := h.sole ⟨root, hroot, hf.trans hfamily⟩ ⟨root', hroot', hf'⟩
    have hid : root.id = root'.id := by
      obtain ⟨slot, hslot, hmem, -⟩ := hroot
      obtain ⟨slot', hslot', hmem', -⟩ := hroot'
      obtain rfl := Option.some.inj ((hk ▸ hslot).symm.trans hslot')
      exact (token_of_key (hs.coherent hslot' hmem hmem')).1
    have hunique : Relator.RightUnique (Replaced s.world.tables.rows) := by
      rintro id n n' ⟨t₁, ht₁, rfl, hn⟩ ⟨t₂, ht₂, hid, hn'⟩
      obtain rfl := token_eq_of_id hs ht₂ ht₁ hid
      exact Option.some.inj (hn.symm.trans hn')
    rw [hid] at hdescends
    exact Relation.ReflTransGen.total_of_right_unique hunique hdescends hdescends'
  · intro t ht n hn
    obtain ⟨root, k, hroot, hf, -⟩ := h.rooted hs t ht
    exact hf ▸ h.opened ⟨root, hroot, rfl⟩ n hn

/-- A live token is the last of its session. -/
theorem descends_live {t t' : RefreshToken} (hs : Traffic.Sound (discipline fun _ _ _ _ => True) s.traffic)
    (hunbroken : Unbroken s.world.tables.rows) (ht : .token t ∈ s.world.tables.rows)
    (hlive : isLive t = true) (h : Descends s.world.tables.rows t.id t'.id) : t.id = t'.id := by
  rcases Relation.ReflTransGen.cases_head h with he | ⟨n, ⟨t₁, ht₁, hid, hn⟩, -⟩
  · exact he
  · obtain rfl := token_eq_of_id hs ht₁ ht hid
    exact nomatch (hunbroken.live _ ht hlive).symm.trans hn

/-- However the transactions of the requests interleave, every session is one chain of tokens, and one
of them at most is live. -/
theorem lineages_always (henv : Function.Injective env.uuid) (hrest : AtRest w.tables)
    (h : Unbroken w.tables.rows) (hl : Lineages env w)
    (hrun : runs (Interleaved.step env) (Pool.start w) ls = some s) :
    Lineages env s.world ∧ ∀ t t', Row.token t ∈ s.world.tables.rows →
      Row.token t' ∈ s.world.tables.rows → t.familyId = t'.familyId → isLive t = true →
        isLive t' = true → t = t' := by
  obtain ⟨hh, hlineal⟩ := lineal_always henv hrest h hl hrun
  have hunbroken := hlineal.chained.unbroken
  have hlineages := hlineal.lineages hh.sound
  refine ⟨hlineages, fun t t' ht ht' hfamily hlive hlive' => token_eq_of_id hh.sound ht ht' ?_⟩
  rcases hlineages.chains t t' ht ht' hfamily with hdown | hup
  · exact descends_live hh.sound hunbroken ht hlive hdown
  · exact (descends_live hh.sound hunbroken ht' hlive' hup).symm

/-- Every session of the two devices has one token. -/
theorem adasDevices_lineages : Lineages sampleEnv adasDevices where
  chains t t' ht ht' hfamily := by
    have hmem : t = deviceToken 1 "phone" ∨ t = deviceToken 2 "laptop" := by
      simpa [adasDevices, Versions.rows] using ht
    have hmem' : t' = deviceToken 1 "phone" ∨ t' = deviceToken 2 "laptop" := by
      simpa [adasDevices, Versions.rows] using ht'
    rcases hmem with rfl | rfl <;> rcases hmem' with rfl | rfl
    · exact .inl .refl
    · simp [deviceToken] at hfamily
    · simp [deviceToken] at hfamily
    · exact .inl .refl
  drawn t ht n _ he := by
    have hmem : t = deviceToken 1 "phone" ∨ t = deviceToken 2 "laptop" := by
      simpa [adasDevices, Versions.rows] using ht
    have hlist : List.replicate n 'f' = t.familyId.toList := by
      rw [← he]
      simp [sampleEnv, sampleDraw]
    have hall : ∀ x ∈ t.familyId.toList, x = 'f' := by
      rw [← hlist]
      exact fun x hx => List.eq_of_mem_replicate hx
    rcases hmem with rfl | rfl
    · exact absurd (hall 'p' (by decide)) (by decide)
    · exact absurd (hall 'l' (by decide)) (by decide)

/-- The laptop is left with one live token while all sessions are being ended. -/
theorem lineages_always_exchanged : ∃ s,
    runs (Interleaved.step sampleEnv) (Pool.start adasDevices) exchangedAhead = some s ∧
      (∃ t, Row.token t ∈ s.world.tables.rows ∧ isLive t = true ∧ t.familyId = "laptop" ∧
        t.id = 3) ∧ Lineages sampleEnv s.world := by
  have hsome : ((runs (Interleaved.step sampleEnv) (Pool.start adasDevices) exchangedAhead).any
      fun s => s.world.tables.rows.any
        (Row.isToken fun t => isLive t && t.familyId = "laptop" && t.id = 3)) = true := by
    decide +kernel
  obtain ⟨s, hs, hlive⟩ := (Option.any_eq_true _ _).mp hsome
  refine ⟨s, hs, ?_, (lineages_always sampleDraw_injective adasDevices_atRest adasDevices_unbroken
    adasDevices_lineages hs).1⟩
  obtain ⟨row, hrow, hp⟩ := List.any_eq_true.mp hlive
  cases row with
  | token t =>
    obtain ⟨⟨hlive, hfamily⟩, hid⟩ : (isLive t = true ∧ t.familyId = "laptop") ∧ t.id = 3 := by
      simpa [Row.isToken] using hp
    exact ⟨t, hrow, hlive, hfamily, hid⟩
  | _ => cases hp

end Runs

end PracticalMicroservice.Auth
