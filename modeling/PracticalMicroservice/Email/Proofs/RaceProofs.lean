import PracticalMicroservice.Email.Proofs.IdempotencyProofs
import PracticalMicroservice.Email.System
import Mathlib.Algebra.Order.BigOperators.Group.Finset

/-!
# Proofs: requests that race for a key

The invariant of any number of requests under way: each stands where its phase says, every new key
row and every new message has the request that was accepted with it, and no two were accepted with
one. A request that has to wait waits for one that is about to commit, so all of them can end.
-/

namespace PracticalMicroservice.Email

open Foundations (Access Called Governed Pool Session Slot Versions governed_start
  invariant_of_steps moveGhost moveGhost_of_ne moveGhost_self pool_step_cases runs)

/-! ## The invariant -/

/-- A request that was answered with a message of its own. -/
def Winner (ghosts : Nat → Option Turn) (i : Nat) (r : SendRequest) (m : EmailMessage) : Prop :=
  ghosts i = turn r (.ended (.ok { message := m, replayed := false }))

structure Racing (env : Env) (v₀ : Versions Row) (s : Enqueueing) (ghosts : Nat → Option Turn) :
    Prop where
  governed : Governed (turns env) (fun r result g => g = turn r (.ended result)) none s ghosts
  turned : ∀ i t, s.threads[i]? = some t → ∃ phase, ghosts i = turn t.task phase
  sound : Sound env v₀ s.world
  placed : ∀ i r phase, ghosts i = turn r phase → Placed env s.world i r phase
  unborn : ∀ i, ghosts i = none → s.world.writtenBy i = []
  claimed : ∀ record, .key record ∈ s.world.rows →
    record.key ∉ (Enqueueing.keys v₀).map (·.key) → ∃ i r m, Winner ghosts i r m ∧
      m.id = record.emailMessageId ∧ ∃ own ∈ r.record? env, own.key = record.key
  sent : ∀ m, .message m ∈ s.world.rows →
    m.id ∈ (Enqueueing.messages v₀).map (·.id) ∨ ∃ i r m', Winner ghosts i r m' ∧ m'.id = m.id
  distinct : ∀ i j r r' m m', Winner ghosts i r m → Winner ghosts j r' m' → m.id = m'.id → i = j

section Start

variable {env : Env} {v₀ : Versions Row}

theorem mem_keys {v : Versions Row} {record : IdempotencyKey} :
    record ∈ Enqueueing.keys v ↔ .key record ∈ v.rows := by
  refine ⟨fun hr => ?_, fun hr => List.mem_filterMap.mpr ⟨_, hr, rfl⟩⟩
  obtain ⟨row, hrow, hkey⟩ := List.mem_filterMap.mp hr
  cases row with
  | message m => cases hkey
  | key found => exact Option.some.inj hkey ▸ hrow

theorem mem_messages {v : Versions Row} {m : EmailMessage} :
    m ∈ Enqueueing.messages v ↔ .message m ∈ v.rows := by
  refine ⟨fun hm => ?_, fun hm => List.mem_filterMap.mpr ⟨_, hm, rfl⟩⟩
  obtain ⟨row, hrow, hmessage⟩ := List.mem_filterMap.mp hm
  cases row with
  | key record => cases hmessage
  | message found => exact Option.some.inj hmessage ▸ hrow

/-- At rest every version is a row. -/
theorem Consistent.committed (h : Consistent v₀) {row : Row} (hrow : row ∈ v₀.versions) :
    row ∈ v₀.rows := by
  refine (Versions.mem_versions.mp hrow).resolve_right fun ⟨i, hw⟩ => ?_
  obtain ⟨slot, hslot, hw⟩ := List.mem_filterMap.mp hw
  exact nomatch (h.quiet slot hslot).symm.trans (Slot.written_of_writtenBy hw)

theorem sound_of_consistent (h : Consistent v₀) : Sound env v₀ v₀ where
  fresh slot hslot hw := by
    rw [h.quiet slot hslot] at hw
    cases hw
  unique := h.unique
  numbered m hm := h.numbered m (mem_messages.mpr (h.committed hm))
  keyed record hr := by
    obtain ⟨m, hm, hid⟩ := h.linked record (mem_keys.mpr (h.committed hr))
    rw [← hid]
    exact h.numbered m hm
  stored record hr := by
    have hrecord := mem_keys.mpr hr
    obtain ⟨m, hm, hid⟩ := h.linked record hrecord
    exact ⟨m, mem_messages.mp hm, hid, fun hnew => absurd (List.mem_map_of_mem hrecord) hnew⟩

theorem racing_start (h : Consistent v₀) : Racing env v₀ (Pool.start v₀) fun _ => none where
  governed := governed_start
  turned i t hi := by simp [Pool.start] at hi
  sound := sound_of_consistent h
  placed i r phase hi := nomatch hi
  unborn i _ := List.filterMap_eq_nil_iff.mpr fun slot hslot => by
    unfold Slot.writtenBy
    rw [h.quiet slot hslot]
  claimed record hr hnew := absurd (List.mem_map_of_mem (mem_keys.mpr hr)) hnew
  sent m hm := .inl (List.mem_map_of_mem (mem_messages.mpr hm))
  distinct i j r r' m m' hi := nomatch hi

end Start

/-! ## Phases lead on -/

section After

variable {env : Env} {r : SendRequest} {phase next : Phase} {a : Access Row} {reply : a.Reply}

/-- How many accesses are left at most. -/
def Phase.rank : Phase → Nat
  | looking => 7
  | drafting => 6
  | keying _ => 5
  | losing _ => 4
  | lookingAgain => 3
  | found _ => 2
  | committing _ | closing _ _ => 1
  | ended _ => 0

theorem rank_lookedUp {absent : Option Phase} {rows : List Row}
    (h : Phase.lookedUp absent rows = some next) :
    absent = some next ∨ ∃ record, next = .found record := by
  unfold Phase.lookedUp at h
  split at h
  · exact .inl h
  · exact .inr ⟨_, (Option.some.inj h).symm⟩

theorem rank_after (h : phase.after env r a reply = some next) : next.rank < phase.rank := by
  unfold Phase.after at h
  split at h
  · rcases rank_lookedUp h with he | ⟨record, rfl⟩
    · obtain rfl := Option.some.inj he
      decide
    · exact (by decide : 2 < 7)
  · rcases rank_lookedUp h with he | ⟨record, rfl⟩
    · cases he
    · exact (by decide : 2 < 3)
  · split at h
    · cases h
    · obtain rfl := Option.some.inj h
      exact (by decide : 1 < 2)
  · obtain rfl := Option.some.inj h
    split
    · exact (by decide : 5 < 6)
    · exact (by decide : 1 < 6)
  · obtain rfl := Option.some.inj h
    exact (by decide : 1 < 5)
  · obtain rfl := Option.some.inj h
    exact (by decide : 4 < 5)
  · obtain rfl := Option.some.inj h
    exact (by decide : 0 < 1)
  · obtain rfl := Option.some.inj h
    exact (by decide : 0 < 1)
  · obtain rfl := Option.some.inj h
    exact (by decide : 3 < 4)
  · cases h

/-- Only its own commit makes a request a winner. -/
theorem winner_after {m : EmailMessage}
    (h : phase.after env r a reply = some (.ended (.ok { message := m, replayed := false }))) :
    phase = .committing m := by
  unfold Phase.after at h
  split at h
  · rcases rank_lookedUp h with he | ⟨record, he⟩
    · cases Option.some.inj he
    · cases he
  · rcases rank_lookedUp h with he | ⟨record, he⟩
    · cases he
    · cases he
  · split at h
    · cases h
    · cases h
  · have he := Option.some.inj h
    split at he
    · cases he
    · cases he
  · cases h
  · cases h
  · cases h
    rfl
  · have he := Phase.ended.inj (Option.some.inj h)
    unfold SendRequest.replay at he
    split at he
    · cases he
    · cases he
  · cases h
  · cases h

theorem committing_after {m : EmailMessage}
    (h : (Phase.committing m).after env r a reply = some next) :
    next = .ended (.ok { message := m, replayed := false }) := by
  cases a with
  | commit => exact (Option.some.inj h).symm
  | select whose => cases h
  | insert row => cases h
  | targets whose => cases h
  | visit index whose change => cases h
  | rollback => cases h

theorem command_commit (h : phase.command env r = some .commit) :
    (∃ m, phase = .committing m) ∨ ∃ record m, phase = .closing record m := by
  cases phase with
  | committing m => exact .inl ⟨m, rfl⟩
  | closing record m => exact .inr ⟨record, m, rfl⟩
  | looking =>
    obtain ⟨own, -, he⟩ := Option.map_eq_some_iff.mp h
    cases he
  | lookingAgain =>
    obtain ⟨own, -, he⟩ := Option.map_eq_some_iff.mp h
    cases he
  | keying m =>
    obtain ⟨own, -, he⟩ := Option.map_eq_some_iff.mp h
    cases he
  | drafting => cases h
  | losing m => cases h
  | found record => cases h
  | ended result => cases h

end After

/-! ## What a step preserves -/

section Steps

variable {env : Env} {v₀ : Versions Row} {s s' : Enqueueing} {ghosts : Nat → Option Turn}
  {i : Nat} {r : SendRequest} {phase next : Phase}

/-- A new request has written nothing. -/
theorem Racing.spawn (h : Racing env v₀ s ghosts) (r : SendRequest) :
    Racing env v₀ { s with threads := s.threads ++ [⟨r, r.run env⟩] }
      (moveGhost ghosts s.threads.length (turn r (Phase.start env r))) := by
  have hnone := h.governed.idle s.threads.length (Nat.le_refl _)
  have hstart : ∀ m, Phase.start env r ≠ .ended (.ok { message := m, replayed := false }) := by
    intro m he
    unfold Phase.start at he
    split at he
    · cases he
    · cases he
  have hwinner : ∀ j r' m, Winner (moveGhost ghosts s.threads.length
      (turn r (Phase.start env r))) j r' m ↔ Winner ghosts j r' m := by
    intro j r' m
    unfold Winner
    by_cases hj : j = s.threads.length
    · rw [hj, moveGhost_self, hnone]
      refine ⟨fun he => ?_, fun he => nomatch he⟩
      exact absurd (congrArg Turn.phase (Option.some.inj he)) (hstart m)
    · rw [moveGhost_of_ne hj]
  refine ⟨h.governed.spawn meets_run, fun j t hj => ?_, h.sound, fun j r' phase hj => ?_,
    fun j hj => ?_, ?_, ?_, ?_⟩
  · by_cases he : j = s.threads.length
    · subst he
      rw [List.getElem?_append_right (Nat.le_refl _), Nat.sub_self] at hj
      obtain rfl := Option.some.inj hj
      exact ⟨_, moveGhost_self _ _ _⟩
    · obtain ⟨hlt, -⟩ := List.getElem?_eq_some_iff.mp hj
      rw [List.length_append, List.length_singleton] at hlt
      rw [List.getElem?_append_left (by omega)] at hj
      rw [moveGhost_of_ne he]
      exact h.turned j t hj
  · by_cases he : j = s.threads.length
    · subst he
      rw [moveGhost_self] at hj
      obtain ⟨rfl, rfl⟩ := Turn.mk.inj (Option.some.inj hj)
      unfold Phase.start
      split
      · exact h.unborn _ hnone
      · exact h.unborn _ hnone
    · rw [moveGhost_of_ne he] at hj
      exact h.placed j r' phase hj
  · refine h.unborn j ?_
    by_cases he : j = s.threads.length
    · rw [he]
      exact hnone
    · rw [moveGhost_of_ne he] at hj
      exact hj
  · simp only [hwinner]
    exact h.claimed
  · simp only [hwinner]
    exact h.sent
  · simp only [hwinner]
    exact h.distinct

/-- The dispatcher and the operators take nothing from a request. -/
theorem Racing.move (h : Racing env v₀ s ghosts) {world : Versions Row}
    (hk : Kept env v₀ s.world world) : Racing env v₀ { s with world } ghosts where
  governed := h.governed.move world
  turned := h.turned
  sound := hk.sound
  placed i r phase hi := (h.placed i r phase hi).mono hk.grows (hk.written i)
    fun _ _ hfree record hr => hfree record (hk.keyed record hr)
  unborn i hi := (hk.written i).trans (h.unborn i hi)
  claimed record hr := h.claimed record (hk.keys record hr)
  sent m hm := by
    obtain ⟨m', hm', hid⟩ := hk.messages m hm
    rw [← hid]
    exact h.sent m' hm'
  distinct := h.distinct

/-- What a winner has left in the tables. -/
theorem Racing.won (h : Racing env v₀ s ghosts) {m : EmailMessage} (hw : Winner ghosts i r m) :
    m.payload = r.input ∧ Shown s.world m ∧
      ∀ own ∈ r.record? env, .key (Outbox.newKey own m) ∈ s.world.rows := by
  obtain ⟨-, ⟨m', hresult, hwon⟩ | ⟨record, m', hresult, -⟩⟩ := h.placed i r _ hw
  · cases hresult
    exact hwon
  · unfold SendRequest.replay at hresult
    split at hresult
    · cases hresult
    · cases hresult

section Call

variable {fate : List Nat} {command : Access Row}
  {cont : command.Reply → Session Row (Except AppError EnqueueResult)} {reply : command.Reply}

/-- Where the thread stands that goes on, and where its reply leads it. -/
theorem Racing.advanced (h : Racing env v₀ s ghosts)
    (hc : Called Enqueueing.machine s s' i fate r command cont reply) :
    ∃ phase next, ghosts i = turn r phase ∧ phase.command env r = some command ∧
      phase.after env r command reply = some next ∧
        Advanced env v₀ s.world s'.world i r next := by
  obtain ⟨phase, hphase⟩ := h.turned i _ hc.thread
  have hallows := h.governed.allows hc
  rw [hphase] at hallows
  have hcommand := allows_iff.mp hallows
  obtain ⟨next, hafter, hadv⟩ := advance h.sound (h.placed i r phase hphase) hcommand hc.perform
  exact ⟨phase, next, hphase, hcommand, hafter, hadv⟩

/-- A row that a call adds was written by a transaction that wins by it. -/
theorem rows_of_call (h : Racing env v₀ s ghosts)
    (hc : Called Enqueueing.machine s s' i fate r command cont reply)
    (hphase : ghosts i = turn r phase) (hcommand : phase.command env r = some command) :
    ∀ row ∈ s'.world.rows, row ∈ s.world.rows ∨
      ∃ m, phase = .committing m ∧ row ∈ s.world.writtenBy i := by
  intro row hrow
  have hp : s.world.perform i fate command = some (reply, s'.world) := hc.perform
  by_cases hcommit : command = .commit
  · subst hcommit
    have hworld : s'.world = s.world.commit i := (congrArg Prod.snd (Option.some.inj hp)).symm
    rw [hworld, Versions.rows_commit] at hrow
    refine ((Versions.mem_seenBy h.sound.fresh).mp hrow).imp id fun hw => ?_
    obtain ⟨m, rfl⟩ | ⟨record, m, rfl⟩ := command_commit hcommand
    · exact ⟨m, rfl, hw⟩
    · rw [(h.placed i r _ hphase).1] at hw
      cases hw
  · rw [Versions.rows_perform hp hcommit] at hrow
    exact .inl hrow

theorem Racing.call (h : Racing env v₀ s ghosts)
    (hc : Called Enqueueing.machine s s' i fate r command cont reply)
    (hphase : ghosts i = turn r phase) (hcommand : phase.command env r = some command)
    (hafter : phase.after env r command reply = some next)
    (hadv : Advanced env v₀ s.world s'.world i r next) :
    Racing env v₀ s' (moveGhost ghosts i (turn r next)) := by
  have hreply : (turns env).replies command (ghosts i) reply (turn r next) := by
    rw [hphase]
    exact replies_iff.mpr ⟨next, hafter, rfl⟩
  have hrows := rows_of_call h hc hphase hcommand
  have hold : ∀ j r' m, Winner ghosts j r' m →
      Winner (moveGhost ghosts i (turn r next)) j r' m := by
    intro j r' m hw
    unfold Winner
    rw [moveGhost_of_ne, hw]
    rintro rfl
    obtain ⟨-, rfl⟩ := Turn.mk.inj (Option.some.inj (hphase.symm.trans hw))
    cases hcommand
  have hnew : ∀ j r' m, Winner (moveGhost ghosts i (turn r next)) j r' m →
      Winner ghosts j r' m ∨ (j = i ∧ phase = .committing m) := by
    intro j r' m hw
    unfold Winner at hw
    by_cases hj : j = i
    · rw [hj, moveGhost_self] at hw
      obtain ⟨-, rfl⟩ := Turn.mk.inj (Option.some.inj hw)
      exact .inr ⟨hj, winner_after hafter⟩
    · rw [moveGhost_of_ne hj] at hw
      exact .inl hw
  have hwins : ∀ m, phase = .committing m →
      Winner (moveGhost ghosts i (turn r next)) i r m := by
    rintro m rfl
    unfold Winner
    rw [moveGhost_self, committing_after hafter]
  -- a message that is being committed is not the one of a winner
  have hapart : ∀ j r' m m', phase = .committing m → Winner ghosts j r' m' → m.id ≠ m'.id := by
    rintro j r' m m' rfl hw
    obtain ⟨-, ⟨m'', hm'', hid, -⟩, -⟩ := h.won hw
    have hmine : Row.message m ∈ s.world.writtenBy i := by
      rw [(h.placed i r _ hphase).1]
      exact List.mem_cons_self
    rw [← hid]
    exact clash_messages (h.sound.unique.clash_committed h.sound.fresh hmine hm'')
  refine ⟨h.governed.call hc hreply, fun j t hj => ?_, hadv.sound, fun j r' phase' hj => ?_,
    fun j hj => ?_, fun record hr hnone => ?_, fun m hm => ?_, fun j k rj rk m m' hj hk hid => ?_⟩
  · rw [hc.getElem?] at hj
    by_cases he : j = i
    · subst he
      rw [if_pos rfl] at hj
      obtain rfl := Option.some.inj hj
      exact ⟨next, moveGhost_self _ _ _⟩
    · rw [if_neg he] at hj
      rw [moveGhost_of_ne he]
      exact h.turned j t hj
  · by_cases he : j = i
    · subst he
      rw [moveGhost_self] at hj
      obtain ⟨rfl, rfl⟩ := Turn.mk.inj (Option.some.inj hj)
      exact hadv.placed
    · rw [moveGhost_of_ne he] at hj
      refine (h.placed j r' phase' hj).mono hadv.grows (hadv.others j he) ?_
      intro m hm hfree record hr
      rcases hadv.keyed record hr with hr | ⟨m', hm', hid⟩
      · exact hfree record hr
      · rw [hid]
        exact (clash_messages (h.sound.unique.clash_written he hm hm')).symm
  · have he : j ≠ i := by
      rintro rfl
      rw [moveGhost_self] at hj
      cases hj
    rw [moveGhost_of_ne he] at hj
    exact (hadv.others j he).trans (h.unborn j hj)
  · rcases hrows _ hr with hr | ⟨m, hm, hw⟩
    · obtain ⟨j, r', m, hj, hrest⟩ := h.claimed record hr hnone
      exact ⟨j, r', m, hold j r' m hj, hrest⟩
    · refine ⟨i, r, m, hwins m hm, ?_⟩
      subst hm
      rw [(h.placed i r _ hphase).1] at hw
      cases hown : r.record? env with
      | none =>
        rw [hown] at hw
        exact nomatch List.mem_singleton.mp hw
      | some own =>
        rw [hown] at hw
        obtain rfl : record = Outbox.newKey own m := by simpa using hw
        exact ⟨rfl, own, rfl, rfl⟩
  · rcases hrows _ hm with hm | ⟨m', hm', hw⟩
    · refine (h.sent m hm).imp id fun ⟨j, r', m', hj, hid⟩ => ?_
      exact ⟨j, r', m', hold j r' m' hj, hid⟩
    · refine .inr ⟨i, r, m', hwins m' hm', ?_⟩
      subst hm'
      rw [(h.placed i r _ hphase).1] at hw
      rcases List.mem_cons.mp hw with he | hw
      · rw [Row.message.inj he]
      · cases hown : r.record? env with
        | none =>
          rw [hown] at hw
          cases hw
        | some own =>
          rw [hown] at hw
          exact nomatch List.mem_singleton.mp hw
  · rcases hnew j rj m hj with hj | ⟨rfl, hm⟩
    · rcases hnew k rk m' hk with hk' | ⟨-, hm'⟩
      · exact h.distinct j k rj rk m m' hj hk' hid
      · exact absurd hid.symm (hapart j rj m' m hm' hj)
    · rcases hnew k rk m' hk with hk' | ⟨rfl, -⟩
      · exact absurd hid (hapart k rk m m' hm hk')
      · rfl

end Call

/-- Every step keeps the invariant. -/
theorem Racing.step (h : Racing env v₀ s ghosts) {l : Enqueueing.Label}
    (hs : Enqueueing.step env s l = some s') : ∃ ghosts', Racing env v₀ s' ghosts' := by
  rcases pool_step_cases hs with ⟨r, -, rfl⟩ | ⟨i, fate, r, command, cont, reply, -, hc⟩ |
    ⟨move, world, -, hm, rfl⟩
  · exact ⟨_, h.spawn r⟩
  · obtain ⟨phase, next, hphase, hcommand, hafter, hadv⟩ := h.advanced hc
    exact ⟨_, h.call hc hphase hcommand hafter hadv⟩
  · exact ⟨ghosts, h.move (kept_of_rewrite h.sound hm)⟩

theorem racing_runs (h : Consistent v₀) {ls : List Enqueueing.Label}
    (hrun : runs (Enqueueing.step env) (Pool.start v₀) ls = some s) :
    ∃ ghosts, Racing env v₀ s ghosts :=
  invariant_of_steps (P := fun s => ∃ ghosts, Racing env v₀ s ghosts)
    (fun _ _ _ hs ⟨_, h⟩ => h.step hs) hrun ⟨_, racing_start h⟩

end Steps

/-! ## What the invariant says of the answers -/

section Answers

variable {env : Env} {v₀ : Versions Row} {s : Enqueueing} {ghosts : Nat → Option Turn}
  {i : Nat} {r : SendRequest} {m : EmailMessage} {key : String}
  {result : Except AppError EnqueueResult}

theorem Racing.standing (h : Racing env v₀ s ghosts) (hi : s.result i = some result)
    (hr : s.task i = some r) : ghosts i = turn r (.ended result) := by
  obtain ⟨task, ht⟩ := Foundations.result_eq_some hi
  have hpost := h.governed.returned ht
  have htask : s.task i = some task := by
    unfold Pool.task
    rw [ht]
    rfl
  obtain rfl := Option.some.inj (htask.symm.trans hr)
  exact hpost

/-- A request stands in the pool as in the ghosts: it has returned when it is over. -/
theorem Racing.returned (h : Racing env v₀ s ghosts) (hi : ghosts i = turn r (.ended result)) :
    s.task i = some r ∧ s.result i = some result := by
  have hlt : i < s.threads.length := by
    by_contra hge
    rw [h.governed.idle i (by omega)] at hi
    cases hi
  obtain ⟨⟨task, program⟩, ht⟩ : ∃ t, s.threads[i]? = some t :=
    ⟨_, List.getElem?_eq_getElem hlt⟩
  obtain ⟨phase, hphase⟩ := h.turned i _ ht
  obtain ⟨rfl, rfl⟩ := Turn.mk.inj (Option.some.inj (hphase.symm.trans hi))
  have hmeets := h.governed.meets i _ ht
  unfold Pool.task Pool.result
  rw [ht]
  cases program with
  | perform command cont =>
    have hallows := hmeets.1
    rw [hphase] at hallows
    cases allows_iff.mp hallows
  | done a =>
    have he : turn task (.ended result) = turn task (.ended a) := hphase.symm.trans hmeets
    obtain ⟨-, he⟩ := Turn.mk.inj (Option.some.inj he)
    exact ⟨rfl, congrArg some (Phase.ended.inj he).symm⟩

theorem Racing.accepted (h : Racing env v₀ s ghosts) :
    s.Accepted i m ↔ ∃ r, Winner ghosts i r m := by
  refine ⟨fun hi => ?_, fun ⟨r, hi⟩ => (h.returned hi).2⟩
  obtain ⟨task, ht⟩ := Foundations.result_eq_some hi
  refine ⟨task, h.standing hi ?_⟩
  unfold Pool.task
  rw [ht]
  rfl

theorem record?_eq (hkey : key ≠ "") (hr : r.idempotencyKey = some key) :
    r.record? env = some { key, fingerprint := fingerprint env r.properties } := by
  unfold SendRequest.record? EmailService.idempotencyRecord
  rw [hr, Option.filter_some, if_pos (decide_eq_true hkey)]
  rfl

/-- A request whose record has the key sent it. -/
theorem idempotencyKey_of_record? {own : IdempotencyRecord} (h : own ∈ r.record? env) :
    r.idempotencyKey = some own.key := by
  obtain ⟨key, hkey, rfl⟩ := Option.map_eq_some_iff.mp h
  exact (Option.filter_eq_some_iff.mp hkey).1

/-- A request that has returned says of the stored message whether it is its own. -/
theorem Racing.answered (h : Racing env v₀ s ghosts) (hinj : Function.Injective env.sha256)
    (hkey : key ≠ "") (hnew : ∀ record ∈ Enqueueing.keys v₀, record.key ≠ key)
    (hr : r.idempotencyKey = some key) (hi : ghosts i = turn r (.ended result)) :
    ∃ record ∈ Enqueueing.keys s.world, record.key = key ∧
      ∃ stored ∈ Enqueueing.messages s.world, stored.id = record.emailMessageId ∧
        (r.input = stored.payload → ∃ m replayed, result = .ok { message := m, replayed } ∧
          m.id = stored.id ∧ m.payload = stored.payload) ∧
        (r.input ≠ stored.payload → result = .error (.ConflictError ("Idempotency-Key '" ++
          key ++ "' was already used for a different message"))) := by
  obtain ⟨-, ⟨m, rfl, -⟩ | ⟨record, m, rfl, ⟨hrecord, own, hown, hsame⟩, hid, stored, hstored,
    hid', hpayload⟩⟩ := h.placed i r _ hi
  · obtain ⟨hpayload, ⟨stored, hstored, hid, hpayload'⟩, hown⟩ := h.won hi
    have hrow := hown _ (record?_eq hkey hr)
    refine ⟨_, mem_keys.mpr hrow, rfl, stored, mem_messages.mpr hstored, hid, fun _ => ?_,
      fun hne => ?_⟩
    · exact ⟨m, false, rfl, hid.symm, hpayload'.symm⟩
    · exact absurd (hpayload.symm.trans hpayload'.symm) hne
  · rw [record?_eq hkey hr] at hown
    have hrecordKey : record.key = key := hsame.trans (Option.some.inj hown ▸ rfl)
    obtain ⟨m', hm', hid'', hprint⟩ := h.sound.stored record hrecord
    obtain rfl := h.sound.message_unique hstored hm' ((hid'.trans hid).trans hid''.symm)
    have hfresh : record.key ∉ (Enqueueing.keys v₀).map (·.key) := by
      intro hmem
      obtain ⟨old, hold, he⟩ := List.mem_map.mp hmem
      exact hnew old hold (he.trans hrecordKey)
    have hiff : record.requestFingerprint = fingerprint env r.properties ↔
        stored.payload = r.input := by
      rw [hprint hfresh]
      exact fingerprint_eq_iff hinj (List.Perm.refl _) r.same
    refine ⟨record, mem_keys.mpr hrecord, hrecordKey, stored, mem_messages.mpr hstored, hid'',
      fun he => ?_, fun hne => ?_⟩
    · refine ⟨m, true, ?_, hid'.symm, hpayload.symm⟩
      exact if_pos (hiff.mpr he.symm)
    · unfold SendRequest.replay
      rw [if_neg fun he => hne (hiff.mp he).symm, hr]
      rfl

theorem Racing.idempotent (h : Racing env v₀ s ghosts) (hinj : Function.Injective env.sha256)
    (hkey : key ≠ "") (hnew : ∀ record ∈ Enqueueing.keys v₀, record.key ≠ key) :
    Idempotent v₀ key s where
  one record hr record' hr' he he' :=
    h.sound.key_unique (mem_keys.mp hr) (mem_keys.mp hr') (he.trans he'.symm)
  answered i r hi hr result hresult := h.answered hinj hkey hnew hr (h.standing hresult hi)
  once record hr he := by
    have hfresh : record.key ∉ (Enqueueing.keys v₀).map (·.key) := by
      intro hmem
      obtain ⟨old, hold, hsame⟩ := List.mem_map.mp hmem
      exact hnew old hold (hsame.trans he)
    obtain ⟨i, r, m, hi, hid, own, hown, hown'⟩ := h.claimed record (mem_keys.mp hr) hfresh
    have hcarries : r.idempotencyKey = some key :=
      (idempotencyKey_of_record? hown).trans (congrArg some (hown'.trans he))
    refine ⟨i, ⟨⟨r, (h.returned hi).1, hcarries⟩, m, h.accepted.mpr ⟨r, hi⟩⟩, ?_⟩
    rintro j ⟨⟨r', hj, hr'⟩, m', hm'⟩
    have hj' := h.standing hm' hj
    have hrow := (h.won hj').2.2 _ (record?_eq hkey hr')
    have hsame := h.sound.key_unique hrow (mem_keys.mp hr) he.symm
    have hid' : m'.id = record.emailMessageId := congrArg IdempotencyKey.emailMessageId hsame
    exact h.distinct j i r' r m' m hj' hi (hid'.trans hid.symm)
  accounted m hm := by
    refine (h.sent m (mem_messages.mp hm)).imp id fun ⟨i, r, own, hi, hid⟩ => ?_
    refine ⟨i, ⟨own, h.accepted.mpr ⟨r, hi⟩, hid⟩, ?_⟩
    rintro j ⟨own', hj, hid'⟩
    obtain ⟨r', hj'⟩ := h.accepted.mp hj
    exact h.distinct j i r' r own' own hj' hi (hid'.trans hid.symm)

end Answers

/-! ## No request waits for ever -/

section Progress

variable {env : Env} {v₀ : Versions Row} {s s' : Enqueueing} {ghosts : Nat → Option Turn}
  {i : Nat} {r : SendRequest} {phase : Phase} {a : Access Row}

/-- What a request holds that another may have to wait for, it holds until its commit. -/
theorem Racing.committing_of_key (h : Racing env v₀ s ghosts) {record : IdempotencyKey}
    (hw : .key record ∈ s.world.writtenBy i) : ∃ r m, ghosts i = turn r (.committing m) := by
  cases hi : ghosts i with
  | none =>
    rw [h.unborn i hi] at hw
    cases hw
  | some t =>
    obtain ⟨r, phase⟩ := t
    have hplaced := h.placed i r phase hi
    cases phase with
    | committing m => exact ⟨r, m, rfl⟩
    | keying m =>
      rw [hplaced.1] at hw
      exact nomatch List.mem_singleton.mp hw
    | losing m =>
      rw [hplaced.1] at hw
      exact nomatch List.mem_singleton.mp hw
    | looking =>
      rw [hplaced] at hw
      cases hw
    | drafting =>
      rw [hplaced] at hw
      cases hw
    | lookingAgain =>
      rw [hplaced.1] at hw
      cases hw
    | found record =>
      rw [hplaced.1] at hw
      cases hw
    | closing record m =>
      rw [hplaced.1] at hw
      cases hw
    | ended result =>
      rw [hplaced.1] at hw
      cases hw

/-- The row that an insert waits for. -/
theorem awaited {v : Versions Row} {new : Row} (hf : v.InsertOnly) (h : v.awaits i new = true) :
    ∃ j old, old ∈ v.writtenBy j ∧ (Row.clash new old).isSome = true := by
  obtain ⟨slot, hslot, hheld⟩ := List.any_eq_true.mp h
  obtain ⟨hheld, hclash⟩ := (Bool.and_eq_true _ _).mp hheld
  obtain ⟨old, hold, hsome⟩ := List.any_eq_true.mp hclash
  rcases Slot.mem_versions.mp hold with hcommitted | ⟨j, hw⟩
  · unfold Slot.heldFrom at hheld
    split at hheld
    · rename_i j row hwritten
      have hnone := hf slot hslot (by rw [hwritten]; rfl)
      exact nomatch hnone.symm.trans hcommitted
    · cases hheld
  · exact ⟨j, old, List.mem_filterMap.mpr ⟨slot, hslot, hw⟩, hsome⟩

theorem insert_of_free {v : Versions Row} (row : Nat → Row)
    (h : v.awaits i (row v.nextKey) = false) :
    (v.perform i [] (.insert row)).isSome = true := by
  simp only [Versions.perform, h, Bool.false_eq_true, if_false]
  split
  · rfl
  · rfl

/-- A request can go on, or waits for one that is about to commit. -/
theorem Racing.free (h : Racing env v₀ s ghosts) (hi : ghosts i = turn r phase)
    (hc : phase.command env r = some a) :
    (s.world.perform i [] a).isSome = true ∨ ∃ j r m, ghosts j = turn r (.committing m) := by
  cases phase with
  | looking =>
    obtain ⟨own, -, rfl⟩ := Option.map_eq_some_iff.mp hc
    exact .inl rfl
  | lookingAgain =>
    obtain ⟨own, -, rfl⟩ := Option.map_eq_some_iff.mp hc
    exact .inl rfl
  | found record =>
    obtain rfl := Option.some.inj hc
    exact .inl rfl
  | drafting =>
    obtain rfl := Option.some.inj hc
    refine .inl (insert_of_free _ (Bool.eq_false_iff.mpr fun hawaits => ?_))
    obtain ⟨j, old, hold, hsome⟩ := awaited h.sound.fresh hawaits
    cases old with
    | key record => cases hsome
    | message old =>
      have hlt := h.sound.numbered old (Versions.mem_versions.mpr (.inr ⟨j, hold⟩))
      have hid : s.world.nextKey ≠ old.id := by omega
      have hnone : Row.clash (.message (Outbox.newMessage r.at_ (r.draft env) s.world.nextKey))
          (.message old) = none := if_neg hid
      rw [hnone] at hsome
      cases hsome
  | keying m =>
    obtain ⟨own, hown, rfl⟩ := Option.map_eq_some_iff.mp hc
    cases hawaits : s.world.awaits i (.key (Outbox.newKey own m)) with
    | false => exact .inl (insert_of_free (fun _ => .key (Outbox.newKey own m)) hawaits)
    | true =>
      obtain ⟨j, old, hold, hsome⟩ := awaited h.sound.fresh hawaits
      cases old with
      | message old => cases hsome
      | key old =>
        obtain ⟨r', m', hj⟩ := h.committing_of_key hold
        exact .inr ⟨j, r', m', hj⟩
  | committing m =>
    obtain rfl := Option.some.inj hc
    exact .inl rfl
  | closing record m =>
    obtain rfl := Option.some.inj hc
    exact .inl rfl
  | losing m =>
    obtain rfl := Option.some.inj hc
    exact .inl rfl
  | ended result => cases hc

/-- A request that has not returned has a command, and its phase knows it. -/
theorem Racing.running (h : Racing env v₀ s ghosts) (hlt : i < s.threads.length)
    (hi : s.result i = none) :
    ∃ r phase a cont, s.threads[i]? = some ⟨r, .perform a cont⟩ ∧ ghosts i = turn r phase ∧
      phase.command env r = some a := by
  obtain ⟨⟨r, program⟩, ht⟩ : ∃ t, s.threads[i]? = some t := ⟨_, List.getElem?_eq_getElem hlt⟩
  obtain ⟨phase, hphase⟩ := h.turned i _ ht
  cases program with
  | done result =>
    unfold Pool.result at hi
    rw [ht] at hi
    cases hi
  | perform a cont =>
    have hallows := (h.governed.meets i _ ht).1
    rw [hphase] at hallows
    exact ⟨r, phase, a, cont, ht, hphase, allows_iff.mp hallows⟩

/-- How many accesses are left at most, over all requests. -/
def remaining (s : Enqueueing) (ghosts : Nat → Option Turn) : Nat :=
  (Finset.range s.threads.length).sum fun i => ((ghosts i).map fun t => t.phase.rank).getD 0

theorem remaining_call (hlt : i < s.threads.length) (hlength : s'.threads.length = s.threads.length)
    {next : Phase} (hi : ghosts i = turn r phase) (hnext : next.rank < phase.rank) :
    remaining s' (moveGhost ghosts i (turn r next)) < remaining s ghosts := by
  unfold remaining
  rw [hlength]
  refine Finset.sum_lt_sum (fun j _ => ?_) ⟨i, Finset.mem_range.mpr hlt, ?_⟩
  · by_cases hj : j = i
    · rw [hj, moveGhost_self, hi]
      exact Nat.le_of_lt hnext
    · rw [moveGhost_of_ne hj]
  · rw [moveGhost_self, hi]
    exact hnext

/-- A request that can go on goes on. -/
theorem Racing.goes_on (h : Racing env v₀ s ghosts) (hlt : i < s.threads.length)
    (hi : s.result i = none)
    (hfree : ∀ r phase a, ghosts i = turn r phase → phase.command env r = some a →
      (s.world.perform i [] a).isSome = true) :
    ∃ s' ghosts', Enqueueing.step env s (.call i []) = some s' ∧ Racing env v₀ s' ghosts' ∧
      s'.threads.length = s.threads.length ∧ remaining s' ghosts' < remaining s ghosts := by
  obtain ⟨r, phase, a, cont, ht, hphase, hcommand⟩ := h.running hlt hi
  obtain ⟨⟨reply, world⟩, hp⟩ := Option.isSome_iff_exists.mp (hfree r phase a hphase hcommand)
  have hp' : Enqueueing.machine.perform i [] a s.world = some (reply, world) := hp
  obtain ⟨s', hs', hstep⟩ : ∃ s', Called Enqueueing.machine s s' i [] r a cont reply ∧
      Enqueueing.step env s (.call i []) = some s' := by
    refine ⟨{ world, threads := s.threads.set i ⟨r, cont reply⟩,
              trace := ⟨i, a, reply, s.world, world⟩ :: s.trace }, ⟨ht, hp', rfl, rfl⟩, ?_⟩
    show s.call Enqueueing.machine i [] = _
    unfold Pool.call
    rw [ht]
    dsimp only
    rw [hp']
    rfl
  obtain ⟨phase', next, hphase', hcommand', hafter, hadv⟩ := h.advanced hs'
  exact ⟨s', _, hstep, h.call hs' hphase' hcommand' hafter hadv, hs'.length,
    remaining_call hlt hs'.length hphase' (rank_after hafter)⟩

/-- While a request is under way, some request can go on. -/
theorem Racing.progress (h : Racing env v₀ s ghosts) (hlt : i < s.threads.length)
    (hi : s.result i = none) :
    ∃ j s' ghosts', Enqueueing.step env s (.call j []) = some s' ∧ Racing env v₀ s' ghosts' ∧
      s'.threads.length = s.threads.length ∧ remaining s' ghosts' < remaining s ghosts := by
  by_cases hfree : ∀ r phase a, ghosts i = turn r phase → phase.command env r = some a →
      (s.world.perform i [] a).isSome = true
  · obtain ⟨s', ghosts', hgoes⟩ := h.goes_on hlt hi hfree
    exact ⟨i, s', ghosts', hgoes⟩
  · -- it waits for one that is about to commit, and a commit never waits
    push Not at hfree
    obtain ⟨r, phase, a, hphase, hcommand, hheld⟩ := hfree
    obtain ⟨j, r', m, hj⟩ := (h.free hphase hcommand).resolve_left hheld
    have hltj : j < s.threads.length := by
      by_contra hge
      rw [h.governed.idle j (by omega)] at hj
      cases hj
    have hrunning : s.result j = none := by
      cases hresult : s.result j with
      | none => rfl
      | some result =>
        obtain ⟨task, ht⟩ := Foundations.result_eq_some hresult
        have hover : turn task (.ended result) = turn r' (.committing m) :=
          (h.governed.returned ht).symm.trans hj
        cases hover
    obtain ⟨s', ghosts', hgoes⟩ := h.goes_on hltj hrunning fun r₁ phase₁ a₁ h₁ hc₁ => by
      obtain ⟨rfl, rfl⟩ := Turn.mk.inj (Option.some.inj (hj.symm.trans h₁))
      obtain rfl := Option.some.inj hc₁
      rfl
    exact ⟨j, s', ghosts', hgoes⟩

/-- From wherever requests are, calls alone bring every one of them to its answer. -/
theorem Racing.ends (h : Racing env v₀ s ghosts) :
    ∃ (js : List Nat) (s' : Enqueueing), runs (Enqueueing.step env) s (js.map fun j => .call j []) = some s' ∧
      s'.threads.length = s.threads.length ∧ ∀ i < s'.threads.length, (s'.result i).isSome := by
  induction hn : remaining s ghosts using Nat.strongRecOn generalizing s ghosts with
  | _ n ih =>
    by_cases hall : ∀ i < s.threads.length, (s.result i).isSome
    · exact ⟨[], s, rfl, rfl, hall⟩
    · push Not at hall
      obtain ⟨i, hlt, hi⟩ := hall
      obtain ⟨j, mid, ghosts', hstep, hmid, hlength, hless⟩ :=
        h.progress hlt (Option.not_isSome_iff_eq_none.mp hi)
      obtain ⟨js, s', hruns, hlength', hreturned⟩ := ih _ (hn ▸ hless) hmid rfl
      refine ⟨j :: js, s', ?_, hlength'.trans hlength, hreturned⟩
      show (Enqueueing.step env s (.call j [])).bind _ = _
      rw [hstep]
      exact hruns

end Progress

/-! ## Idempotent enqueueing -/

section Claim

variable {env : Env} {v₀ : Versions Row} {key : String} {s : Enqueueing}

/-- However requests interleave, a key has one message, every request with it is answered as the
first one was or refused, none leaves another message behind, and all of them can end. -/
theorem enqueue_idempotent (hinj : Function.Injective env.sha256) (h₀ : Consistent v₀)
    (hkey : key ≠ "") (hnew : ∀ record ∈ Enqueueing.keys v₀, record.key ≠ key)
    {ls : List Enqueueing.Label}
    (hrun : runs (Enqueueing.step env) (Pool.start v₀) ls = some s) :
    Idempotent v₀ key s ∧ ∃ (js : List Nat) (s' : Enqueueing),
      runs (Enqueueing.step env) s (js.map fun j => .call j []) = some s' ∧
        Idempotent v₀ key s' ∧ s'.threads.length = s.threads.length ∧
          ∀ i < s'.threads.length, (s'.result i).isSome := by
  obtain ⟨ghosts, h⟩ := racing_runs h₀ hrun
  refine ⟨h.idempotent hinj hkey hnew, ?_⟩
  obtain ⟨js, s', hruns, hlength, hreturned⟩ := h.ends
  have hwhole : runs (Enqueueing.step env) (Pool.start v₀) (ls ++ js.map fun j => .call j []) =
      some s' := by
    rw [Foundations.runs_append, hrun]
    exact hruns
  obtain ⟨ghosts', h'⟩ := racing_runs h₀ hwhole
  exact ⟨js, s', hruns, h'.idempotent hinj hkey hnew, hlength, hreturned⟩

theorem consistent_empty : Consistent ⟨[], 0⟩ where
  quiet _ hslot := absurd hslot List.not_mem_nil
  unique := List.Pairwise.nil
  numbered _ hm := absurd hm List.not_mem_nil
  linked _ hr := absurd hr List.not_mem_nil

def sampleInput (body : String) : SendEmailInput where
  recipient := "ada@example.com"
  subject := "Welcome"
  body := body
  bodyType := .TEXT
  source := "auth"

def sampleRequest (body : String) : SendRequest where
  input := sampleInput body
  properties := (sampleInput body).properties
  same := .refl _
  idempotencyKey := some "signup-17"
  at_ := 5

/-- The same request, its properties in another order. -/
def sampleRetry (body : String) : SendRequest where
  input := sampleInput body
  properties := (sampleInput body).properties.reverse
  same := List.reverse_perm _
  idempotencyKey := some "signup-17"
  at_ := 6

def racing : List Enqueueing.Label :=
  [.spawn (sampleRequest "Hello"), .spawn (sampleRetry "Hello"), .spawn (sampleRequest "Hi"),
    .call 0 [], .call 1 [], .call 0 [], .call 1 [], .call 1 [], .call 1 [], .call 0 [], .call 0 [],
    .call 0 [], .call 0 [], .call 0 [], .call 2 [], .call 2 [], .call 2 []]

/-- Two requests look the key up before either has written it, and a third sends something else. -/
theorem enqueue_idempotent_race :
    ∃ s, runs (Enqueueing.step sampleEnv) (Pool.start ⟨[], 0⟩) racing = some s ∧
      ((Enqueueing.messages s.world).length = 1 ∧ s.result 2 = some (.error (.ConflictError
        "Idempotency-Key 'signup-17' was already used for a different message"))) ∧
      Idempotent ⟨[], 0⟩ "signup-17" s := by
  have hrun : (runs (Enqueueing.step sampleEnv) (Pool.start ⟨[], 0⟩) racing).any (fun s =>
      decide ((Enqueueing.messages s.world).length = 1 ∧ s.result 2 = some (.error (.ConflictError
        "Idempotency-Key 'signup-17' was already used for a different message")))) = true := by
    decide +kernel
  obtain ⟨s, hs, hanswers⟩ := (Option.any_eq_true _ _).mp hrun
  have hinj : Function.Injective sampleEnv.sha256 := fun _ _ h => h
  exact ⟨s, hs, of_decide_eq_true hanswers, (enqueue_idempotent hinj consistent_empty (by decide)
    (fun _ hr => absurd hr List.not_mem_nil) hs).1⟩

end Claim

end PracticalMicroservice.Email
