import PracticalMicroservice.Email.Proofs.EnqueueProofs

/-!
# Proofs: a key has one message

What a request has read stays true, and what it has written nobody else has: the message of a key
keeps what it says, and a second key row waits for the first and then repeats it. Each access of a
request takes it to its next phase, and leaves the others where they are.
-/

namespace PracticalMicroservice.Email

open Foundations (Access AllSteps Called DatabaseError Governed Keyed Pool Slot Store Versions runs)

/-! ## The tables, and where a request stands in them -/

section Placed

variable (env : Env) (v₀ v v' : Versions Row) (i : Nat) (r : SendRequest)

/-- The tables while requests are under way. -/
structure Sound : Prop where
  fresh : v.InsertOnly
  unique : v.Unique
  numbered : ∀ m, .message m ∈ v.versions → m.id < v.nextKey
  keyed : ∀ record, .key record ∈ v.versions → record.emailMessageId < v.nextKey
  stored : ∀ record, .key record ∈ v.rows → ∃ m, .message m ∈ v.rows ∧
    m.id = record.emailMessageId ∧ (record.key ∉ (Enqueueing.keys v₀).map (·.key) →
      record.requestFingerprint = fingerprint env m.payload.properties)

/-- A message is there, whatever became of it. -/
def Shown (m : EmailMessage) : Prop :=
  ∃ m', .message m' ∈ v.rows ∧ m'.id = m.id ∧ m'.payload = m.payload

/-- A key row is there that is the one of the request. -/
def Taken (record : IdempotencyKey) : Prop :=
  .key record ∈ v.rows ∧ ∃ own ∈ r.record? env, record.key = own.key

/-- A key row is there, and the message read for it. -/
def Replays (record : IdempotencyKey) (m : EmailMessage) : Prop :=
  Taken env v r record ∧ m.id = record.emailMessageId ∧ Shown v m

/-- What the answer of a request says of the tables. -/
def Answered (result : Except AppError EnqueueResult) : Prop :=
  (∃ m, result = .ok { message := m, replayed := false } ∧ m.payload = r.input ∧ Shown v m ∧
    ∀ own ∈ r.record? env, .key (Outbox.newKey own m) ∈ v.rows) ∨
  ∃ record m, result = r.replay env record m ∧ Replays env v r record m

/-- What a request has written, and what it knows, in each of its phases. -/
def Placed : Phase → Prop
  | .looking | .drafting => v.writtenBy i = []
  | .keying m => v.writtenBy i = [.message m] ∧ m.payload = r.input ∧
    ∀ record, .key record ∈ v.versions → record.emailMessageId ≠ m.id
  | .committing m =>
    v.writtenBy i = .message m :: ((r.record? env).map fun own => .key (Outbox.newKey own m)).toList ∧
      m.payload = r.input
  | .losing m => v.writtenBy i = [.message m] ∧ ∃ record, Taken env v r record
  | .lookingAgain => v.writtenBy i = [] ∧ ∃ record, Taken env v r record
  | .found record => v.writtenBy i = [] ∧ Taken env v r record
  | .closing record m => v.writtenBy i = [] ∧ Replays env v r record m
  | .ended result => v.writtenBy i = [] ∧ Answered env v r result

/-- No row goes, and a message goes on saying what it says. -/
structure Grows : Prop where
  keys : ∀ record, .key record ∈ v.rows → .key record ∈ v'.rows
  messages : ∀ m, .message m ∈ v.rows → Shown v' m

/-- A request has gone on to its next phase. -/
structure Advanced (next : Phase) : Prop where
  sound : Sound env v₀ v'
  placed : Placed env v' i r next
  grows : Grows v v'
  others : ∀ j, j ≠ i → v'.writtenBy j = v.writtenBy j
  keyed : ∀ record, .key record ∈ v'.versions → .key record ∈ v.versions ∨
    ∃ m, .message m ∈ v.writtenBy i ∧ record.emailMessageId = m.id

end Placed

section Facts

variable {env : Env} {v₀ v v' : Versions Row} {i j : Nat} {r : SendRequest} {m m' : EmailMessage}
  {record record' : IdempotencyKey} {phase next : Phase} {order : List Nat}

theorem shown_of_mem (h : .message m ∈ v.rows) : Shown v m := ⟨m, h, rfl, rfl⟩

theorem Grows.refl : Grows v v := ⟨fun _ h => h, fun _ h => shown_of_mem h⟩

theorem grows_of_subset (h : v.rows ⊆ v'.rows) : Grows v v' :=
  ⟨fun _ hr => h hr, fun _ hm => shown_of_mem (h hm)⟩

theorem Grows.shown (h : Grows v v') (hm : Shown v m) : Shown v' m := by
  obtain ⟨old, hold, hid, hpayload⟩ := hm
  obtain ⟨new, hnew, hid', hpayload'⟩ := h.messages old hold
  exact ⟨new, hnew, hid'.trans hid, hpayload'.trans hpayload⟩

theorem Grows.taken (h : Grows v v') (ht : Taken env v r record) : Taken env v' r record :=
  ⟨h.keys record ht.1, ht.2⟩

theorem Grows.replays (h : Grows v v') (hr : Replays env v r record m) :
    Replays env v' r record m :=
  ⟨h.taken hr.1, hr.2.1, h.shown hr.2.2⟩

theorem Grows.answered (h : Grows v v') {result : Except AppError EnqueueResult}
    (ha : Answered env v r result) : Answered env v' r result := by
  rcases ha with ⟨m, hr, hp, hs, hk⟩ | ⟨record, m, hr, hreplays⟩
  · exact .inl ⟨m, hr, hp, h.shown hs, fun own hown => h.keys _ (hk own hown)⟩
  · exact .inr ⟨record, m, hr, h.replays hreplays⟩

/-- Where a request stands, it stands after a step of another. -/
theorem Placed.mono (h : Placed env v i r phase) (hg : Grows v v')
    (hw : v'.writtenBy i = v.writtenBy i)
    (hk : ∀ m, .message m ∈ v.writtenBy i → (∀ record, .key record ∈ v.versions →
      record.emailMessageId ≠ m.id) → ∀ record, .key record ∈ v'.versions →
        record.emailMessageId ≠ m.id) : Placed env v' i r phase := by
  cases phase with
  | looking => exact hw.trans h
  | drafting => exact hw.trans h
  | keying m =>
    obtain ⟨hwritten, hpayload, hfree⟩ := h
    exact ⟨hw.trans hwritten, hpayload, hk m (by rw [hwritten]; exact List.mem_cons_self) hfree⟩
  | committing m => exact ⟨hw.trans h.1, h.2⟩
  | losing m =>
    obtain ⟨hwritten, record, ht⟩ := h
    exact ⟨hw.trans hwritten, record, hg.taken ht⟩
  | lookingAgain =>
    obtain ⟨hwritten, record, ht⟩ := h
    exact ⟨hw.trans hwritten, record, hg.taken ht⟩
  | found record => exact ⟨hw.trans h.1, hg.taken h.2⟩
  | closing record m => exact ⟨hw.trans h.1, hg.replays h.2⟩
  | ended result => exact ⟨hw.trans h.1, hg.answered h.2⟩

theorem clash_messages (h : Row.clash (.message m) (.message m') = none ∨
    Row.clash (.message m') (.message m) = none) : m.id ≠ m'.id := by
  intro he
  rcases h with h | h
  · exact nomatch (if_pos he).symm.trans h
  · exact nomatch (if_pos he.symm).symm.trans h

theorem clash_keys (h : Row.clash (.key record) (.key record') = none ∨
    Row.clash (.key record') (.key record) = none) : record.key ≠ record'.key := by
  intro he
  rcases h with h | h
  · exact nomatch (if_pos he).symm.trans h
  · exact nomatch (if_pos he.symm).symm.trans h

theorem Sound.key_unique (h : Sound env v₀ v) (hr : .key record ∈ v.rows)
    (hr' : .key record' ∈ v.rows) (hk : record.key = record'.key) : record = record' := by
  rcases h.unique.eq_or_clash hr hr' with he | hc
  · exact Row.key.inj he
  · exact absurd hk (clash_keys hc)

theorem Sound.message_unique (h : Sound env v₀ v) (hm : .message m ∈ v.rows)
    (hm' : .message m' ∈ v.rows) (hid : m.id = m'.id) : m = m' := by
  rcases h.unique.eq_or_clash hm hm' with he | hc
  · exact Row.message.inj he
  · exact absurd hid (clash_messages hc)

/-- An access that writes nothing. -/
theorem advanced_of_read (h : Sound env v₀ v) (hp : Placed env v i r next) :
    Advanced env v₀ v v i r next :=
  ⟨h, hp, .refl, fun _ _ => rfl, fun _ hr => .inl hr⟩

end Facts

section Steps

variable {env : Env} {v₀ v v' : Versions Row} {i j : Nat} {r : SendRequest} {m m' : EmailMessage}
  {record : IdempotencyKey} {phase next : Phase} {order : List Nat}

/-! ### Insert, commit and rollback -/

theorem Sound.insert (h : Sound env v₀ v) {new : Row} (ha : v.awaits i new = false)
    (hc : Store.clashes (v.seenBy i) new = none)
    (hnumber : ∀ m, new = .message m → m.id < v.nextKey + 1)
    (hkey : ∀ record, new = .key record → record.emailMessageId < v.nextKey + 1) :
    Sound env v₀ (v.insert i new) where
  fresh := Versions.insertOnly_insert h.fresh new
  unique := Versions.unique_insert h.unique fun row hrow =>
    Versions.clash_eq_none h.fresh ha hc hrow
  numbered m hm := by
    rcases Versions.mem_versions_insert.mp hm with hm | hm
    · exact Nat.lt_succ_of_lt (h.numbered m hm)
    · exact hnumber m hm.symm
  keyed record hr := by
    rcases Versions.mem_versions_insert.mp hr with hr | hr
    · exact Nat.lt_succ_of_lt (h.keyed record hr)
    · exact hkey record hr.symm
  stored := by
    rw [Versions.rows_insert]
    exact h.stored

theorem Sound.commit (h : Sound env v₀ v)
    (hw : ∀ record, .key record ∈ v.writtenBy i → ∃ m, .message m ∈ v.writtenBy i ∧
      m.id = record.emailMessageId ∧
        record.requestFingerprint = fingerprint env m.payload.properties) :
    Sound env v₀ (v.commit i) where
  fresh := Versions.insertOnly_commit h.fresh
  unique := Versions.unique_commit h.unique
  numbered m hm := h.numbered m (Versions.versions_commit_subset hm)
  keyed record hr := h.keyed record (Versions.versions_commit_subset hr)
  stored record hr := by
    rw [Versions.rows_commit] at hr ⊢
    rcases (Versions.mem_seenBy h.fresh).mp hr with hr | hr
    · obtain ⟨m, hm, hid, hf⟩ := h.stored record hr
      exact ⟨m, (Versions.mem_seenBy h.fresh).mpr (.inl hm), hid, hf⟩
    · obtain ⟨m, hm, hid, hf⟩ := hw record hr
      exact ⟨m, (Versions.mem_seenBy h.fresh).mpr (.inr hm), hid, fun _ => hf⟩

theorem Sound.rollback (h : Sound env v₀ v) : Sound env v₀ (v.rollback i) where
  fresh := Versions.insertOnly_rollback h.fresh
  unique := Versions.unique_rollback h.unique
  numbered m hm := h.numbered m (Versions.versions_rollback_subset hm)
  keyed record hr := h.keyed record (Versions.versions_rollback_subset hr)
  stored := by
    rw [Versions.rows_rollback]
    exact h.stored

theorem grows_insert (new : Row) : Grows v (v.insert i new) :=
  grows_of_subset (Versions.rows_insert new ▸ fun _ h => h)

theorem grows_commit (h : v.InsertOnly) : Grows v (v.commit i) := by
  refine grows_of_subset fun row hrow => ?_
  rw [Versions.rows_commit]
  exact (Versions.mem_seenBy h).mpr (.inl hrow)

theorem grows_rollback : Grows v (v.rollback i) :=
  grows_of_subset fun row hrow => by
    rw [Versions.rows_rollback]
    exact hrow

/-- A transaction that has written nothing sees what is committed. -/
theorem mem_seenBy_reader (h : Sound env v₀ v) (hw : v.writtenBy i = []) {row : Row} :
    row ∈ v.seenBy i ↔ row ∈ v.rows := by
  rw [Versions.mem_seenBy h.fresh, hw]
  exact or_iff_left (List.not_mem_nil)

/-- What a lookup reads, it reads of the table. -/
theorem of_mem_lookup {own : IdempotencyRecord} {rows : List Row}
    (hrows : rows = (v.seenBy i).filter (Row.isKey (·.key = own.key))) :
    record ∈ rows.filterMap Row.key? ↔ .key record ∈ v.seenBy i ∧ record.key = own.key := by
  subst hrows
  rw [filterMap_isKey, List.mem_filter]
  refine and_congr ?_ decide_eq_true_iff
  refine ⟨fun hm => ?_, fun hm => List.mem_filterMap.mpr ⟨_, hm, rfl⟩⟩
  obtain ⟨row, hrow, hkey⟩ := List.mem_filterMap.mp hm
  cases row with
  | message m => cases hkey
  | key found => exact Option.some.inj hkey ▸ hrow

/-! ### Phase by phase -/

/-- A lookup finds no key, or the one it looked for. -/
theorem looked {own : IdempotencyRecord} {rows : List Row} (absent : Option Phase)
    (h : Sound env v₀ v) (hown : r.record? env = some own) (hw : v.writtenBy i = [])
    (hrows : rows = (v.seenBy i).filter (Row.isKey (·.key = own.key))) :
    (Phase.lookedUp absent rows = absent ∧ ∀ record, ¬ Taken env v r record) ∨
      ∃ record, Phase.lookedUp absent rows = some (.found record) ∧ Taken env v r record := by
  unfold Phase.lookedUp
  cases hkeys : rows.filterMap Row.key? with
  | nil =>
    refine .inl ⟨rfl, fun record ⟨hrecord, own', hown', hkey⟩ => ?_⟩
    obtain rfl := Option.some.inj (hown.symm.trans hown')
    have hmem : record ∈ rows.filterMap Row.key? :=
      (of_mem_lookup hrows).mpr ⟨(mem_seenBy_reader h hw).mpr hrecord, hkey⟩
    rw [hkeys] at hmem
    cases hmem
  | cons record more =>
    obtain ⟨hseen, hkey⟩ := (of_mem_lookup hrows).mp (hkeys ▸ List.mem_cons_self)
    exact .inr ⟨record, rfl, (mem_seenBy_reader h hw).mp hseen, own, hown, hkey⟩

theorem advance_looking {a : Access Row} {reply : a.Reply} (h : Sound env v₀ v)
    (hw : v.writtenBy i = []) (hc : Phase.looking.command env r = some a)
    (hp : v.perform i order a = some (reply, v')) :
    ∃ next, Phase.looking.after env r a reply = some next ∧ Advanced env v₀ v v' i r next := by
  obtain ⟨own, hown, rfl⟩ := Option.map_eq_some_iff.mp hc
  cases hp
  rcases looked (some .drafting) h hown hw rfl with ⟨hnext, -⟩ | ⟨record, hnext, ht⟩
  · exact ⟨.drafting, hnext, advanced_of_read h hw⟩
  · exact ⟨.found record, hnext, advanced_of_read h ⟨hw, ht⟩⟩

theorem advance_lookingAgain {a : Access Row} {reply : a.Reply} (h : Sound env v₀ v)
    (hw : v.writtenBy i = []) (ht : Taken env v r record)
    (hc : Phase.lookingAgain.command env r = some a)
    (hp : v.perform i order a = some (reply, v')) :
    ∃ next, Phase.lookingAgain.after env r a reply = some next ∧
      Advanced env v₀ v v' i r next := by
  obtain ⟨own, hown, rfl⟩ := Option.map_eq_some_iff.mp hc
  cases hp
  rcases looked none h hown hw rfl with ⟨-, hnone⟩ | ⟨record, hnext, ht⟩
  · exact absurd ht (hnone record)
  · exact ⟨.found record, hnext, advanced_of_read h ⟨hw, ht⟩⟩

theorem advance_drafting {a : Access Row} {reply : a.Reply} (h : Sound env v₀ v)
    (hw : v.writtenBy i = []) (hc : Phase.drafting.command env r = some a)
    (hp : v.perform i order a = some (reply, v')) :
    ∃ next, Phase.drafting.after env r a reply = some next ∧ Advanced env v₀ v v' i r next := by
  obtain rfl := Option.some.inj hc
  obtain ⟨ha, ⟨fields, hclash, -⟩ | ⟨hclash, rfl, rfl⟩⟩ := Versions.perform_insert hp
  · obtain ⟨row, hrow, hsome⟩ := List.exists_of_findSome?_eq_some hclash
    cases row with
    | key record => cases hsome
    | message old =>
      have hlt := h.numbered old (Versions.mem_versions.mpr
        (((Versions.mem_seenBy h.fresh).mp hrow).imp id fun hold => ⟨i, hold⟩))
      have hid : v.nextKey ≠ old.id := by omega
      exact nomatch (if_neg hid).symm.trans hsome
  · generalize hm : Outbox.newMessage r.at_ (r.draft env) v.nextKey = m at ha hclash ⊢
    have hid : m.id = v.nextKey := hm ▸ rfl
    have hpayload : m.payload = r.input := hm ▸ rfl
    have hsound : Sound env v₀ (v.insert i (.message m)) := by
      refine h.insert ha hclash (fun m' hm' => ?_) fun record hr => nomatch hr
      rw [← Row.message.inj hm', hid]
      exact Nat.lt_succ_self _
    have hwritten : (v.insert i (.message m)).writtenBy i = [.message m] := by
      rw [Versions.writtenBy_insert, hw, if_pos rfl]
      rfl
    have hkeyed : ∀ record, .key record ∈ (v.insert i (.message m)).versions →
        .key record ∈ v.versions := fun record hr =>
      (Versions.mem_versions_insert.mp hr).resolve_right fun he => nomatch he
    refine ⟨_, rfl, hsound, ?_, grows_insert _, fun j hj => ?_, fun record hr =>
      .inl (hkeyed record hr)⟩
    · cases hr : r.record? env with
      | none =>
        refine ⟨?_, hpayload⟩
        rw [hwritten, hr]
        rfl
      | some own =>
        refine ⟨hwritten, hpayload, fun record hrecord => ?_⟩
        have := h.keyed record (hkeyed record hrecord)
        omega
    · rw [Versions.writtenBy_insert, if_neg (Ne.symm hj), List.append_nil]

theorem advance_keying {a : Access Row} {reply : a.Reply} (h : Sound env v₀ v)
    (hplaced : Placed env v i r (.keying m)) (hc : (Phase.keying m).command env r = some a)
    (hp : v.perform i order a = some (reply, v')) :
    ∃ next, (Phase.keying m).after env r a reply = some next ∧
      Advanced env v₀ v v' i r next := by
  obtain ⟨hw, hpayload, hfree⟩ := hplaced
  obtain ⟨own, hown, rfl⟩ := Option.map_eq_some_iff.mp hc
  have hmem : .message m ∈ v.writtenBy i := by
    rw [hw]
    exact List.mem_cons_self
  obtain ⟨ha, ⟨fields, hclash, rfl, hsame⟩ | ⟨hclash, rfl, rfl⟩⟩ := Versions.perform_insert hp
  · subst v'
    -- the row it repeats is a key row of another, and its message is not this one
    obtain ⟨row, hrow, hsome⟩ := List.exists_of_findSome?_eq_some hclash
    cases row with
    | message old => cases hsome
    | key old =>
      have hversion : .key old ∈ v.versions := Versions.mem_versions.mpr
        (((Versions.mem_seenBy h.fresh).mp hrow).imp id fun hold => ⟨i, hold⟩)
      have hkey : own.key = old.key := by
        by_contra hne
        have hid : m.id ≠ old.emailMessageId := (hfree old hversion).symm
        exact nomatch ((if_neg hne).trans (if_neg hid)).symm.trans hsome
      have hcommitted : .key old ∈ v.rows := by
        rcases (Versions.mem_seenBy h.fresh).mp hrow with hr | hr
        · exact hr
        · rw [hw] at hr
          exact nomatch List.mem_singleton.mp hr
      exact ⟨.losing m, rfl, advanced_of_read h ⟨hw, old, hcommitted, own, hown, hkey.symm⟩⟩
  · have hlt := h.numbered m (Versions.mem_versions.mpr (.inr ⟨i, hmem⟩))
    have hsound : Sound env v₀ (v.insert i (.key (Outbox.newKey own m))) := by
      refine h.insert ha hclash (fun m' hm' => nomatch hm') fun record hr => ?_
      rw [← Row.key.inj hr]
      exact Nat.lt_succ_of_lt hlt
    refine ⟨.committing m, rfl, hsound, ⟨?_, hpayload⟩, grows_insert _, fun j hj => ?_,
      fun record hr => ?_⟩
    · rw [Versions.writtenBy_insert, hw, if_pos rfl, hown]
      rfl
    · rw [Versions.writtenBy_insert, if_neg (Ne.symm hj), List.append_nil]
    · rcases Versions.mem_versions_insert.mp hr with hr | hr
      · exact .inl hr
      · exact .inr ⟨m, hmem, by rw [Row.key.inj hr]; rfl⟩

theorem fingerprint_input : fingerprint env r.input.properties = fingerprint env r.properties := by
  have hkeys : (r.input.properties.map Prod.fst).Nodup := properties_keys r.input
  exact congrArg env.sha256 ((Foundations.Json.canonical_eq_iff hkeys).mpr r.same.symm)

theorem advance_committing {a : Access Row} {reply : a.Reply} (h : Sound env v₀ v)
    (hplaced : Placed env v i r (.committing m))
    (hc : (Phase.committing m).command env r = some a)
    (hp : v.perform i order a = some (reply, v')) :
    ∃ next, (Phase.committing m).after env r a reply = some next ∧
      Advanced env v₀ v v' i r next := by
  obtain ⟨hw, hpayload⟩ := hplaced
  obtain rfl := Option.some.inj hc
  cases hp
  have hmem : .message m ∈ v.writtenBy i := by
    rw [hw]
    exact List.mem_cons_self
  have hown : ∀ record, .key record ∈ v.writtenBy i ↔
      ∃ own ∈ r.record? env, Outbox.newKey own m = record := by
    intro record
    rw [hw]
    cases r.record? env with
    | none => simp
    | some own => simp [eq_comm]
  have hsees : ∀ row, row ∈ v.writtenBy i → row ∈ (v.commit i).rows := by
    intro row hrow
    rw [Versions.rows_commit]
    exact (Versions.mem_seenBy h.fresh).mpr (.inr hrow)
  have hsound : Sound env v₀ (v.commit i) := by
    refine h.commit fun record hrecord => ?_
    obtain ⟨own, hmine, rfl⟩ := (hown record).mp hrecord
    refine ⟨m, hmem, rfl, ?_⟩
    obtain ⟨key, -, rfl⟩ := Option.map_eq_some_iff.mp hmine
    rw [hpayload]
    exact fingerprint_input.symm
  refine ⟨_, rfl, hsound, ⟨?_, ?_⟩, grows_commit h.fresh, fun j hj => ?_, fun record hr => ?_⟩
  · rw [Versions.writtenBy_commit, if_pos rfl]
  · refine .inl ⟨m, rfl, hpayload, shown_of_mem (hsees _ hmem), fun own hmine => ?_⟩
    exact hsees _ ((hown _).mpr ⟨own, hmine, rfl⟩)
  · rw [Versions.writtenBy_commit, if_neg hj]
  · exact .inl (Versions.versions_commit_subset hr)

theorem advance_losing {a : Access Row} {reply : a.Reply} (h : Sound env v₀ v)
    (ht : Taken env v r record) (hc : (Phase.losing m).command env r = some a)
    (hp : v.perform i order a = some (reply, v')) :
    ∃ next, (Phase.losing m).after env r a reply = some next ∧
      Advanced env v₀ v v' i r next := by
  obtain rfl := Option.some.inj hc
  cases hp
  refine ⟨_, rfl, h.rollback, ⟨?_, record, grows_rollback.taken ht⟩, grows_rollback,
    fun j hj => ?_, fun record hr => .inl (Versions.versions_rollback_subset hr)⟩
  · rw [Versions.writtenBy_rollback, if_pos rfl]
  · rw [Versions.writtenBy_rollback, if_neg hj]

theorem advance_found {a : Access Row} {reply : a.Reply} (h : Sound env v₀ v)
    (hw : v.writtenBy i = []) (ht : Taken env v r record)
    (hc : (Phase.found record).command env r = some a)
    (hp : v.perform i order a = some (reply, v')) :
    ∃ next, (Phase.found record).after env r a reply = some next ∧
      Advanced env v₀ v v' i r next := by
  obtain rfl := Option.some.inj hc
  cases hp
  obtain ⟨m, hm, hid, -⟩ := h.stored record ht.1
  have hread : ∀ m, m ∈ ((v.seenBy i).filter
      (Row.isMessage (·.id = record.emailMessageId))).filterMap Row.message? ↔
        .message m ∈ v.rows ∧ m.id = record.emailMessageId := by
    intro m
    rw [filterMap_isMessage, List.mem_filter, ← mem_seenBy_reader h hw]
    refine and_congr ⟨fun hm => ?_, fun hm => List.mem_filterMap.mpr ⟨_, hm, rfl⟩⟩
      decide_eq_true_iff
    obtain ⟨row, hrow, hmessage⟩ := List.mem_filterMap.mp hm
    cases row with
    | key record => cases hmessage
    | message found => exact Option.some.inj hmessage ▸ hrow
  unfold Phase.after
  dsimp only
  cases hmessages : ((v.seenBy i).filter
      (Row.isMessage (·.id = record.emailMessageId))).filterMap Row.message? with
  | nil =>
    have hmem := (hread m).mpr ⟨hm, hid⟩
    rw [hmessages] at hmem
    cases hmem
  | cons first more =>
    obtain ⟨hfirst, hid'⟩ := (hread first).mp (hmessages ▸ List.mem_cons_self)
    exact ⟨.closing record first, rfl, advanced_of_read h ⟨hw, ht, hid', shown_of_mem hfirst⟩⟩

theorem advance_closing {a : Access Row} {reply : a.Reply} (h : Sound env v₀ v)
    (hw : v.writtenBy i = []) (hreplays : Replays env v r record m)
    (hc : (Phase.closing record m).command env r = some a)
    (hp : v.perform i order a = some (reply, v')) :
    ∃ next, (Phase.closing record m).after env r a reply = some next ∧
      Advanced env v₀ v v' i r next := by
  obtain rfl := Option.some.inj hc
  cases hp
  have hsound : Sound env v₀ (v.commit i) := h.commit fun record hr => by
    rw [hw] at hr
    cases hr
  refine ⟨_, rfl, hsound, ⟨?_, ?_⟩, grows_commit h.fresh, fun j hj => ?_, fun record hr => ?_⟩
  · rw [Versions.writtenBy_commit, if_pos rfl]
  · exact .inr ⟨record, m, rfl, (grows_commit h.fresh).replays hreplays⟩
  · rw [Versions.writtenBy_commit, if_neg hj]
  · exact .inl (Versions.versions_commit_subset hr)

/-- An access of a request takes it to the next phase. -/
theorem advance {a : Access Row} {reply : a.Reply} (h : Sound env v₀ v)
    (hplaced : Placed env v i r phase) (hc : phase.command env r = some a)
    (hp : v.perform i order a = some (reply, v')) :
    ∃ next, phase.after env r a reply = some next ∧ Advanced env v₀ v v' i r next := by
  cases phase with
  | looking => exact advance_looking h hplaced hc hp
  | drafting => exact advance_drafting h hplaced hc hp
  | keying m => exact advance_keying h hplaced hc hp
  | committing m => exact advance_committing h hplaced hc hp
  | losing m =>
    obtain ⟨-, record, ht⟩ := hplaced
    exact advance_losing h ht hc hp
  | lookingAgain =>
    obtain ⟨hw, record, ht⟩ := hplaced
    exact advance_lookingAgain h hw ht hc hp
  | found record => exact advance_found h hplaced.1 hplaced.2 hc hp
  | closing record m => exact advance_closing h hplaced.1 hplaced.2 hc hp
  | ended result => cases hc

/-! ### The dispatcher and the operators -/

theorem change_id (b : Bookkeeping) : (b.change m).id = m.id := by
  cases b <;> rfl

theorem change_payload (b : Bookkeeping) : (b.change m).payload = m.payload := by
  cases b <;> rfl

theorem clash_change_left (b : Bookkeeping) (row : Row) :
    Row.clash (.message (b.change m)) row = Row.clash (.message m) row := by
  cases row with
  | key record => rfl
  | message old =>
    show (if (b.change m).id = old.id then _ else _) = if m.id = old.id then _ else _
    rw [change_id]

theorem clash_change_right (b : Bookkeeping) (row : Row) :
    Row.clash row (.message (b.change m)) = Row.clash row (.message m) := by
  cases row with
  | key record => rfl
  | message new =>
    show (if new.id = (b.change m).id then _ else _) = if new.id = m.id then _ else _
    rw [change_id]

/-- The slots around the row that a move rewrites. -/
theorem rewrite_cases {index : Nat} {b : Bookkeeping} (h : rewrite index b v = some v') :
    ∃ before m after, v.slots = before ++ ⟨some (.message m), none⟩ :: after ∧
      v' = { v with slots := before ++ ⟨some (.message (b.change m)), none⟩ :: after } := by
  unfold rewrite at h
  split at h
  · rename_i m hslot
    cases h
    obtain ⟨hlt, hget⟩ := List.getElem?_eq_some_iff.mp hslot
    obtain ⟨before, after, hslots, -, hset⟩ : ∃ before after,
        v.slots = before ++ v.slots[index] :: after ∧ before.length = index ∧
          v.slots.set index ⟨some (.message (b.change m)), none⟩ =
            before ++ ⟨some (.message (b.change m)), none⟩ :: after := List.exists_of_set hlt
    rw [hget] at hslots
    exact ⟨before, m, after, hslots, by rw [hset]⟩
  · cases h

section Rewrite

variable {before after : List (Slot Row)} {b : Bookkeeping} {nextKey : Nat}

theorem writtenBy_rewrite (m m' : EmailMessage) :
    Versions.writtenBy ⟨before ++ ⟨some (.message m), none⟩ :: after, nextKey⟩ j =
      Versions.writtenBy ⟨before ++ ⟨some (.message m'), none⟩ :: after, nextKey⟩ j := by
  unfold Versions.writtenBy
  rw [List.filterMap_append, List.filterMap_append]
  rfl

theorem mem_rows_rewrite {row : Row} :
    row ∈ Versions.rows ⟨before ++ ⟨some (.message m), none⟩ :: after, nextKey⟩ ↔
      row = .message m ∨ row ∈ Versions.rows ⟨before ++ after, nextKey⟩ := by
  unfold Versions.rows
  rw [List.filterMap_append, List.filterMap_append]
  simp only [List.filterMap_cons, List.mem_append, List.mem_cons]
  exact or_left_comm

theorem mem_versions_rewrite {row : Row} :
    row ∈ Versions.versions ⟨before ++ ⟨some (.message m), none⟩ :: after, nextKey⟩ ↔
      row = .message m ∨ row ∈ Versions.versions ⟨before ++ after, nextKey⟩ := by
  unfold Versions.versions
  rw [List.flatMap_append, List.flatMap_append]
  simp only [List.flatMap_cons, Slot.versions, Option.toList_some, Option.map_none,
    Option.toList_none, List.append_nil, List.singleton_append, List.mem_append, List.mem_cons]
  exact or_left_comm

/-- No row repeats another for being rewritten. -/
theorem unique_rewrite
    (h : Versions.Unique ⟨before ++ ⟨some (.message m), none⟩ :: after, nextKey⟩) :
    Versions.Unique ⟨before ++ ⟨some (.message (b.change m)), none⟩ :: after, nextKey⟩ := by
  obtain ⟨hbefore, hrest, hacross⟩ := List.pairwise_append.mp h
  obtain ⟨hfirst, hafter⟩ := List.pairwise_cons.mp hrest
  have hold : ∀ row, row ∈ Slot.versions ⟨some (Row.message m), none⟩ ↔ row = .message m := by
    simp [Slot.versions]
  have hnew : ∀ row, row ∈ Slot.versions ⟨some (Row.message (b.change m)), none⟩ ↔
      row = .message (b.change m) := by
    simp [Slot.versions]
  refine List.pairwise_append.mpr ⟨hbefore, List.pairwise_cons.mpr ⟨?_, hafter⟩, ?_⟩
  · intro slot hslot row hrow row' hrow'
    rw [(hnew row).mp hrow]
    exact (clash_change_right b row').trans (hfirst slot hslot _ ((hold _).mpr rfl) row' hrow')
  · intro slot hslot slot' hslot' row hrow row' hrow'
    rcases List.mem_cons.mp hslot' with rfl | hslot'
    · rw [(hnew row').mp hrow']
      exact (clash_change_left b row).trans
        (hacross slot hslot _ List.mem_cons_self row hrow _ ((hold _).mpr rfl))
    · exact hacross slot hslot slot' (List.mem_cons_of_mem _ hslot') row hrow row' hrow'

end Rewrite

/-- What a move does to the tables: nothing that a request would notice. -/
structure Kept (env : Env) (v₀ v v' : Versions Row) : Prop where
  sound : Sound env v₀ v'
  grows : Grows v v'
  written : ∀ j, v'.writtenBy j = v.writtenBy j
  keyed : ∀ record, .key record ∈ v'.versions → .key record ∈ v.versions
  messages : ∀ m, .message m ∈ v'.rows → ∃ m', .message m' ∈ v.rows ∧ m'.id = m.id
  keys : ∀ record, .key record ∈ v'.rows → .key record ∈ v.rows

theorem kept_of_rewrite {index : Nat} {b : Bookkeeping} (h : Sound env v₀ v)
    (hm : rewrite index b v = some v') : Kept env v₀ v v' := by
  obtain ⟨before, m, after, hslots, rfl⟩ := rewrite_cases hm
  obtain ⟨slots, nextKey⟩ := v
  dsimp only at hslots ⊢
  subst hslots
  have hgrows : Grows ⟨before ++ ⟨some (.message m), none⟩ :: after, nextKey⟩
      ⟨before ++ ⟨some (.message (b.change m)), none⟩ :: after, nextKey⟩ := by
    refine ⟨fun record hr => mem_rows_rewrite.mpr ((mem_rows_rewrite.mp hr).imp
      (fun he => nomatch he) id), fun old hold => ?_⟩
    rcases mem_rows_rewrite.mp hold with he | hold
    · rw [Row.message.inj he]
      exact ⟨b.change m, mem_rows_rewrite.mpr (.inl rfl), change_id b, change_payload b⟩
    · exact shown_of_mem (mem_rows_rewrite.mpr (.inr hold))
  have hkeyed : ∀ record, Row.key record ∈ Versions.versions
      ⟨before ++ ⟨some (.message (b.change m)), none⟩ :: after, nextKey⟩ → Row.key record ∈
        Versions.versions ⟨before ++ ⟨some (.message m), none⟩ :: after, nextKey⟩ :=
    fun record hr => mem_versions_rewrite.mpr ((mem_versions_rewrite.mp hr).imp
      (fun he => nomatch he) id)
  have hkeys : ∀ record, Row.key record ∈ Versions.rows
      ⟨before ++ ⟨some (.message (b.change m)), none⟩ :: after, nextKey⟩ → Row.key record ∈
        Versions.rows ⟨before ++ ⟨some (.message m), none⟩ :: after, nextKey⟩ :=
    fun record hr => mem_rows_rewrite.mpr ((mem_rows_rewrite.mp hr).imp
      (fun he => nomatch he) id)
  refine ⟨⟨?_, unique_rewrite h.unique, ?_, fun record hr => h.keyed record (hkeyed record hr),
    ?_⟩, hgrows, fun j => (writtenBy_rewrite m (b.change m)).symm, hkeyed, ?_, hkeys⟩
  · intro slot hslot
    rcases List.mem_append.mp hslot with hslot | hslot
    · exact h.fresh slot (List.mem_append_left _ hslot)
    · rcases List.mem_cons.mp hslot with rfl | hslot
      · exact fun hw => nomatch hw
      · exact h.fresh slot (List.mem_append_right _ (List.mem_cons_of_mem _ hslot))
  · intro m' hm'
    rcases mem_versions_rewrite.mp hm' with he | hm'
    · rw [Row.message.inj he, change_id]
      exact h.numbered m (mem_versions_rewrite.mpr (.inl rfl))
    · exact h.numbered m' (mem_versions_rewrite.mpr (.inr hm'))
  · intro record hr
    obtain ⟨old, hold, hid, hf⟩ := h.stored record (hkeys record hr)
    obtain ⟨new, hnew, hid', hpayload⟩ := hgrows.messages old hold
    refine ⟨new, hnew, hid'.trans hid, ?_⟩
    rw [hpayload]
    exact hf
  · intro m' hm'
    rcases mem_rows_rewrite.mp hm' with he | hm'
    · rw [Row.message.inj he]
      exact ⟨m, mem_rows_rewrite.mpr (.inl rfl), (change_id b).symm⟩
    · exact ⟨m', mem_rows_rewrite.mpr (.inr hm'), rfl⟩

end Steps

end PracticalMicroservice.Email
