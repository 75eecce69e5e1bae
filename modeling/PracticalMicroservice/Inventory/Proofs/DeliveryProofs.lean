import PracticalMicroservice.Inventory.Delivery
import PracticalMicroservice.Inventory.Proofs.BulkRefinementProofs

/-!
# Exactly-once consumption

The invariant of the consumer: the messages the broker was given are all still somewhere, and every
delivery that is, or is about to be, acknowledged has its event applied.
-/

namespace PracticalMicroservice.Inventory

open Foundations (Ensures)

/-! ## HTTP requests record no message -/

section Processed

variable {rows : List ProcessedMessage} {db : Database}

theorem create_processed {id : String} {createdAt : Nat} {input : CreateInventoryItemInput}
    (h : db.processedMessages = rows) :
    (Repository.create id createdAt input db).2.processedMessages = rows := by
  refine commit_ensures (P := fun db => db.processedMessages = rows) h ?_
  refine Ensures.get_bind ?_
  refine Ensures.bind _ Tx.writeItems_ensures ?_
  rintro _ db' ⟨-, hp⟩
  split
  · exact Ensures.bind (fun _ t => t.processedMessages = rows)
        (Ensures.modify (hp.trans h)) fun _ _ ht => Ensures.pure ht
  · exact Ensures.pure (hp.trans h)

theorem update_processed {id : String} {input : UpdateInventoryItemInput}
    {actor : Option String} (h : db.processedMessages = rows) :
    (Repository.update id input { actor, validate := Service.validatePatch input }
      db).2.processedMessages = rows := by
  refine commit_ensures (P := fun db => db.processedMessages = rows) h ?_
  refine Ensures.get_bind ?_
  cases db.findById id with
  | none => exact Ensures.throw _
  | some current =>
    show Ensures (liftPlan (Service.validatePatch input current) >>= _) db _
    cases Service.validatePatch input current with
    | error e => exact Ensures.bind (fun _ _ => False) (Ensures.throw _) fun _ _ h => h.elim
    | ok u =>
      refine Ensures.bind (fun _ t => t = db) (Ensures.pure rfl) ?_
      rintro - t rfl
      show Ensures (if _ then _ else _) t _
      split
      · exact Ensures.pure h
      refine Ensures.bind _ Tx.updateItem_ensures fun updated t' hw => ?_
      refine Ensures.bind (fun _ r => r.processedMessages = rows)
        (Ensures.modify (hw.2.trans h)) ?_
      intro _ r hr
      split
      · exact Ensures.bind (fun _ t => t.processedMessages = rows) (Ensures.modify hr)
          fun _ _ ht => Ensures.pure ht
      · exact Ensures.pure hr

theorem delete_processed {id : String} (h : db.processedMessages = rows) :
    (Repository.delete id db).2.processedMessages = rows := by
  refine commit_ensures (P := fun db => db.processedMessages = rows) h ?_
  refine Ensures.get_bind ?_
  cases db.findById id with
  | none => exact Ensures.throw _
  | some item =>
    refine Ensures.get_bind ?_
    refine Ensures.bind _ Tx.writeItems_ensures fun _ db' hw => ?_
    exact Ensures.modify (hw.2.trans h)

theorem applyStockChange_processed {id : String}
    {plan : InventoryItem → Except AppError StockChangePlan} (h : db.processedMessages = rows) :
    (Repository.applyStockChange id plan db).2.processedMessages = rows := by
  cases hf : db.findById id with
  | none => rw [applyStockChange_missing _ hf]; exact h
  | some item =>
    cases hp : plan item with
    | error e => rw [applyStockChange_refused hf hp]; exact h
    | ok next =>
      by_cases hfit : next.levels.Fits
      · rw [applyStockChange_accepted hf hp hfit]; exact h
      · rw [applyStockChange_out_of_range hf hp hfit]; exact h

theorem bulk_processed {t : Transition} {input : BulkStockInput}
    (h : db.processedMessages = rows) : (t.bulk input none db).2.processedMessages = rows := by
  obtain ⟨_, db', hrun, heff, -⟩ | ⟨_, _, hrun, -⟩ | ⟨k, hk, -⟩ := bulk_cases t input none db
  · rw [hrun]
    show db'.processedMessages = rows
    rw [heff.processed, h]
    exact List.append_nil rows
  · rw [hrun]; exact h
  · cases hk

end Processed

theorem processed_kept (rows : List ProcessedMessage) :
    RepositoryKeeps fun db => db.processedMessages = rows where
  create _ _ _ := fun _ h => create_processed h
  update _ _ _ := fun _ h => update_processed h
  delete _ := fun _ h => delete_processed h
  change _ _ _ _ _ _ := fun _ h => applyStockChange_processed h
  bulk _ _ := fun _ h => bulk_processed h

/-! ## One run of the handler -/

namespace StockEventConsumer

/-- The row a transaction of the event leaves in `processed_messages`. -/
def row (event : StockEvent) : ProcessedMessage := (idempotencyKey event).row

/-- Everything a run of the handler can do: leave the database alone, acknowledging only what was
recorded before, or apply the event of the message. -/
theorem handle_cases (fate : TransactionFate) (content : MessageContent) (db : Database) :
    ((handle fate content db).2 = db ∧ ((handle fate content db).1 = .ack →
      ∃ event, parse content = some event ∧ ¬ Fresh db (idempotencyKey event))) ∨
    ∃ event, parse content = some event ∧
      BulkEffect .release (some (idempotencyKey event)) event.payload db
        (handle fate content db).2 ∧
      (handle fate content db).1 ≠ .reject := by
  unfold handle
  cases hp : parse content with
  | none => exact .inl ⟨rfl, fun h => nomatch h⟩
  | some event =>
    cases ht : event.type with
    | fulfil => exact .inl ⟨by simp only [ht], fun h => by simp only [ht] at h; cases h⟩
    | «return» => exact .inl ⟨by simp only [ht], fun h => by simp only [ht] at h; cases h⟩
    | release =>
      simp only [ht, release, releaseMany_eq_bulk]
      obtain ⟨views, db', hrun, heff, -⟩ | ⟨message, failures, hrun, -⟩ | ⟨k, hk, hf, hrun⟩ :=
        bulk_cases .release event.payload (some (idempotencyKey event)) db
      · rw [hrun]
        cases fate with
        | replied => exact .inr ⟨event, rfl, heff, fun h => nomatch h⟩
        | replyLost => exact .inr ⟨event, rfl, heff, fun h => nomatch h⟩
        | unavailable => exact .inl ⟨rfl, fun h => nomatch h⟩
      · rw [hrun]
        cases fate with
        | replied => exact .inl ⟨rfl, fun h => nomatch h⟩
        | replyLost => exact .inl ⟨rfl, fun h => nomatch h⟩
        | unavailable => exact .inl ⟨rfl, fun h => nomatch h⟩
      · cases hk
        rw [hrun]
        cases fate with
        | replied => exact .inl ⟨rfl, fun _ => ⟨event, rfl, hf⟩⟩
        | replyLost => exact .inl ⟨rfl, fun h => nomatch h⟩
        | unavailable => exact .inl ⟨rfl, fun h => nomatch h⟩

end StockEventConsumer

/-! ## What holds of each delivery -/

/-- The event of a message, when it has one, is applied. -/
def EventApplied (applied : List (Nat × StockEvent)) (m : MessageContent) : Prop :=
  ∃ entry ∈ applied, StockEventConsumer.parse m = some entry.2

theorem EventApplied.mono {applied more : List (Nat × StockEvent)} {m : MessageContent}
    (h : EventApplied applied m) : EventApplied (applied ++ more) m := by
  obtain ⟨entry, he, hp⟩ := h
  exact ⟨entry, List.mem_append_left _ he, hp⟩

/-- The invariant of one delivery, at the tag it has. -/
structure DeliveryOk (messages : List MessageContent) (applied : List (Nat × StockEvent))
    (tag : Nat) (d : Delivery) : Prop where
  known : d.message ∈ messages
  handling : d.progress = .handling → d.frame = none ∧ d.custody ≠ .acked ∧
    d.custody ≠ .deadLettered
  acking : d.progress = .settling .ack ∨ d.frame = some .ack ∨ d.custody = .acked →
    EventApplied applied d.message
  rejecting : d.progress = .settling .reject ∨ d.frame = some (.nack false) ∨
    d.custody = .deadLettered → ∀ event, (tag, event) ∉ applied

namespace DeliveryState

/-- The invariant of the deliveries together. -/
structure TagInv (messages : List MessageContent) (s : DeliveryState) : Prop where
  ready : ∀ m ∈ s.ready, m ∈ messages
  dead : ∀ m ∈ s.dead, m ∈ messages
  each : ∀ tag d, s.deliveries[tag]? = some d → DeliveryOk messages s.applied tag d
  logged : ∀ tag event, (tag, event) ∈ s.applied → ∃ d, s.deliveries[tag]? = some d ∧
    StockEventConsumer.parse d.message = some event ∧ d.progress ≠ .handling

section Tags

variable {messages : List MessageContent} {s s' : DeliveryState}

/-- A step that rewrites one delivery, which is not being handled any more, and logs nothing. -/
theorem TagInv.modify {tag : Nat} {d : Delivery} {f : Delivery → Delivery}
    (h : TagInv messages s) (hd : s.deliveries[tag]? = some d)
    (hdel : s'.deliveries = s.deliveries.modify tag f) (happ : s'.applied = s.applied)
    (hready : ∀ m ∈ s'.ready, m ∈ s.ready ∨ m = d.message)
    (hdead : ∀ m ∈ s'.dead, m ∈ s.dead ∨ m = d.message)
    (hmsg : (f d).message = d.message) (hprog : (f d).progress ≠ .handling)
    (hok : DeliveryOk messages s.applied tag (f d)) : TagInv messages s' := by
  have hknown : d.message ∈ messages := (h.each tag d hd).known
  refine ⟨fun m hm => ?_, fun m hm => ?_, ?_, ?_⟩
  · rcases hready m hm with hm | rfl
    · exact h.ready m hm
    · exact hknown
  · rcases hdead m hm with hm | rfl
    · exact h.dead m hm
    · exact hknown
  · intro other d' hd'
    rw [happ]
    rw [hdel, List.getElem?_modify] at hd'
    by_cases ht : tag = other
    · subst ht
      rw [hd] at hd'
      simp only [if_true, Option.map_eq_map, Option.map_some, Option.some.injEq] at hd'
      rw [← hd']
      exact hok
    · simp only [if_neg ht, Option.map_eq_map, Option.map_id_fun', id_eq] at hd'
      exact h.each other d' hd'
  · intro other event he
    rw [happ] at he
    obtain ⟨d', hd', hp, hprog'⟩ := h.logged other event he
    rw [hdel, List.getElem?_modify, hd']
    by_cases ht : tag = other
    · subst ht
      rw [hd] at hd'
      cases hd'
      exact ⟨f d, by simp, hmsg ▸ hp, hprog⟩
    · exact ⟨d', by simp [ht], hp, hprog'⟩

/-- A step that rewrites every delivery in a way its invariant survives, and logs nothing. -/
theorem TagInv.map {f : Delivery → Delivery} (h : TagInv messages s)
    (hdel : s'.deliveries = s.deliveries.map f) (happ : s'.applied = s.applied)
    (hready : ∀ m ∈ s'.ready, m ∈ s.ready ∨ ∃ d ∈ s.deliveries, m = d.message)
    (hdead : s'.dead = s.dead) (hmsg : ∀ d, (f d).message = d.message)
    (hprog : ∀ d, (f d).progress = .handling → d.progress = .handling)
    (hok : ∀ tag d, DeliveryOk messages s.applied tag d →
      DeliveryOk messages s.applied tag (f d)) : TagInv messages s' := by
  refine ⟨fun m hm => ?_, fun m hm => h.dead m (hdead ▸ hm), ?_, ?_⟩
  · rcases hready m hm with hm | ⟨d, hd, rfl⟩
    · exact h.ready m hm
    · obtain ⟨tag, ht⟩ := List.mem_iff_getElem?.mp hd
      exact (h.each tag d ht).known
  · intro tag d' hd'
    rw [hdel, List.getElem?_map] at hd'
    obtain ⟨d, hd, rfl⟩ := Option.map_eq_some_iff.mp hd'
    rw [happ]
    exact hok tag d (h.each tag d hd)
  · intro tag event he
    rw [happ] at he
    obtain ⟨d, hd, hp, hne⟩ := h.logged tag event he
    refine ⟨f d, by rw [hdel, List.getElem?_map, hd]; rfl, by rw [hmsg]; exact hp, ?_⟩
    exact fun hh => hne (hprog d hh)

/-- A step that touches neither the deliveries nor the log. -/
theorem TagInv.frame (h : TagInv messages s) (hdel : s'.deliveries = s.deliveries)
    (happ : s'.applied = s.applied) (hready : ∀ m ∈ s'.ready, m ∈ s.ready ∨ m ∈ s.dead)
    (hdead : ∀ m ∈ s'.dead, m ∈ s.dead) : TagInv messages s' := by
  refine ⟨fun m hm => ?_, fun m hm => h.dead m (hdead m hm), ?_, ?_⟩
  · rcases hready m hm with hm | hm
    · exact h.ready m hm
    · exact h.dead m hm
  · rw [hdel, happ]
    exact h.each
  · rw [hdel, happ]
    exact h.logged

end Tags

/-- The messages of a run: no two share an id, and none was recorded before the run. -/
structure Published (messages : List MessageContent) (db : Database) : Prop where
  distinct : (messages.filterMap fun m => (StockEventConsumer.parse m).map (·.messageId)).Nodup
  fresh : ∀ m ∈ messages, ∀ event, StockEventConsumer.parse m = some event →
    Fresh db (StockEventConsumer.idempotencyKey event)

/-- The recorded messages are those of before the run and the applied ones. -/
def ProcessedInv (db : Database) (s : DeliveryState) : Prop :=
  s.database.processedMessages =
    db.processedMessages ++ s.applied.map fun entry => StockEventConsumer.row entry.2

theorem eq_of_filterMap_nodup {α β : Type} {f : α → Option β} {l : List α} {a b : α} {x : β}
    (hn : (l.filterMap f).Nodup) (ha : a ∈ l) (hb : b ∈ l) (hfa : f a = some x)
    (hfb : f b = some x) : a = b := by
  induction l with
  | nil => cases ha
  | cons y l ih =>
    have hx : ∀ c ∈ l, f c = some x → x ∈ l.filterMap f := fun c hc hfc =>
      List.mem_filterMap.mpr ⟨c, hc, hfc⟩
    cases hy : f y with
    | none =>
      rw [List.filterMap_cons_none hy] at hn
      rcases List.mem_cons.mp ha with rfl | ha'
      · rw [hy] at hfa; cases hfa
      rcases List.mem_cons.mp hb with rfl | hb'
      · rw [hy] at hfb; cases hfb
      exact ih hn ha' hb'
    | some z =>
      rw [List.filterMap_cons_some hy, List.nodup_cons] at hn
      rcases List.mem_cons.mp ha with rfl | ha'
      · rcases List.mem_cons.mp hb with rfl | hb'
        · rfl
        · rw [hfa] at hy
          cases hy
          exact absurd (hx b hb' hfb) hn.1
      · rcases List.mem_cons.mp hb with rfl | hb'
        · rw [hfb] at hy
          cases hy
          exact absurd (hx a ha' hfa) hn.1
        · exact ih hn.2 ha' hb'

section Handle

variable {messages : List MessageContent} {db : Database} {s : DeliveryState}

/-- A message the database refuses as a duplicate is one the run applied. -/
theorem eventApplied_of_taken (hpub : Published messages db) (h : TagInv messages s)
    (hproc : ProcessedInv db s) {m : MessageContent} (hm : m ∈ messages) {event : StockEvent}
    (hp : StockEventConsumer.parse m = some event)
    (ht : ¬ Fresh s.database (StockEventConsumer.idempotencyKey event)) :
    EventApplied s.applied m := by
  unfold Fresh at ht
  rw [not_not, hproc, List.map_append, List.mem_append] at ht
  rcases ht with ht | ht
  · exact absurd ht (hpub.fresh m hm event hp)
  · obtain ⟨r, hr, hid⟩ := List.mem_map.mp ht
    obtain ⟨entry, he, rfl⟩ := List.mem_map.mp hr
    obtain ⟨tag, event'⟩ := entry
    obtain ⟨d, hd, hpd, -⟩ := h.logged tag event' he
    have hid' : event'.messageId = event.messageId := hid
    have heq : m = d.message := by
      refine eq_of_filterMap_nodup hpub.distinct hm (h.each tag d hd).known
        (x := event.messageId) ?_ ?_
      · rw [hp]; rfl
      · rw [hpd, ← hid']; rfl
    exact ⟨(tag, event'), he, heq ▸ hpd⟩

/-- The two outcomes of a `handle` step: nothing is applied, or the delivery's event is. -/
theorem handle_step (tag : Nat) (fate : StockEventConsumer.TransactionFate) (d : Delivery) :
    ((s.handle tag fate d).database = s.database ∧ (s.handle tag fate d).applied = s.applied ∧
      ((StockEventConsumer.handle fate d.message s.database).1 = .ack →
        ∃ event, StockEventConsumer.parse d.message = some event ∧
          ¬ Fresh s.database (StockEventConsumer.idempotencyKey event))) ∨
    ∃ event, StockEventConsumer.parse d.message = some event ∧
      BulkEffect .release (some (StockEventConsumer.idempotencyKey event)) event.payload
        s.database (s.handle tag fate d).database ∧
      (s.handle tag fate d).applied = s.applied ++ [(tag, event)] ∧
      (StockEventConsumer.handle fate d.message s.database).1 ≠ .reject := by
  rcases StockEventConsumer.handle_cases fate d.message s.database with
    ⟨hdb, hack⟩ | ⟨event, hp, heff, hrej⟩
  · refine .inl ⟨hdb, ?_, hack⟩
    have hrec : recorded s.database (StockEventConsumer.handle fate d.message s.database).2 =
        false := by
      rw [hdb]
      simp [recorded]
    have hlog : logEntry tag d.message s.database
        (StockEventConsumer.handle fate d.message s.database).2 = [] := by
      unfold logEntry
      rw [hrec]
      cases StockEventConsumer.parse d.message <;> rfl
    show s.applied ++ logEntry _ _ _ _ = _
    rw [hlog, List.append_nil]
  · refine .inr ⟨event, hp, heff, ?_, hrej⟩
    have hrec : recorded s.database (StockEventConsumer.handle fate d.message s.database).2 =
        true := by
      unfold recorded
      rw [heff.processed]
      simp
    show s.applied ++ logEntry _ _ _ _ = _
    unfold logEntry
    rw [hp, hrec]
    rfl

theorem handle_deliveries (tag : Nat) (fate : StockEventConsumer.TransactionFate) (d : Delivery) :
    (s.handle tag fate d).deliveries = s.deliveries.modify tag fun d' =>
      { d' with progress :=
          .settling (StockEventConsumer.handle fate d.message s.database).1 } := rfl

theorem TagInv.handle (hpub : Published messages db) (h : TagInv messages s)
    (hproc : ProcessedInv db s) {tag : Nat} {d : Delivery} (hd : s.deliveries[tag]? = some d)
    (hrun : d.progress = .handling) (fate : StockEventConsumer.TransactionFate) :
    TagInv messages (s.handle tag fate d) ∧ ProcessedInv db (s.handle tag fate d) := by
  have hok := h.each tag d hd
  obtain ⟨hframe, hacked, hdead⟩ := hok.handling hrun
  set outcome := (StockEventConsumer.handle fate d.message s.database).1 with houtcome
  have hquiet : ∀ event, (tag, event) ∉ s.applied := by
    intro event he
    obtain ⟨d', hd', -, hne⟩ := h.logged tag event he
    rw [hd] at hd'
    cases hd'
    exact hne hrun
  rcases handle_step (s := s) tag fate d with ⟨hdb, happ, hack⟩ | ⟨event, hp, heff, happ, hrej⟩
  · refine ⟨?_, ?_⟩
    · refine h.modify hd (handle_deliveries tag fate d) happ (fun m hm => .inl hm)
        (fun m hm => .inl hm) rfl (fun hh => by cases hh) ⟨hok.known, fun hh => (by cases hh), ?_, ?_⟩
      · rintro (hh | hh | hh)
        · have hout : outcome = .ack := by injection hh
          obtain ⟨event, hp, ht⟩ := hack hout
          exact eventApplied_of_taken hpub h hproc hok.known hp ht
        · rw [hframe] at hh; cases hh
        · exact absurd hh hacked
      · intro _
        exact hquiet
    · unfold ProcessedInv
      rw [hdb, happ]
      exact hproc
  · have happlied : EventApplied (s.handle tag fate d).applied d.message := by
      rw [happ]
      exact ⟨(tag, event), by simp, hp⟩
    refine ⟨⟨h.ready, h.dead, ?_, ?_⟩, ?_⟩
    · intro other d' hd'
      rw [handle_deliveries, List.getElem?_modify] at hd'
      by_cases ht : tag = other
      · subst ht
        rw [hd] at hd'
        simp only [if_true, Option.map_eq_map, Option.map_some, Option.some.injEq] at hd'
        subst hd'
        refine ⟨hok.known, fun hh => (by cases hh), fun _ => happlied, ?_⟩
        rintro (hh | hh | hh)
        · have hout : outcome = .reject := by injection hh
          exact absurd hout hrej
        · rw [hframe] at hh; cases hh
        · exact absurd hh hdead
      · simp only [if_neg ht, Option.map_eq_map, Option.map_id_fun', id_eq] at hd'
        have hok' := h.each other d' hd'
        refine ⟨hok'.known, hok'.handling, fun hh => ?_, fun hh event' he => ?_⟩
        · rw [happ]
          exact (hok'.acking hh).mono
        · rw [happ, List.mem_append, List.mem_singleton] at he
          rcases he with he | he
          · exact hok'.rejecting hh event' he
          · cases he
            exact ht rfl
    · intro other event' he
      rw [happ, List.mem_append, List.mem_singleton] at he
      rcases he with he | he
      · obtain ⟨d', hd', hp', hne⟩ := h.logged other event' he
        have ht : tag ≠ other := by
          rintro rfl
          exact hquiet event' he
        exact ⟨d', by rw [handle_deliveries, List.getElem?_modify, hd']; simp [ht], hp', hne⟩
      · cases he
        refine ⟨{ d with progress := .settling outcome }, ?_, hp, fun hh => by cases hh⟩
        rw [handle_deliveries, List.getElem?_modify, hd]
        simp [houtcome]
    · unfold ProcessedInv
      rw [heff.processed, hproc, happ, List.map_append, List.append_assoc]
      rfl

end Handle

section Steps

variable {messages : List MessageContent} {s s' : DeliveryState}

/-- `process` after the handler keeps the invariant: what is settled is what the handler decided. -/
theorem TagInv.settle (h : TagInv messages s) {tag : Nat} {d : Delivery}
    (hd : s.deliveries[tag]? = some d) {outcome : ConsumeOutcome}
    (hprog : d.progress = .settling outcome) : TagInv messages (s.settle tag d outcome) := by
  have hok := h.each tag d hd
  unfold DeliveryState.settle
  split
  · refine h.modify hd rfl rfl (fun m hm => .inl hm) (fun m hm => .inl hm) rfl (by simp)
      ⟨hok.known, fun hh => (by cases hh), ?_, ?_⟩
    · rintro (hh | hh)
      · cases hh
      · exact hok.acking (.inr hh)
    · rintro (hh | hh)
      · cases hh
      · exact hok.rejecting (.inr hh)
  · cases outcome with
    | ack =>
      refine h.modify hd rfl rfl (fun m hm => .inl hm) (fun m hm => .inl hm) rfl (by simp)
        ⟨hok.known, fun hh => (by cases hh), fun _ => hok.acking (.inl hprog), ?_⟩
      rintro (hh | hh | hh)
      · cases hh
      · cases hh
      · exact hok.rejecting (.inr (.inr hh))
    | reject =>
      refine h.modify hd rfl rfl (fun m hm => .inl hm) (fun m hm => .inl hm) rfl (by simp)
        ⟨hok.known, fun hh => (by cases hh), ?_, fun _ => hok.rejecting (.inl hprog)⟩
      rintro (hh | hh | hh)
      · cases hh
      · cases hh
      · exact hok.acking (.inr (.inr hh))
    | requeue =>
      refine h.modify hd rfl rfl (fun m hm => .inl hm) (fun m hm => .inl hm) rfl (by simp)
        ⟨hok.known, fun hh => (by cases hh), ?_, ?_⟩
      · rintro (hh | hh)
        · cases hh
        · exact hok.acking (.inr hh)
      · rintro (hh | hh)
        · cases hh
        · exact hok.rejecting (.inr hh)

theorem TagInv.wake (h : TagInv messages s) {tag : Nat} {d : Delivery}
    (hd : s.deliveries[tag]? = some d) : TagInv messages (s.wake tag d) := by
  have hok := h.each tag d hd
  unfold DeliveryState.wake
  split
  · refine h.modify hd rfl rfl (fun m hm => .inl hm) (fun m hm => .inl hm) rfl (by simp)
      ⟨hok.known, fun hh => (by cases hh), ?_, ?_⟩
    · rintro (hh | hh)
      · cases hh
      · exact hok.acking (.inr hh)
    · rintro (hh | hh)
      · cases hh
      · exact hok.rejecting (.inr hh)
  · refine h.modify hd rfl rfl (fun m hm => .inl hm) (fun m hm => .inl hm) rfl (by simp)
      ⟨hok.known, fun hh => (by cases hh), ?_, ?_⟩
    · rintro (hh | hh | hh)
      · cases hh
      · cases hh
      · exact hok.acking (.inr (.inr hh))
    · rintro (hh | hh | hh)
      · cases hh
      · cases hh
      · exact hok.rejecting (.inr (.inr hh))

/-- What the broker does with a settle is what was sent. -/
theorem TagInv.readFrame (h : TagInv messages s) {tag : Nat} {d : Delivery}
    (hd : s.deliveries[tag]? = some d) {frame : Settle} (hf : d.frame = some frame) :
    TagInv messages (s.readFrame tag d frame) := by
  have hok := h.each tag d hd
  have hprog : d.progress ≠ .handling := fun hh => by
    have := (hok.handling hh).1
    rw [hf] at this
    cases this
  unfold DeliveryState.readFrame
  split
  · refine h.modify hd rfl rfl (fun m hm => .inl hm) (fun m hm => .inl hm) rfl hprog
      ⟨hok.known, fun hh => absurd hh hprog, ?_, ?_⟩
    · rintro (hh | hh | hh)
      · exact hok.acking (.inl hh)
      · cases hh
      · exact hok.acking (.inr (.inr hh))
    · rintro (hh | hh | hh)
      · exact hok.rejecting (.inl hh)
      · cases hh
      · exact hok.rejecting (.inr (.inr hh))
  · cases frame with
    | ack =>
      refine h.modify hd rfl rfl (fun m hm => .inl hm) (fun m hm => .inl hm) rfl hprog
        ⟨hok.known, fun hh => absurd hh hprog, fun _ => hok.acking (.inr (.inl hf)), ?_⟩
      rintro (hh | hh | hh)
      · exact hok.rejecting (.inl hh)
      · cases hh
      · cases hh
    | nack requeue =>
      cases requeue with
      | false =>
        refine h.modify hd rfl rfl (fun m hm => .inl hm) ?_ rfl hprog
          ⟨hok.known, fun hh => absurd hh hprog, ?_, fun _ => hok.rejecting (.inr (.inl hf))⟩
        · intro m hm
          rcases List.mem_append.mp hm with hm | hm
          · exact .inl hm
          · exact .inr (List.mem_singleton.mp hm)
        · rintro (hh | hh | hh)
          · exact hok.acking (.inl hh)
          · cases hh
          · cases hh
      | true =>
        refine h.modify hd rfl rfl ?_ (fun m hm => .inl hm) rfl hprog
          ⟨hok.known, fun hh => absurd hh hprog, ?_, ?_⟩
        · intro m hm
          rcases List.mem_append.mp hm with hm | hm
          · exact .inl hm
          · exact .inr (List.mem_singleton.mp hm)
        · rintro (hh | hh | hh)
          · exact hok.acking (.inl hh)
          · cases hh
          · cases hh
        · rintro (hh | hh | hh)
          · exact hok.rejecting (.inl hh)
          · cases hh
          · cases hh

theorem TagInv.loseChannel (h : TagInv messages s) (channel : Nat) :
    TagInv messages (s.loseChannel channel) := by
  refine h.map (f := fun d => if d.channel = channel ∧ d.custody = .unacked then
    { d with custody := .requeued, frame := none } else d) rfl rfl ?_ rfl ?_ ?_ ?_
  · intro m hm
    rcases List.mem_append.mp hm with hm | hm
    · exact .inl hm
    · obtain ⟨d, hd, rfl⟩ := List.mem_map.mp hm
      exact .inr ⟨d, (List.mem_filter.mp hd).1, rfl⟩
  · intro d
    split <;> rfl
  · intro d hh
    split at hh <;> exact hh
  · intro tag d hok
    split
    · refine ⟨hok.known, fun hh => ⟨rfl, by simp, by simp⟩, ?_, ?_⟩
      · rintro (hh | hh | hh)
        · exact hok.acking (.inl hh)
        · cases hh
        · cases hh
      · rintro (hh | hh | hh)
        · exact hok.rejecting (.inl hh)
        · cases hh
        · cases hh
    · exact hok

theorem TagInv.crash (h : TagInv messages s) (consumer : Nat) :
    TagInv messages (s.crash consumer) := by
  refine h.map (f := fun d => if d.consumer = consumer then { d with progress := .done } else d)
    rfl rfl (fun m hm => .inl hm) rfl ?_ ?_ ?_
  · intro d
    split <;> rfl
  · intro d hh
    split at hh
    · cases hh
    · exact hh
  · intro tag d hok
    split
    · refine ⟨hok.known, fun hh => (by cases hh), ?_, ?_⟩
      · rintro (hh | hh)
        · cases hh
        · exact hok.acking (.inr hh)
      · rintro (hh | hh)
        · cases hh
        · exact hok.rejecting (.inr hh)
    · exact hok

theorem TagInv.deliver (h : TagInv messages s) {consumer index channel : Nat}
    {message : MessageContent} (hm : s.ready[index]? = some message)
    (hready : s'.ready = s.ready.eraseIdx index) (hdead : s'.dead = s.dead)
    (happ : s'.applied = s.applied)
    (hdel : s'.deliveries = s.deliveries ++
      [{ consumer, channel, message, progress := .handling, frame := none,
         custody := .unacked }]) : TagInv messages s' := by
  have hknown : message ∈ messages := h.ready message (List.mem_of_getElem? hm)
  have hquiet : ∀ event, (s.deliveries.length, event) ∉ s.applied := by
    intro event he
    obtain ⟨d, hd, -⟩ := h.logged _ _ he
    have := (List.getElem?_eq_some_iff.mp hd).1
    omega
  refine ⟨fun m hm' => h.ready m ?_, fun m hm' => h.dead m (hdead ▸ hm'), ?_, ?_⟩
  · rw [hready] at hm'
    exact List.mem_of_mem_eraseIdx hm'
  · intro tag d hd
    rw [hdel, List.getElem?_append] at hd
    rw [happ]
    split at hd
    · exact h.each tag d hd
    · rename_i hlen
      have htag : tag = s.deliveries.length := by
        have := (List.getElem?_eq_some_iff.mp hd).1
        simp only [List.length_singleton] at this
        omega
      subst htag
      simp only [Nat.sub_self, List.getElem?_cons_zero, Option.some.injEq] at hd
      subst hd
      refine ⟨hknown, fun _ => ⟨rfl, by simp, by simp⟩, ?_, fun _ => hquiet⟩
      rintro (hh | hh | hh) <;> cases hh
  · intro tag event he
    rw [happ] at he
    obtain ⟨d, hd, hp, hne⟩ := h.logged tag event he
    refine ⟨d, ?_, hp, hne⟩
    rw [hdel, List.getElem?_append_left (List.getElem?_eq_some_iff.mp hd).1]
    exact hd

end Steps

/-! ## No message is lost -/

/-- What the broker knows of a delivery. -/
def custodyOf (d : Delivery) : Custody × MessageContent := (d.custody, d.message)

/-- How many deliveries of a message the broker has in the given custody. -/
def held (s : DeliveryState) (custody : Custody) (m : MessageContent) : Nat :=
  (s.deliveries.map custodyOf).count (custody, m)

/-- Every copy of a message is queued, in flight, dead-lettered or acknowledged. -/
def CountInv (messages : List MessageContent) (s : DeliveryState) : Prop :=
  ∀ m, s.ready.count m + s.dead.count m + s.held .unacked m + s.held .acked m =
    messages.count m

theorem map_modify_of_eq {α β : Type} {g : α → β} {f : α → α} (h : ∀ x, g (f x) = g x)
    (l : List α) (i : Nat) : (l.modify i f).map g = l.map g := by
  induction l generalizing i with
  | nil => cases i <;> rfl
  | cons x l ih =>
    cases i with
    | zero => simp [h]
    | succ i => simp [ih]

/-- Rewriting one element moves one unit of the count. -/
theorem count_map_modify {α β : Type} [BEq β] {g : α → β} {f : α → α} {l : List α}
    {i : Nat} {x : α} (hx : l[i]? = some x) (b : β) :
    ((l.modify i f).map g).count b + (if g x == b then 1 else 0) =
      (l.map g).count b + (if g (f x) == b then 1 else 0) := by
  induction l generalizing i with
  | nil => cases hx
  | cons y l ih =>
    cases i with
    | zero =>
      cases hx
      simp only [List.modify_zero_cons, List.map_cons, List.count_cons]
      omega
    | succ i =>
      have := ih hx
      simp only [List.modify_succ_cons, List.map_cons, List.count_cons]
      omega

/-- Giving an unacked delivery another custody moves one copy of its message. -/
theorem held_update {s : DeliveryState} {tag : Nat} {d : Delivery} {f : Delivery → Delivery}
    (hd : s.deliveries[tag]? = some d) (hc : d.custody = .unacked)
    (hmsg : (f d).message = d.message) (hne : (f d).custody ≠ .unacked) (m : MessageContent) :
    (s.update tag f).held .unacked m + (if d.message = m then 1 else 0) = s.held .unacked m ∧
    (s.update tag f).held .acked m =
      s.held .acked m + (if (f d).custody = .acked ∧ d.message = m then 1 else 0) := by
  have h1 := count_map_modify (g := custodyOf) (f := f) hd (.unacked, m)
  have h2 := count_map_modify (g := custodyOf) (f := f) hd (.acked, m)
  have e1 : custodyOf d = (.unacked, d.message) := by rw [custodyOf, hc]
  have e2 : custodyOf (f d) = ((f d).custody, d.message) := by rw [custodyOf, hmsg]
  simp only [e1, e2, beq_iff_eq, Prod.mk.injEq, hne, false_and, if_false, true_and,
    reduceCtorEq] at h1 h2
  exact ⟨h1, h2⟩

section Counts

variable {messages : List MessageContent} {s s' : DeliveryState}

/-- A step that leaves the queues and every custody alone. -/
theorem CountInv.same (h : CountInv messages s) (hready : s'.ready = s.ready)
    (hdead : s'.dead = s.dead)
    (hdel : s'.deliveries.map custodyOf = s.deliveries.map custodyOf) : CountInv messages s' := by
  intro m
  unfold held
  rw [hready, hdead, hdel]
  exact h m

theorem CountInv.update (h : CountInv messages s) {tag : Nat} {f : Delivery → Delivery}
    (hf : ∀ d, custodyOf (f d) = custodyOf d) : CountInv messages (s.update tag f) :=
  h.same rfl rfl (map_modify_of_eq hf _ _)

theorem CountInv.settle (h : CountInv messages s) (tag : Nat) (d : Delivery)
    (outcome : ConsumeOutcome) : CountInv messages (s.settle tag d outcome) := by
  unfold DeliveryState.settle
  split
  · exact h.update fun _ => rfl
  · cases outcome with
    | ack => exact h.update fun _ => rfl
    | reject => exact h.update fun _ => rfl
    | requeue => exact h.update fun _ => rfl

theorem CountInv.wake (h : CountInv messages s) (tag : Nat) (d : Delivery) :
    CountInv messages (s.wake tag d) := by
  unfold DeliveryState.wake
  split
  · exact h.update fun _ => rfl
  · exact h.update fun _ => rfl

theorem CountInv.readFrame (h : CountInv messages s) {tag : Nat} {d : Delivery}
    (hd : s.deliveries[tag]? = some d) (frame : Settle) :
    CountInv messages (s.readFrame tag d frame) := by
  unfold DeliveryState.readFrame
  by_cases hc : d.custody = .unacked
  · rw [if_neg (not_not.mpr hc)]
    intro m
    have hm := h m
    cases frame with
    | ack =>
      obtain ⟨h1, h2⟩ := held_update (f := fun d => { d with frame := none, custody := .acked })
        hd hc rfl (by simp) m
      simp only [true_and] at h2
      show s.ready.count m + s.dead.count m + held (s.update tag _) _ m +
        held (s.update tag _) _ m = _
      omega
    | nack requeue =>
      cases requeue with
      | false =>
        obtain ⟨h1, h2⟩ := held_update
          (f := fun d => { d with frame := none, custody := .deadLettered }) hd hc rfl (by simp) m
        simp only [reduceCtorEq, false_and, if_false] at h2
        show s.ready.count m + (s.dead ++ [d.message]).count m +
          held (s.update tag _) _ m + held (s.update tag _) _ m = _
        rw [List.count_append, List.count_singleton]
        simp only [beq_iff_eq]
        omega
      | true =>
        obtain ⟨h1, h2⟩ := held_update
          (f := fun d => { d with frame := none, custody := .requeued }) hd hc rfl (by simp) m
        simp only [reduceCtorEq, false_and, if_false] at h2
        show (s.ready ++ [d.message]).count m + s.dead.count m +
          held (s.update tag _) _ m + held (s.update tag _) _ m = _
        rw [List.count_append, List.count_singleton]
        simp only [beq_iff_eq]
        omega
  · rw [if_pos hc]
    exact h.update fun _ => rfl

/-- The unacked deliveries of a lost channel go back to the queue, each with its message. -/
theorem held_lose (l : List Delivery) (channel : Nat) (m : MessageContent) :
    ((l.map fun d => if d.channel = channel ∧ d.custody = .unacked then
        { d with custody := Custody.requeued, frame := none } else d).map custodyOf).count
        (.unacked, m) +
      ((l.filter fun d => d.channel = channel ∧ d.custody = .unacked).map (·.message)).count m =
      (l.map custodyOf).count (.unacked, m) ∧
    ((l.map fun d => if d.channel = channel ∧ d.custody = .unacked then
        { d with custody := Custody.requeued, frame := none } else d).map custodyOf).count
        (.acked, m) = (l.map custodyOf).count (.acked, m) := by
  induction l with
  | nil => exact ⟨rfl, rfl⟩
  | cons d l ih =>
    by_cases hd : d.channel = channel ∧ d.custody = .unacked
    · simp only [List.map_cons, if_pos hd, List.count_cons, List.filter_cons, decide_eq_true hd,
        if_true]
      have e1 : custodyOf d = (.unacked, d.message) := by rw [custodyOf, hd.2]
      simp only [custodyOf, hd.2, beq_iff_eq, Prod.mk.injEq, reduceCtorEq, false_and, if_false,
        true_and] at ih ⊢
      omega
    · simp only [List.map_cons, if_neg hd, List.count_cons, List.filter_cons,
        decide_eq_false hd] at ih ⊢
      simp only [Bool.false_eq_true, if_false]
      omega

theorem CountInv.loseChannel (h : CountInv messages s) (channel : Nat) :
    CountInv messages (s.loseChannel channel) := by
  intro m
  obtain ⟨h1, h2⟩ := held_lose s.deliveries channel m
  have hm := h m
  unfold held at hm
  show (s.ready ++ (s.unackedOn channel).map (·.message)).count m + s.dead.count m +
    List.count _ (List.map custodyOf _) + List.count _ (List.map custodyOf _) = _
  rw [List.count_append]
  unfold DeliveryState.unackedOn
  simp only [DeliveryState.loseChannel] at *
  omega

theorem CountInv.crash (h : CountInv messages s) (consumer : Nat) :
    CountInv messages (s.crash consumer) := by
  refine h.same rfl rfl ?_
  show (s.deliveries.map _).map custodyOf = _
  rw [List.map_map]
  refine List.map_congr_left fun d _ => ?_
  simp only [Function.comp_apply]
  split <;> rfl

theorem count_eraseIdx {l : List MessageContent} {i : Nat} {x : MessageContent}
    (hx : l[i]? = some x) (m : MessageContent) :
    (l.eraseIdx i).count m + (if x = m then 1 else 0) = l.count m := by
  obtain ⟨hlt, hget⟩ := List.getElem?_eq_some_iff.mp hx
  have hperm := (List.getElem_cons_eraseIdx_perm hlt).count_eq m
  rw [hget, List.count_cons] at hperm
  simpa using hperm

theorem CountInv.deliver (h : CountInv messages s) {consumer index channel : Nat}
    {message : MessageContent} (hm : s.ready[index]? = some message)
    (hready : s'.ready = s.ready.eraseIdx index) (hdead : s'.dead = s.dead)
    (hdel : s'.deliveries = s.deliveries ++
      [{ consumer, channel, message, progress := .handling, frame := none,
         custody := .unacked }]) : CountInv messages s' := by
  intro m
  have hcount := count_eraseIdx hm m
  have hbefore := h m
  unfold held at hbefore ⊢
  rw [hready, hdead, hdel, List.map_append, List.count_append, List.count_append]
  rw [List.map_singleton, List.count_singleton, List.count_singleton]
  show (s.ready.eraseIdx index).count m + s.dead.count m +
    (_ + if (Custody.unacked, message) == (Custody.unacked, m) then 1 else 0) +
    (_ + if (Custody.unacked, message) == (Custody.acked, m) then 1 else 0) = _
  simp only [beq_iff_eq, Prod.mk.injEq, true_and, reduceCtorEq, false_and, if_false]
  omega

theorem CountInv.shovel (h : CountInv messages s) {index : Nat} {message : MessageContent}
    (hm : s.dead[index]? = some message) (hready : s'.ready = s.ready ++ [message])
    (hdead : s'.dead = s.dead.eraseIdx index) (hdel : s'.deliveries = s.deliveries) :
    CountInv messages s' := by
  intro m
  have hcount := count_eraseIdx hm m
  have hbefore := h m
  unfold held at hbefore ⊢
  rw [hready, hdead, hdel, List.count_append, List.count_singleton]
  simp only [beq_iff_eq]
  omega

end Counts

/-! ## Every step and every run -/

/-- The invariant of the whole system. -/
structure Inv (messages : List MessageContent) (db : Database) (s : DeliveryState) : Prop where
  tags : TagInv messages s
  counts : CountInv messages s
  processed : ProcessedInv db s

section Runs

variable {messages : List MessageContent} {db : Database} {s s' : DeliveryState}

theorem inv_initial : Inv messages db (initial messages db) where
  tags :=
    { ready := fun _ hm => hm
      dead := fun _ hm => by cases hm
      each := fun _ _ hd => by cases hd
      logged := fun _ _ he => by cases he }
  counts := fun m => by simp [initial, held]
  processed := (List.append_nil _).symm

theorem ProcessedInv.same (h : ProcessedInv db s) (hdb : s'.database = s.database)
    (happ : s'.applied = s.applied) : ProcessedInv db s' := by
  unfold ProcessedInv
  rw [hdb, happ]
  exact h

theorem settle_database (s : DeliveryState) (tag : Nat) (d : Delivery)
    (outcome : ConsumeOutcome) : (s.settle tag d outcome).database = s.database ∧
      (s.settle tag d outcome).applied = s.applied := by
  unfold DeliveryState.settle
  split
  · exact ⟨rfl, rfl⟩
  · cases outcome <;> exact ⟨rfl, rfl⟩

theorem wake_database (s : DeliveryState) (tag : Nat) (d : Delivery) :
    (s.wake tag d).database = s.database ∧ (s.wake tag d).applied = s.applied := by
  unfold DeliveryState.wake
  split <;> exact ⟨rfl, rfl⟩

theorem readFrame_database (s : DeliveryState) (tag : Nat) (d : Delivery) (frame : Settle) :
    (s.readFrame tag d frame).database = s.database ∧
      (s.readFrame tag d frame).applied = s.applied := by
  unfold DeliveryState.readFrame
  split
  · exact ⟨rfl, rfl⟩
  · rcases frame with _ | _ | _ <;> exact ⟨rfl, rfl⟩

/-- One step, whatever it is, keeps the invariant. -/
theorem inv_step (hpub : Published messages db) {label : DeliveryLabel}
    (h : Inv messages db s) (hstep : s.step label = some s') : Inv messages db s' := by
  cases label with
  | connect consumer =>
    simp only [step] at hstep
    split at hstep
    · cases hstep
      exact ⟨h.tags.frame rfl rfl (fun m hm => .inl hm) fun m hm => hm,
        h.counts.same rfl rfl rfl, h.processed⟩
    · cases hstep
  | deliver consumer index =>
    simp only [step] at hstep
    split at hstep
    · rename_i channel message hch hm
      split at hstep
      · cases hstep
      · cases hstep
        exact ⟨h.tags.deliver hm rfl rfl rfl rfl, h.counts.deliver hm rfl rfl rfl, h.processed⟩
    · cases hstep
  | handle tag fate =>
    simp only [step] at hstep
    split at hstep
    · rename_i d hd
      split at hstep
      · rename_i hrun
        cases hstep
        obtain ⟨htags, hproc⟩ := h.tags.handle hpub h.processed hd hrun fate
        refine ⟨htags, h.counts.same rfl rfl ?_, hproc⟩
        rw [handle_deliveries]
        refine map_modify_of_eq (fun d => ?_) _ _
        rfl
      · cases hstep
    · cases hstep
  | settle tag =>
    simp only [step] at hstep
    split at hstep
    · rename_i d hd
      split at hstep
      · rename_i outcome hprog
        cases hstep
        obtain ⟨hdb, happ⟩ := settle_database s tag d outcome
        exact ⟨h.tags.settle hd hprog, h.counts.settle tag d outcome, h.processed.same hdb happ⟩
      · cases hstep
    · cases hstep
  | wake tag =>
    simp only [step] at hstep
    split at hstep
    · rename_i d hd
      split at hstep
      · cases hstep
        obtain ⟨hdb, happ⟩ := wake_database s tag d
        exact ⟨h.tags.wake hd, h.counts.wake tag d, h.processed.same hdb happ⟩
      · cases hstep
    · cases hstep
  | frame tag =>
    simp only [step] at hstep
    split at hstep
    · rename_i d hd
      split at hstep
      · rename_i frame hf
        cases hstep
        obtain ⟨hdb, happ⟩ := readFrame_database s tag d frame
        exact ⟨h.tags.readFrame hd hf, h.counts.readFrame hd frame, h.processed.same hdb happ⟩
      · cases hstep
    · cases hstep
  | loseChannel channel =>
    cases hstep
    exact ⟨h.tags.loseChannel channel, h.counts.loseChannel channel, h.processed⟩
  | noticeClosed consumer =>
    cases hstep
    exact ⟨h.tags.frame rfl rfl (fun m hm => .inl hm) fun m hm => hm,
      h.counts.same rfl rfl rfl, h.processed⟩
  | crash consumer =>
    cases hstep
    exact ⟨h.tags.crash consumer, h.counts.crash consumer, h.processed⟩
  | shovel index =>
    simp only [step] at hstep
    split at hstep
    · rename_i message hm
      cases hstep
      refine ⟨h.tags.frame rfl rfl (fun m hm' => ?_) fun m hm' => List.mem_of_mem_eraseIdx hm',
        h.counts.shovel hm rfl rfl rfl, h.processed⟩
      rcases List.mem_append.mp hm' with hm' | hm'
      · exact .inl hm'
      · rw [List.mem_singleton.mp hm']
        exact .inr (List.mem_of_getElem? hm)
    · cases hstep
  | request request =>
    cases hstep
    refine ⟨h.tags.frame rfl rfl (fun m hm => .inl hm) fun m hm => hm,
      h.counts.same rfl rfl rfl, ?_⟩
    exact ((processed_kept s.database.processedMessages).request request s.database rfl).trans
      h.processed

theorem inv_run (hpub : Published messages db) {labels : List DeliveryLabel}
    (hrun : (initial messages db).run labels = some s) : Inv messages db s :=
  Foundations.invariant_of_steps (fun _ _ _ hstep hi => inv_step hpub hi hstep) hrun inv_initial

end Runs

end DeliveryState

/-- What a step can do to the database and the log: a transaction of the consumer applies one event
and logs it, every other step of the system logs nothing. -/
theorem DeliveryState.step_applied {s s' : DeliveryState} {label : DeliveryLabel}
    (hstep : s.step label = some s') :
    (s'.applied = s.applied ∧
      (s'.database = s.database ∨ ∃ request, label = .request request)) ∨
    ∃ tag event, s'.applied = s.applied ++ [(tag, event)] ∧
      BulkEffect .release (some (StockEventConsumer.idempotencyKey event)) event.payload
        s.database s'.database := by
  cases label with
  | connect consumer =>
    simp only [step] at hstep
    split at hstep <;> cases hstep
    exact .inl ⟨rfl, .inl rfl⟩
  | deliver consumer index =>
    simp only [step] at hstep
    split at hstep
    · split at hstep <;> cases hstep
      exact .inl ⟨rfl, .inl rfl⟩
    · cases hstep
  | handle tag fate =>
    simp only [step] at hstep
    split at hstep
    · rename_i d hd
      split at hstep <;> cases hstep
      rcases handle_step (s := s) tag fate d with ⟨hdb, happ, -⟩ | ⟨event, -, heff, happ, -⟩
      · exact .inl ⟨happ, .inl hdb⟩
      · exact .inr ⟨tag, event, happ, heff⟩
    · cases hstep
  | settle tag =>
    simp only [step] at hstep
    split at hstep
    · rename_i d hd
      split at hstep <;> cases hstep
      rename_i outcome hprog
      obtain ⟨hdb, happ⟩ := settle_database s tag d outcome
      exact .inl ⟨happ, .inl hdb⟩
    · cases hstep
  | wake tag =>
    simp only [step] at hstep
    split at hstep
    · rename_i d hd
      split at hstep <;> cases hstep
      obtain ⟨hdb, happ⟩ := wake_database s tag d
      exact .inl ⟨happ, .inl hdb⟩
    · cases hstep
  | frame tag =>
    simp only [step] at hstep
    split at hstep
    · rename_i d hd
      split at hstep <;> cases hstep
      rename_i frame hf
      obtain ⟨hdb, happ⟩ := readFrame_database s tag d frame
      exact .inl ⟨happ, .inl hdb⟩
    · cases hstep
  | loseChannel channel =>
    cases hstep
    exact .inl ⟨rfl, .inl rfl⟩
  | noticeClosed consumer =>
    cases hstep
    exact .inl ⟨rfl, .inl rfl⟩
  | crash consumer =>
    cases hstep
    exact .inl ⟨rfl, .inl rfl⟩
  | shovel index =>
    simp only [step] at hstep
    split at hstep <;> cases hstep
    exact .inl ⟨rfl, .inl rfl⟩
  | request request =>
    cases hstep
    exact .inl ⟨rfl, .inr ⟨request, rfl⟩⟩

theorem DeliveryState.Inv.nodup {messages : List MessageContent} {db : Database}
    {s : DeliveryState} (h : Inv messages db s) : (s.applied.map (·.2.messageId)).Nodup := by
  have hn := s.database.uniqueMessages
  rw [h.processed, List.map_append, List.nodup_append] at hn
  have hids : (s.applied.map fun entry => StockEventConsumer.row entry.2).map (·.messageId) =
      s.applied.map (·.2.messageId) := by
    rw [List.map_map]
    rfl
  rw [← hids]
  exact hn.2.1

/-- A message whose event was not applied is still with the broker. -/
theorem DeliveryState.Inv.kept {messages : List MessageContent} {db : Database}
    {s : DeliveryState} (h : Inv messages db s) {m : MessageContent} (hm : m ∈ messages)
    (hn : ¬ EventApplied s.applied m) :
    m ∈ s.ready ∨ m ∈ s.dead ∨ ∃ d ∈ s.deliveries, d.custody = .unacked ∧ d.message = m := by
  have hpos : 0 < messages.count m := List.count_pos_iff.mpr hm
  have hacked : s.held .acked m = 0 := by
    refine List.count_eq_zero.mpr fun hmem => ?_
    obtain ⟨d, hd, he⟩ := List.mem_map.mp hmem
    obtain ⟨hc, hmsg⟩ := Prod.mk.inj he
    obtain ⟨tag, ht⟩ := List.mem_iff_getElem?.mp hd
    exact hn (hmsg ▸ (h.tags.each tag d ht).acking (.inr (.inr hc)))
  have hcount := h.counts m
  rw [hacked] at hcount
  by_cases hr : m ∈ s.ready
  · exact .inl hr
  by_cases hd : m ∈ s.dead
  · exact .inr (.inl hd)
  rw [List.count_eq_zero.mpr hr, List.count_eq_zero.mpr hd] at hcount
  have hheld : 0 < s.held .unacked m := by omega
  obtain ⟨d, hmem, he⟩ := List.mem_map.mp (List.count_pos_iff.mp hheld)
  obtain ⟨hc, hmsg⟩ := Prod.mk.inj he
  exact .inr (.inr ⟨d, hmem, hc, hmsg⟩)

/-- Whatever is delivered, redelivered, shovelled back, crashed or lost along the way: each message
id is applied at most once, together with its record; a delivery is acknowledged only once its
event is applied and dead-lettered only if it applied nothing; and no copy of a message is lost. -/
theorem consumed_exactly_once {messages : List MessageContent} {db : Database}
    (hpub : DeliveryState.Published messages db) {labels : List DeliveryLabel} {s : DeliveryState}
    (hrun : (DeliveryState.initial messages db).run labels = some s) :
    (s.applied.map (·.2.messageId)).Nodup ∧
    (∀ label s', s.step label = some s' →
      (s'.applied = s.applied ∧
        (s'.database = s.database ∨ ∃ request, label = .request request)) ∨
      ∃ tag event, s'.applied = s.applied ++ [(tag, event)] ∧
        BulkEffect .release (some (StockEventConsumer.idempotencyKey event)) event.payload
          s.database s'.database) ∧
    (∀ (tag : Nat) (d : Delivery), s.deliveries[tag]? = some d →
      d.frame = some .ack ∨ d.custody = .acked → EventApplied s.applied d.message) ∧
    (∀ (tag : Nat) (d : Delivery), s.deliveries[tag]? = some d →
      d.frame = some (.nack false) ∨ d.custody = .deadLettered →
      ∀ event, (tag, event) ∉ s.applied) ∧
    (∀ m, s.ready.count m + s.dead.count m + s.held .unacked m + s.held .acked m =
      messages.count m) ∧
    (∀ m ∈ messages, ¬ EventApplied s.applied m → m ∈ s.ready ∨ m ∈ s.dead ∨
      ∃ d ∈ s.deliveries, d.custody = .unacked ∧ d.message = m) := by
  have h := DeliveryState.inv_run hpub hrun
  exact ⟨h.nodup, fun label s' hstep => DeliveryState.step_applied hstep,
    fun tag d hd hh => (h.tags.each tag d hd).acking (.inr hh),
    fun tag d hd hh => (h.tags.each tag d hd).rejecting (.inr hh), h.counts,
    fun m hm hn => h.kept hm hn⟩

/-- A release of one lamp, as the cart publishes it. -/
def releaseOneLamp : MessageContent :=
  .json { messageId := "m-1", type := "inventory.stock.release", occurredAt := some 0,
          payload := { items := [⟨lampId, 1⟩], reference := "cart-1" } }

/-- The reply of the first commit is lost, and the message is delivered again. -/
def lostReplyRun : List DeliveryLabel :=
  [.connect 0, .deliver 0 0, .handle 0 .replyLost, .settle 0, .wake 0, .frame 0,
    .deliver 0 0, .handle 1 .replied, .settle 1, .frame 1]

/-- The redelivery is acknowledged, and the event applied once. -/
theorem consumed_exactly_once_lost_reply :
    ((DeliveryState.initial [releaseOneLamp] (warehouse ⟨5, 3⟩ ⟨0, 0⟩)).run lostReplyRun).map
      (fun s => s.deliveries.map (·.custody)) = some [.requeued, .acked] ∧
    ∀ s, (DeliveryState.initial [releaseOneLamp] (warehouse ⟨5, 3⟩ ⟨0, 0⟩)).run lostReplyRun =
      some s → (s.applied.map (·.2.messageId)).Nodup := by
  have hpub : DeliveryState.Published [releaseOneLamp] (warehouse ⟨5, 3⟩ ⟨0, 0⟩) :=
    ⟨by decide, fun m hm event _ => List.not_mem_nil⟩
  exact ⟨by decide, fun s hs => (consumed_exactly_once hpub hs).1⟩

end PracticalMicroservice.Inventory
