import PracticalMicroservice.Auth.Proofs.InterleavingProofs
import PracticalMicroservice.Auth.Proofs.WorldProofs

/-!
# One transaction at a time

When no two transactions overlap, the pieces of a call come to what the call does as one step: every
run of the requests with atomic calls is one of the requests with transactions, to the same tables and
the same replies.
-/

namespace PracticalMicroservice.Auth

open Foundations (Access AllSteps Called DatabaseError Pool Program Session Slot Store Thread Versions
  pool_step_cases runs runs_append)

variable {env : Env} {p : Interleaved} {s s' : System} {i : Nat} {task : Task}

/-! ## A call, all its pieces in a row -/

/-- The label is of a piece of this thread. -/
def pieceOf (i : Nat) (_ : Interleaved) (l : Interleaved.Label) : Prop :=
  ∃ fate : PieceFate, l = .call i fate

/-- The pieces of a thread alone lead it to a program, between two calls, in a world of tables. -/
structure Attains (env : Env) (p : Interleaved) (i : Nat) (task : Task) (program : PieceCode)
    (world : SharedWorld) : Prop where
  intro ::
  run : ∃ ls p', AllSteps (Interleaved.step env) (pieceOf i) p ls ∧
    runs (Interleaved.step env) p ls = some p' ∧ p'.world = world ∧
    p'.threads = p.threads.set i ⟨task, program⟩ ∧ underway p'.trace i = none

theorem reaches_refl {program : PieceCode} (hi : p.threads[i]? = some ⟨task, program⟩)
    (hover : underway p.trace i = none) : Attains env p i task program p.world := by
  refine ⟨[], p, trivial, rfl, rfl, ?_, hover⟩
  obtain ⟨hlt, hget⟩ := List.getElem?_eq_some_iff.mp hi
  rw [← hget, List.set_getElem_self]

/-- One piece, and what comes after it. -/
theorem reaches_perform {piece : Piece} {next : piece.Reply → PieceCode} {program : PieceCode}
    {world' : SharedWorld} (fate : PieceFate) (reply : piece.Reply) (world : SharedWorld)
    (hi : p.threads[i]? = some ⟨task, .perform piece next⟩)
    (hperform : piece.perform env i fate p.world = some (reply, world))
    (h : ∀ p' : Interleaved, p'.world = world → p'.threads[i]? = some ⟨task, next reply⟩ →
      p'.trace = ⟨i, piece, reply, p.world, world⟩ :: p.trace →
      Attains env p' i task program world') : Attains env p i task program world' := by
  let p' : Interleaved :=
    { world, threads := p.threads.set i ⟨task, next reply⟩
      trace := ⟨i, piece, reply, p.world, world⟩ :: p.trace }
  have hstep : Interleaved.step env p (.call i fate) = some p' := by
    show Pool.call (interleaving env) p i fate = _
    unfold Pool.call
    rw [hi]
    show (piece.perform env i fate p.world).map _ = _
    rw [hperform]
    rfl
  have hlt := (List.getElem?_eq_some_iff.mp hi).1
  obtain ⟨ls, p'', hown, hrun, hworld, hthreads, hover⟩ := h p' rfl (List.getElem?_set_self hlt) rfl
  refine ⟨.call i fate :: ls, p'', ⟨⟨fate, rfl⟩, fun mid hmid => ?_⟩, ?_, hworld, ?_, hover⟩
  · obtain rfl : p' = mid := Option.some.inj (hstep.symm.trans hmid)
    exact hown
  · show (Interleaved.step env p (.call i fate)).bind _ = _
    rw [hstep]
    exact hrun
  · rw [hthreads]
    exact List.set_set _

/-- A call that is answered is over. -/
theorem underway_replied {call : Call} (result : Except DatabaseError call.Result)
    (reply : Except AppError call.Result) (before after : SharedWorld)
    (trace : List Interleaved.Event) :
    underway (⟨i, .replied call result, reply, before, after⟩ :: trace) i = none := if_pos rfl

/-- The accesses of a transaction with nothing beside it. -/
theorem reaches_accesses {α : Type} {q : Session Row α} {next : α → PieceCode} {a : α}
    {tables : Versions Row} {program : PieceCode} {world' : SharedWorld}
    (hi : p.threads[i]? =
      some ⟨task, (q.interpret fun access => Piece.request (.access access)) >>= next⟩)
    (hq : q.tryExec (Versions.alone i) p.world.tables = some (a, tables))
    (h : ∀ p' : Interleaved, p'.world = { p.world with tables } →
      p'.threads[i]? = some ⟨task, next a⟩ → Attains env p' i task program world') :
    Attains env p i task program world' := by
  induction q generalizing p with
  | done b =>
    cases hq
    exact h p rfl hi
  | perform access more ih =>
    obtain ⟨⟨reply, mid⟩, hperform, hrest⟩ := Option.bind_eq_some_iff.mp hq
    refine reaches_perform { order := access.order p.world.tables i } reply
      { p.world with tables := mid } hi ?_ ?_
    · show (p.world.tables.perform i (access.order p.world.tables i) access).map _ = _
      rw [show p.world.tables.perform i (access.order p.world.tables i) access = some (reply, mid)
        from hperform]
      rfl
    · intro p' hworld hthread _
      refine ih reply hthread ?_ ?_
      · rw [hworld]
        exact hrest
      · intro p'' hworld'' hthread''
        refine h p'' ?_ hthread''
        rw [hworld'', hworld]

/-! ## A command as one step, and as pieces -/

theorem seenBy_quiet {v : Versions Row} (h : ∀ slot ∈ v.slots, slot.written = none) :
    v.Shows i { rows := v.rows, nextKey := v.nextKey } where
  free slot hslot := by
    unfold Foundations.Slot.heldFrom
    rw [h slot hslot]
  rows := List.filterMap_congr fun slot hslot =>
    Foundations.Slot.seenBy_of_written_none (h slot hslot)
  key := rfl

/-- What a call is to the atomic model. -/
structure Matches (world : SharedWorld) (w : World) : Prop where
  quiet : ∀ slot ∈ world.tables.slots, slot.written = none
  settled : world.settled = w

/-- The transaction of a call, and the reply that is made of its outcome. -/
theorem reaches_transaction {call : Call} {k : Except AppError call.Result → PieceCode}
    (fate : PieceFate) {reply : Except AppError call.Result}
    (hquiet : ∀ slot ∈ p.world.tables.slots, slot.written = none)
    (hkeeps : (p.world.settled.db.atomically (call.transaction p.world.now)).2.nextKey =
      (p.world.settled.db.run (call.transaction p.world.now)).2.nextKey)
    (hi : p.threads[i]? = some ⟨task, piecesOf (.repository call) >>= k⟩)
    (hreply : ∀ world, Piece.perform env i fate (.replied call
      (p.world.settled.db.atomically (call.transaction p.world.now)).1) world =
        some (reply, world)) :
    ∃ world, Attains env p i task (k reply) world ∧
      Matches world (p.world.settled.serve call).2 := by
  obtain ⟨tables, hexec, hrows, hkey, hquiet'⟩ :=
    Foundations.transact_alone (call.transaction p.world.now) (seenBy_quiet (i := i) hquiet) hquiet
  refine ⟨{ p.world with tables }, ?_, hquiet', ?_⟩
  · refine reaches_perform {} (.ok p.world.now : Except _ Nat) p.world hi rfl ?_
    intro p₁ hworld₁ hthread₁ _
    have hsplit : p₁.threads[i]? = some ⟨task,
        ((Session.transact (call.transaction p.world.now)).interpret fun access =>
          Piece.request (.access access)) >>= fun result =>
            (Piece.request (.replied call result) : Program _ _ _) >>= k⟩ := by
      rw [hthread₁]
      refine congrArg some (congrArg (Thread.mk task) ?_)
      exact Program.bind_bind (accessesOf call p.world.now)
        (fun result => Piece.request (.replied call result)) k
    refine reaches_accesses hsplit (by rw [hworld₁]; exact hexec) ?_
    intro p₂ hworld₂ hthread₂
    refine reaches_perform fate reply p₂.world hthread₂ ?_ ?_
    · exact hreply p₂.world
    · intro p₃ hworld₃ hthread₃ htrace₃
      have hworld : p₃.world = { p.world with tables } := by rw [hworld₃, hworld₂, hworld₁]
      rw [← hworld]
      refine reaches_refl hthread₃ ?_
      rw [htrace₃]
      exact underway_replied _ _ _ _ _
  · have hdb : (p.world.settled.serve call).2 = { p.world.settled with
        db := (p.world.settled.db.atomically (call.transaction p.world.now)).2 } := rfl
    rw [hdb]
    have htables : ({ rows := tables.rows, nextKey := tables.nextKey } : Database) =
        (p.world.settled.db.atomically (call.transaction p.world.now)).2 := by
      rw [hrows, hkey]
      exact congrArg (Store.mk _) hkeeps.symm
    show (⟨{ rows := tables.rows, nextKey := tables.nextKey }, _, _, _⟩ : World) = _
    rw [htables]
    rfl

/-- A command that is no call of the repository is one piece. -/
theorem reaches_other {command : Command} {k : command.Reply → PieceCode} {fate : Fate}
    {reply : command.Reply} {w' : World} (hne : ∀ call, command ≠ .repository call)
    (hquiet : ∀ slot ∈ p.world.tables.slots, slot.written = none)
    (hidle : underway p.trace i = none)
    (hi : p.threads[i]? = some ⟨task, Piece.request (.other command) >>= k⟩)
    (hperform : p.world.settled.perform env fate command = some (reply, w')) :
    ∃ world, Attains env p i task (k reply) world ∧ Matches world w' := by
  have hdb : w'.db = p.world.settled.db := (perform_other hne hperform).1
  refine ⟨{ p.world with now := w'.now, draws := w'.draws, signed := w'.signed }, ?_, hquiet, ?_⟩
  · refine reaches_perform { fate } reply
      { p.world with now := w'.now, draws := w'.draws, signed := w'.signed } hi ?_ ?_
    · have hpiece : Piece.perform env i { fate } (.other command) p.world =
          (p.world.settled.perform env fate command).map fun done =>
            (done.1, { p.world with
              now := done.2.now, draws := done.2.draws, signed := done.2.signed }) := by
        cases command with
        | repository call => exact absurd rfl (hne call)
        | _ => rfl
      rw [hpiece, hperform]
      rfl
    · intro p₁ hworld₁ hthread₁ htrace₁
      rw [← hworld₁]
      refine reaches_refl hthread₁ ?_
      rw [htrace₁]
      exact (if_pos rfl).trans hidle
  · cases w'
    cases hdb
    rfl

theorem reaches_command {command : Command} {k : command.Reply → PieceCode} {fate : Fate}
    {reply : command.Reply} {w' : World} (hm : Mirrors p s) (hidle : underway p.trace i = none)
    (hkeeps : KeepsKeys s command)
    (hi : p.threads[i]? = some ⟨task, piecesOf command >>= k⟩)
    (hperform : s.world.perform env fate command = some (reply, w')) :
    ∃ world, Attains env p i task (k reply) world ∧ Matches world w' := by
  rw [← hm.world] at hperform
  cases command with
  | repository call =>
    have hkeeps' : (p.world.settled.db.atomically (call.transaction p.world.now)).2.nextKey =
        (p.world.settled.db.run (call.transaction p.world.now)).2.nextKey := by
      rw [hm.world, show p.world.now = s.world.now from congrArg World.now hm.world]
      exact hkeeps
    cases fate with
    | served =>
      obtain ⟨rfl, rfl⟩ := Prod.mk.inj (Option.some.inj hperform)
      exact reaches_transaction {} hm.quiet hkeeps' hi fun _ => rfl
    | refused e =>
      obtain ⟨rfl, rfl⟩ := Prod.mk.inj (Option.some.inj hperform)
      refine ⟨p.world, ?_, hm.quiet, rfl⟩
      refine reaches_perform { fate := .refused e } (.error e : Except _ Nat) p.world hi rfl ?_
      intro p₁ hworld₁ hthread₁ _
      refine reaches_perform {} (.error (toAppError e) : Except AppError call.Result) p₁.world
        hthread₁ rfl ?_
      intro p₂ hworld₂ hthread₂ htrace₂
      rw [← hworld₁, ← hworld₂]
      refine reaches_refl hthread₂ ?_
      rw [htrace₂]
      exact underway_replied _ _ _ _ _
    | unanswered e =>
      obtain ⟨rfl, rfl⟩ := Prod.mk.inj (Option.some.inj hperform)
      exact reaches_transaction { fate := .unanswered e } hm.quiet hkeeps' hi fun _ => rfl
    | remote _ => cases hperform
  | _ => exact reaches_other (fun _ h => nomatch h) hm.quiet hidle hi hperform

/-! ## Every run of atomic calls is one of transactions -/

/-- Between two calls, the pieces of one request are a stretch of a run that goes one transaction at
a time, and lead to where nothing is under way again. -/
theorem oneAtATime_of_own {p' : Interleaved} {ls : List Interleaved.Label}
    (hidle : ∀ j, underway p.trace j = none)
    (hown : AllSteps (Interleaved.step env) (pieceOf i) p ls)
    (hrun : runs (Interleaved.step env) p ls = some p') (hover : underway p'.trace i = none) :
    AllSteps (Interleaved.step env) oneAtATime p ls ∧ ∀ j, underway p'.trace j = none := by
  have hstep : ∀ (q : Interleaved) (l : Interleaved.Label) (q' : Interleaved), pieceOf i q l →
      Interleaved.step env q l = some q' → (∀ j, j ≠ i → underway q.trace j = none) →
      ∀ j, j ≠ i → underway q'.trace j = none := by
    rintro q l q' ⟨fate, rfl⟩ hs hothers j hj
    obtain ⟨task, piece, next, reply, hc⟩ := Foundations.called_of_call hs
    rw [hc.trace, underway_cons_of_ne (Ne.symm hj)]
    exact hothers j hj
  have hothers : ∀ j, j ≠ i → underway p.trace j = none := fun j _ => hidle j
  constructor
  · refine Foundations.allSteps_of_invariant hstep ?_ hown hothers
    rintro q l ⟨fate, rfl⟩ hq
    exact hq
  · intro j
    by_cases hj : j = i
    · rw [hj]
      exact hover
    · exact Foundations.invariant_of_allSteps hstep hown hrun hothers j hj

/-- Nothing is under way in a run of transactions where a run of atomic calls is. -/
structure Rests (p : Interleaved) (s : System) : Prop where
  mirrors : Mirrors p s
  idle : ∀ j, underway p.trace j = none

theorem rests_next {world : SharedWorld} {program : PieceCode} {t : Thread Task Command
    Command.Reply Outcome} (hm : Rests p s) (hreaches : Attains env p i t.task program world)
    (hprogram : program = t.program.interpret piecesOf) (hmatches : Matches world s'.world)
    (hthreads : s'.threads = s.threads.set i t) :
    ∃ ls p', AllSteps (Interleaved.step env) oneAtATime p ls ∧
      runs (Interleaved.step env) p ls = some p' ∧ Rests p' s' := by
  obtain ⟨ls, p', hown, hrun, hworld, hset, hover⟩ := hreaches
  obtain ⟨hserial, hidle⟩ := oneAtATime_of_own hm.idle hown hrun hover
  refine ⟨ls, p', hserial, hrun, ⟨?_, ?_, ?_⟩, hidle⟩
  · rw [hworld]
    exact hmatches.quiet
  · rw [hworld]
    exact hmatches.settled
  · rw [hset, hm.mirrors.threads, hthreads, List.map_set, hprogram]

theorem mirrors_setStatus {id : Nat} {status : AuthUserStatus} {w' : World} (hm : Mirrors p s)
    (h : World.move (.setStatus id status) s.world = some w') :
    ∃ world, SharedWorld.move (.setStatus id status) p.world = some world ∧ Matches world w' := by
  have hfree : (p.world.tables.slots.any fun slot =>
      slot.written.isSome && slot.versions.any (Row.isUser (·.id = id))) = false := by
    refine List.any_eq_false.mpr fun slot hslot => ?_
    rw [hm.quiet slot hslot]
    exact Bool.false_ne_true
  refine ⟨{ p.world with
    tables := { p.world.tables with slots := p.world.tables.slots.map (setStatus id status) } },
    ?_, ?_, ?_⟩
  · unfold SharedWorld.move
    dsimp only
    rw [hfree]
    rfl
  · intro slot hslot
    obtain ⟨old, hold, rfl⟩ := List.mem_map.mp hslot
    exact hm.quiet old hold
  · rw [← hm.world] at h
    cases h
    have hrows : (p.world.tables.slots.map (setStatus id status)).filterMap
        Foundations.Slot.committed = (p.world.tables.slots.filterMap
          Foundations.Slot.committed).map fun row =>
            if Row.isUser (·.id = id) row then Row.onUser ({ · with status }) row else row := by
      rw [List.filterMap_map, List.map_filterMap]
      rfl
    show (⟨⟨(p.world.tables.slots.map (setStatus id status)).filterMap
      Foundations.Slot.committed, _⟩, _, _, _⟩ : World) = _
    rw [hrows]
    rfl

/-- A step of the requests with atomic calls, as steps of the requests with transactions. -/
theorem rests_step {l : Label} (hm : Rests p s) (hkeeps : keepingKeys s l)
    (hs : System.step env s l = some s') :
    ∃ ls p', AllSteps (Interleaved.step env) oneAtATime p ls ∧
      runs (Interleaved.step env) p ls = some p' ∧ Rests p' s' := by
  have hidle := hm.idle
  rcases pool_step_cases hs with ⟨task, rfl, rfl⟩ | ⟨i, fate, task, command, next, reply, rfl, hc⟩ |
    ⟨move, w', rfl, hmove, rfl⟩
  · refine ⟨[.spawn task], { p with threads := p.threads ++ [⟨task, Task.pieces env task⟩] },
      ⟨trivial, fun _ _ => trivial⟩, rfl, ⟨hm.mirrors.quiet, hm.mirrors.world, ?_⟩, hidle⟩
    show p.threads ++ _ = _
    rw [hm.mirrors.threads, List.map_append]
    rfl
  · have hi : p.threads[i]? = some
        ⟨task, piecesOf command >>= fun reply => (next reply).interpret piecesOf⟩ := by
      rw [hm.mirrors.threads, List.getElem?_map, hc.thread]
      rfl
    have hcommand : s.nextCommand i = some command := hc.nextCommand
    obtain ⟨world, hreaches, hmatches⟩ :=
      reaches_command hm.mirrors (hidle i) (hkeeps command hcommand) hi hc.perform
    exact rests_next (t := ⟨task, next reply⟩) hm hreaches rfl hmatches hc.threads
  · cases move with
    | tick ms =>
      have hworld : ({ p.world with now := p.world.now + ms } : SharedWorld).settled = w' := by
        rw [← hm.mirrors.world] at hmove
        cases hmove
        rfl
      exact ⟨[.move (.tick ms)], { p with world := { p.world with now := p.world.now + ms } },
        ⟨hidle, fun _ _ => trivial⟩, rfl, ⟨hm.mirrors.quiet, hworld, hm.mirrors.threads⟩, hidle⟩
    | setStatus id status =>
      obtain ⟨world, hmoved, hmatches⟩ := mirrors_setStatus hm.mirrors hmove
      refine ⟨[.move (.setStatus id status)], { p with world }, ⟨hidle, fun _ _ => trivial⟩, ?_,
        ⟨hmatches.quiet, hmatches.settled, hm.mirrors.threads⟩, hidle⟩
      show (Interleaved.step env p (.move (.setStatus id status))).bind _ = _
      have hstep : Interleaved.step env p (.move (.setStatus id status)) = some { p with world } := by
        show (SharedWorld.move (.setStatus id status) p.world).map _ = _
        rw [hmoved]
        rfl
      rw [hstep]
      rfl

theorem mirrors_start (w : World) : Mirrors (Pool.start w.shared) (Pool.start w) where
  quiet slot hslot := by
    obtain ⟨row, -, rfl⟩ := List.mem_map.mp hslot
    rfl
  world := by
    have hrows : (w.db.rows.map fun row => (⟨some row, none⟩ : Foundations.Slot Row)).filterMap
        Foundations.Slot.committed = w.db.rows := by
      rw [List.filterMap_map]
      exact List.filterMap_some
    show (⟨⟨(w.db.rows.map fun row => (⟨some row, none⟩ : Foundations.Slot Row)).filterMap
      Foundations.Slot.committed, _⟩, _, _, _⟩ : World) = _
    rw [hrows]
    rfl
  threads := rfl

/-- What a request has returned is the same on both sides. -/
theorem Mirrors.result (hm : Mirrors p s) (i : Nat) : p.result i = s.result i := by
  unfold Pool.result
  rw [hm.threads, List.getElem?_map]
  cases hi : s.threads[i]? with
  | none => rfl
  | some t =>
    obtain ⟨task, program⟩ := t
    cases program with
    | done outcome => rfl
    | perform command next => cases command <;> rfl

/-- Every run of the requests with calls that are one step each, none of which takes an insert back,
is a run of the requests with transactions, one after the other: it leaves the same tables and every
request has the same reply. -/
theorem atomic_runs_serial {w : World} {ls : List Label}
    (hall : AllSteps (System.step env) keepingKeys (Pool.start w) ls)
    (hrun : runs (System.step env) (Pool.start w) ls = some s) :
    ∃ ls' p, AllSteps (Interleaved.step env) oneAtATime (Pool.start w.shared) ls' ∧
      runs (Interleaved.step env) (Pool.start w.shared) ls' = some p ∧
      p.world.settled = s.world ∧ ∀ i, p.result i = s.result i := by
  have hkept : ∃ ls' p, AllSteps (Interleaved.step env) oneAtATime (Pool.start w.shared) ls' ∧
      runs (Interleaved.step env) (Pool.start w.shared) ls' = some p ∧ Rests p s := by
    refine Foundations.invariant_of_allSteps (P := fun s => ∃ ls' p,
      AllSteps (Interleaved.step env) oneAtATime (Pool.start w.shared) ls' ∧
      runs (Interleaved.step env) (Pool.start w.shared) ls' = some p ∧ Rests p s) ?_ hall hrun
      ⟨[], _, trivial, rfl, mirrors_start w, fun _ => rfl⟩
    rintro s l s' hkeeps hs ⟨ls', p, hserial, hrun', hm⟩
    obtain ⟨more, p', hserial', hmore, hm'⟩ := rests_step hm hkeeps hs
    refine ⟨ls' ++ more, p', hserial.append hrun' hserial', ?_, hm'⟩
    rw [runs_append, hrun']
    exact hmore
  obtain ⟨ls', p, hserial, hrun', hm⟩ := hkept
  exact ⟨ls', p, hserial, hrun', hm.mirrors.world, hm.mirrors.result⟩

/-- A login, as one call after another and as transactions. -/
theorem atomic_runs_serial_login : ∃ s ls p,
    runs (System.step sampleEnv) (Pool.start adasWorld) (alone 0 10 (.login ada.email "right" {})) =
      some s ∧
    AllSteps (Interleaved.step sampleEnv) oneAtATime (Pool.start adasWorld.shared) ls ∧
    runs (Interleaved.step sampleEnv) (Pool.start adasWorld.shared) ls = some p ∧
    p.world.settled = s.world ∧ p.result 0 = s.result 0 ∧ (s.result 0).isSome = true := by
  have hsome : ((runs (System.step sampleEnv) (Pool.start adasWorld)
      (alone 0 10 (.login ada.email "right" {}))).any fun s => (s.result 0).isSome) = true := by
    decide +kernel
  have hall : AllSteps (System.step sampleEnv) keepingKeys (Pool.start adasWorld)
      (alone 0 10 (.login ada.email "right" {})) := by
    decide +kernel
  obtain ⟨s, hs, hresult⟩ := (Option.any_eq_true _ _).mp hsome
  obtain ⟨ls, p, hserial, hrun, hworld, hsame⟩ := atomic_runs_serial hall hs
  exact ⟨s, ls, p, hs, hserial, hrun, hworld, hsame 0, hresult⟩

end PracticalMicroservice.Auth
