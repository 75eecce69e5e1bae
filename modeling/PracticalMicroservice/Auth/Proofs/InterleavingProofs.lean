import PracticalMicroservice.Auth.Interleaving
import PracticalMicroservice.Auth.Proofs.AccessProofs
import PracticalMicroservice.Auth.Proofs.HistoryProofs

/-!
# The requests, piece by piece, are transactions that keep to the discipline

A request does in pieces what it does in calls, and every piece is one a request may do. A step of the
requests is then a step of the transactions under way, and what these keep holds along every run.
-/

namespace PracticalMicroservice.Auth

open Foundations (Access AllSteps Accesses Called DatabaseError History Meets Pool Program Recounted
  Session Slot Traffic Unended Versions invariant_of_allSteps meets_accessed meets_bind moveGhost
  moveGhost_of_ne moveGhost_self pastOf pool_step_cases recounting runs)
open PrismaAuthRepository

variable {env : Env} {task : Task} {past : Pieces}

/-! ## A call, piece by piece -/

/-- A call as its transaction accesses the tables. -/
theorem meets_call (call : Call) (now : Nat) :
    Meets (recounting (Foundations.untilEnd Fits) Access.Sound)
      (Session.transact (call.transaction now))
      (fun r g => g.1 = (call, now) ∧ ¬ Unended g.2 ∧
        ∀ a, r = .ok a → ∃ past', g.2 = ⟨.commit, ()⟩ :: past' ∧ Answers past' call a)
      ((call, now), []) :=
  meets_accessed (accessed_transaction call now) fun _ => trivial

/-- Where a request is between two of its commands. -/
def Between (g : Task × Told) (g' : Task × Pieces) : Prop :=
  g'.1 = g.1 ∧ toldBy g'.2 = g.2 ∧ openCall g'.2 = none

/-- Where it is within a call. -/
def Within (task : Task) (told : Told) (g : (Call × Nat) × Accesses Row) (g' : Task × Pieces) :
    Prop := g'.1 = task ∧ toldBy g'.2 = told ∧ openCall g'.2 = some g

theorem meets_accessesOf {call : Call} {now : Nat} {told : Told} (htold : toldBy past = told)
    (hopen : openCall past = some ((call, now), [])) :
    Meets (recounting (Permits env) Credible) (accessesOf call now)
      (fun r g => g.1 = task ∧ toldBy g.2 = told ∧
        ∃ made, openCall g.2 = some ((call, now), made) ∧ ¬ Unended made ∧
          ∀ a, r = .ok a → Answers made call a) (task, past) := by
  have hpieces : Meets (recounting (Permits env) Credible) (accessesOf call now) _ (task, past) :=
    Meets.interpret (meets_call call now) (Within task told) ?_ ⟨rfl, htold, hopen⟩
  · refine hpieces.mono ?_
    rintro r ⟨_, past'⟩ ⟨⟨_, made⟩, ⟨rfl, htold', hopen'⟩, rfl, hover, hanswer⟩
    refine ⟨rfl, htold', made, hopen', hover, fun a ha => ?_⟩
    obtain ⟨earlier, rfl, hgood⟩ := hanswer a ha
    exact hgood.mono fun m hm => List.mem_cons_of_mem _ hm
  · rintro a ⟨u, made⟩ ⟨_, past'⟩ ⟨hunended, hfits⟩ ⟨rfl, htold', hopen'⟩
    refine ⟨⟨_, hopen', hunended, hfits⟩, ?_⟩
    rintro reply _ ⟨hsound, rfl⟩
    refine ⟨(u, ⟨a, reply⟩ :: made), ⟨rfl, htold', ?_⟩, hsound, rfl⟩
    show (openCall past').map _ = _
    rw [hopen']
    rfl

/-- A call made, served and answered is a command of the request. -/
theorem meets_repository {call : Call} {told : Told} (htold : toldBy past = told)
    (hopen : openCall past = none) (hallow : Justified env task told (.repository call)) :
    Meets (recounting (Permits env) Credible) (piecesOf (.repository call))
      (fun reply g => ∃ g₁, Between g₁ g ∧
        (Auth.told env).replies (.repository call) (task, told) reply g₁) (task, past) := by
  refine meets_bind.mpr ⟨⟨hopen, htold.symm ▸ hallow⟩, ?_⟩
  rintro made _ ⟨-, rfl⟩
  cases made with
  | error e =>
    refine ⟨⟨fun u hu => ?_, fun _ hr => nomatch hr⟩, ?_⟩
    · exact nomatch hopen.symm.trans hu
    · rintro reply _ ⟨hcredible, rfl⟩
      refine ⟨(task, ⟨.repository call, reply⟩ :: told), ⟨rfl, ?_, rfl⟩, ⟨?_, ?_⟩, rfl⟩
      · exact congrArg (_ :: ·) htold
      · rcases hcredible with rfl | ⟨e', rfl⟩
        · exact ⟨e, rfl⟩
        · exact ⟨e', rfl⟩
      · rcases hcredible with rfl | ⟨e', rfl⟩
        · exact fun _ hr => nomatch hr
        · exact fun _ hr => nomatch hr
  | ok now =>
    have hserved := @meets_accessesOf env task (⟨.called call, .ok now⟩ :: past) call now told
      htold rfl
    refine meets_bind.mpr (hserved.mono ?_)
    rintro result ⟨_, past'⟩ ⟨rfl, htold', made, hopen', hover, hanswer⟩
    refine ⟨⟨fun u hu => ?_, fun r hr => ⟨now, made, hopen', hanswer r hr⟩⟩, ?_⟩
    · obtain rfl := Option.some.inj (hopen'.symm.trans hu)
      exact hover
    · rintro reply _ ⟨hcredible, rfl⟩
      refine ⟨(_, ⟨.repository call, reply⟩ :: told), ⟨rfl, ?_, rfl⟩, ⟨?_, ?_⟩, rfl⟩
      · exact congrArg (_ :: ·) htold'
      · rcases hcredible with rfl | ⟨e', rfl⟩
        · cases result with
          | ok r => trivial
          | error e => exact ⟨e, rfl⟩
        · exact ⟨e', rfl⟩
      · rcases hcredible with rfl | ⟨e', rfl⟩
        · intro r hr
          cases result with
          | ok r' =>
            obtain rfl := Except.ok.inj hr
            exact (hanswer r' rfl).credible
          | error e => cases hr
        · exact fun _ hr => nomatch hr

theorem meets_other {command : Command} {told : Told} (htold : toldBy past = told)
    (hopen : openCall past = none) (hallow : Justified env task told command) :
    Meets (recounting (Permits env) Credible) (Piece.request (.other command))
      (fun reply g => ∃ g₁, Between g₁ g ∧ (Auth.told env).replies command (task, told) reply g₁)
      (task, past) := by
  subst htold
  refine ⟨hallow, ?_⟩
  rintro reply _ ⟨hcredible, rfl⟩
  exact ⟨(task, ⟨command, reply⟩ :: toldBy past), ⟨rfl, rfl, hopen⟩, hcredible, rfl⟩

theorem meets_piecesOf (command : Command) (g : Task × Told) (g' : Task × Pieces)
    (hallow : (told env).allows command g) (hg : Between g g') :
    Meets (recounting (Permits env) Credible) (piecesOf command)
      (fun reply g'' => ∃ g₁, Between g₁ g'' ∧ (told env).replies command g reply g₁) g' := by
  obtain ⟨task, told⟩ := g
  obtain ⟨task', past⟩ := g'
  obtain ⟨rfl, htold, hopen⟩ := hg
  cases command with
  | repository call => exact meets_repository htold hopen hallow
  | _ => exact meets_other htold hopen hallow

/-- Every request, piece by piece, does what it may do. -/
theorem meets_pieces (env : Env) (task : Task) :
    Meets (recounting (Permits env) Credible) (task.pieces env)
      (fun answer g => Concluded env answer (g.1, toldBy g.2)) (task, []) := by
  have hpieces : Meets (recounting (Permits env) Credible) (task.pieces env) _ (task, []) :=
    Meets.interpret (meets_task env task) Between meets_piecesOf ⟨rfl, rfl, rfl⟩
  refine hpieces.mono ?_
  rintro answer ⟨_, past⟩ ⟨⟨task', told⟩, ⟨rfl, rfl, -⟩, hconcluded⟩
  exact hconcluded

/-! ## What a piece can come to -/

theorem access_perform {thread : Nat} {fate : PieceFate} {a : Access Row} {reply : a.Reply}
    {w w' : SharedWorld}
    (h : Piece.perform env thread fate (.access a) w = some (reply, w')) :
    w.tables.perform thread fate.order a = some (reply, w'.tables) := by
  obtain ⟨⟨reply', tables⟩, hp, he⟩ := Option.map_eq_some_iff.mp h
  cases he
  exact hp

/-- A command that is no call of the repository is performed as in the world at rest. -/
theorem other_perform {thread : Nat} {fate : PieceFate} {command : Command}
    {reply : command.Reply} {w w' : SharedWorld}
    (h : Piece.perform env thread fate (.other command) w = some (reply, w')) :
    ∃ world, World.perform env fate.fate command w.settled = some (reply, world) ∧
      w' = { w with now := world.now, draws := world.draws, signed := world.signed } := by
  have hmap : (World.perform env fate.fate command w.settled).map (fun done =>
      (done.1, { w with now := done.2.now, draws := done.2.draws, signed := done.2.signed })) =
      some (reply, w') := by
    cases command with
    | repository call => cases h
    | _ => exact h
  obtain ⟨⟨reply', world⟩, hp, he⟩ := Option.map_eq_some_iff.mp hmap
  cases he
  exact ⟨world, hp, rfl⟩

theorem credible_perform {thread : Nat} {fate : PieceFate} {piece : Piece} {reply : piece.Reply}
    {w w' : SharedWorld} (h : Piece.perform env thread fate piece w = some (reply, w')) :
    Credible piece reply := by
  cases piece with
  | called call => trivial
  | access a => exact Access.sound_perform (access_perform h)
  | replied call result =>
    unfold Piece.perform at h
    dsimp only at h
    split at h
    · cases h
      exact .inl rfl
    · cases h
      exact .inr ⟨_, rfl⟩
    · cases h
  | other command =>
    obtain ⟨world, hp, -⟩ := other_perform h
    exact plausible_of_perform hp

/-- The pieces of a request that access no table leave the tables. -/
theorem tables_perform {thread : Nat} {fate : PieceFate} {piece : Piece} {reply : piece.Reply}
    {w w' : SharedWorld} (h : Piece.perform env thread fate piece w = some (reply, w'))
    (ha : ∀ a, piece ≠ .access a) : w'.tables = w.tables := by
  cases piece with
  | called call =>
    unfold Piece.perform at h
    dsimp only at h
    split at h <;> cases h <;> rfl
  | access a => exact absurd rfl (ha a)
  | replied call result =>
    unfold Piece.perform at h
    dsimp only at h
    split at h <;> cases h <;> rfl
  | other command =>
    obtain ⟨world, -, rfl⟩ := other_perform h
    rfl

/-- A call is told the clock, or is not made. -/
theorem called_perform {thread : Nat} {fate : PieceFate} {call : Call}
    {reply : Except DatabaseError Nat} {w w' : SharedWorld}
    (h : Piece.perform env thread fate (.called call) w = some (reply, w')) :
    reply = .ok w.now ∨ ∃ e, reply = .error e := by
  unfold Piece.perform at h
  dsimp only at h
  split at h
  · cases h
    exact .inl rfl
  · cases h
    exact .inr ⟨_, rfl⟩
  · cases h

/-! ## The trace, and what a request has been told -/

theorem underway_cons_self (e : Interleaved.Event) (trace : List Interleaved.Event) :
    underway (e :: trace) e.thread = Transacting.after (underway trace e.thread) e := if_pos rfl

theorem underway_cons_of_ne {e : Interleaved.Event} {trace : List Interleaved.Event} {i : Nat}
    (h : e.thread ≠ i) : underway (e :: trace) i = underway trace i := if_neg h

/-- The transaction the trace tells of is the one the request's own history tells of. -/
theorem openCall_pastOf (trace : List Interleaved.Event) (i : Nat) :
    openCall (pastOf i trace) = (underway trace i).map fun u => (u.task, u.made) := by
  induction trace with
  | nil => rfl
  | cons e trace ih =>
    by_cases he : e.thread = i
    · subst he
      rw [underway_cons_self, Foundations.pastOf_cons_self]
      obtain ⟨thread, command, reply, before, after⟩ := e
      cases command with
      | called call =>
        cases reply with
        | ok now => rfl
        | error _ => exact ih
      | access a =>
        show (openCall (pastOf thread trace)).map _ = ((underway trace thread).map _).map _
        rw [ih, Option.map_map, Option.map_map]
        rfl
      | replied call result => rfl
      | other command => exact ih
    · rw [underway_cons_of_ne he, Foundations.pastOf_cons_of_ne he]
      exact ih

theorem underway_eq_none {trace : List Interleaved.Event} {i : Nat}
    (h : openCall (pastOf i trace) = none) : underway trace i = none := by
  rw [openCall_pastOf] at h
  exact Option.map_eq_none_iff.mp h

theorem underway_eq_some {trace : List Interleaved.Event} {i : Nat}
    {u : (Call × Nat) × Accesses Row} (h : openCall (pastOf i trace) = some u) :
    ∃ t : Transacting, underway trace i = some t ∧ t.task = u.1 ∧ t.made = u.2 := by
  rw [openCall_pastOf] at h
  obtain ⟨t, ht, rfl⟩ := Option.map_eq_some_iff.mp h
  exact ⟨t, ht, rfl, rfl⟩

theorem openCall_of_underway {trace : List Interleaved.Event} {i : Nat} {t : Transacting}
    (h : underway trace i = some t) : openCall (pastOf i trace) = some (t.task, t.made) := by
  rw [openCall_pastOf, h]
  rfl

/-- An event of one thread moves that thread's transaction on, and no other. -/
theorem underway_cons (e : Interleaved.Event) (trace : List Interleaved.Event) :
    underway (e :: trace) =
      moveGhost (underway trace) e.thread (Transacting.after (underway trace e.thread) e) := by
  funext i
  by_cases he : i = e.thread
  · rw [he, moveGhost_self, underway_cons_self]
  · rw [moveGhost_of_ne he, underway_cons_of_ne (Ne.symm he)]

theorem moveGhost_self_eq {σ : Type} (ghosts : Nat → σ) (i : Nat) :
    moveGhost ghosts i (ghosts i) = ghosts := by
  funext j
  by_cases hj : j = i
  · rw [hj, moveGhost_self]
  · rw [moveGhost_of_ne hj]

/-! ## A step of the requests is one of the transactions -/

/-- The rows a request has been told of are there. -/
def Recalled (s : Interleaved) : Prop :=
  ∀ i row, (toldBy (pastOf i s.trace)).Read row → row.key ∈ s.world.tables.rows.map Row.key

/-- What a call needs, the request that makes it has been told of. -/
theorem needs_of_justified {told : Told} {call : Call}
    (h : Justified env task told (.repository call)) {k : RowKey} (hk : k ∈ call.needs) :
    ∃ row, told.Read row ∧ row.key = k := by
  obtain ⟨-, hgrounds⟩ := h
  cases call with
  | rotateRefreshToken currentId next =>
    obtain ⟨presented, info, stored, -, hheard, hid, hfamily, haccount, -⟩ := hgrounds
    obtain rfl := List.mem_singleton.mp hk
    exact ⟨.token stored, ⟨_, hheard⟩, by rw [Row.key, hid, hfamily, haccount]⟩
  | replaceVerification authUserId input =>
    obtain ⟨now, code, rest, rfl, email, u, rfl, hrest⟩ := hgrounds
    obtain rfl := List.mem_singleton.mp hk
    refine ⟨.user u, .inl ⟨email, ?_⟩, rfl⟩
    rcases hrest with rfl | ⟨now', active, -, rfl⟩
    · simp [Told.Heard]
    · simp [Told.Heard]
  | _ => cases hk


section Step

variable {s s' : Interleaved} {l : Interleaved.Label} {i : Nat} {fate : PieceFate}
  {ok : Traffic Row (Call × Nat) → Nat → Transacting → Access Row → Prop}

abbrev Followed (env : Env) (s : Interleaved) : Prop :=
  Recounted (Permits env) Credible (fun answer g => Concluded env answer (g.1, toldBy g.2)) s

theorem piece_perform {piece : Piece} {next : piece.Reply → PieceCode} {reply : piece.Reply}
    (hc : Called (interleaving env) s s' i fate task piece next reply) :
    Piece.perform env i fate piece s.world = some (reply, s'.world) := hc.perform

theorem followed_step (h : Followed env s) (hs : Interleaved.step env s l = some s') :
    Followed env s' :=
  h.step (meets_pieces env) (fun _ _ _ _ _ _ hp => credible_perform hp) hs

/-- A step whose event leaves the transactions as they are. -/
theorem traffic_same {piece : Piece} {next : piece.Reply → PieceCode} {reply : piece.Reply}
    (hc : Called (interleaving env) s s' i fate task piece next reply)
    (ha : ∀ a, piece ≠ .access a)
    (hafter : Transacting.after (underway s.trace i) ⟨i, piece, reply, s.world, s'.world⟩ =
      underway s.trace i) : s'.traffic = s.traffic := by
  have htables : s'.world.tables = s.world.tables := tables_perform (piece_perform hc) ha
  have hunder : underway s'.trace = underway s.trace := by
    rw [hc.trace, underway_cons, hafter, moveGhost_self_eq]
  have hdone : committed s'.trace = committed s.trace := by
    rw [hc.trace]
    cases piece with
    | access a => exact absurd rfl (ha a)
    | _ => rfl
  show Traffic.mk _ _ _ = Traffic.mk _ _ _
  rw [htables, hunder, hdone]

theorem traffic_called {call : Call} {next : (Piece.called call).Reply → PieceCode}
    {reply : (Piece.called call).Reply}
    (hc : Called (interleaving env) s s' i fate task (.called call) next reply)
    (hf : Followed env s) (hrecalled : Recalled s) :
    s'.traffic = s.traffic ∨ Traffic.Step (discipline ok) s.traffic s'.traffic := by
  obtain ⟨hopen, hjustified⟩ := hf.allowed hc.thread
  rcases called_perform (piece_perform hc) with rfl | ⟨e, rfl⟩
  · have htables : s'.world.tables = s.world.tables := tables_perform (piece_perform hc) (by simp)
    have hunder : underway s'.trace =
        moveGhost (underway s.trace) i (some ⟨(call, s.world.now), s.world.tables, []⟩) := by
      rw [hc.trace, underway_cons]
      rfl
    have hdone : committed s'.trace = committed s.trace := by
      rw [hc.trace]
      rfl
    have hstep : Traffic.Step (discipline ok) s.traffic
        { s.traffic with
          under := moveGhost (underway s.trace) i (some ⟨(call, s.world.now), s.world.tables, []⟩) } := by
      refine .begins (underway_eq_none hopen) fun k hk => ?_
      obtain ⟨row, hread, rfl⟩ := needs_of_justified hjustified hk
      exact hrecalled i row hread
    refine .inr ?_
    show Traffic.Step _ _ (Traffic.mk _ _ _)
    rw [htables, hunder, hdone]
    exact hstep
  · exact .inl (traffic_same hc (by simp) rfl)

theorem traffic_access {a : Access Row} {next : (Piece.access a).Reply → PieceCode}
    {reply : a.Reply} (hc : Called (interleaving env) s s' i fate task (.access a) next reply)
    (hf : Followed env s) (hok : ∀ u, underway s.trace i = some u → ok s.traffic i u a) :
    Traffic.Step (discipline ok) s.traffic s'.traffic := by
  obtain ⟨_, hopen, hunended, hfits⟩ := hf.allowed hc.thread
  obtain ⟨u, hu, htask, hmade⟩ := underway_eq_some hopen
  rw [← hmade] at hunended hfits
  rw [← htask] at hfits
  have hunder : underway s'.trace =
      moveGhost (underway s.trace) i (some (Traffic.push u a reply)) := by
    rw [hc.trace, underway_cons]
    show moveGhost _ i ((underway s.trace i).map _) = _
    rw [hu]
    rfl
  have hdone : committed s'.trace =
      if Traffic.commits a then u :: committed s.trace else committed s.trace := by
    rw [hc.trace]
    cases a with
    | commit =>
      show (underway s.trace i).toList ++ _ = _
      rw [hu]
      rfl
    | _ => rfl
  have hp := Foundations.performed_of_perform (access_perform (piece_perform hc))
  have hstep : Traffic.Step (discipline ok) s.traffic _ :=
    .accesses hu hunended ⟨hfits, hok u hu⟩ hp
  show Traffic.Step _ _ (Traffic.mk _ _ _)
  rw [hunder, hdone]
  exact hstep

theorem traffic_replied {call : Call} {result : Except DatabaseError call.Result}
    {next : (Piece.replied call result).Reply → PieceCode}
    {reply : (Piece.replied call result).Reply}
    (hc : Called (interleaving env) s s' i fate task (.replied call result) next reply)
    (hf : Followed env s) : Traffic.Step (discipline ok) s.traffic s'.traffic := by
  obtain ⟨hover, -⟩ := hf.allowed hc.thread
  have htables : s'.world.tables = s.world.tables := tables_perform (piece_perform hc) (by simp)
  have hunder : underway s'.trace = moveGhost (underway s.trace) i none := by
    rw [hc.trace, underway_cons]
    rfl
  have hdone : committed s'.trace = committed s.trace := by
    rw [hc.trace]
    rfl
  have hstep : Traffic.Step (discipline ok) s.traffic _ :=
    .retires (i := i) fun u hu => hover _ (openCall_of_underway hu)
  show Traffic.Step _ _ (Traffic.mk _ _ _)
  rw [htables, hunder, hdone]
  exact hstep

theorem statusChanges_setStatus (id : Nat) (status : AuthUserStatus) (slot : Slot Row) :
    StatusChanges slot (setStatus id status slot) := by
  unfold setStatus
  cases hc : slot.committed with
  | none =>
    refine .inl ?_
    cases slot
    cases hc
    rfl
  | some row =>
    have hsame : ({ slot with committed := some row } : Slot Row) = slot := by
      cases slot
      cases hc
      rfl
    cases row with
    | user u =>
      by_cases hid : Row.isUser (·.id = id) (.user u) = true
      · exact .inr ⟨u, status, hc, by simp [hid, Row.onUser]⟩
      · exact .inl (by simpa [hid] using hsame)
    | _ => exact .inl hsame

/-- A step of the requests is a step of their transactions, or leaves them as they are. -/
theorem traffic_step (hf : Followed env s) (hrecalled : Recalled s)
    (hok : ∀ i fate a u, l = .call i fate → s.nextCommand i = some (.access a) →
      underway s.trace i = some u → ok s.traffic i u a)
    (hs : Interleaved.step env s l = some s') :
    s'.traffic = s.traffic ∨ Traffic.Step (discipline ok) s.traffic s'.traffic := by
  rcases pool_step_cases hs with ⟨t, -, rfl⟩ | ⟨i, fate, t, piece, next, reply, rfl, hc⟩ |
    ⟨move, world, -, hmove, rfl⟩
  · exact .inl rfl
  · cases piece with
    | called call => exact traffic_called hc hf hrecalled
    | access a => exact .inr (traffic_access hc hf fun u hu => hok i fate a u rfl hc.nextCommand hu)
    | replied call result => exact .inr (traffic_replied hc hf)
    | other command => exact .inl (traffic_same hc (by simp) rfl)
  · cases move with
    | tick ms =>
      cases hmove
      exact .inl rfl
    | setStatus id status =>
      have hmoved : SharedWorld.move (.setStatus id status) s.world = some world := hmove
      unfold SharedWorld.move at hmoved
      dsimp only at hmoved
      split at hmoved
      · cases hmoved
      · cases hmoved
        exact .inr (.changes fun slot _ => statusChanges_setStatus id status slot)

end Step


/-! ## The discipline is lawful -/

theorem Changes.key {call : Call} {now : Nat} {made : Accesses Row} {row row' : Row}
    (h : Changes call now made row row') : row'.key = row.key := by
  cases h with
  | user same => exact congrArg RowKey.user same
  | superseded _ _ _ => rfl
  | counted _ => rfl
  | mailed _ => rfl
  | spent _ _ => rfl
  | revoked _ _ => rfl
  | rotated _ _ _ _ _ => rfl

theorem Inserts.id {call : Call} {now : Nat} {made : Accesses Row} {row : Nat → Row}
    (h : Inserts made now row call) (key : Nat) : (row key).id = key := by
  cases call with
  | createAuthUserWithVerification user verification =>
    rcases h with ⟨-, hrow⟩ | ⟨u, -, -, hrow⟩
    · obtain ⟨u, he, hid⟩ := hrow key
      rw [he]
      exact hid
    · rw [hrow key]
      rfl
  | recordLoginAttempt input =>
    obtain ⟨history, he, hid⟩ := h key
    rw [he]
    exact hid
  | replaceVerification authUserId input =>
    rw [h.1 key]
    rfl
  | createRefreshToken input =>
    rw [h.2 key]
    rfl
  | rotateRefreshToken currentId next =>
    rw [h.2 key]
    rfl
  | _ => exact h.elim

theorem lawful (ok : Traffic Row (Call × Nat) → Nat → Transacting → Access Row → Prop) :
    (discipline ok).Lawful where
  inserts h n := (Row.id_key _).trans (h.1.id n)
  visits h old hold := (h.1.1 old hold).key
  selects {c i u whose} h m hm := by
    have hnil : u.made = [] := h.1
    rw [hnil] at hm
    cases hm
  changes h := by
    rcases h with rfl | ⟨u, status, hc, rfl⟩
    · exact ⟨rfl, rfl⟩
    · exact ⟨rfl, by rw [hc]; rfl⟩

/-- The slot of a committed row. -/
theorem mem_rows_iff {v : Versions Row} {row : Row} :
    row ∈ v.rows ↔ ∃ (k : Nat) (slot : Slot Row), v.slots[k]? = some slot ∧
      slot.committed = some row := by
  unfold Versions.rows
  rw [List.mem_filterMap]
  constructor
  · rintro ⟨slot, hslot, hc⟩
    obtain ⟨k, hk⟩ := List.mem_iff_getElem?.mp hslot
    exact ⟨k, slot, hk, hc⟩
  · rintro ⟨k, slot, hk, hc⟩
    exact ⟨slot, List.mem_of_getElem? hk, hc⟩

/-- A row that is changed from outside is an account. -/
theorem row_unchanged {ok : Traffic Row (Call × Nat) → Nat → Transacting → Access Row → Prop}
    {c : Traffic Row (Call × Nat)} (hs : Traffic.Sound (discipline ok) c)
    {f : Slot Row → Slot Row} (hf : ∀ slot ∈ c.tables.slots, StatusChanges slot (f slot)) {k : Nat}
    {slot' : Slot Row} (hk : (c.tables.slots.map f)[k]? = some slot') {row : Row}
    (hrow : row ∈ slot'.versions) (hnot : ∀ id, row.key ≠ .user id) :
    c.tables.slots[k]? = some slot' := by
  rw [List.getElem?_map] at hk
  obtain ⟨slot, hslot, rfl⟩ := Option.map_eq_some_iff.mp hk
  rcases hf slot (List.mem_of_getElem? hslot) with he | ⟨u, status, hc, he⟩
  · rw [he]
    exact hslot
  · rw [he] at hrow
    rcases Slot.mem_versions_iff.mp hrow with hc' | ⟨j, hw⟩
    · obtain rfl := Option.some.inj hc'
      exact absurd rfl (hnot u.id)
    · have hkey : row.key = (Row.user u).key :=
        hs.coherent hslot (Slot.written_mem hw) (Slot.committed_mem hc)
      exact absurd hkey (hnot u.id)

/-! ## What the requests keep -/

section Invariant

variable {s s' : Interleaved} {l : Interleaved.Label} {told : Told} {row : Row}
  {ok : Traffic Row (Call × Nat) → Nat → Transacting → Access Row → Prop}

theorem read_cons_of_ne {command : Command} {reply : command.Reply}
    (hc : ∀ call, command ≠ .repository call) (h : Told.Read (⟨command, reply⟩ :: told) row) :
    told.Read row := by
  have hmem : ∀ {call : Call} {r : (Command.repository call).Reply},
      Told.Heard (⟨command, reply⟩ :: told) (.repository call) r →
      told.Heard (.repository call) r := by
    intro call r hr
    rcases List.mem_cons.mp hr with he | hr
    · exact absurd (congrArg Sigma.fst he).symm (hc call)
    · exact hr
  cases row with
  | user u =>
    rcases h with ⟨email, hr⟩ | hr
    · exact .inl ⟨email, hmem hr⟩
    · exact .inr (hmem hr)
  | token t =>
    obtain ⟨hash, hr⟩ := h
    exact ⟨hash, hmem hr⟩
  | _ => exact h

/-- What a reply tells of a row, the call has read. -/
theorem read_cons {call : Call} {reply : Except AppError call.Result}
    (h : Told.Read (⟨.repository call, reply⟩ :: told) row) :
    told.Read row ∨ ∃ r, reply = .ok r ∧ ∀ made, Answers made call r → Sighted made row := by
  cases row with
  | user u =>
    rcases h with ⟨email, hr⟩ | hr
    · rcases List.mem_cons.mp hr with he | hr
      · cases he
        exact .inr ⟨some u, rfl, fun made ha => ha.2⟩
      · exact .inl (.inl ⟨email, hr⟩)
    · rcases List.mem_cons.mp hr with he | hr
      · cases he
        exact .inr ⟨some u, rfl, fun made ha => ha.2⟩
      · exact .inl (.inr hr)
  | token t =>
    obtain ⟨hash, hr⟩ := h
    rcases List.mem_cons.mp hr with he | hr
    · cases he
      exact .inr ⟨some t, rfl, fun made ha => ha.2⟩
    · exact .inl ⟨hash, hr⟩
  | _ => exact h.elim

/-- What becomes of the tables in a step leaves the rows that are there. -/
theorem keys_step (hsound : Traffic.Sound (discipline ok) s.traffic)
    (ht : s'.traffic = s.traffic ∨ Traffic.Step (discipline ok) s.traffic s'.traffic) {k : RowKey}
    (hk : k ∈ s.world.tables.rows.map Row.key) : k ∈ s'.world.tables.rows.map Row.key := by
  rcases ht with he | hstep
  · rw [show s'.world.tables = s.world.tables from congrArg Traffic.tables he]
    exact hk
  · exact hsound.keys_step (lawful ok) hstep hk

theorem recalled_step (h : Recalled s) (hf : Followed env s)
    (hsound : Traffic.Sound (discipline ok) s.traffic)
    (ht : s'.traffic = s.traffic ∨ Traffic.Step (discipline ok) s.traffic s'.traffic)
    (hs : Interleaved.step env s l = some s') : Recalled s' := by
  have hkeys := fun (k : RowKey) => @keys_step s s' ok hsound ht k
  rcases pool_step_cases hs with ⟨t, -, rfl⟩ | ⟨i, fate, t, piece, next, reply, -, hc⟩ |
    ⟨move, world, -, -, rfl⟩
  · exact h
  · intro j row hread
    by_cases hj : j = i
    · subst hj
      rw [hc.pastOf_self] at hread
      cases piece with
      | called call => exact hkeys _ (h j row hread)
      | access a => exact hkeys _ (h j row hread)
      | replied call result =>
        rcases read_cons hread with hread | ⟨r, rfl, hsighted⟩
        · exact hkeys _ (h j row hread)
        · obtain ⟨-, hanswer⟩ := hf.allowed hc.thread
          have hresult : result = .ok r := by
            have hcredible := credible_perform (piece_perform hc)
            rcases hcredible with he | ⟨e, he⟩
            · cases result with
              | ok r' => exact congrArg Except.ok (Except.ok.inj he).symm
              | error e => cases he
            · cases he
          obtain ⟨now, made, hopen, ha⟩ := hanswer r hresult
          obtain ⟨u, hu, -, rfl⟩ := underway_eq_some hopen
          obtain ⟨whose, rows, hm, hrow⟩ := hsighted _ ha
          exact hkeys _ (hsound.read hu hm row hrow)
      | other command =>
        refine hkeys _ (h j row (read_cons_of_ne (fun call he => ?_) hread))
        subst he
        cases piece_perform hc
    · rw [hc.pastOf_of_ne hj] at hread
      exact hkeys _ (h j row hread)
  · intro i row hread
    exact hkeys _ (h i row hread)

end Invariant


section Runs

variable {s s₀ : Interleaved} {l : Interleaved.Label} {w : SharedWorld}
  {ok : Traffic Row (Call × Nat) → Nat → Transacting → Access Row → Prop}

/-- The requests and their transactions go on as they should. -/
structure Harmonious (env : Env)
    (ok : Traffic Row (Call × Nat) → Nat → Transacting → Access Row → Prop) (s : Interleaved) :
    Prop where
  followed : Followed env s
  recalled : Recalled s
  sound : Traffic.Sound (discipline ok) s.traffic

theorem orderly_start (h : AtRest w.tables) : Harmonious env ok (Pool.start w) where
  followed := Foundations.recounted_start
  recalled _ row hread := by
    cases row with
    | user u =>
      rcases hread with ⟨email, hm⟩ | hm
      · cases hm
      · cases hm
    | token t =>
      obtain ⟨hash, hm⟩ := hread
      cases hm
    | _ => exact hread.elim
  sound := by
    have hid : (discipline ok).number ∘ (discipline ok).key = Row.id :=
      funext fun row => Row.id_key row
    refine Traffic.sound_start h.quiet (hid ▸ h.distinct) fun row hrow => ?_
    have hlt := h.numbered row hrow
    rw [← Row.id_key] at hlt
    exact hlt

/-- What the transactions keep, the requests keep: an invariant of the transactions under way is kept
along every run whose accesses meet the condition. -/
theorem traffic_kept {cond : Interleaved → Interleaved.Label → Prop}
    {P : Traffic Row (Call × Nat) → Prop}
    (hok : ∀ s i fate a u, Harmonious env ok s → cond s (.call i fate) →
      s.nextCommand i = some (.access a) → underway s.trace i = some u → ok s.traffic i u a)
    (hstep : ∀ c c', Traffic.Sound (discipline ok) c → P c → Traffic.Step (discipline ok) c c' → P c')
    (h0 : Harmonious env ok s₀ ∧ P s₀.traffic) {ls : List Interleaved.Label}
    (hall : AllSteps (Interleaved.step env) cond s₀ ls)
    (hrun : runs (Interleaved.step env) s₀ ls = some s) : Harmonious env ok s ∧ P s.traffic := by
  refine invariant_of_allSteps (P := fun s => Harmonious env ok s ∧ P s.traffic) ?_ hall hrun h0
  rintro s l s' hcond hs ⟨⟨hf, hrecalled, hsound⟩, hP⟩
  have ht : s'.traffic = s.traffic ∨ Traffic.Step (discipline ok) s.traffic s'.traffic :=
    traffic_step hf hrecalled (fun i fate a u hl ha hu =>
      hok s i fate a u ⟨hf, hrecalled, hsound⟩ (hl ▸ hcond) ha hu) hs
  refine ⟨⟨followed_step hf hs, recalled_step hrecalled hf hsound ht hs, ?_⟩, ?_⟩
  · rcases ht with he | hstep'
    · rw [he]
      exact hsound
    · exact hsound.step (lawful ok) hstep'
  · rcases ht with he | hstep'
    · rw [he]
      exact hP
    · exact hstep _ _ hsound hP hstep'

theorem meets_of_heeding (h : heeding ok s l) {i : Nat} {fate : PieceFate} (hl : l = .call i fate)
    {a : Access Row} (ha : s.nextCommand i = some (.access a)) {u : Transacting}
    (hu : underway s.trace i = some u) : ok s.traffic i u a := by
  subst hl
  exact h _ ha u hu

/-- An invariant of the transactions, along every run whose accesses meet their condition. -/
theorem heeding_invariant {P : Traffic Row (Call × Nat) → Prop}
    (hstep : ∀ c c', Traffic.Sound (discipline ok) c → P c → Traffic.Step (discipline ok) c c' → P c')
    (hrest : AtRest w.tables) (h0 : P (Interleaved.traffic (Pool.start w)))
    {ls : List Interleaved.Label}
    (hall : AllSteps (Interleaved.step env) (heeding ok) (Pool.start w) ls)
    (hrun : runs (Interleaved.step env) (Pool.start w) ls = some s) :
    Harmonious env ok s ∧ P s.traffic :=
  traffic_kept (fun _ _ _ _ _ _ hcond ha hu => meets_of_heeding hcond rfl ha hu) hstep
    ⟨orderly_start hrest, h0⟩ hall hrun

theorem allSteps_trivial (s : Interleaved) (ls : List Interleaved.Label) :
    AllSteps (Interleaved.step env) (fun _ _ => True) s ls := by
  induction ls generalizing s with
  | nil => trivial
  | cons l ls ih => exact ⟨trivial, fun s₁ _ => ih s₁⟩

/-- One that is kept whatever the accesses are. -/
theorem every_kept {P : Traffic Row (Call × Nat) → Prop}
    (hstep : ∀ c c', Traffic.Sound (discipline fun _ _ _ _ => True) c → P c →
      Traffic.Step (discipline fun _ _ _ _ => True) c c' → P c')
    (h0 : Harmonious env (fun _ _ _ _ => True) s₀ ∧ P s₀.traffic) {ls : List Interleaved.Label}
    (hrun : runs (Interleaved.step env) s₀ ls = some s) :
    Harmonious env (fun _ _ _ _ => True) s ∧ P s.traffic :=
  traffic_kept (fun _ _ _ _ _ _ _ _ _ => trivial) hstep h0 (allSteps_trivial _ ls) hrun

end Runs

end PracticalMicroservice.Auth
