import PracticalMicroservice.Processes.Lifecycle

/-!
# Proofs: one cycle at a time, and an orderly end

The loop goes through four modes, one step of it a step between them. A process that shuts down in
its own order finds nobody at work when it closes the database.
-/

namespace PracticalMicroservice.Processes

open Foundations (AllSteps runs)

/-! ## The loop -/

section Loop

variable {loop loop' : PollingLoop} {mode : Mode} {l : PollingLoop.Label}

theorem PollingLoop.InMode.schedule (hrunning : loop.running = true) (htimers : loop.timers = [])
    (hinFlight : loop.inFlight = []) (hstops : loop.stops = []) :
    loop.schedule.InMode .waiting := by
  refine .waiting loop.next hrunning rfl ?_ hinFlight hstops
  unfold PollingLoop.schedule
  rw [htimers]

theorem PollingLoop.InMode.start (h : loop.InMode mode) (hstops : loop.stops = []) :
    ∃ mode', mode.step .start = some mode' ∧ loop.start.InMode mode' := by
  unfold PollingLoop.start
  cases h with
  | off running idle stops =>
    refine ⟨.waiting, rfl, ?_⟩
    rw [running]
    exact .schedule rfl idle.1 idle.2 stops
  | waiting timer running last timers inFlight stops =>
    rw [if_pos running]
    exact ⟨.waiting, rfl, .waiting timer running last timers inFlight stops⟩
  | working cycle running last timers inFlight stops =>
    rw [if_pos running]
    exact ⟨.working, rfl, .working cycle running last timers inFlight stops⟩
  | draining cycle running timers inFlight stops =>
    rw [stops] at hstops
    cases hstops

theorem PollingLoop.InMode.stop (h : loop.InMode mode) :
    ∃ mode', mode.step .stop = some mode' ∧ loop.stop.InMode mode' := by
  unfold PollingLoop.stop
  cases h with
  | off running idle stops =>
    rw [running]
    exact ⟨.off, rfl, .off running idle stops⟩
  | waiting timer running last timers inFlight stops =>
    rw [if_pos running]
    refine ⟨.off, rfl, .off rfl ⟨?_, inFlight⟩ ?_⟩
    · simp [timers, last]
    · simp [stops, inFlight]
  | working cycle running last timers inFlight stops =>
    rw [if_pos running]
    refine ⟨.draining, rfl, .draining cycle rfl ?_ inFlight ?_⟩
    · simp [timers]
    · simp [stops, last, inFlight]
  | draining cycle running timers inFlight stops =>
    rw [running]
    exact ⟨.draining, rfl, .draining cycle running timers inFlight stops⟩

theorem PollingLoop.InMode.fire {timer : Nat} (h : loop.InMode mode) (hset : timer ∈ loop.timers) :
    ∃ mode', mode.step (.fire timer) = some mode' ∧ (loop.tick timer).InMode mode' := by
  unfold PollingLoop.tick
  cases h with
  | off running idle stops =>
    rw [idle.1] at hset
    cases hset
  | waiting timer' running last timers inFlight stops =>
    rw [timers] at hset
    obtain rfl := List.mem_singleton.mp hset
    dsimp only
    rw [if_pos running]
    refine ⟨.working, rfl, .working loop.next running rfl ?_ ?_ stops⟩
    · simp [timers]
    · simp [inFlight]
  | working cycle running last timers inFlight stops =>
    rw [timers] at hset
    cases hset
  | draining cycle running timers inFlight stops =>
    rw [timers] at hset
    cases hset

theorem PollingLoop.InMode.settle {cycle : Nat} (h : loop.InMode mode)
    (hunder : cycle ∈ loop.inFlight) :
    ∃ mode', mode.step (.settle cycle) = some mode' ∧ (loop.settle cycle).InMode mode' := by
  unfold PollingLoop.settle
  cases h with
  | off running idle stops =>
    rw [idle.2] at hunder
    cases hunder
  | waiting timer running last timers inFlight stops =>
    rw [inFlight] at hunder
    cases hunder
  | working cycle' running last timers inFlight stops =>
    rw [inFlight] at hunder
    obtain rfl := List.mem_singleton.mp hunder
    dsimp only
    rw [if_pos running]
    refine ⟨.waiting, rfl, .schedule running timers ?_ ?_⟩
    · simp [inFlight]
    · simp [stops]
  | draining cycle' running timers inFlight stops =>
    rw [inFlight] at hunder
    obtain rfl := List.mem_singleton.mp hunder
    dsimp only
    rw [running]
    refine ⟨.off, rfl, .off rfl ⟨timers, ?_⟩ ?_⟩
    · simp [inFlight]
    · simp [stops]

theorem stop_off (loop : PollingLoop) : loop.stop.running = false := by
  unfold PollingLoop.stop
  split
  · rfl
  · rename_i hoff
    exact Bool.eq_false_iff.mpr hoff

/-- One step of a loop that is not started before it has stopped. -/
theorem PollingLoop.InMode.step (h : loop.InMode mode) (hpatient : loop.Patient l)
    (hs : loop.step l = some loop') : ∃ mode', mode.step l = some mode' ∧ loop'.InMode mode' := by
  cases l with
  | start =>
    obtain rfl := Option.some.inj hs
    exact h.start hpatient
  | stop =>
    obtain rfl := Option.some.inj hs
    exact h.stop
  | fire timer =>
    have hs : (if timer ∈ loop.timers then some (loop.tick timer) else none) = some loop' := hs
    split at hs
    · rename_i hset
      obtain rfl := Option.some.inj hs
      exact h.fire hset
    · cases hs
  | settle cycle =>
    have hs : (if cycle ∈ loop.inFlight then some (loop.settle cycle) else none) = some loop' := hs
    split at hs
    · rename_i hunder
      obtain rfl := Option.some.inj hs
      exact h.settle hunder
    · cases hs

theorem inMode_off : PollingLoop.InMode {} .off := .off rfl ⟨rfl, rfl⟩ rfl

/-- The loop is one cycle after another: every run of it is a run of the modes, and it has no timer
and no cycle but what its mode says. -/
theorem polling_refines {ls : List PollingLoop.Label}
    (hpatient : AllSteps PollingLoop.step PollingLoop.Patient {} ls)
    (hrun : runs PollingLoop.step {} ls = some loop) :
    ∃ mode, runs Mode.step .off ls = some mode ∧ loop.InMode mode :=
  Foundations.runs_simulated (fun _ _ _ _ hok hsim hs => hsim.step hok hs) hpatient hrun inMode_off

/-- Stopped in the middle of a cycle, and started again when that has ended. -/
theorem polling_refines_restarted :
    ∃ loop mode, runs PollingLoop.step {} [.start, .fire 0, .stop, .settle 1, .start] = some loop ∧
      runs Mode.step .off [.start, .fire 0, .stop, .settle 1, .start] = some mode ∧
      loop.InMode mode := by
  obtain ⟨mode, hmode⟩ :=
    @polling_refines _ [.start, .fire 0, .stop, .settle 1, .start] (by decide) rfl
  exact ⟨_, mode, rfl, hmode⟩

/-- A loop that is started again too early has two cycles at a time. -/
example : (runs PollingLoop.step {} [.start, .fire 0, .stop, .start, .fire 2]).map
    (·.inFlight.length) = some 2 := by decide

theorem PollingLoop.InMode.single (h : loop.InMode mode) : loop.inFlight.length ≤ 1 := by
  cases h with
  | off running idle stops => rw [idle.2]; exact Nat.zero_le 1
  | waiting timer running last timers inFlight stops => rw [inFlight]; exact Nat.zero_le 1
  | working cycle running last timers inFlight stops => rw [inFlight]; exact Nat.le_refl 1
  | draining cycle running timers inFlight stops => rw [inFlight]; exact Nat.le_refl 1

/-- When nothing waits for it to stop, a loop that is off is idle. -/
theorem PollingLoop.InMode.idle (h : loop.InMode mode) (hoff : loop.running = false)
    (hstops : loop.stops = []) : loop.Idle := by
  cases h with
  | off running idle stops => exact idle
  | waiting timer running last timers inFlight stops => rw [hoff] at running; cases running
  | working cycle running last timers inFlight stops => rw [hoff] at running; cases running
  | draining cycle running timers inFlight stops => rw [stops] at hstops; cases hstops

/-- A timer or a cycle of the loop, as what it does. -/
def PollingLoop.Label.Inner : PollingLoop.Label → Prop
  | .fire _ | .settle _ => True
  | .start | .stop => False

theorem PollingLoop.Label.Inner.patient (h : l.Inner) : loop.Patient l := by
  cases l with
  | start => cases h
  | stop => cases h
  | fire timer => trivial
  | settle cycle => trivial

/-- What the loop does by itself leaves it running or stopped, and adds nothing that waits. -/
theorem inner_keeps (hinner : l.Inner) (hs : loop.step l = some loop') :
    loop'.running = loop.running ∧ loop'.stops ⊆ loop.stops ∧ ¬ loop.Idle := by
  cases l with
  | start => cases hinner
  | stop => cases hinner
  | fire timer =>
    have hs : (if timer ∈ loop.timers then some (loop.tick timer) else none) = some loop' := hs
    split at hs
    · rename_i hset
      obtain rfl := Option.some.inj hs
      refine ⟨?_, ?_, fun hidle => ?_⟩
      · unfold PollingLoop.tick
        dsimp only
        split <;> rfl
      · unfold PollingLoop.tick
        dsimp only
        split <;> exact List.Subset.refl _
      · rw [hidle.1] at hset
        cases hset
    · cases hs
  | settle cycle =>
    have hs : (if cycle ∈ loop.inFlight then some (loop.settle cycle) else none) = some loop' := hs
    split at hs
    · rename_i hunder
      obtain rfl := Option.some.inj hs
      refine ⟨?_, ?_, fun hidle => ?_⟩
      · unfold PollingLoop.settle
        dsimp only
        split <;> rfl
      · unfold PollingLoop.settle
        dsimp only
        split <;> exact fun _ hx => (List.mem_filter.mp hx).1
      · rw [hidle.2] at hunder
        cases hunder
    · cases hs

end Loop

/-! ## The process -/

section Process

variable {parts : Parts} {s s' : Process}

/-- A loop nobody has stopped; there is none without a worker. -/
structure AtWork (parts : Parts) (loop : PollingLoop) : Prop where
  mode : ∃ mode, loop.InMode mode
  stops : loop.stops = []
  jobless : parts.worker = false → loop.running = false ∧ loop.Idle

theorem AtWork.step {loop loop' : PollingLoop} (h : AtWork parts loop) {l : PollingLoop.Label}
    (hinner : l.Inner) (hs : loop.step l = some loop') : AtWork parts loop' := by
  obtain ⟨mode, hmode⟩ := h.mode
  obtain ⟨mode', -, hmode'⟩ := hmode.step hinner.patient hs
  obtain ⟨hrunning, hstops, hidle⟩ := inner_keeps hinner hs
  refine ⟨⟨mode', hmode'⟩, List.subset_nil.mp (h.stops ▸ hstops), fun hworker => ?_⟩
  exact absurd (h.jobless hworker).2 hidle

/-- How far a process is. -/
inductive Stage (parts : Parts) (s : Process) : Prop
  | serving (phase : s.phase = .serving) (calm : s.shuttingDown = false)
    (connected : s.connected = parts.pool) (work : AtWork parts s.loop)
    (serverless : parts.server = false → s.listening = false ∧ s.requests = 0)
    (attended : s.dispatching ≤ s.requests)
  | closing (phase : s.phase = .closing) (shuttingDown : s.shuttingDown = true)
    (forced : s.forceExit = true) (connected : s.connected = parts.pool)
    (work : AtWork parts s.loop) (listening : s.listening = false)
    (attended : s.dispatching ≤ s.requests)
  | stopping (phase : s.phase = .stopping) (shuttingDown : s.shuttingDown = true)
    (forced : s.forceExit = true) (connected : s.connected = parts.pool)
    (mode : ∃ mode, s.loop.InMode mode) (off : s.loop.running = false)
    (listening : s.listening = false) (requests : s.requests = 0)
    (dispatching : s.dispatching = 0)
  | disconnecting (phase : s.phase = .disconnecting) (shuttingDown : s.shuttingDown = true)
    (forced : s.forceExit = true) (connected : s.connected = false) (drained : s.Drained)
  | finished (phase : s.phase = .exited 0) (connected : s.connected = false) (drained : s.Drained)
  | failed (phase : s.phase = .exited 1) (single : s.loop.inFlight.length ≤ 1)
    (connected : s.connected = parts.pool ∨ s.Drained)

theorem Process.Drained.single (h : s.Drained) : s.loop.inFlight.length ≤ 1 := by
  rw [h.idle.2]
  exact Nat.zero_le 1

/-- A process can fail at any stage. -/
theorem Stage.exit (h : Stage parts s) (halive : ¬ s.Exited) : Stage parts (s.exit 1) := by
  cases h with
  | serving phase calm connected work serverless attended =>
    obtain ⟨mode, hmode⟩ := work.mode
    exact .failed rfl hmode.single (.inl connected)
  | closing phase shuttingDown forced connected work listening attended =>
    obtain ⟨mode, hmode⟩ := work.mode
    exact .failed rfl hmode.single (.inl connected)
  | stopping phase shuttingDown forced connected mode off listening requests dispatching =>
    obtain ⟨mode, hmode⟩ := mode
    exact .failed rfl hmode.single (.inl connected)
  | disconnecting phase shuttingDown forced connected drained =>
    exact .failed rfl drained.single (.inr ⟨drained.listening, drained.requests, drained.dispatching,
      drained.stopped, drained.idle⟩)
  | finished phase connected drained => exact absurd ⟨0, phase⟩ halive
  | failed phase single connected => exact absurd ⟨1, phase⟩ halive

/-- The database is closed when all are done. -/
theorem stage_disconnect (hshutting : s.shuttingDown = true) (hforced : s.forceExit = true)
    (hconnected : s.connected = parts.pool) (hdrained : s.Drained) :
    Stage parts (s.disconnect parts) := by
  have hstays : ∀ {phase : Phase} {forceExit connected : Bool},
      Process.Drained { s with phase, forceExit, connected } :=
    ⟨hdrained.listening, hdrained.requests, hdrained.dispatching, hdrained.stopped, hdrained.idle⟩
  unfold Process.disconnect
  cases hpool : parts.pool with
  | true =>
    rw [if_pos rfl]
    exact .disconnecting rfl hshutting hforced rfl hstays
  | false =>
    rw [if_neg Bool.false_ne_true]
    exact .finished rfl (hconnected.trans hpool) hstays

theorem stage_stopWorker (hshutting : s.shuttingDown = true) (hforced : s.forceExit = true)
    (hconnected : s.connected = parts.pool) (hwork : AtWork parts s.loop)
    (hlistening : s.listening = false) (hrequests : s.requests = 0)
    (hattended : s.dispatching ≤ s.requests) : Stage parts (s.stopWorker parts) := by
  have hdispatching : s.dispatching = 0 := by omega
  unfold Process.stopWorker
  cases hworker : parts.worker with
  | true =>
    rw [if_pos rfl]
    obtain ⟨mode, hmode⟩ := hwork.mode
    obtain ⟨mode', -, hmode'⟩ := hmode.stop
    exact .stopping rfl hshutting hforced hconnected ⟨mode', hmode'⟩ (stop_off s.loop)
      hlistening hrequests hdispatching
  | false =>
    rw [if_neg Bool.false_ne_true]
    obtain ⟨hoff, hidle⟩ := hwork.jobless hworker
    exact stage_disconnect hshutting hforced hconnected
      ⟨hlistening, hrequests, hdispatching, hoff, hidle⟩

theorem Stage.shutdown (h : Stage parts s) (halive : ¬ s.Exited) :
    Stage parts (s.shutdown parts) := by
  unfold Process.shutdown
  by_cases hshutting : s.shuttingDown = true
  · rw [if_pos hshutting]
    exact h
  · rw [if_neg hshutting]
    cases h with
    | serving phase calm connected work serverless attended =>
      dsimp only
      cases hserver : parts.server with
      | true =>
        rw [if_pos rfl]
        exact .closing rfl rfl rfl connected work rfl attended
      | false =>
        rw [if_neg Bool.false_ne_true]
        obtain ⟨hlistening, hrequests⟩ := serverless hserver
        exact stage_stopWorker rfl rfl connected work hlistening hrequests attended
    | closing phase shuttingDown => exact absurd shuttingDown hshutting
    | stopping phase shuttingDown => exact absurd shuttingDown hshutting
    | disconnecting phase shuttingDown => exact absurd shuttingDown hshutting
    | finished phase => exact absurd ⟨0, phase⟩ halive
    | failed phase => exact absurd ⟨1, phase⟩ halive

/-- A timer or a cycle of the loop leaves the process where it is. -/
theorem Stage.inner (h : Stage parts s) (halive : ¬ s.Exited) {loop' : PollingLoop}
    {l : PollingLoop.Label} (hinner : l.Inner) (hs : s.loop.step l = some loop') :
    Stage parts { s with loop := loop' } := by
  obtain ⟨hrunning, hstops, hbusy⟩ := inner_keeps hinner hs
  cases h with
  | serving phase calm connected work serverless attended =>
    exact .serving phase calm connected (work.step hinner hs) serverless attended
  | closing phase shuttingDown forced connected work listening attended =>
    exact .closing phase shuttingDown forced connected (work.step hinner hs) listening attended
  | stopping phase shuttingDown forced connected mode off listening requests dispatching =>
    obtain ⟨mode, hmode⟩ := mode
    obtain ⟨mode', -, hmode'⟩ := hmode.step hinner.patient hs
    exact .stopping phase shuttingDown forced connected ⟨mode', hmode'⟩ (hrunning.trans off)
      listening requests dispatching
  | disconnecting phase shuttingDown forced connected drained => exact absurd drained.idle hbusy
  | finished phase => exact absurd ⟨0, phase⟩ halive
  | failed phase => exact absurd ⟨1, phase⟩ halive

/-- A request comes in where the server listens, or on a connection it still waits for. It may wait
for a cycle. -/
theorem Stage.request (h : Stage parts s) (halive : ¬ s.Exited) (hopen : s.Open) {dispatching : Nat}
    (hattends : s.dispatching ≤ s.requests → dispatching ≤ s.requests + 1) :
    Stage parts { s with requests := s.requests + 1, dispatching } := by
  cases h with
  | serving phase calm connected work serverless attended =>
    refine .serving phase calm connected work (fun hserver => ?_) (hattends attended)
    rcases hopen with hlistening | ⟨hclosing, -⟩
    · exact absurd ((serverless hserver).1 ▸ hlistening) Bool.false_ne_true
    · rw [phase] at hclosing
      cases hclosing
  | closing phase shuttingDown forced connected work listening attended =>
    exact .closing phase shuttingDown forced connected work listening (hattends attended)
  | stopping phase shuttingDown forced connected mode off listening requests dispatching =>
    rcases hopen with hlistening | ⟨hclosing, -⟩
    · exact absurd (listening ▸ hlistening) Bool.false_ne_true
    · rw [phase] at hclosing
      cases hclosing
  | disconnecting phase shuttingDown forced connected drained =>
    rcases hopen with hlistening | ⟨hclosing, -⟩
    · exact absurd (drained.listening ▸ hlistening) Bool.false_ne_true
    · rw [phase] at hclosing
      cases hclosing
  | finished phase => exact absurd ⟨0, phase⟩ halive
  | failed phase => exact absurd ⟨1, phase⟩ halive

/-- A connection waits no more, and perhaps leaves a cycle behind. -/
theorem Stage.leave (h : Stage parts s) (halive : ¬ s.Exited) (hwaits : 0 < s.requests)
    {dispatching unattended : Nat}
    (hattends : s.dispatching ≤ s.requests → dispatching ≤ s.requests - 1) :
    Stage parts { s with requests := s.requests - 1, dispatching, unattended } := by
  cases h with
  | serving phase calm connected work serverless attended =>
    refine .serving phase calm connected work (fun hserver => ?_) (hattends attended)
    exact absurd (serverless hserver).2 (Nat.ne_of_gt hwaits)
  | closing phase shuttingDown forced connected work listening attended =>
    exact .closing phase shuttingDown forced connected work listening (hattends attended)
  | stopping phase shuttingDown forced connected mode off listening requests =>
    exact absurd requests (Nat.ne_of_gt hwaits)
  | disconnecting phase shuttingDown forced connected drained =>
    exact absurd drained.requests (Nat.ne_of_gt hwaits)
  | finished phase => exact absurd ⟨0, phase⟩ halive
  | failed phase => exact absurd ⟨1, phase⟩ halive

/-- Only a connection that waits can wait for a cycle. -/
theorem Stage.waits (h : Stage parts s) (halive : ¬ s.Exited) (hdispatching : 0 < s.dispatching) :
    0 < s.requests := by
  cases h with
  | serving phase calm connected work serverless attended => omega
  | closing phase shuttingDown forced connected work listening attended => omega
  | stopping phase shuttingDown forced connected mode off listening requests dispatching => omega
  | disconnecting phase shuttingDown forced connected drained =>
    exact absurd drained.dispatching (Nat.ne_of_gt hdispatching)
  | finished phase => exact absurd ⟨0, phase⟩ halive
  | failed phase => exact absurd ⟨1, phase⟩ halive

/-- A cycle that nobody waits for ends, and changes nothing else. -/
theorem Stage.ended (h : Stage parts s) (unattended : Nat) :
    Stage parts { s with unattended } := by
  have hdrained (hd : s.Drained) : Process.Drained { s with unattended } :=
    ⟨hd.listening, hd.requests, hd.dispatching, hd.stopped, hd.idle⟩
  cases h with
  | serving phase calm connected work serverless attended =>
    exact .serving phase calm connected work serverless attended
  | closing phase shuttingDown forced connected work listening attended =>
    exact .closing phase shuttingDown forced connected work listening attended
  | stopping phase shuttingDown forced connected mode off listening requests dispatching =>
    exact .stopping phase shuttingDown forced connected mode off listening requests dispatching
  | disconnecting phase shuttingDown forced connected drained =>
    exact .disconnecting phase shuttingDown forced connected (hdrained drained)
  | finished phase connected drained => exact .finished phase connected (hdrained drained)
  | failed phase single connected =>
    exact .failed phase single (connected.imp_right hdrained)

/-- The server has closed, and nobody waits for a response. -/
theorem Stage.closed (h : Stage parts s) (hphase : s.phase = .closing) (hdone : s.requests = 0) :
    Stage parts (s.stopWorker parts) := by
  cases h with
  | closing phase shuttingDown forced connected work listening attended =>
    exact stage_stopWorker shuttingDown forced connected work listening hdone attended
  | serving phase => rw [phase] at hphase; cases hphase
  | stopping phase => rw [phase] at hphase; cases hphase
  | disconnecting phase => rw [phase] at hphase; cases hphase
  | finished phase => rw [phase] at hphase; cases hphase
  | failed phase => rw [phase] at hphase; cases hphase

/-- The worker has stopped: the last cycle has ended. -/
theorem Stage.stopped (h : Stage parts s) (hphase : s.phase = .stopping)
    (hstops : s.loop.stops = []) : Stage parts (s.disconnect parts) := by
  cases h with
  | stopping phase shuttingDown forced connected mode off listening requests dispatching =>
    obtain ⟨mode, hmode⟩ := mode
    exact stage_disconnect shuttingDown forced connected
      ⟨listening, requests, dispatching, off, hmode.idle off hstops⟩
  | serving phase => rw [phase] at hphase; cases hphase
  | closing phase => rw [phase] at hphase; cases hphase
  | disconnecting phase => rw [phase] at hphase; cases hphase
  | finished phase => rw [phase] at hphase; cases hphase
  | failed phase => rw [phase] at hphase; cases hphase

theorem Stage.disconnected (h : Stage parts s) (hphase : s.phase = .disconnecting) :
    Stage parts ({ s with forceExit := false }.exit 0) := by
  cases h with
  | disconnecting phase shuttingDown forced connected drained =>
    exact .finished rfl connected ⟨drained.listening, drained.requests, drained.dispatching,
      drained.stopped, drained.idle⟩
  | serving phase => rw [phase] at hphase; cases hphase
  | closing phase => rw [phase] at hphase; cases hphase
  | stopping phase => rw [phase] at hphase; cases hphase
  | finished phase => rw [phase] at hphase; cases hphase
  | failed phase => rw [phase] at hphase; cases hphase

/-- An event that does not come about in a state is no step of it. -/
theorem of_guarded {p : Prop} [Decidable p] {next : Process} {next? : Option Process}
    (hs : next? = some s') (h : next? = if p then some next else none) : p ∧ next = s' := by
  rw [h] at hs
  by_cases hp : p
  · rw [if_pos hp] at hs
    exact ⟨hp, Option.some.inj hs⟩
  · rw [if_neg hp] at hs
    cases hs

theorem Stage.react {e : Event} (h : Stage parts s) (halive : ¬ s.Exited)
    (hs : s.react parts e = some s') : Stage parts s' := by
  cases e with
  | request =>
    obtain ⟨hopen, rfl⟩ := of_guarded hs rfl
    exact h.request halive hopen fun hattended => Nat.le_succ_of_le hattended
  | respond =>
    obtain ⟨hwaits, rfl⟩ := of_guarded hs rfl
    exact h.leave halive (by omega) fun _ => by omega
  | dispatch =>
    obtain ⟨hdispatches, rfl⟩ := of_guarded hs rfl
    exact h.request halive hdispatches.2 fun hattended => Nat.succ_le_succ hattended
  | dispatched =>
    obtain ⟨hdispatching, rfl⟩ := of_guarded hs rfl
    exact h.leave halive (h.waits halive hdispatching) fun hattended => by omega
  | abandoned =>
    obtain ⟨hdispatching, rfl⟩ := of_guarded hs rfl
    exact h.leave halive (h.waits halive hdispatching) fun hattended => by omega
  | ended =>
    obtain ⟨-, rfl⟩ := of_guarded hs rfl
    exact h.ended _
  | timer id =>
    obtain ⟨loop', hloop, rfl⟩ := Option.map_eq_some_iff.mp hs
    exact h.inner (l := .fire id) halive trivial hloop
  | settled cycle =>
    obtain ⟨loop', hloop, rfl⟩ := Option.map_eq_some_iff.mp hs
    exact h.inner (l := .settle cycle) halive trivial hloop
  | signal =>
    obtain rfl := Option.some.inj hs
    exact h.shutdown halive
  | closed failed =>
    simp only [Process.react] at hs
    split at hs
    · rename_i hphase
      cases failed with
      | true =>
        obtain rfl := Option.some.inj hs
        exact h.exit halive
      | false =>
        rw [if_neg Bool.false_ne_true] at hs
        obtain ⟨hdone, rfl⟩ := of_guarded hs rfl
        exact h.closed hphase hdone
    · cases hs
  | stopped =>
    obtain ⟨hdone, rfl⟩ := of_guarded hs rfl
    exact h.stopped hdone.1 hdone.2
  | disconnected failed =>
    cases failed with
    | true =>
      obtain ⟨-, rfl⟩ := of_guarded hs rfl
      exact h.exit halive
    | false =>
      obtain ⟨hphase, rfl⟩ := of_guarded hs rfl
      exact h.disconnected hphase
  | timedOut =>
    obtain ⟨-, rfl⟩ := of_guarded hs rfl
    exact h.exit halive
  | serverError =>
    obtain rfl := Option.some.inj hs
    exact h.exit halive

/-- One event. -/
theorem Stage.step {e : Event} (h : Stage parts s) (hs : s.step parts e = some s') :
    Stage parts s' := by
  unfold Process.step at hs
  split at hs
  · cases hs
  · rename_i halive
    exact h.react halive hs

theorem stage_boot (parts : Parts) (enabled : Bool) : Stage parts (Process.boot parts enabled) := by
  refine .serving rfl rfl rfl ?_ (fun hserver => ⟨hserver, rfl⟩) (Nat.le_refl 0)
  unfold Process.boot
  cases hloop : parts.worker && enabled with
  | true =>
    rw [if_pos rfl]
    obtain ⟨mode, -, hmode⟩ := inMode_off.start rfl
    refine ⟨⟨mode, hmode⟩, rfl, fun hworker => ?_⟩
    rw [hworker] at hloop
    cases hloop
  | false =>
    rw [if_neg Bool.false_ne_true]
    exact ⟨⟨.off, inMode_off⟩, rfl, fun _ => ⟨rfl, rfl, rfl⟩⟩

theorem Stage.single (h : Stage parts s) : s.loop.inFlight.length ≤ 1 := by
  cases h with
  | serving phase calm connected work serverless => exact work.mode.elim fun _ h => h.single
  | closing phase shuttingDown forced connected work => exact work.mode.elim fun _ h => h.single
  | stopping phase shuttingDown forced connected mode => exact mode.elim fun _ h => h.single
  | disconnecting phase shuttingDown forced connected drained => exact drained.single
  | finished phase connected drained => exact drained.single
  | failed phase single => exact single

theorem Stage.graceful (h : Stage parts s) : s.Graceful parts where
  drained hpool hclosed := by
    have hopen (hconnected : s.connected = parts.pool) : s.Drained := by
      rw [hclosed, hpool] at hconnected
      cases hconnected
    cases h with
    | serving phase calm connected => exact hopen connected
    | closing phase shuttingDown forced connected => exact hopen connected
    | stopping phase shuttingDown forced connected => exact hopen connected
    | disconnecting phase shuttingDown forced connected drained => exact drained
    | finished phase connected drained => exact drained
    | failed phase single connected => exact connected.elim hopen id
  success hexit := by
    cases h with
    | finished phase connected drained => exact ⟨drained, connected⟩
    | serving phase => rw [phase] at hexit; cases hexit
    | closing phase => rw [phase] at hexit; cases hexit
    | stopping phase => rw [phase] at hexit; cases hexit
    | disconnecting phase => rw [phase] at hexit; cases hexit
    | failed phase => rw [phase] at hexit; cases hexit
  forced hshutting halive := by
    cases h with
    | serving phase calm => exact absurd (calm ▸ hshutting) Bool.false_ne_true
    | closing phase shuttingDown forced => exact forced
    | stopping phase shuttingDown forced => exact forced
    | disconnecting phase shuttingDown forced => exact forced
    | finished phase => exact absurd ⟨0, phase⟩ halive
    | failed phase => exact absurd ⟨1, phase⟩ halive
  single := h.single

theorem stage_always (parts : Parts) (enabled : Bool) {es : List Event}
    (hrun : runs (Process.step parts) (Process.boot parts enabled) es = some s) : Stage parts s :=
  Foundations.invariant_of_steps (fun _ _ _ hs h => h.step hs) hrun (stage_boot parts enabled)

/-- The cycles that requests run are the same in two states. -/
def SameDispatches (s s' : Process) : Prop :=
  s'.dispatching = s.dispatching ∧ s'.unattended = s.unattended

theorem disconnect_same : SameDispatches s (s.disconnect parts) := by
  unfold Process.disconnect
  split
  · exact ⟨rfl, rfl⟩
  · exact ⟨rfl, rfl⟩

theorem stopWorker_same : SameDispatches s (s.stopWorker parts) := by
  unfold Process.stopWorker
  split
  · exact ⟨rfl, rfl⟩
  · exact disconnect_same

/-- A shutdown looks at the server, the loop and the pool alone. -/
theorem shutdown_same : SameDispatches s (s.shutdown parts) := by
  unfold Process.shutdown
  split
  · exact ⟨rfl, rfl⟩
  · dsimp only
    split
    · exact ⟨rfl, rfl⟩
    · exact stopWorker_same

/-- An event but those of the cycles that requests run. -/
theorem same_of_react {e : Event} (hs : s.react parts e = some s')
    (he : e ≠ .dispatch ∧ e ≠ .dispatched ∧ e ≠ .abandoned ∧ e ≠ .ended) :
    SameDispatches s s' := by
  obtain ⟨hdispatch, hdispatched, habandoned, hended⟩ := he
  cases e with
  | dispatch => exact absurd rfl hdispatch
  | dispatched => exact absurd rfl hdispatched
  | abandoned => exact absurd rfl habandoned
  | ended => exact absurd rfl hended
  | timer id | settled cycle =>
    obtain ⟨loop', -, rfl⟩ := Option.map_eq_some_iff.mp hs
    exact ⟨rfl, rfl⟩
  | signal =>
    obtain rfl := Option.some.inj hs
    exact shutdown_same
  | serverError =>
    obtain rfl := Option.some.inj hs
    exact ⟨rfl, rfl⟩
  | request | respond | timedOut =>
    obtain ⟨-, rfl⟩ := of_guarded hs rfl
    exact ⟨rfl, rfl⟩
  | stopped =>
    obtain ⟨-, rfl⟩ := of_guarded hs rfl
    exact disconnect_same
  | closed failed =>
    cases failed with
    | true =>
      obtain ⟨-, rfl⟩ := of_guarded hs rfl
      exact ⟨rfl, rfl⟩
    | false =>
      simp only [Process.react] at hs
      split at hs
      · rw [if_neg Bool.false_ne_true] at hs
        obtain ⟨-, rfl⟩ := of_guarded hs rfl
        exact stopWorker_same
      · cases hs
  | disconnected failed =>
    cases failed with
    | true =>
      obtain ⟨-, rfl⟩ := of_guarded hs rfl
      exact ⟨rfl, rfl⟩
    | false =>
      obtain ⟨-, rfl⟩ := of_guarded hs rfl
      exact ⟨rfl, rfl⟩

theorem react_of_step {e : Event} (hs : s.step parts e = some s') : s.react parts e = some s' := by
  unfold Process.step at hs
  split at hs
  · cases hs
  · exact hs

/-- A step leaves no more cycles unattended, unless a client goes away from one. -/
theorem unattended_step {e : Event} (hs : s.step parts e = some s') (he : e ≠ .abandoned) :
    s'.unattended ≤ s.unattended := by
  have hs := react_of_step hs
  by_cases hcycle : e = .dispatch ∨ e = .dispatched ∨ e = .ended
  · rcases hcycle with rfl | rfl | rfl
    · obtain ⟨-, rfl⟩ := of_guarded hs rfl
      exact Nat.le_refl _
    · obtain ⟨-, rfl⟩ := of_guarded hs rfl
      exact Nat.le_refl _
    · obtain ⟨-, rfl⟩ := of_guarded hs rfl
      exact Nat.sub_le _ _
  · simp only [not_or] at hcycle
    exact Nat.le_of_eq (same_of_react hs ⟨hcycle.1, hcycle.2.1, he, hcycle.2.2⟩).2

/-- Where no request runs a cycle, a step leaves none behind. -/
theorem noDispatch_step (hparts : parts.dispatches = false) {e : Event}
    (hs : s.step parts e = some s') (h : s.dispatching = 0 ∧ s.unattended = 0) :
    s'.dispatching = 0 ∧ s'.unattended = 0 := by
  have hs := react_of_step hs
  cases e with
  | dispatch =>
    obtain ⟨hdispatches, -⟩ := of_guarded hs rfl
    exact absurd (hparts ▸ hdispatches.1) Bool.false_ne_true
  | dispatched | abandoned =>
    obtain ⟨hdispatching, -⟩ := of_guarded hs rfl
    omega
  | ended =>
    obtain ⟨hunattended, -⟩ := of_guarded hs rfl
    omega
  | request | respond | timer id | settled cycle | signal | closed failed | stopped
    | disconnected failed | timedOut | serverError =>
    obtain ⟨hdispatching, hunattended⟩ := same_of_react hs (by simp)
    exact ⟨hdispatching.trans h.1, hunattended.trans h.2⟩

/-- Only the server of the email service can leave a cycle behind that a request has begun. -/
theorem attended_elsewhere
    (hparts : parts ∈ [workingServer, plainServer, gatewayServer, standaloneDispatcher])
    {enabled : Bool} {es : List Event}
    (hrun : runs (Process.step parts) (Process.boot parts enabled) es = some s) :
    s.unattended = 0 := by
  have hdispatches : parts.dispatches = false := by
    have hall : ∀ parts ∈ [workingServer, plainServer, gatewayServer, standaloneDispatcher],
        parts.dispatches = false := by decide
    exact hall parts hparts
  have hboot : (Process.boot parts enabled).dispatching = 0 ∧
      (Process.boot parts enabled).unattended = 0 := ⟨rfl, rfl⟩
  exact (Foundations.invariant_of_steps (fun _ _ _ hs h => noDispatch_step hdispatches hs h) hrun
    hboot).2

/-- However requests, cycles and signals fall, a process closes its database when nobody is at work
any more, and reports success only then: nobody but a cycle whose client did not wait for it. -/
theorem process_ends_gracefully (parts : Parts) (enabled : Bool) {es : List Event}
    (hrun : runs (Process.step parts) (Process.boot parts enabled) es = some s) :
    s.Graceful parts ∧ (.abandoned ∉ es → s.unattended = 0) := by
  refine ⟨(stage_always parts enabled hrun).graceful, fun hnone => ?_⟩
  have hkept : ∀ (s₀ : Process) (es : List Event), .abandoned ∉ es →
      runs (Process.step parts) s₀ es = some s → s.unattended ≤ s₀.unattended := by
    intro s₀ es hnone hrun
    induction es generalizing s₀ with
    | nil =>
      cases hrun
      exact Nat.le_refl _
    | cons e es ih =>
      obtain ⟨mid, hmid, hrest⟩ := Foundations.runs_cons hrun
      have hfirst := unattended_step hmid fun he => hnone (he ▸ List.mem_cons_self)
      exact Nat.le_trans (ih mid (fun he => hnone (List.mem_cons_of_mem _ he)) hrest) hfirst
  exact Nat.le_zero.mp (hkept _ es hnone hrun)

/-- A request and a cycle are under way, and another request runs a cycle, when the signal comes. -/
def busyShutdown : List Event :=
  [.request, .timer 0, .dispatch, .signal, .signal, .respond, .dispatched, .closed false,
    .settled 1, .stopped, .disconnected false]

theorem process_ends_gracefully_busy :
    ∃ s, runs (Process.step dispatchingServer) (Process.boot dispatchingServer true) busyShutdown =
        some s ∧ s.phase = .exited 0 ∧ s.Graceful dispatchingServer ∧ s.unattended = 0 := by
  obtain ⟨hgraceful, hattended⟩ :=
    @process_ends_gracefully _ dispatchingServer true busyShutdown rfl
  exact ⟨_, rfl, rfl, hgraceful, hattended (by decide)⟩

/-- A client that does not wait for the cycle it has begun leaves it behind without a database. -/
example : (runs (Process.step dispatchingServer) (Process.boot dispatchingServer false)
    [.dispatch, .abandoned, .signal, .closed false, .stopped]).map
      (fun s => (s.connected, s.unattended)) = some (false, 1) := by decide

/-! ### No shutdown is stuck -/

theorem Process.CanFinish.of_exit (h : s.phase = .exited 0) : s.CanFinish parts := ⟨s, .refl, h⟩

theorem Process.CanFinish.of_step {phase : Phase} {e : Event} (hphase : s.phase = phase)
    (hlive : ∀ code, phase ≠ .exited code) (hs : s.react parts e = some s') (he : e.Ends)
    (h : s'.CanFinish parts) : s.CanFinish parts := by
  obtain ⟨last, hlast, hexit⟩ := h
  have halive : ¬ s.Exited := by
    intro hexited
    obtain ⟨code, hcode⟩ := hexited
    exact hlive code (hphase.symm.trans hcode)
  have hstep : s.step parts e = some s' := (if_neg halive).trans hs
  exact ⟨last, (Foundations.Reaches.of_step he hstep).trans hlast, hexit⟩

theorem canFinish_disconnecting (hphase : s.phase = .disconnecting) : s.CanFinish parts := by
  have hs : s.react parts (.disconnected false) = some ({ s with forceExit := false }.exit 0) := by
    simp only [Process.react, if_pos hphase, if_neg Bool.false_ne_true]
  exact .of_step hphase (by simp) hs trivial (.of_exit rfl)

theorem canFinish_disconnect : (s.disconnect parts).CanFinish parts := by
  unfold Process.disconnect
  split
  · exact canFinish_disconnecting rfl
  · exact .of_exit rfl

theorem canFinish_stopped (hphase : s.phase = .stopping) (hstops : s.loop.stops = []) :
    s.CanFinish parts := by
  have hs : s.react parts .stopped = some (s.disconnect parts) := by
    simp only [Process.react, if_pos (And.intro hphase hstops)]
  exact .of_step hphase (by simp) hs trivial canFinish_disconnect

/-- A worker that stops waits for one cycle at most. -/
theorem canFinish_stopping (hphase : s.phase = .stopping) {mode : Mode} (h : s.loop.InMode mode)
    (hoff : s.loop.running = false) : s.CanFinish parts := by
  cases h with
  | off running idle stops => exact canFinish_stopped hphase stops
  | waiting timer running => rw [hoff] at running; cases running
  | working cycle running => rw [hoff] at running; cases running
  | draining cycle running timers inFlight stops =>
    have hunder : cycle ∈ s.loop.inFlight := by
      rw [inFlight]
      exact List.mem_singleton.mpr rfl
    have hs : s.react parts (.settled cycle) = some { s with loop := s.loop.settle cycle } := by
      simp only [Process.react, PollingLoop.step, if_pos hunder, Option.map_some]
    have hsettled : (s.loop.settle cycle).stops = [] := by
      simp [PollingLoop.settle, running, stops]
    exact .of_step hphase (by simp) hs trivial (canFinish_stopped hphase hsettled)

theorem canFinish_stopWorker {mode : Mode} (h : s.loop.InMode mode) :
    (s.stopWorker parts).CanFinish parts := by
  unfold Process.stopWorker
  split
  · obtain ⟨mode', -, hmode'⟩ := h.stop
    exact canFinish_stopping rfl hmode' (stop_off s.loop)
  · exact canFinish_disconnect

/-- A server that closes waits for each response. -/
theorem canFinish_closing {waiting : Nat} (hwaiting : s.requests = waiting)
    (hphase : s.phase = .closing) {mode : Mode} (h : s.loop.InMode mode) : s.CanFinish parts := by
  induction waiting generalizing s with
  | zero =>
    have hs : s.react parts (.closed false) = some (s.stopWorker parts) := by
      simp only [Process.react, if_pos hphase, if_neg Bool.false_ne_true, if_pos hwaiting]
    exact .of_step hphase (by simp) hs trivial (canFinish_stopWorker h)
  | succ waiting ih =>
    have hfewer : s.requests - 1 = waiting := by omega
    by_cases hplain : s.dispatching < s.requests
    · have hs : s.react parts .respond = some { s with requests := s.requests - 1 } := by
        simp only [Process.react, if_pos hplain]
      exact .of_step hphase (by simp) hs trivial (ih hfewer hphase h)
    · -- all that wait, wait for their cycles
      have hpos : 0 < s.dispatching := by omega
      have hs : s.react parts .dispatched = some { s with
          requests := s.requests - 1, dispatching := s.dispatching - 1 } := by
        simp only [Process.react, if_pos hpos]
      exact .of_step hphase (by simp) hs trivial (ih hfewer hphase h)

/-- No shutdown is stuck: when a response has come for each request, and the last cycle has ended,
the process exits with success. -/
theorem shutdown_completes (parts : Parts) (enabled : Bool) {es : List Event}
    (hrun : runs (Process.step parts) (Process.boot parts enabled) es = some s)
    (hdown : s.shuttingDown = true) (halive : ¬ s.Exited) : s.CanFinish parts := by
  cases stage_always parts enabled hrun with
  | serving phase calm => exact absurd (calm ▸ hdown) Bool.false_ne_true
  | closing phase shuttingDown forced connected work =>
    obtain ⟨mode, hmode⟩ := work.mode
    exact canFinish_closing rfl phase hmode
  | stopping phase shuttingDown forced connected mode off =>
    obtain ⟨mode, hmode⟩ := mode
    exact canFinish_stopping phase hmode off
  | disconnecting phase => exact canFinish_disconnecting phase
  | finished phase => exact absurd ⟨0, phase⟩ halive
  | failed phase => exact absurd ⟨1, phase⟩ halive

/-- While a request and a cycle are under way. -/
theorem shutdown_completes_busy :
    ∃ s, runs (Process.step dispatchingServer) (Process.boot dispatchingServer true)
        (busyShutdown.take 5) = some s ∧ s.phase = .closing ∧ s.CanFinish dispatchingServer :=
  ⟨_, rfl, rfl,
    @shutdown_completes _ dispatchingServer true (busyShutdown.take 5) rfl rfl (by decide)⟩

end Process

end PracticalMicroservice.Processes
