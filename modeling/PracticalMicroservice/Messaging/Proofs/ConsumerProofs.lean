import PracticalMicroservice.Messaging.RabbitMqConsumer
import PracticalMicroservice.Messaging.Proofs.AmqpProofs

/-!
# The consumer stays connected, or on its way to be

The consumer adopts a connection before it consumes, so an adopted channel has a listener or an
`open()` that still waits for its `consume`.
-/

namespace PracticalMicroservice.Messaging

open Foundations (AllSteps invariant_of_allSteps runs)

namespace ConsumerSystem

variable {s s' : ConsumerSystem} {i c : Nat} {o : Opening} {reconnecting rethrow : Bool}

/-- A `reconnect()` is in progress. -/
def Reconnecting (opens : List Opening) : Prop := ∃ o ∈ opens, o.reconnecting = true

/-- An `open()` waits for the `consume` on a connection. -/
def Consuming (opens : List Opening) (c : Nat) : Prop := ∃ o ∈ opens, o.await = .consume c

/-- What every state of a consumer is like. -/
structure Invariant (s : ConsumerSystem) : Prop where
  broker : s.broker.Sound
  stopped : s.stopCalled = true → s.consumer.state = .stopped
  called : s.consumer.state = .stopped → s.stopCalled = true
  released : s.stopCalled = true → s.stops = [] → s.consumer.connection = none
  stopping : s.stops ≠ [] → s.stopCalled = true
  idle : s.consumer.state = .idle → s.succeeded = false
  channel : ∀ c, s.consumer.channel = some c →
    s.consumer.connection = some c ∧ (s.broker.Attended c ∨ Consuming s.opens c)
  connected : s.consumer.state = .connected → s.consumer.channel ≠ none
  disconnected : s.consumer.state = .disconnected → s.succeeded = true →
    s.consumer.reconnectTimer = true ∨ Reconnecting s.opens ∨
      ∃ c, s.consumer.connection = some c ∧ (s.broker.Closing c ∨ Consuming s.opens c)
  /-- Only `stop()` makes `open()` return without a connection. -/
  raced : ∀ o ∈ s.opens, ∀ c, o.await = .closeQuietly c false → s.consumer.state = .stopped

theorem invariant_initial : initial.Invariant where
  broker _ h := by cases h
  stopped h := by cases h
  called h := by cases h
  released h := by cases h
  stopping h := absurd rfl h
  idle _ := rfl
  channel c h := by cases h
  connected h := by cases h
  disconnected _ h := by cases h
  raced _ ho := absurd ho List.not_mem_nil

/-! ## Steps that leave the object as it is -/

/-- Calls go on, and the broker keeps what it had. -/
theorem Invariant.frame (h : s.Invariant) {broker : Broker} {opens : List Opening}
    (hsound : broker.Sound) (hkeeps : ∀ c, s.broker.Keeps broker c)
    (hreconnecting : Reconnecting s.opens → Reconnecting opens)
    (hconsuming : ∀ c, Consuming s.opens c → Consuming opens c)
    (hraced : ∀ o ∈ opens, ∀ c, o.await = .closeQuietly c false → s.consumer.state = .stopped) :
    Invariant { s with broker, opens } where
  broker := hsound
  stopped := h.stopped
  called := h.called
  released := h.released
  stopping := h.stopping
  idle := h.idle
  channel c hc := by
    obtain ⟨hconnection, hattended | hwaits⟩ := h.channel c hc
    · exact ⟨hconnection, .inl ((hkeeps c).attended hattended)⟩
    · exact ⟨hconnection, .inr (hconsuming c hwaits)⟩
  connected := h.connected
  disconnected hstate hsucceeded := by
    rcases h.disconnected hstate hsucceeded with htimer | hre | ⟨c, hconnection, hclosing | hwaits⟩
    · exact .inl htimer
    · exact .inr (.inl (hreconnecting hre))
    · exact .inr (.inr ⟨c, hconnection, .inl ((hkeeps c).closing hclosing)⟩)
    · exact .inr (.inr ⟨c, hconnection, .inr (hconsuming c hwaits)⟩)
  raced := hraced

/-- An `open()` waits for something else, and did not wait for a `consume`. -/
theorem Invariant.waits (h : s.Invariant) (hi : s.opens[i]? = some o)
    (hr : o.reconnecting = reconnecting) (ho : ∀ c, o.await ≠ .consume c) {await : Await}
    (hraced : ∀ c, await = .closeQuietly c false → s.consumer.state = .stopped) :
    (s.waits i reconnecting await).Invariant := by
  refine h.frame h.broker (fun _ => .refl) (exists_mem_set hi fun hre => ?_)
    (fun c => exists_mem_set hi fun hc => absurd hc (ho c)) fun x hx c hc => ?_
  · rw [← hr]
    exact hre
  · rcases List.mem_or_eq_of_mem_set hx with hx | rfl
    · exact h.raced x hx c hc
    · exact hraced c hc

theorem Invariant.close (h : s.Invariant) (c : Nat) :
    Invariant { s with broker := s.broker.close c } :=
  h.frame (h.broker.close c) (fun _ => Broker.keeps_close) id (fun _ => id) h.raced

/-- An `open()` that nothing depends on ends. -/
theorem Invariant.returns (h : s.Invariant) (hi : s.opens[i]? = some o)
    (hr : o.reconnecting = false) (ho : ∀ c, o.await ≠ .consume c) : (s.returns i).Invariant := by
  refine h.frame h.broker (fun _ => .refl) (exists_mem_eraseIdx hi ?_)
    (fun c => exists_mem_eraseIdx hi (ho c)) fun x hx c hc => ?_
  · rw [hr]
    exact Bool.false_ne_true
  · exact h.raced x (List.mem_of_mem_eraseIdx hx) c hc

theorem Invariant.begin_ (h : s.Invariant) : (s.begin_ reconnecting).Invariant := by
  refine h.frame h.broker (fun _ => .refl)
    (fun ⟨x, hx, hp⟩ => ⟨x, List.mem_append_left _ hx, hp⟩)
    (fun c ⟨x, hx, hp⟩ => ⟨x, List.mem_append_left _ hx, hp⟩) fun x hx c hc => ?_
  rcases List.mem_append.mp hx with hx | hx
  · exact h.raced x hx c hc
  · rw [List.mem_singleton.mp hx] at hc
    cases hc

/-! ## Reconnecting -/

theorem scheduleReconnect_eq (s : ConsumerSystem) : ∃ attempts timer,
    s.scheduleReconnect =
      { s with consumer := { s.consumer with attempts := attempts, reconnectTimer := timer } } ∧
    (s.consumer.state = .disconnected → timer = true) := by
  unfold scheduleReconnect
  split
  · rename_i h
    refine ⟨_, _, rfl, fun hstate => ?_⟩
    rcases h with h | h
    · exact h
    · exact absurd hstate h
  · exact ⟨_, _, rfl, fun _ => rfl⟩

/-- An `open()` that is not wanted any more throws. -/
theorem Invariant.throws (h : s.Invariant) (hi : s.opens[i]? = some o)
    (hr : o.reconnecting = reconnecting) (ho : ∀ c, o.await ≠ .consume c) :
    (s.throws i reconnecting).Invariant := by
  cases reconnecting with
  | false => exact h.returns hi hr ho
  | true =>
    obtain ⟨attempts, timer, he, htimer⟩ := scheduleReconnect_eq (s.returns i)
    have hthrows : s.throws i true = (s.returns i).scheduleReconnect := rfl
    rw [hthrows, he]
    refine ⟨h.broker, h.stopped, h.called, h.released, h.stopping, h.idle, fun c hc => ?_, h.connected,
      fun hstate _ => .inl (htimer hstate), fun x hx => h.raced x (List.mem_of_mem_eraseIdx hx)⟩
    obtain ⟨hconnection, hattended | hwaits⟩ := h.channel c hc
    · exact ⟨hconnection, .inl hattended⟩
    · exact ⟨hconnection, .inr (exists_mem_eraseIdx hi (ho c) hwaits)⟩

theorem Invariant.reconnect (h : s.Invariant) : s.reconnect.Invariant := by
  unfold ConsumerSystem.reconnect
  dsimp only
  split
  · rename_i hstate
    exact ⟨h.broker, h.stopped, h.called, h.released, h.stopping, h.idle, h.channel, h.connected,
      fun hd => absurd hd hstate, h.raced⟩
  · refine ⟨h.broker, h.stopped, h.called, h.released, h.stopping, h.idle, fun c hc => ?_, h.connected,
      fun _ _ => ?_, fun x hx c hc => ?_⟩
    · obtain ⟨hconnection, hattended | ⟨x, hx, hp⟩⟩ := h.channel c hc
      · exact ⟨hconnection, .inl hattended⟩
      · exact ⟨hconnection, .inr ⟨x, List.mem_append_left _ hx, hp⟩⟩
    · exact .inr (.inl ⟨_, List.mem_append_right _ List.mem_cons_self, rfl⟩)
    · rcases List.mem_append.mp hx with hx | hx
      · exact h.raced x hx c hc
      · rw [List.mem_singleton.mp hx] at hc
        cases hc

/-! ## `open()` -/

theorem Invariant.drops (h : s.Invariant) (hi : s.opens[i]? = some o)
    (hr : o.reconnecting = reconnecting) (ho : ∀ c, o.await ≠ .consume c)
    (hraced : rethrow = false → s.consumer.state = .stopped) :
    (s.drops i reconnecting c rethrow).Invariant := by
  refine (h.close c).waits hi hr ho fun d hd => hraced ?_
  cases hd
  rfl

/-- A failure that does not find the consumer connected, nor disconnected and without a reconnect,
leaves it recoverable. -/
theorem Invariant.catches (h : s.Invariant) (hi : s.opens[i]? = some o)
    (hr : o.reconnecting = reconnecting) (hsound : s.consumer.state ≠ .connected)
    (hreconnect : s.consumer.state = .disconnected → s.succeeded = true →
      s.consumer.reconnectTimer = true ∨ Reconnecting s.opens) :
    (s.catches i reconnecting c).Invariant := by
  refine ⟨h.broker.close c, h.stopped, h.called, fun _ _ => rfl, h.stopping, h.idle, fun d hd => ?_,
    fun hc => absurd hc hsound, fun hstate hsucceeded => ?_, fun x hx d hd => ?_⟩
  · cases hd
  · rcases hreconnect hstate hsucceeded with htimer | hre
    · exact .inl htimer
    · refine .inr (.inl (exists_mem_set hi (fun hre => ?_) hre))
      rw [← hr]
      exact hre
  · rcases List.mem_or_eq_of_mem_set hx with hx | rfl
    · exact h.raced x hx d hd
    · cases hd

/-- The connection is adopted, and the `consume` on it is waited for. -/
theorem Invariant.adopts (h : s.Invariant) (hi : s.opens[i]? = some o)
    (hr : o.reconnecting = reconnecting) (ho : ∀ c, o.await ≠ .consume c) :
    (s.adopts i reconnecting c).Invariant := by
  unfold ConsumerSystem.adopts
  by_cases hstate : s.consumer.state = .stopped
  · rw [if_pos hstate]
    exact h.drops hi hr ho fun _ => hstate
  · rw [if_neg hstate]
    have hwaits : Consuming (s.opens.set i ⟨reconnecting, .consume c, none⟩) c :=
      ⟨_, List.mem_set (List.getElem?_eq_some_iff.mp hi).1 _, rfl⟩
    refine ⟨h.broker, h.stopped, h.called, fun hs => absurd (h.stopped hs) hstate, h.stopping,
      h.idle, fun d hd => ?_, fun _ => Option.some_ne_none c,
      fun _ _ => .inr (.inr ⟨c, rfl, .inr hwaits⟩), fun x hx d hd => ?_⟩
    · obtain rfl := Option.some.inj hd
      exact ⟨rfl, .inr hwaits⟩
    · rcases List.mem_or_eq_of_mem_set hx with hx | rfl
      · exact h.raced x hx d hd
      · cases hd

theorem Invariant.declares (h : s.Invariant) (hi : s.opens[i]? = some o)
    (hr : o.reconnecting = reconnecting) (ho : ∀ c, o.await ≠ .consume c) {declarations done : Nat} :
    (s.declares declarations i reconnecting c done).Invariant := by
  unfold ConsumerSystem.declares
  split
  · exact h.waits hi hr ho fun _ hd => by cases hd
  · exact h.adopts hi hr ho

/-- A `consume` that succeeded makes the consumer connected, to the connection it has adopted. -/
theorem Invariant.consumes (h : s.Invariant) {settled : Option Bool}
    (hi : s.opens[i]? = some ⟨reconnecting, .consume c, settled⟩)
    (hstate : s.consumer.state ≠ .stopped) (hattached : s.Attached) :
    (s.consumes i c).Invariant := by
  obtain ⟨d, hd, husable⟩ := hattached
  refine ⟨h.broker.listen c, fun hs => absurd (h.stopped hs) hstate, fun hs => ?_,
    fun hs => absurd (h.stopped hs) hstate, h.stopping, fun hs => ?_, fun e he => ?_,
    fun _ => ?_, fun hs => ?_, fun x hx e he => absurd (h.raced x (List.mem_of_mem_eraseIdx hx) e he) hstate⟩
  · cases hs
  · cases hs
  · obtain rfl : d = e := Option.some.inj (hd.symm.trans he)
    obtain ⟨hconnection, hattended | hwaits⟩ := h.channel d hd
    · exact ⟨hconnection, .inl (Broker.keeps_listen.attended hattended)⟩
    · by_cases hdc : d = c
      · subst hdc
        exact ⟨hconnection, .inl (Broker.attended_listen husable)⟩
      · refine ⟨hconnection, .inr (exists_mem_eraseIdx hi (fun hc => hdc ?_) hwaits)⟩
        cases hc
        rfl
  · exact fun hn => Option.some_ne_none d (hd.symm.trans hn)
  · cases hs

/-- What an `open()` does when it goes on, one case for each place it waits at. -/
theorem Invariant.goesOn (h : s.Invariant) {declarations : Nat} (hok : s.GoesOnSound (.goOn i))
    (hs : s.goesOn declarations i = some s') : s'.Invariant := by
  have hsound : ∀ o ∈ s.opens[i]?, s.FindsSound o := hok
  unfold ConsumerSystem.goesOn at hs
  split at hs
  · rename_i hi
    obtain rfl := Option.some.inj hs
    exact h.throws hi rfl fun _ hc => by cases hc
  · rename_i hi
    obtain rfl := Option.some.inj hs
    exact h.waits hi rfl (fun _ hc => by cases hc) fun _ hd => by cases hd
  · rename_i hi
    obtain rfl := Option.some.inj hs
    exact h.declares hi rfl fun _ hc => by cases hc
  · rename_i hi
    obtain rfl := Option.some.inj hs
    exact h.declares hi rfl fun _ hc => by cases hc
  · rename_i hi
    obtain rfl := Option.some.inj hs
    obtain ⟨hstate, hattached⟩ := (hsound _ hi).1 rfl
    exact h.consumes hi hstate hattached
  · rename_i hi
    obtain rfl := Option.some.inj hs
    obtain ⟨hstate, hreconnect⟩ := (hsound _ hi).2 rfl
    exact h.catches hi rfl hstate hreconnect
  · rename_i hi
    obtain rfl := Option.some.inj hs
    obtain ⟨hstate, hreconnect⟩ := (hsound _ hi).2 rfl
    exact h.catches hi rfl hstate hreconnect
  · rename_i hi
    obtain rfl := Option.some.inj hs
    obtain ⟨hstate, hreconnect⟩ := (hsound _ hi).2 rfl
    exact h.catches hi rfl hstate hreconnect
  · rename_i reconnecting d rethrow _ hi
    obtain rfl := Option.some.inj hs
    cases rethrow with
    | true => exact h.throws hi rfl fun _ hc => by cases hc
    | false =>
      have hstate := h.raced _ (List.mem_of_getElem? hi) d rfl
      refine ⟨h.broker, h.stopped, h.called, h.released, h.stopping, h.idle, fun e he => ?_, h.connected,
        fun hd => ?_, fun x hx => h.raced x (List.mem_of_mem_eraseIdx hx)⟩
      · obtain ⟨hconnection, hattended | hwaits⟩ := h.channel e he
        · exact ⟨hconnection, .inl hattended⟩
        · refine ⟨hconnection, .inr (exists_mem_eraseIdx hi (fun hc => ?_) hwaits)⟩
          cases hc
      · have hdisconnected : s.consumer.state = .disconnected := hd
        rw [hstate] at hdisconnected
        cases hdisconnected
  · cases hs

/-! ## Events -/

/-- The end of a channel that is not the adopted one, or that nobody listens to yet. -/
theorem Invariant.channelGone (h : s.Invariant) {broker : Broker}
    (hb : s.broker.channelCloses c = some broker)
    (hquiet : s.consumer.channel = some c → (s.broker.links c).listening ≠ true) :
    Invariant { s with broker } := by
  refine ⟨h.broker.channelCloses hb, h.stopped, h.called, h.released, h.stopping, h.idle, fun d hd => ?_,
    h.connected, fun hstate hsucceeded => ?_, h.raced⟩
  · obtain ⟨hconnection, hattended | hwaits⟩ := h.channel d hd
    · have hdc : d ≠ c := by
        rintro rfl
        exact hquiet hd hattended.2
      exact ⟨hconnection, .inl ((Broker.keeps_channelCloses hb hdc).attended hattended)⟩
    · exact ⟨hconnection, .inr hwaits⟩
  · rcases h.disconnected hstate hsucceeded with htimer | hre | ⟨d, hconnection, hclosing | hwaits⟩
    · exact .inl htimer
    · exact .inr (.inl hre)
    · exact .inr (.inr ⟨d, hconnection, .inl (Broker.closing_channelCloses hb hclosing)⟩)
    · exact .inr (.inr ⟨d, hconnection, .inr hwaits⟩)

theorem Invariant.channelCloses (h : s.Invariant) {broker : Broker}
    (hb : s.broker.channelCloses c = some broker) :
    (if (s.broker.links c).listening then
      onChannelClosed { s with broker } c else { s with broker }).Invariant := by
  by_cases hlistening : (s.broker.links c).listening = true
  · rw [if_pos hlistening]
    unfold onChannelClosed
    by_cases hchannel : s.consumer.channel = some c
    · rw [if_neg (not_not_intro hchannel)]
      obtain ⟨hconnection, -⟩ := h.channel c hchannel
      have hclosing : (broker.close c).Closing c := by
        obtain ⟨hopened, hlt, rfl⟩ := Broker.channelCloses_eq hb
        refine Broker.closing_close hlt ?_
        have hlink : (s.broker.modify c fun link => { link with channel := .closed }).links c =
          { s.broker.links c with channel := .closed } := if_pos rfl
        rw [hlink]
        exact h.broker c hopened
      have hnow : s.consumer.state = .stopped ∨ s.consumer.state = .idle ∨
          (if s.consumer.state = .connected then RabbitMqConsumer.State.disconnected
            else s.consumer.state) = .disconnected := by
        cases s.consumer.state <;> simp
      have hsame : s.consumer.state ≠ .connected →
          (if s.consumer.state = .connected then RabbitMqConsumer.State.disconnected
            else s.consumer.state) = s.consumer.state := fun hne => if_neg hne
      refine ⟨(h.broker.channelCloses hb).close c, fun hstop => ?_, fun hstop => ?_, h.released,
        h.stopping, fun hidle => ?_, fun d hd => ?_, fun hc => ?_,
        fun _ _ => .inr (.inr ⟨c, hconnection, .inl hclosing⟩), fun x hx d hd => ?_⟩
      · have hstopped := h.stopped hstop
        refine (hsame ?_).trans hstopped
        rw [hstopped]
        simp
      · refine h.called ?_
        by_cases hc : s.consumer.state = .connected
        · simp [hc] at hstop
        · exact (hsame hc).symm.trans hstop
      · refine h.idle ?_
        by_cases hc : s.consumer.state = .connected
        · simp [hc] at hidle
        · exact (hsame hc).symm.trans hidle
      · cases hd
      · by_cases hcon : s.consumer.state = .connected
        · simp [hcon] at hc
        · exact absurd ((hsame hcon).symm.trans hc) hcon
      · have hstopped := h.raced x hx d hd
        refine (hsame ?_).trans hstopped
        rw [hstopped]
        simp
    · rw [if_pos hchannel]
      exact h.channelGone hb fun hc => absurd hc hchannel
  · rw [if_neg hlistening]
    exact h.channelGone hb fun _ => hlistening

/-- The connection that closes is the adopted one, or none the consumer has. -/
theorem Invariant.connectionCloses (h : s.Invariant) {broker : Broker}
    (hb : s.broker.connectionCloses c = some broker) :
    (onConnectionClosed { s with broker } c).Invariant := by
  unfold onConnectionClosed
  have hsound := h.broker.connectionCloses hb
  by_cases hconnection : s.consumer.connection = some c
  · rw [if_neg (not_not_intro hconnection)]
    by_cases hstate : s.consumer.state = .stopped
    · rw [if_pos hstate]
      refine ⟨hsound, h.stopped, h.called, fun _ _ => rfl, h.stopping, h.idle, fun d hd => ?_,
        fun hc => ?_, fun hd => ?_, h.raced⟩
      · cases hd
      · exact absurd (hstate.symm.trans hc) (by simp)
      · exact absurd (hstate.symm.trans hd) (by simp)
    · rw [if_neg hstate]
      obtain ⟨attempts, timer, he, htimer⟩ := scheduleReconnect_eq
        { s with
          broker
          consumer := { s.consumer with
            connection := none, channel := none, consumerTag := none, state := .disconnected } }
      rw [he]
      refine ⟨hsound, fun hstop => absurd (h.stopped hstop) hstate, fun hstop => ?_,
        fun _ _ => rfl, h.stopping, fun hidle => ?_, fun d hd => ?_, fun hc => ?_,
        fun _ _ => .inl (htimer rfl), fun x hx d hd => absurd (h.raced x hx d hd) hstate⟩
      · cases hstop
      · cases hidle
      · cases hd
      · cases hc
  · rw [if_pos hconnection]
    have hkeeps (d : Nat) (hd : s.consumer.connection = some d) : s.broker.Keeps broker d := by
      refine Broker.keeps_connectionCloses hb ?_
      rintro rfl
      exact hconnection hd
    refine ⟨hsound, h.stopped, h.called, h.released, h.stopping, h.idle, fun d hd => ?_, h.connected,
      fun hstate hsucceeded => ?_, h.raced⟩
    · obtain ⟨hd', hattended | hwaits⟩ := h.channel d hd
      · exact ⟨hd', .inl ((hkeeps d hd').attended hattended)⟩
      · exact ⟨hd', .inr hwaits⟩
    · rcases h.disconnected hstate hsucceeded with htimer | hre | ⟨d, hd, hclosing | hwaits⟩
      · exact .inl htimer
      · exact .inr (.inl hre)
      · exact .inr (.inr ⟨d, hd, .inl ((hkeeps d hd).closing hclosing)⟩)
      · exact .inr (.inr ⟨d, hd, .inr hwaits⟩)

/-! ## `stop()` -/

theorem Invariant.stop (h : s.Invariant) : s.stop.Invariant := by
  unfold ConsumerSystem.stop
  by_cases hstate : s.consumer.state = .stopped
  · rw [if_pos hstate]
    exact h
  · rw [if_neg hstate]
    refine ⟨h.broker, fun _ => rfl, fun _ => rfl, fun _ hnil => ?_, fun _ => rfl, fun hidle => ?_,
      h.channel, fun hc => ?_, fun hd => ?_, fun _ _ _ _ => rfl⟩
    · exact absurd hnil (by simp)
    · cases hidle
    · cases hc
    · cases hd

theorem Invariant.stopGoesOn (h : s.Invariant) {j : Nat} (hs : s.stopGoesOn j = some s') :
    s'.Invariant := by
  unfold ConsumerSystem.stopGoesOn at hs
  split at hs
  · rename_i hj
    obtain rfl := Option.some.inj hs
    have hcalled := h.stopping (List.ne_nil_of_mem (List.mem_of_getElem? hj))
    refine ⟨h.broker, h.stopped, h.called, fun _ hnil => ?_, fun _ => hcalled, h.idle, h.channel,
      h.connected, h.disconnected, h.raced⟩
    have hlength : (s.stops.set j _).length = 0 := congrArg List.length hnil
    rw [List.length_set] at hlength
    have hlt := (List.getElem?_eq_some_iff.mp hj).1
    omega
  · rename_i connection hj
    obtain rfl := Option.some.inj hs
    have hcalled := h.stopping (List.ne_nil_of_mem (List.mem_of_getElem? hj))
    have hstate := h.stopped hcalled
    have hsound : (connection.elim s.broker s.broker.close).Sound := by
      cases connection with
      | none => exact h.broker
      | some c => exact h.broker.close c
    refine ⟨hsound, h.stopped, h.called, fun _ _ => rfl, fun _ => hcalled, h.idle, fun d hd => ?_,
      fun hc => ?_, fun hd => ?_, h.raced⟩
    · cases hd
    · exact absurd (hstate.symm.trans hc) (by simp)
    · exact absurd (hstate.symm.trans hd) (by simp)
  · cases hs

/-! ## Runs -/

theorem Invariant.step (h : s.Invariant) {declarations : Nat} {l : Label} (hok : s.GoesOnSound l)
    (hs : s.step declarations l = some s') : s'.Invariant := by
  cases l with
  | start =>
    obtain rfl := Option.some.inj hs
    unfold ConsumerSystem.start
    split
    · exact h
    · exact h.begin_
  | timer =>
    unfold ConsumerSystem.step at hs
    dsimp only at hs
    split at hs
    · obtain rfl := Option.some.inj hs
      exact h.reconnect
    · cases hs
  | stop =>
    obtain rfl := Option.some.inj hs
    exact h.stop
  | stopGoesOn j => exact h.stopGoesOn hs
  | settle i fulfilled =>
    obtain ⟨⟨broker, opens⟩, hsettle, rfl⟩ := Option.map_eq_some_iff.mp hs
    obtain ⟨reconnecting, await, await', hi, hbroker, rfl⟩ := settleAt_cases hsettle
    refine h.frame (h.broker.settle hbroker) (fun _ => Broker.keeps_settle hbroker)
      (exists_mem_set hi id) (fun c => exists_mem_set hi fun hc => ?_) fun x hx c hc => ?_
    · rcases settle_await hbroker with rfl | ⟨rfl, -⟩
      · exact hc
      · cases hc
    · rcases List.mem_or_eq_of_mem_set hx with hx | rfl
      · exact h.raced x hx c hc
      · rcases settle_await hbroker with rfl | ⟨-, rfl⟩
        · exact h.raced _ (List.mem_of_getElem? hi) c hc
        · cases hc
  | goOn i => exact h.goesOn hok hs
  | channelCloses c =>
    obtain ⟨broker, hb, rfl⟩ := Option.map_eq_some_iff.mp hs
    exact h.channelCloses hb
  | connectionCloses c =>
    obtain ⟨broker, hb, rfl⟩ := Option.map_eq_some_iff.mp hs
    exact h.connectionCloses hb
  | consumerCancelled c =>
    obtain rfl := Option.some.inj hs
    unfold onCancelled
    split
    · exact h.close c
    · exact h

theorem Invariant.recoverable (h : s.Invariant) : s.Recoverable := by
  refine ⟨fun hstop => ⟨?_, h.released hstop⟩, fun hsucceeded hstop => ?_⟩
  · unfold RabbitMqConsumer.isConnected
    rw [h.stopped hstop]
    rfl
  · have hadopted : ∀ c, s.consumer.channel = some c →
        (∃ c, s.consumer.channel = some c ∧ s.broker.Usable c) ∨ s.opens ≠ [] := by
      intro c hc
      rcases (h.channel c hc).2 with hattended | hwaits
      · exact .inl ⟨c, hc, hattended.1⟩
      · exact .inr (ne_nil_of_exists hwaits)
    cases hstate : s.consumer.state with
    | idle =>
      rw [h.idle hstate] at hsucceeded
      cases hsucceeded
    | connected =>
      obtain ⟨c, hc⟩ := Option.ne_none_iff_exists'.mp (h.connected hstate)
      rcases hadopted c hc with husable | hopens
      · exact .inl husable
      · exact .inr (.inl hopens)
    | disconnected =>
      rcases h.disconnected hstate hsucceeded with htimer | hre | ⟨c, hc, hclosing | hwaits⟩
      · exact .inr (.inr (.inl htimer))
      · exact .inr (.inl (ne_nil_of_exists hre))
      · exact .inr (.inr (.inr ⟨c, hc, hclosing⟩))
      · exact .inr (.inl (ne_nil_of_exists hwaits))
    | stopped =>
      rw [h.called hstate] at hstop
      cases hstop

/-- A consumer each `open()` of which finds it as it should be is recoverable throughout. -/
theorem recoverable_of_goesOnSound {declarations : Nat} {labels : List Label}
    (hok : AllSteps (step declarations) GoesOnSound initial labels)
    (hrun : runs (step declarations) initial labels = some s) : s.Recoverable :=
  (invariant_of_allSteps (fun _ _ _ hok hs h => Invariant.step h hok hs) hok hrun
    invariant_initial).recoverable

end ConsumerSystem

end PracticalMicroservice.Messaging
