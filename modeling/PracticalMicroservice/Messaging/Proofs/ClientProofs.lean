import PracticalMicroservice.Messaging.RabbitMqClient
import PracticalMicroservice.Messaging.Proofs.AmqpProofs

/-!
# The publisher stays connected, or on its way to be

A client that has lost its connection has a timer, a `reconnect()` in progress, or the close event
of the connection still to come; and a `reconnect()` that fails sets the timer again.
-/

namespace PracticalMicroservice.Messaging

open Foundations (AllSteps invariant_of_allSteps runs)

namespace ClientSystem

variable {s s' : ClientSystem} {i c : Nat} {o : Opening} {reconnecting rethrow : Bool}

/-- A `reconnect()` is in progress. -/
def Reconnecting (opens : List Opening) : Prop := ∃ o ∈ opens, o.reconnecting = true

/-- What every state of a client is like. -/
structure Invariant (s : ClientSystem) : Prop where
  shut : s.shutDown = true → s.client.state = .closed
  closed : s.client.state = .closed →
    s.shutDown = true ∧ s.client.connection = none ∧ s.client.channel = none
  disabled : s.client.state = .disabled → s.succeeded = false
  channel : ∀ c, s.client.channel = some c →
    s.client.state = .connected ∧ s.client.connection = some c ∧ s.broker.Attended c
  connected : s.client.state = .connected → s.client.channel ≠ none
  disconnected : s.client.state = .disconnected → s.succeeded = true →
    s.client.reconnectTimer = true ∨ Reconnecting s.opens ∨
      ∃ c, s.client.connection = some c ∧ s.broker.Closing c
  /-- Only a shutdown makes `open()` return without a connection. -/
  raced : ∀ o ∈ s.opens, ∀ c, o.await = .closeQuietly c false → s.client.state = .closed

theorem invariant_initial (url : Bool) : (initial url).Invariant where
  shut h := by cases h
  closed h := by
    cases url with
    | true => cases h
    | false => cases h
  disabled _ := rfl
  channel c h := by cases h
  connected h := by
    cases url with
    | true => cases h
    | false => cases h
  disconnected _ h := by cases h
  raced _ ho := absurd ho List.not_mem_nil

/-! ## Steps that leave the object as it is -/

/-- Calls go on, and the broker keeps what it had. -/
theorem Invariant.frame (h : s.Invariant) {broker : Broker} {opens : List Opening}
    (hkeeps : ∀ c, s.broker.Keeps broker c)
    (hreconnecting : Reconnecting s.opens → Reconnecting opens)
    (hraced : ∀ o ∈ opens, ∀ c, o.await = .closeQuietly c false → s.client.state = .closed) :
    Invariant { s with broker, opens } where
  shut := h.shut
  closed := h.closed
  disabled := h.disabled
  channel c hc := by
    obtain ⟨hstate, hconnection, hattended⟩ := h.channel c hc
    exact ⟨hstate, hconnection, (hkeeps c).attended hattended⟩
  connected := h.connected
  disconnected hstate hsucceeded := by
    rcases h.disconnected hstate hsucceeded with htimer | hre | ⟨c, hconnection, hclosing⟩
    · exact .inl htimer
    · exact .inr (.inl (hreconnecting hre))
    · exact .inr (.inr ⟨c, hconnection, (hkeeps c).closing hclosing⟩)
  raced := hraced

/-- An `open()` waits for something else. -/
theorem Invariant.waits (h : s.Invariant) (hi : s.opens[i]? = some o)
    (hr : o.reconnecting = reconnecting) {await : Await}
    (hraced : ∀ c, await = .closeQuietly c false → s.client.state = .closed) :
    (s.waits i reconnecting await).Invariant := by
  refine h.frame (fun _ => .refl) (exists_mem_set hi fun ho => ?_) fun x hx c hc => ?_
  · rw [← hr]
    exact ho
  · rcases List.mem_or_eq_of_mem_set hx with hx | rfl
    · exact h.raced x hx c hc
    · exact hraced c hc

theorem Invariant.close (h : s.Invariant) (c : Nat) :
    Invariant { s with broker := s.broker.close c } :=
  h.frame (fun _ => Broker.keeps_close) id h.raced

theorem Invariant.drops (h : s.Invariant) (hi : s.opens[i]? = some o)
    (hr : o.reconnecting = reconnecting) (hraced : rethrow = false → s.client.state = .closed) :
    (s.drops i reconnecting c rethrow).Invariant := by
  refine (h.close c).waits hi hr fun d hd => hraced ?_
  cases hd
  rfl

/-- An `open()` that nothing depends on ends. -/
theorem Invariant.returns (h : s.Invariant) (hi : s.opens[i]? = some o)
    (hr : o.reconnecting = false) : (s.returns i).Invariant := by
  refine h.frame (fun _ => .refl) (exists_mem_eraseIdx hi ?_) fun x hx c hc => ?_
  · rw [hr]
    exact Bool.false_ne_true
  · exact h.raced x (List.mem_of_mem_eraseIdx hx) c hc

theorem Invariant.begin_ (h : s.Invariant) : (s.begin_ reconnecting).Invariant := by
  refine h.frame (fun _ => .refl) (fun ⟨x, hx, hp⟩ => ⟨x, List.mem_append_left _ hx, hp⟩)
    fun x hx c hc => ?_
  rcases List.mem_append.mp hx with hx | hx
  · exact h.raced x hx c hc
  · rw [List.mem_singleton.mp hx] at hc
    cases hc

/-! ## Reconnecting -/

theorem scheduleReconnect_eq (s : ClientSystem) : ∃ attempts timer,
    s.scheduleReconnect =
      { s with client := { s.client with attempts := attempts, reconnectTimer := timer } } ∧
    (s.client.reconnectTimer = true → timer = true) ∧
    (s.client.state = .disconnected → timer = true) := by
  unfold scheduleReconnect
  split
  · rename_i h
    refine ⟨_, _, rfl, id, fun hstate => ?_⟩
    rcases h with h | h
    · exact h
    · exact absurd hstate h
  · exact ⟨_, _, rfl, fun _ => rfl, fun _ => rfl⟩

/-- A client that schedules a reconnect needs nothing else. -/
theorem Invariant.scheduled (hshut : s.shutDown = true → s.client.state = .closed)
    (hclosed : s.client.state = .closed →
      s.shutDown = true ∧ s.client.connection = none ∧ s.client.channel = none)
    (hdisabled : s.client.state = .disabled → s.succeeded = false)
    (hchannel : ∀ c, s.client.channel = some c →
      s.client.state = .connected ∧ s.client.connection = some c ∧ s.broker.Attended c)
    (hconnected : s.client.state = .connected → s.client.channel ≠ none)
    (hraced : ∀ o ∈ s.opens, ∀ c, o.await = .closeQuietly c false → s.client.state = .closed) :
    s.scheduleReconnect.Invariant := by
  obtain ⟨attempts, timer, he, -, htimer⟩ := scheduleReconnect_eq s
  rw [he]
  exact ⟨hshut, hclosed, hdisabled, hchannel, hconnected, fun hstate _ => .inl (htimer hstate),
    hraced⟩

theorem Invariant.throws (h : s.Invariant) (hi : s.opens[i]? = some o)
    (hr : o.reconnecting = reconnecting) : (s.throws i reconnecting).Invariant := by
  cases reconnecting with
  | false => exact h.returns hi hr
  | true =>
    exact .scheduled h.shut h.closed h.disabled h.channel h.connected
      fun x hx => h.raced x (List.mem_of_mem_eraseIdx hx)

theorem Invariant.reconnect (h : s.Invariant) : s.reconnect.Invariant := by
  unfold ClientSystem.reconnect
  dsimp only
  split
  · rename_i hstate
    exact ⟨h.shut, h.closed, h.disabled, h.channel, h.connected, fun hd => absurd hd hstate,
      h.raced⟩
  · refine ⟨h.shut, h.closed, h.disabled, h.channel, h.connected, fun _ _ => ?_, fun x hx c hc => ?_⟩
    · exact .inr (.inl ⟨_, List.mem_append_right _ List.mem_cons_self, rfl⟩)
    · rcases List.mem_append.mp hx with hx | hx
      · exact h.raced x hx c hc
      · rw [List.mem_singleton.mp hx] at hc
        cases hc

/-! ## Adopting a connection -/

theorem Invariant.adopts (h : s.Invariant) (hi : s.opens[i]? = some o)
    (hr : o.reconnecting = reconnecting)
    (husable : s.client.state ≠ .closed → s.broker.Usable c) :
    (s.adopts i reconnecting c).Invariant := by
  unfold ClientSystem.adopts
  by_cases hstate : s.client.state = .closed
  · rw [if_pos hstate]
    exact h.drops hi hr fun _ => hstate
  · rw [if_neg hstate]
    refine ⟨fun hs => absurd (h.shut hs) hstate, fun hs => ?_, fun hs => ?_, fun d hd => ?_,
      fun _ => Option.some_ne_none c, fun hs => ?_, fun x hx d hd => ?_⟩
    · cases hs
    · cases hs
    · obtain rfl := Option.some.inj hd
      exact ⟨rfl, rfl, Broker.attended_listen (husable hstate)⟩
    · cases hs
    · exact absurd (h.raced x (List.mem_of_mem_eraseIdx hx) d hd) hstate

theorem Invariant.declares (h : s.Invariant) (hi : s.opens[i]? = some o)
    (hr : o.reconnecting = reconnecting) {done : Nat}
    (husable : s.client.state ≠ .closed → ¬ done < s.client.topologies → s.broker.Usable c) :
    (s.declares i reconnecting c done).Invariant := by
  unfold ClientSystem.declares
  by_cases hmore : done < s.client.topologies
  · rw [if_pos hmore]
    exact h.waits hi hr fun _ hd => by cases hd
  · rw [if_neg hmore]
    exact h.adopts hi hr fun hstate => husable hstate hmore

/-- What an `open()` does when it goes on, one case for each place it waits at. -/
theorem Invariant.goesOn (h : s.Invariant) (hok : s.AdoptsOpen (.goOn i))
    (hs : s.goesOn i = some s') : s'.Invariant := by
  have hadopts : s.client.state ≠ .closed → ∀ c ∈ s.adopting i, s.broker.Usable c := hok
  unfold ClientSystem.goesOn at hs
  unfold adopting at hadopts
  split at hs
  · rename_i hi
    obtain rfl := Option.some.inj hs
    exact h.throws hi rfl
  · rename_i hi
    obtain rfl := Option.some.inj hs
    exact h.waits hi rfl fun _ hd => by cases hd
  · rename_i hi
    obtain rfl := Option.some.inj hs
    refine h.declares hi rfl fun hstate hmore => hadopts hstate _ ?_
    rw [hi]
    dsimp only
    rw [if_neg hmore]
    rfl
  · rename_i hi
    obtain rfl := Option.some.inj hs
    refine h.declares hi rfl fun hstate hmore => hadopts hstate _ ?_
    rw [hi]
    dsimp only
    rw [if_neg hmore]
    rfl
  · rename_i hi
    obtain rfl := Option.some.inj hs
    exact h.drops hi rfl fun hf => by cases hf
  · rename_i hi
    obtain rfl := Option.some.inj hs
    exact h.drops hi rfl fun hf => by cases hf
  · rename_i reconnecting d rethrow _ hi
    obtain rfl := Option.some.inj hs
    cases rethrow with
    | true => exact h.throws hi rfl
    | false =>
      have hstate := h.raced _ (List.mem_of_getElem? hi) d rfl
      refine ⟨h.shut, h.closed, h.disabled, h.channel, h.connected, fun hd => ?_,
        fun x hx => h.raced x (List.mem_of_mem_eraseIdx hx)⟩
      have hdisconnected : s.client.state = .disconnected := hd
      rw [hstate] at hdisconnected
      cases hdisconnected
  · cases hs

/-! ## Events -/

/-- The channel that closes is the adopted one, or none the client has. -/
theorem Invariant.channelCloses (h : s.Invariant) {broker : Broker}
    (hb : s.broker.channelCloses c = some broker) :
    (if (s.broker.links c).listening then
      onChannelClosed { s with broker } c else { s with broker }).Invariant := by
  have hother : s.client.channel ≠ some c → Invariant { s with broker } := by
    intro hne
    refine ⟨h.shut, h.closed, h.disabled, fun d hd => ?_, h.connected, fun hstate hsucceeded => ?_,
      h.raced⟩
    · obtain ⟨hstate, hconnection, hattended⟩ := h.channel d hd
      have hdc : d ≠ c := by
        rintro rfl
        exact hne hd
      exact ⟨hstate, hconnection, (Broker.keeps_channelCloses hb hdc).attended hattended⟩
    · rcases h.disconnected hstate hsucceeded with htimer | hre | ⟨d, hconnection, hclosing⟩
      · exact .inl htimer
      · exact .inr (.inl hre)
      · exact .inr (.inr ⟨d, hconnection, Broker.closing_channelCloses hb hclosing⟩)
  by_cases hchannel : s.client.channel = some c
  · obtain ⟨hstate, hconnection, hattended⟩ := h.channel c hchannel
    rw [if_pos hattended.2]
    unfold onChannelClosed
    rw [if_neg (not_not_intro hchannel)]
    have hclosing : (broker.close c).Closing c := by
      obtain ⟨-, -, rfl⟩ := Broker.channelCloses_eq hb
      refine Broker.closing_close hattended.1.1 ?_
      have hlink : (s.broker.modify c fun link => { link with channel := .closed }).links c =
        { s.broker.links c with channel := .closed } := if_pos rfl
      rw [hlink]
      exact hattended.1.2.1
    have hnow : (if s.client.state = .connected then RabbitMqClient.State.disconnected
        else s.client.state) = .disconnected := if_pos hstate
    refine ⟨fun hshut => ?_, fun hclosed => ?_, fun hdisabled => ?_, fun d hd => ?_, fun hc => ?_,
      fun _ _ => .inr (.inr ⟨c, hconnection, hclosing⟩), fun x hx d hd => ?_⟩
    · exact absurd (hstate.symm.trans (h.shut hshut)) (by simp)
    · exact absurd (hnow.symm.trans hclosed) (by simp)
    · exact absurd (hnow.symm.trans hdisabled) (by simp)
    · cases hd
    · exact absurd (hnow.symm.trans hc) (by simp)
    · exact absurd (hstate.symm.trans (h.raced x hx d hd)) (by simp)
  · split
    · unfold onChannelClosed
      rw [if_pos hchannel]
      exact hother hchannel
    · exact hother hchannel

/-- The connection that closes is the adopted one, or none the client has. -/
theorem Invariant.connectionCloses (h : s.Invariant) {broker : Broker}
    (hb : s.broker.connectionCloses c = some broker) :
    (onConnectionClosed { s with broker } c).Invariant := by
  unfold onConnectionClosed
  by_cases hconnection : s.client.connection = some c
  · have hstate : s.client.state ≠ .closed := by
      intro hclosed
      rw [(h.closed hclosed).2.1] at hconnection
      cases hconnection
    rw [if_neg (not_not_intro hconnection), if_neg hstate]
    refine .scheduled (fun hshut => absurd (h.shut hshut) hstate) (fun hclosed => ?_)
      (fun hdisabled => ?_) (fun d hd => ?_) (fun hc => ?_)
      fun x hx d hd => absurd (h.raced x hx d hd) hstate
    · cases hclosed
    · cases hdisabled
    · cases hd
    · cases hc
  · rw [if_pos hconnection]
    refine ⟨h.shut, h.closed, h.disabled, fun d hd => ?_, h.connected, fun hstate hsucceeded => ?_,
      h.raced⟩
    · obtain ⟨hstate, hd', hattended⟩ := h.channel d hd
      have hdc : d ≠ c := by
        rintro rfl
        exact hconnection hd'
      exact ⟨hstate, hd', (Broker.keeps_connectionCloses hb hdc).attended hattended⟩
    · rcases h.disconnected hstate hsucceeded with htimer | hre | ⟨d, hd, hclosing⟩
      · exact .inl htimer
      · exact .inr (.inl hre)
      · have hdc : d ≠ c := by
          rintro rfl
          exact hconnection hd
        exact .inr (.inr ⟨d, hd, (Broker.keeps_connectionCloses hb hdc).closing hclosing⟩)

theorem Invariant.shutdown (h : s.Invariant) : s.onApplicationShutdown.Invariant := by
  unfold onApplicationShutdown
  by_cases hdisabled : s.client.state = .disabled
  · rw [if_pos hdisabled]
    exact h
  · rw [if_neg hdisabled]
    refine ⟨fun _ => rfl, fun _ => ⟨rfl, rfl, rfl⟩, fun hd => ?_, fun d hd => ?_, fun hc => ?_,
      fun hd => ?_, fun _ _ _ _ => rfl⟩
    · cases hd
    · cases hd
    · cases hc
    · cases hd

/-! ## Runs -/

theorem Invariant.step (h : s.Invariant) {l : Label} (hok : s.AdoptsOpen l)
    (hs : s.step l = some s') : s'.Invariant := by
  cases l with
  | connect =>
    obtain rfl := Option.some.inj hs
    unfold ClientSystem.connect
    split
    · exact h
    · exact h.begin_
  | timer =>
    unfold ClientSystem.step at hs
    dsimp only at hs
    split at hs
    · obtain rfl := Option.some.inj hs
      exact h.reconnect
    · cases hs
  | shutdown =>
    obtain rfl := Option.some.inj hs
    exact h.shutdown
  | registerTopology replies =>
    obtain rfl := Option.some.inj hs
    exact ⟨h.shut, h.closed, h.disabled, h.channel, h.connected, h.disconnected, h.raced⟩
  | settle i fulfilled =>
    obtain ⟨⟨broker, opens⟩, hsettle, rfl⟩ := Option.map_eq_some_iff.mp hs
    obtain ⟨reconnecting, await, await', hi, hbroker, rfl⟩ := settleAt_cases hsettle
    refine h.frame (fun _ => Broker.keeps_settle hbroker) (exists_mem_set hi id) fun x hx c hc => ?_
    rcases List.mem_or_eq_of_mem_set hx with hx | rfl
    · exact h.raced x hx c hc
    · rcases settle_await hbroker with rfl | ⟨-, rfl⟩
      · exact h.raced _ (List.mem_of_getElem? hi) c hc
      · cases hc
  | goOn i => exact h.goesOn hok hs
  | channelCloses c =>
    obtain ⟨broker, hb, rfl⟩ := Option.map_eq_some_iff.mp hs
    exact h.channelCloses hb
  | connectionCloses c =>
    obtain ⟨broker, hb, rfl⟩ := Option.map_eq_some_iff.mp hs
    exact h.connectionCloses hb

theorem Invariant.recoverable (h : s.Invariant) : s.Recoverable := by
  refine ⟨fun hshut => ?_, fun hsucceeded hshut => ?_⟩
  · have hstate := h.shut hshut
    refine ⟨(h.closed hstate).2.1, ?_⟩
    unfold RabbitMqClient.isConnected
    rw [hstate]
    rfl
  · cases hstate : s.client.state with
    | disabled =>
      rw [h.disabled hstate] at hsucceeded
      cases hsucceeded
    | disconnected =>
      rcases h.disconnected hstate hsucceeded with htimer | hre | hclosing
      · exact .inr (.inr (.inl htimer))
      · exact .inr (.inl (ne_nil_of_exists hre))
      · exact .inr (.inr (.inr hclosing))
    | connected =>
      obtain ⟨c, hc⟩ := Option.ne_none_iff_exists'.mp (h.connected hstate)
      exact .inl ⟨c, hc, (h.channel c hc).2.2.1⟩
    | closed =>
      rw [(h.closed hstate).1] at hshut
      cases hshut

/-- A client whose `open()` only adopts connections with an open channel is recoverable throughout. -/
theorem recoverable_of_adoptsOpen {url : Bool} {labels : List Label}
    (hok : AllSteps step AdoptsOpen (initial url) labels)
    (hrun : runs step (initial url) labels = some s) : s.Recoverable :=
  (invariant_of_allSteps (fun _ _ _ hok hs h => Invariant.step h hok hs) hok hrun
    (invariant_initial url)).recoverable

end ClientSystem

end PracticalMicroservice.Messaging
