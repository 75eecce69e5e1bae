import PracticalMicroservice.Messaging.Proofs.ClientProofs
import PracticalMicroservice.Messaging.Proofs.ConsumerProofs

/-!
# When the broker connections recover

Both objects recover as long as what an `open()` finds when it goes on is what it went to sleep on.
A close event that is delivered after the last reply and before the adoption is heard by nobody, and
a `stop()` during the `consume` is overwritten by it.
-/

namespace PracticalMicroservice.Messaging

open Foundations (AllSteps runs)

/-- The client recovers and stops for good if `open()` adopts no connection whose channel is gone;
the consumer does if no `consume` comes back to a consumer that was stopped or whose channel is
gone, and no failure to one that is connected or has nothing else to reconnect it. -/
theorem connections_recover {url : Bool} {clientLabels : List ClientSystem.Label}
    {client : ClientSystem}
    (hadopts : AllSteps ClientSystem.step ClientSystem.AdoptsOpen (.initial url) clientLabels)
    (hclient : runs ClientSystem.step (.initial url) clientLabels = some client)
    {declarations : Nat} {labels : List ConsumerSystem.Label} {consumer : ConsumerSystem}
    (hgoesOn : AllSteps (ConsumerSystem.step declarations) ConsumerSystem.GoesOnSound .initial labels)
    (hconsumer : runs (ConsumerSystem.step declarations) .initial labels = some consumer) :
    client.Recoverable ∧ consumer.Recoverable :=
  ⟨ClientSystem.recoverable_of_adoptsOpen hadopts hclient,
    ConsumerSystem.recoverable_of_goesOnSound hgoesOn hconsumer⟩

/-! ## Runs of one connection -/

/-- The first connection of a client without topologies. -/
def clientConnects : List ClientSystem.Label :=
  [.connect, .settle 0 true, .goOn 0, .settle 0 true, .goOn 0]

/-- It is lost, and the timer fires. -/
def clientReconnects : List ClientSystem.Label :=
  clientConnects ++ [.connectionCloses 0, .timer, .settle 0 true, .goOn 0, .settle 0 true]

/-- The consumer up to the reply to its first `consume`. -/
def consumerConsumes : List ConsumerSystem.Label :=
  [.start, .settle 0 true, .goOn 0, .settle 0 true, .goOn 0, .settle 0 true, .goOn 0, .settle 0 true]

theorem connections_recover_once :
    ∃ client consumer, runs ClientSystem.step (.initial true) clientReconnects = some client ∧
      runs (ConsumerSystem.step 0) .initial (consumerConsumes ++ [.goOn 0, .channelCloses 0]) =
        some consumer ∧ client.Recoverable ∧ consumer.Recoverable := by
  have hadopts : AllSteps ClientSystem.step ClientSystem.AdoptsOpen (.initial true)
    clientReconnects := by decide +kernel
  have hgoesOn : AllSteps (ConsumerSystem.step 0) ConsumerSystem.GoesOnSound .initial
    (consumerConsumes ++ [.goOn 0, .channelCloses 0]) := by decide +kernel
  exact ⟨_, _, rfl, rfl, connections_recover hadopts rfl hgoesOn rfl⟩

/-- The new connection closes after its channel was created and before it is adopted: the client is
connected to nothing, for good. -/
def deadAdoption : List ClientSystem.Label := clientReconnects ++ [.connectionCloses 1, .goOn 0]

/-- The channel closes after the reply to the `consume`: nobody hears it. -/
def deafConsumer : List ConsumerSystem.Label := consumerConsumes ++ [.channelCloses 0, .goOn 0]

/-- `stop()` is called while the `consume` is on its way back: the consumer is connected again. -/
def unstoppedConsumer : List ConsumerSystem.Label := consumerConsumes ++ [.stop, .goOn 0]

theorem connections_lost :
    (∃ client, runs ClientSystem.step (.initial true) deadAdoption = some client ∧
      ¬ client.Recoverable) ∧
    (∃ consumer, runs (ConsumerSystem.step 0) .initial deafConsumer = some consumer ∧
      ¬ consumer.Recoverable) ∧
    ∃ consumer, runs (ConsumerSystem.step 0) .initial unstoppedConsumer = some consumer ∧
      ¬ consumer.Recoverable := by
  refine ⟨⟨_, rfl, fun h => ?_⟩, ⟨_, rfl, fun h => ?_⟩, ⟨_, rfl, fun h => ?_⟩⟩
  · rcases h.recovers rfl rfl with ⟨c, hc, -, hclosed, -⟩ | hopens | htimer | ⟨c, hc, -, hclosing⟩
    · obtain rfl := Option.some.inj hc
      exact hclosed rfl
    · exact hopens rfl
    · cases htimer
    · obtain rfl := Option.some.inj hc
      cases hclosing
  · rcases h.recovers rfl rfl with ⟨c, hc, -, -, hopened⟩ | hopens | htimer | ⟨c, hc, -, hclosing⟩
    · obtain rfl := Option.some.inj hc
      cases hopened
    · exact hopens rfl
    · cases htimer
    · obtain rfl := Option.some.inj hc
      cases hclosing
  · cases (h.stopped rfl).1

end PracticalMicroservice.Messaging
