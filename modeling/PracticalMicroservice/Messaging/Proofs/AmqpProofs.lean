import PracticalMicroservice.Messaging.Amqp
import Mathlib.Data.List.Basic

/-!
# What the library leaves of a connection

Each operation of the broker against what the clients rely on: an open channel somebody listens to,
and a close event that is still to come.
-/

namespace PracticalMicroservice.Messaging

namespace Broker

variable {b b' : Broker} {c d : Nat}

/-- The channel is open, and its close event will be heard. -/
def Attended (b : Broker) (c : Nat) : Prop := b.Usable c ∧ (b.links c).listening = true

/-- A step leaves a connection what it had. -/
structure Keeps (b b' : Broker) (c : Nat) : Prop where
  usable : b.Usable c → b'.Usable c
  attended : b.Attended c → b'.Attended c
  closing : b.Closing c → b'.Closing c

theorem Keeps.refl : Keeps b b c := ⟨id, id, id⟩

theorem keeps_modify {f : Link → Link}
    (hc : c = d → ((b.links c).connection ≠ .closed → (f (b.links c)).connection ≠ .closed) ∧
      ((b.links c).channel = .opened → (f (b.links c)).channel = .opened) ∧
      ((b.links c).listening = true → (f (b.links c)).listening = true) ∧
      ((b.links c).connection = .closing → (f (b.links c)).connection = .closing)) :
    Keeps b (b.modify d f) c := by
  by_cases he : c = d
  · obtain ⟨hconnection, hchannel, hlistening, hclosing⟩ := hc he
    have hlink : (b.modify d f).links c = f (b.links c) := if_pos he
    refine ⟨fun h => ?_, fun h => ?_, fun h => ?_⟩
    · exact ⟨h.1, by rw [hlink]; exact hconnection h.2.1, by rw [hlink]; exact hchannel h.2.2⟩
    · refine ⟨⟨h.1.1, ?_, ?_⟩, ?_⟩
      · rw [hlink]
        exact hconnection h.1.2.1
      · rw [hlink]
        exact hchannel h.1.2.2
      · rw [hlink]
        exact hlistening h.2
    · exact ⟨h.1, by rw [hlink]; exact hclosing h.2⟩
  · have hlink : (b.modify d f).links c = b.links c := if_neg he
    refine ⟨fun h => ?_, fun h => ?_, fun h => ?_⟩
    · exact ⟨h.1, by rw [hlink]; exact h.2⟩
    · refine ⟨⟨h.1.1, ?_⟩, ?_⟩
      · rw [hlink]
        exact h.1.2
      · rw [hlink]
        exact h.2
    · exact ⟨h.1, by rw [hlink]; exact h.2⟩

theorem keeps_close : Keeps b (b.close d) c := by
  refine keeps_modify fun _ => ⟨fun h => ?_, fun h => ?_, fun h => ?_, fun h => ?_⟩
  · split
    · simp
    · exact h
  · split
    · exact h
    · exact h
  · split
    · exact h
    · exact h
  · rw [h]
    simpa using h

/-- A close event follows a close, unless it has been delivered. -/
theorem closing_close (hlt : c < b.connections) (h : (b.links c).connection ≠ .closed) :
    (b.close c).Closing c := by
  have hlink : (b.close c).links c =
      if (b.links c).connection = .up then { b.links c with connection := .closing }
      else b.links c := if_pos rfl
  refine ⟨hlt, ?_⟩
  rw [hlink]
  cases hp : (b.links c).connection with
  | up => simp
  | closing => simpa using hp
  | closed => exact absurd hp h

theorem keeps_listen : Keeps b (b.listen d) c :=
  keeps_modify fun _ => ⟨id, id, fun _ => rfl, id⟩

theorem attended_listen (h : b.Usable c) : (b.listen c).Attended c := by
  refine ⟨keeps_listen.usable h, ?_⟩
  have hlink : (b.listen c).links c = { b.links c with listening := true } := if_pos rfl
  rw [hlink]

theorem keeps_connect : Keeps b b.connect c := by
  have hlink (h : c < b.connections) : b.connect.links c = b.links c :=
    if_neg (Nat.ne_of_lt h)
  refine ⟨fun h => ?_, fun h => ?_, fun h => ?_⟩
  · exact ⟨Nat.lt_succ_of_lt h.1, by rw [hlink h.1]; exact h.2⟩
  · refine ⟨⟨Nat.lt_succ_of_lt h.1.1, ?_⟩, ?_⟩
    · rw [hlink h.1.1]
      exact h.1.2
    · rw [hlink h.1.1]
      exact h.2
  · exact ⟨Nat.lt_succ_of_lt h.1, by rw [hlink h.1]; exact h.2⟩

/-- A promise that settles takes nothing away. -/
theorem keeps_settle {await await' : Await} {fulfilled : Bool}
    (h : b.settle await fulfilled = some (b', await')) : Keeps b b' c := by
  unfold settle at h
  split at h
  · obtain ⟨rfl, -⟩ := Prod.mk.inj (Option.some.inj h)
    exact keeps_connect
  · cases h
  · split at h
    · obtain ⟨rfl, -⟩ := Prod.mk.inj (Option.some.inj h)
      exact keeps_modify fun _ => ⟨id, fun _ => rfl, id, id⟩
    · cases h
  · split at h
    · obtain ⟨rfl, -⟩ := Prod.mk.inj (Option.some.inj h)
      exact .refl
    · cases h
  · split at h
    · obtain ⟨rfl, -⟩ := Prod.mk.inj (Option.some.inj h)
      exact .refl
    · cases h
  · obtain ⟨rfl, -⟩ := Prod.mk.inj (Option.some.inj h)
    exact .refl

theorem channelCloses_eq (h : b.channelCloses d = some b') :
    (b.links d).channel = .opened ∧ d < b.connections ∧
      b' = b.modify d fun link => { link with channel := .closed } := by
  unfold channelCloses at h
  split at h
  · rename_i hd
    exact ⟨hd.2, hd.1, (Option.some.inj h).symm⟩
  · cases h

theorem connectionCloses_eq (h : b.connectionCloses d = some b') :
    b' = b.modify d fun link => { link with connection := .closed, channel := .closed } := by
  unfold connectionCloses at h
  split at h
  · exact (Option.some.inj h).symm
  · cases h

theorem keeps_connectionCloses (h : b.connectionCloses d = some b') (hc : c ≠ d) :
    Keeps b b' c := by
  rw [connectionCloses_eq h]
  exact keeps_modify fun he => absurd he hc

theorem keeps_channelCloses (h : b.channelCloses d = some b') (hc : c ≠ d) : Keeps b b' c := by
  obtain ⟨-, -, rfl⟩ := channelCloses_eq h
  exact keeps_modify fun he => absurd he hc

/-- The end of a channel is not the end of the wait for its connection. -/
theorem closing_channelCloses (h : b.channelCloses d = some b') (hc : b.Closing c) :
    b'.Closing c := by
  obtain ⟨-, -, rfl⟩ := channelCloses_eq h
  refine ⟨hc.1, ?_⟩
  by_cases he : c = d
  · have hlink : (b.modify d fun link => { link with channel := .closed }).links c =
      { b.links c with channel := .closed } := if_pos he
    rw [hlink]
    exact hc.2
  · have hlink : (b.modify d fun link => { link with channel := .closed }).links c =
      b.links c := if_neg he
    rw [hlink]
    exact hc.2

/-- An open channel is on a connection that is not closed. -/
def Sound (b : Broker) : Prop :=
  ∀ c, (b.links c).channel = .opened → (b.links c).connection ≠ .closed

theorem Sound.modify (h : b.Sound) {f : Link → Link}
    (hf : (f (b.links d)).channel = .opened → (f (b.links d)).connection ≠ .closed) :
    (b.modify d f).Sound := by
  intro c hc
  by_cases he : c = d
  · subst he
    have hlink : (b.modify c f).links c = f (b.links c) := if_pos rfl
    rw [hlink] at hc ⊢
    exact hf hc
  · have hlink : (b.modify d f).links c = b.links c := if_neg he
    rw [hlink] at hc ⊢
    exact h c hc

theorem Sound.close (h : b.Sound) (c : Nat) : (b.close c).Sound := by
  refine h.modify fun hc => ?_
  split
  · simp
  · rename_i hup
    rw [if_neg hup] at hc
    exact h c hc

theorem Sound.listen (h : b.Sound) (c : Nat) : (b.listen c).Sound := h.modify fun hc => h c hc

theorem Sound.settle (h : b.Sound) {await await' : Await} {fulfilled : Bool}
    (hs : b.settle await fulfilled = some (b', await')) : b'.Sound := by
  unfold Broker.settle at hs
  split at hs
  · obtain ⟨rfl, -⟩ := Prod.mk.inj (Option.some.inj hs)
    intro c hc
    by_cases he : c = b.connections
    · have hlink : b.connect.links c = ⟨.up, .absent, false⟩ := if_pos he
      rw [hlink]
      simp
    · have hlink : b.connect.links c = b.links c := if_neg he
      rw [hlink] at hc ⊢
      exact h c hc
  · cases hs
  · split at hs
    · rename_i hup
      obtain ⟨rfl, -⟩ := Prod.mk.inj (Option.some.inj hs)
      exact h.modify fun _ => hup.2
    · cases hs
  · split at hs
    · obtain ⟨rfl, -⟩ := Prod.mk.inj (Option.some.inj hs)
      exact h
    · cases hs
  · split at hs
    · obtain ⟨rfl, -⟩ := Prod.mk.inj (Option.some.inj hs)
      exact h
    · cases hs
  · obtain ⟨rfl, -⟩ := Prod.mk.inj (Option.some.inj hs)
    exact h

theorem Sound.channelCloses (h : b.Sound) (hb : b.channelCloses d = some b') : b'.Sound := by
  obtain ⟨-, -, rfl⟩ := channelCloses_eq hb
  refine h.modify fun hc => ?_
  cases hc

theorem Sound.connectionCloses (h : b.Sound) (hb : b.connectionCloses d = some b') : b'.Sound := by
  rw [connectionCloses_eq hb]
  refine h.modify fun hc => ?_
  cases hc

end Broker

/-! ## The calls of `open()` -/

section Openings

variable {opens : List Opening} {o o' : Opening} {i : Nat} {p : Opening → Prop}

theorem exists_mem_set (hi : opens[i]? = some o) (hp : p o → p o') (h : ∃ x ∈ opens, p x) :
    ∃ x ∈ opens.set i o', p x := by
  obtain ⟨x, hx, hpx⟩ := h
  obtain ⟨k, hk⟩ := List.mem_iff_getElem?.mp hx
  obtain ⟨hlt, -⟩ := List.getElem?_eq_some_iff.mp hi
  by_cases he : i = k
  · subst he
    obtain rfl : o = x := Option.some.inj (hi.symm.trans hk)
    exact ⟨o', List.mem_set hlt o', hp hpx⟩
  · refine ⟨x, List.mem_iff_getElem?.mpr ⟨k, ?_⟩, hpx⟩
    rw [List.getElem?_set_ne he]
    exact hk

theorem exists_mem_eraseIdx (hi : opens[i]? = some o) (hp : ¬ p o) (h : ∃ x ∈ opens, p x) :
    ∃ x ∈ opens.eraseIdx i, p x := by
  obtain ⟨x, hx, hpx⟩ := h
  obtain ⟨k, hk⟩ := List.mem_iff_getElem?.mp hx
  have hne : k ≠ i := by
    rintro rfl
    obtain rfl : o = x := Option.some.inj (hi.symm.trans hk)
    exact hp hpx
  exact ⟨x, List.mem_eraseIdx_iff_getElem?.mpr ⟨k, hne, hk⟩, hpx⟩

theorem ne_nil_of_exists (h : ∃ x ∈ opens, p x) : opens ≠ [] := by
  obtain ⟨x, hx, -⟩ := h
  exact List.ne_nil_of_mem hx

/-- What settles goes on waiting where it waited. -/
theorem settleAt_cases {b b' : Broker} {opens' : List Opening} {fulfilled : Bool}
    (h : settleAt b opens i fulfilled = some (b', opens')) :
    ∃ reconnecting await await', opens[i]? = some ⟨reconnecting, await, none⟩ ∧
      b.settle await fulfilled = some (b', await') ∧
      opens' = opens.set i ⟨reconnecting, await', some fulfilled⟩ := by
  unfold settleAt at h
  split at h
  · rename_i reconnecting await hi
    obtain ⟨⟨b'', await'⟩, hs, he⟩ := Option.map_eq_some_iff.mp h
    obtain ⟨rfl, rfl⟩ := Prod.mk.inj he
    exact ⟨reconnecting, await, await', hi, hs, rfl⟩
  · cases h

theorem settle_await {b b' : Broker} {await await' : Await} {fulfilled : Bool}
    (h : b.settle await fulfilled = some (b', await')) :
    await' = await ∨ (await = .connect ∧ await' = .connected b.connections) := by
  unfold Broker.settle at h
  split at h
  · exact .inr ⟨rfl, (Prod.mk.inj (Option.some.inj h)).2.symm⟩
  · cases h
  · split at h
    · exact .inl (Prod.mk.inj (Option.some.inj h)).2.symm
    · cases h
  · split at h
    · exact .inl (Prod.mk.inj (Option.some.inj h)).2.symm
    · cases h
  · split at h
    · exact .inl (Prod.mk.inj (Option.some.inj h)).2.symm
    · cases h
  · exact .inl (Prod.mk.inj (Option.some.inj h)).2.symm

end Openings

end PracticalMicroservice.Messaging
