import Blinex.Native.RelayPath
import Blinex.Spec.SignalDelivery

/-!
# Relayed packets, end to end

The server ties a message to the keys of the streams it is read from and written to; the agents
tie those keys to packets of WireGuard. Taken together, what the relay hands to WireGuard under a
peer's endpoint is what that peer's agent sent to this one, in order and at most once, unless the
sends of that agent overlapped and corrupted its stream.

## Key results

- `relayed_packet_genuine`: where a relayed packet comes from.
- `relayed_in_order`: what one agent gets of another is a subsequence of what that one sent.
- `relayed_none_lost`: while the peer is known and the bind is open, the agent loses nothing.
-/

namespace Blinex.Native.Signal

/-! ## What a step of the server keeps -/

/-- What the server receives in an event. -/
def Event.receives : Event → List Held
  | .act id (.recv m) => [⟨id, m⟩]
  | _ => []

section

variable {s s' : State} {ev : Event}

private theorem mem_writtenTo {t : StreamId} {x : Held} :
    x ∈ s.writtenTo t ↔ (t, x) ∈ s.written := by
  simp [State.writtenTo]

private theorem HandlerStep.receives {srv : Server} {now : Nat} {id : StreamId} {hd : Handler}
    {a : Action}
    {e : Effect} (h : HandlerStep srv now id hd a e) : e.received = (Event.act id a).receives := by
  cases h <;> rfl

/-- What was received, by the event. -/
private theorem step_received (h : step s ev = some s') :
    s'.received = ev.receives ++ s.received := by
  rcases step_cases h with ⟨id, authKey, rfl, _, rfl⟩ | ⟨id, a, hd, e, rfl, _, he, rfl⟩ |
    ⟨d, rfl, rfl⟩
  · rfl
  · rw [← he.receives]
    rfl
  · rfl

/-- What was written to a stream is never taken back. -/
private theorem step_writtenTo (h : step s ev = some s') (t : StreamId) :
    ∃ more, s'.writtenTo t = s.writtenTo t ++ more := by
  rcases step_cases h with ⟨id, authKey, rfl, _, rfl⟩ | ⟨id, a, hd, e, rfl, _, he, rfl⟩ |
    ⟨d, rfl, rfl⟩
  · exact ⟨[], (List.append_nil _).symm⟩
  · exact ⟨_, writtenTo_after he⟩
  · exact ⟨[], (List.append_nil _).symm⟩

/-- A stream keeps the key that it was opened with. -/
theorem State.BelongsTo.step {id : StreamId} {k : String} (hk : s.BelongsTo id k)
    (h : step s ev = some s') : s'.BelongsTo id k := by
  rcases step_cases h with ⟨i, authKey, rfl, hfresh, rfl⟩ | ⟨i, a, hd, e, rfl, hh, he, rfl⟩ |
    ⟨d, rfl, rfl⟩
  · obtain ⟨hd, hid, hauth⟩ := hk
    have hne : id ≠ i := by
      intro heq
      exact nomatch (heq ▸ hid).symm.trans hfresh
    exact ⟨hd, (PMap.set_ne _ _ hne).trans hid, hauth⟩
  · exact exists_handler_after hh he hk
  · exact hk

/-- Messages are received on open streams. -/
def State.ReceivedOpen (s : State) : Prop := ∀ x ∈ s.received, s.handlers x.src ≠ none

/-- Messages come from streams that were opened. -/
theorem State.ReceivedOpen.step (hs : s.ReceivedOpen) (h : step s ev = some s') :
    s'.ReceivedOpen := by
  rcases step_cases h with ⟨i, authKey, rfl, hfresh, rfl⟩ | ⟨i, a, hd, e, rfl, hh, he, rfl⟩ |
    ⟨d, rfl, rfl⟩
  · intro x hx
    have hne : x.src ≠ i := fun heq => hs x hx (heq ▸ hfresh)
    exact (PMap.set_ne _ _ hne).trans_ne (hs x hx)
  · intro x hx
    by_cases heq : x.src = i
    · rw [heq, s.after_handlers_self i e]
      exact Option.some_ne_none _
    · rw [s.after_handlers_ne e heq]
      rcases List.mem_append.mp hx with hx | hx
      · -- an action only receives on its own stream
        rw [he.receives] at hx
        cases a with
        | recv m =>
          obtain rfl := List.mem_singleton.mp hx
          exact absurd rfl heq
        | _ => exact absurd hx List.not_mem_nil
      · exact hs x hx
  · exact hs

/-- A stream is opened once. -/
private theorem step_open_fresh {id : StreamId} {authKey : Option String}
    (h : step s (.open id authKey) = some s') : s.handlers id = none := by
  rcases step_cases h with ⟨i, key, heq, hnone, -⟩ | ⟨i, a, hd, e, heq, _⟩ | ⟨d, heq, _⟩
  · obtain ⟨rfl, -⟩ := Event.open.inj heq
    exact hnone
  · cases heq
  · cases heq

/-- It then belongs to the key of its token. -/
private theorem step_open_belongs {id : StreamId} {k : String}
    (h : step s (.open id (some k)) = some s') : s'.BelongsTo id k := by
  rcases step_cases h with ⟨i, authKey, heq, _, rfl⟩ | ⟨i, a, hd, e, heq, _⟩ | ⟨d, heq, _⟩
  · obtain ⟨rfl, rfl⟩ := Event.open.inj heq
    exact ⟨_, PMap.set_self _ _ _, rfl⟩
  · cases heq
  · cases heq

end

end Blinex.Native.Signal

namespace Blinex.Native

open Signalv1 (Message Body)
open Signal (StreamId Held Authentic Addressed RelayOrdered)

/-! ## What is in an agent -/

/-- The relayed messages that packets came in. -/
def origins (l : List RelayPacket) : List Held := l.filterMap (·.msg)

private theorem origins_append (l l' : List RelayPacket) :
    origins (l ++ l') = origins l ++ origins l' :=
  List.filterMap_append

/-- The message behind the first packet, if there is one. -/
private theorem origins_cons (pkt : RelayPacket) (l : List RelayPacket) :
    origins (pkt :: l) = pkt.msg.toList ++ origins l := by
  cases h : pkt.msg <;> simp [origins, h]

private theorem origins_singleton (pkt : RelayPacket) : origins [pkt] = pkt.msg.toList :=
  (origins_cons pkt []).trans (List.append_nil _)

/-- The packet that the callback passes on. -/
def Dispatch.packet : Dispatch → List RelayPacket
  | .injecting pkt _ => [pkt]
  | _ => []

/-- The message that the callback is at work on. -/
def Dispatch.inHand : Dispatch → List Held
  | .receiving => []
  | .received x => [x]
  | .injecting pkt _ => pkt.msg.toList

namespace RelayAgent

/-- The packets that are on the way to WireGuard. -/
def waiting (a : RelayAgent) : List RelayPacket := a.bind.relayCh ++ a.dispatch.packet

/-- The relayed messages of the packets that were handed to WireGuard or are on the way there, in
    order, and the one that the callback is at work on. -/
def pipeline (a : RelayAgent) : List Held :=
  origins (a.handed.map (·.1)) ++ origins a.bind.relayCh ++ a.dispatch.inHand

/-! ## What a step can do -/

/-- The steps of an agent, guards and effects spelled out. -/
inductive Step (a : RelayAgent) (inbox : List Held) : RelayAgent → Prop where
  | post (remoteKey : String) (body : Body) : Step a inbox (a.post remoteKey body)
  | sent (sending : List Message) : Step a inbox { a with sending }
  | recv (x : Held) (hd : a.dispatch = .receiving) (hx : inbox[a.taken]? = some x) :
    Step a inbox { a with dispatch := .received x, taken := a.taken + 1 }
  | callback (x : Held) (hd : a.dispatch = .received x) :
    Step a inbox { a with dispatch := a.callback x }
  | put (pkt : RelayPacket) (done : Nat) (hd : a.dispatch = .injecting pkt done) :
    Step a inbox
      { a with dispatch := .receiving, bind := { a.bind with relayCh := a.bind.relayCh ++ [pkt] } }
  | giveUp (pkt : RelayPacket) (done : Nat) (hd : a.dispatch = .injecting pkt done)
      (hclosed : done ∈ a.bind.closed) : Step a inbox { a with dispatch := .receiving }
  | inject (c : Nat) (data : List UInt8) (ep : AddrPort) :
    Step a inbox { a with calls := a.calls.set c ({ data, src := ep }, a.bind.doneCh) }
  | putCall (c : Nat) (pkt : RelayPacket) (done : Nat) (hc : a.calls c = some (pkt, done)) :
    Step a inbox
      { a with
        calls := a.calls.delete c
        bind := { a.bind with relayCh := a.bind.relayCh ++ [pkt] } }
  | giveUpCall (c : Nat) : Step a inbox { a with calls := a.calls.delete c }
  | take (pkt : RelayPacket) (rest : List RelayPacket) (size : Nat)
      (hch : a.bind.relayCh = pkt :: rest) :
    Step a inbox
      { a with
        bind := { a.bind with relayCh := rest }
        handed := a.handed ++ [({ pkt with data := pkt.data.take size }, size)] }
  | control (relay : Relay) (bind : RelayBind) (hch : bind.relayCh = a.bind.relayCh) :
    Step a inbox { a with relay, bind }

/-- A packet that is put stands last in the channel. -/
private theorem put_eq_some {b b' : RelayBind} {pkt : RelayPacket}
    (h : b.put pkt = some b') : b' = { b with relayCh := b.relayCh ++ [pkt] } := by
  unfold RelayBind.put at h
  split at h
  · exact (Option.some.inj h).symm
  · cases h

/-- The events of an agent, by what they change. -/
theorem step_cases {a a' : RelayAgent} {inbox : List Held} {ev : AgentEvent}
    (h : a.step inbox ev = some a') : Step a inbox a' := by
  cases ev with
  | register =>
    obtain rfl := Option.some.inj h
    exact .post _ _
  | signal remoteKey body =>
    simp only [step] at h
    -- relayed packets are not sent this way
    split at h
    · cases h
    · obtain rfl := Option.some.inj h
      exact .post _ _
  | send ep k data =>
    simp only [step] at h
    split at h
    · obtain rfl := Option.some.inj h
      exact .post _ _
    · cases h
  | sent m =>
    simp only [step] at h
    split at h
    · obtain rfl := Option.some.inj h
      exact .sent _
    · cases h
  | recv =>
    simp only [step] at h
    split at h
    · obtain rfl := Option.some.inj h
      exact .recv _ ‹_› ‹_›
    · cases h
  | callback =>
    simp only [step] at h
    split at h
    · obtain rfl := Option.some.inj h
      exact .callback _ ‹_›
    · cases h
  | put =>
    simp only [step] at h
    split at h
    · -- the channel has room for the packet
      obtain ⟨b, hput, rfl⟩ := Option.map_eq_some_iff.mp h
      rw [put_eq_some hput]
      exact .put _ _ ‹_›
    · cases h
  | giveUp =>
    simp only [step] at h
    split at h
    · split at h
      · obtain rfl := Option.some.inj h
        exact .giveUp _ _ ‹_› ‹_›
      · cases h
    · cases h
  | inject c data ep =>
    simp only [step] at h
    split at h
    · obtain rfl := Option.some.inj h
      exact .inject _ _ _
    · cases h
  | putCall c =>
    simp only [step] at h
    split at h
    · obtain ⟨b, hput, rfl⟩ := Option.map_eq_some_iff.mp h
      rw [put_eq_some hput]
      exact .putCall _ _ _ ‹_›
    · cases h
  | giveUpCall c =>
    simp only [step] at h
    split at h
    · split at h
      · obtain rfl := Option.some.inj h
        exact .giveUpCall _
      · cases h
    · cases h
  | take size =>
    simp only [step, RelayBind.take] at h
    split at h
    · cases h
    · obtain rfl := Option.some.inj h
      exact .take _ _ _ ‹_›
  | «open» =>
    obtain rfl := Option.some.inj h
    exact .control a.relay _ rfl
  | close =>
    obtain rfl := Option.some.inj h
    refine .control a.relay _ ?_
    -- a second close changes nothing
    unfold RelayBind.close
    split <;> rfl
  | tables relay =>
    obtain rfl := Option.some.inj h
    exact .control relay a.bind rfl

end RelayAgent

/-! ## The invariant -/

/-- `data` is the relay data of the message, and `P` holds of the endpoint that it is under. -/
structure Carries (P : String → AddrPort → Prop) (data : List UInt8) (ep : AddrPort)
    (m : Message) : Prop where
  body : ∃ body, m.body = some body ∧ body.type = .relay ∧ data = body.data
  endpoint : P m.key ep

/-- What holds of the agent on a stream. -/
structure AgentOk (P : String → AddrPort → Prop) (s : Signal.State) (id : StreamId)
    (a : RelayAgent) : Prop where
  mine : s.BelongsTo id a.selfKey
  posted : a.corrupt = false →
    (s.received.reverse.filter (·.src == id)).map (·.msg) ++ a.outbox = a.posted
  taken : a.taken ≤ (s.writtenTo id).length
  flow : a.pipeline.Sublist ((s.writtenTo id).take a.taken)
  waiting : ∀ pkt ∈ a.waiting, ∀ x, pkt.msg = some x → Carries P pkt.data pkt.src x.msg
  handed : ∀ pkt size, (pkt, size) ∈ a.handed → ∀ x, pkt.msg = some x →
    ∃ data, Carries P data pkt.src x.msg ∧ pkt.data = data.take size
  calls : ∀ c pkt done, a.calls c = some (pkt, done) → pkt.msg = none

section Agent

variable {P : String → AddrPort → Prop} {s : Signal.State} {id : StreamId} {a a' : RelayAgent}

/-- The callback drops a message, or injects it with the endpoint of its key. -/
private theorem callback_cases (a : RelayAgent) (x : Held) :
    a.callback x = .receiving ∨ ∃ body ep, x.msg.body = some body ∧ body.type = .relay ∧
      a.relay.endpts x.msg.key = some ep ∧ a.callback x =
        .injecting { data := body.data, src := ep, msg := some x } a.bind.doneCh := by
  unfold RelayAgent.callback
  split
  · rename_i body hbody
    -- dropped: another type, an unknown sender or no body
    split
    · rename_i htype
      split
      · rename_i ep hep
        exact .inr ⟨body, ep, hbody, htype, hep, rfl⟩
      · exact .inl rfl
    · exact .inl rfl
  · exact .inl rfl

/-- Nothing in the pipeline changes its place. -/
private theorem pipeline_step {inbox : List Held}
    (hcalls : ∀ c pkt done, a.calls c = some (pkt, done) → pkt.msg = none)
    (hflow : a.pipeline.Sublist (inbox.take a.taken)) (h : a.Step inbox a') :
    a'.pipeline.Sublist (inbox.take a'.taken) := by
  cases h with
  | post remoteKey body => exact hflow
  | sent sending => exact hflow
  | recv x hd hx =>
    rw [RelayAgent.pipeline, hd] at hflow
    simp only [RelayAgent.pipeline, List.take_add_one, hx, Option.toList_some]
    simpa [Dispatch.inHand] using hflow.append (List.Sublist.refl [x])
  -- what the callback drops leaves the pipeline
  | callback x hd =>
    rw [RelayAgent.pipeline, hd] at hflow
    refine List.Sublist.trans ((List.Sublist.refl _).append ?_) hflow
    rcases callback_cases a x with heq | ⟨body, ep, -, -, -, heq⟩ <;> rw [heq]
    · exact List.nil_sublist _
    · exact List.Sublist.refl _
  | put pkt done hd =>
    rw [RelayAgent.pipeline, hd] at hflow
    simpa [RelayAgent.pipeline, origins_append, origins_singleton, Dispatch.inHand] using hflow
  | giveUp pkt done hd hclosed =>
    refine List.Sublist.trans ?_ hflow
    exact (List.Sublist.refl _).append (List.nil_sublist _)
  | inject c data ep => exact hflow
  -- a packet of a direct call has no message behind it
  | putCall c pkt done hc =>
    simpa [RelayAgent.pipeline, origins_append, origins_singleton, hcalls c pkt done hc]
      using hflow
  | giveUpCall c => exact hflow
  | take pkt rest size hch =>
    rw [RelayAgent.pipeline, hch, origins_cons] at hflow
    simpa [RelayAgent.pipeline, origins_append, origins_singleton] using hflow
  | control relay bind hch => simpa only [RelayAgent.pipeline, hch] using hflow

/-- Packets come into the channel from the callback with the data of their message, and from
    direct paths without a message. -/
private theorem waiting_step {inbox : List Held}
    (hcalls : ∀ c pkt done, a.calls c = some (pkt, done) → pkt.msg = none)
    (hwaiting : ∀ pkt ∈ a.waiting, ∀ x, pkt.msg = some x → Carries P pkt.data pkt.src x.msg)
    (hP : ∀ k ep, a.relay.endpts k = some ep → P k ep) (h : a.Step inbox a') :
    ∀ pkt ∈ a'.waiting, ∀ x, pkt.msg = some x → Carries P pkt.data pkt.src x.msg := by
  have hidle (h : a.dispatch.packet = []) : a.waiting = a.bind.relayCh := by
    rw [RelayAgent.waiting, h, List.append_nil]
  cases h with
  | post remoteKey body => exact hwaiting
  | sent sending => exact hwaiting
  | recv x hd hx =>
    rw [hidle (by rw [hd]; rfl)] at hwaiting
    simpa [RelayAgent.waiting, Dispatch.packet] using hwaiting
  | callback x hd =>
    rw [hidle (by rw [hd]; rfl)] at hwaiting
    rcases callback_cases a x with heq | ⟨body, ep, hbody, htype, hep, heq⟩
    · simpa [RelayAgent.waiting, heq, Dispatch.packet] using hwaiting
    · -- the new packet has the data of the message, and the endpoint of its key
      intro pkt hpkt y hy
      rw [RelayAgent.waiting, heq] at hpkt
      rcases List.mem_append.mp hpkt with hpkt | hpkt
      · exact hwaiting pkt hpkt y hy
      · obtain rfl := List.mem_singleton.mp hpkt
        obtain rfl := Option.some.inj hy
        exact ⟨⟨body, hbody, htype, rfl⟩, hP _ ep hep⟩
  | put pkt done hd =>
    rw [RelayAgent.waiting, hd] at hwaiting
    simpa [RelayAgent.waiting, Dispatch.packet] using hwaiting
  | giveUp pkt done hd hclosed =>
    intro q hq
    refine hwaiting q (List.mem_append_left _ ?_)
    simpa [RelayAgent.waiting, Dispatch.packet] using hq
  | inject c data ep => exact hwaiting
  | putCall c pkt done hc =>
    intro q hq y hy
    have hmem : q ∈ a.waiting ∨ q = pkt := by
      simp only [RelayAgent.waiting, List.mem_append, List.mem_singleton] at hq ⊢
      tauto
    rcases hmem with hmem | rfl
    · exact hwaiting q hmem y hy
    · exact nomatch (hcalls c q done hc).symm.trans hy
  | giveUpCall c => exact hwaiting
  | take pkt rest size hch =>
    intro q hq
    refine hwaiting q ?_
    simp only [RelayAgent.waiting, hch, List.cons_append, List.mem_cons] at hq ⊢
    exact .inr hq
  | control relay bind hch => simpa only [RelayAgent.waiting, hch] using hwaiting

/-- A buffer gets as much of a packet as it has room for. -/
private theorem handed_step {inbox : List Held}
    (hwaiting : ∀ pkt ∈ a.waiting, ∀ x, pkt.msg = some x → Carries P pkt.data pkt.src x.msg)
    (hhanded : ∀ pkt size, (pkt, size) ∈ a.handed → ∀ x, pkt.msg = some x →
      ∃ data, Carries P data pkt.src x.msg ∧ pkt.data = data.take size)
    (h : a.Step inbox a') :
    ∀ pkt size, (pkt, size) ∈ a'.handed → ∀ x, pkt.msg = some x →
      ∃ data, Carries P data pkt.src x.msg ∧ pkt.data = data.take size := by
  cases h with
  | take pkt rest size hch =>
    -- the packet was waiting in the channel
    have hpkt : pkt ∈ a.waiting := by simp [RelayAgent.waiting, hch]
    intro q size' hq y hy
    rcases List.mem_append.mp hq with hq | hq
    · exact hhanded q size' hq y hy
    · obtain ⟨rfl, rfl⟩ := Prod.mk.inj (List.mem_singleton.mp hq)
      exact ⟨pkt.data, hwaiting pkt hpkt y hy, rfl⟩
  -- only `take` fills a buffer
  | _ => exact hhanded

/-- An event of the agent keeps its invariant. -/
theorem AgentOk.step (ha : AgentOk P s id a) (hP : ∀ k ep, a.relay.endpts k = some ep → P k ep)
    (h : a.Step (s.writtenTo id) a') : AgentOk P s id a' := by
  have hflow := pipeline_step ha.calls ha.flow h
  have hwaiting := waiting_step ha.calls ha.waiting hP h
  have hhanded := handed_step ha.waiting ha.handed h
  cases h with
  | post remoteKey body =>
    -- a concurrent send makes the agent corrupt, and nothing is said of it then
    refine ⟨ha.mine, fun hcorrupt => ?_, ha.taken, hflow, hwaiting, hhanded, ha.calls⟩
    rw [RelayAgent.post, ← ha.posted (Bool.or_eq_false_iff.mp hcorrupt).1, List.append_assoc]
  | recv x hd hx =>
    have hlt := (List.getElem?_eq_some_iff.mp hx).1
    exact ⟨ha.mine, ha.posted, hlt, hflow, hwaiting, hhanded, ha.calls⟩
  | inject c data ep =>
    refine ⟨ha.mine, ha.posted, ha.taken, hflow, hwaiting, hhanded, fun c' pkt done hc => ?_⟩
    rcases PMap.set_eq_some _ hc with ⟨-, heq⟩ | ⟨-, hc⟩
    · rw [← (Prod.mk.inj heq).1]
    · exact ha.calls c' pkt done hc
  | putCall c pkt done hc =>
    exact ⟨ha.mine, ha.posted, ha.taken, hflow, hwaiting, hhanded,
      fun c' pkt' done' hc' => ha.calls c' pkt' done' (PMap.delete_eq_some _ hc').2⟩
  | giveUpCall c =>
    exact ⟨ha.mine, ha.posted, ha.taken, hflow, hwaiting, hhanded,
      fun c' pkt' done' hc' => ha.calls c' pkt' done' (PMap.delete_eq_some _ hc').2⟩
  | _ => exact ⟨ha.mine, ha.posted, ha.taken, hflow, hwaiting, hhanded, ha.calls⟩

/-- A step of the server, which leaves the agent its outbox or takes a message from it. On a
    corrupt stream it may receive anything. -/
theorem AgentOk.server (ha : AgentOk P s id a) {s' : Signal.State} {ev : Signal.Event}
    (h : Signal.step s ev = some s') {outbox : List Message}
    (hout : a.corrupt = false →
      (ev.receives.filter (·.src == id)).map (·.msg) ++ outbox = a.outbox) :
    AgentOk P s' id { a with outbox } := by
  obtain ⟨more, hmore⟩ := Signal.step_writtenTo h id
  -- an event receives at most one message
  have hrev : ev.receives.reverse = ev.receives := by
    unfold Signal.Event.receives
    split <;> rfl
  refine ⟨ha.mine.step h, fun hcorrupt => ?_, ?_, ?_, ha.waiting, ha.handed, ha.calls⟩
  · rw [Signal.step_received h, List.reverse_append, List.filter_append, List.map_append, hrev,
      List.append_assoc, hout hcorrupt, ha.posted hcorrupt]
  · rw [hmore, List.length_append]
    exact Nat.le_add_right_of_le ha.taken
  · rw [hmore, List.take_append_of_le_length ha.taken]
    exact ha.flow

end Agent

/-- The invariant of the network: `P id k ep` holds of the endpoints that the agent on `id` has
    had for `k`. -/
structure NetOk (P : StreamId → String → AddrPort → Prop) (n : RelayNet) : Prop where
  authentic : Authentic n.signal
  addressed : Addressed n.signal
  relayed : ∀ src, RelayOrdered src n.signal
  received : n.signal.ReceivedOpen
  agents : ∀ id a, n.agents id = some a → AgentOk (P id) n.signal id a

/-- Other clients come through the interceptor, too. -/
def NetEvent.Authenticated : NetEvent → Prop
  | .server ev => ev.Authenticated
  | _ => True

/-- The agents of a network have the endpoints that `P` allows. -/
def Endpoints (P : StreamId → String → AddrPort → Prop) (n : RelayNet) : Prop :=
  ∀ id a, n.agents id = some a → ∀ k ep, a.relay.endpts k = some ep → P id k ep

section Net

variable {P : StreamId → String → AddrPort → Prop} {n n' : RelayNet}

/-- A step of the server with the agents that it leaves. -/
private theorem NetOk.signal_step (hn : NetOk P n) {s : Signal.State} {ev : Signal.Event}
    (hev : ev.Authenticated) (h : Signal.step n.signal ev = some s)
    {agents : PMap StreamId RelayAgent}
    (hagents : ∀ id a, agents id = some a → AgentOk (P id) s id a) :
    NetOk P { signal := s, agents } :=
  ⟨hn.authentic.step hev h, hn.addressed.step hn.authentic h,
    fun src => (hn.relayed src).step hn.addressed h, hn.received.step h, hagents⟩

/-- A new agent starts with an empty stream. -/
theorem NetOk.connect (hn : NetOk P n) {id : StreamId} {selfKey : String} {s : Signal.State}
    (h : Signal.step n.signal (.open id (some selfKey)) = some s) :
    NetOk P { signal := s, agents := n.agents.set id { selfKey } } := by
  have hev : (Signal.Event.open id (some selfKey)).Authenticated := Option.some_ne_none selfKey
  refine hn.signal_step hev h fun i a hi => ?_
  rcases PMap.set_eq_some _ hi with ⟨rfl, rfl⟩ | ⟨_, hi⟩
  · -- nothing was received on the stream before it was opened
    have hnothing : ∀ x ∈ n.signal.received, x.src ≠ i := by
      rintro x hx rfl
      exact hn.received x hx (Signal.step_open_fresh h)
    refine ⟨Signal.step_open_belongs h, fun _ => ?_, Nat.zero_le _, List.nil_sublist _, nofun,
      nofun, nofun⟩
    rw [Signal.step_received h]
    simpa [Signal.Event.receives] using hnothing
  · exact (hn.agents i a hi).server h fun _ => rfl

/-- A step of the server takes what it receives from the agent that posted it. -/
theorem NetOk.server (hn : NetOk P n) {s : Signal.State} {ev : Signal.Event}
    (hev : ev.Authenticated) (h : Signal.step n.signal ev = some s)
    {agents : PMap StreamId RelayAgent} (hdeliver : n.deliver ev = some agents) :
    NetOk P { signal := s, agents } := by
  refine hn.signal_step hev h fun i a hi => ?_
  unfold RelayNet.deliver at hdeliver
  split at hdeliver
  · rename_i id m
    -- an agent on another stream is left alone
    have hother (ha : n.agents i = some a) (hne : id ≠ i) : AgentOk (P i) s i a := by
      refine (hn.agents i a ha).server h fun _ => ?_
      simp [Signal.Event.receives, hne]
    split at hdeliver
    · rename_i hnone
      obtain rfl := Option.some.inj hdeliver
      refine hother hi fun heq => ?_
      rw [heq, hi] at hnone
      cases hnone
    · rename_i b hb
      split at hdeliver
      · -- what a corrupt agent posted is no longer known
        rename_i hcorrupt
        obtain rfl := Option.some.inj hdeliver
        by_cases heq : id = i
        · subst heq
          obtain rfl := Option.some.inj (hb.symm.trans hi)
          exact (hn.agents id b hb).server h fun hintact => nomatch hintact.symm.trans hcorrupt
        · exact hother hi heq
      split at hdeliver
      · rename_i hhead
        obtain rfl := Option.some.inj hdeliver
        rcases PMap.set_eq_some _ hi with ⟨rfl, rfl⟩ | ⟨hne, hi⟩
        · refine (hn.agents i b hb).server h fun _ => ?_
          simpa [Signal.Event.receives] using List.cons_head?_tail hhead
        · exact hother hi (Ne.symm hne)
      · cases hdeliver
  · rename_i hnotRecv
    obtain rfl := Option.some.inj hdeliver
    have hnone : ev.receives = [] := by
      unfold Signal.Event.receives
      split
      · rename_i id m
        exact absurd rfl (hnotRecv id m)
      · rfl
    exact (hn.agents i a hi).server h fun _ => by rw [hnone]; rfl

/-- A step of an agent. -/
theorem NetOk.agent (hn : NetOk P n) (hP : Endpoints P n) {id : StreamId} {a a' : RelayAgent}
    {ev : AgentEvent} (ha : n.agents id = some a)
    (h : a.step (n.signal.writtenTo id) ev = some a') :
    NetOk P { n with agents := n.agents.set id a' } := by
  refine ⟨hn.authentic, hn.addressed, hn.relayed, hn.received, fun i b hb => ?_⟩
  rcases PMap.set_eq_some _ hb with ⟨rfl, rfl⟩ | ⟨_, hb⟩
  · exact (hn.agents i a ha).step (hP i a ha) (RelayAgent.step_cases h)
  · exact hn.agents i b hb

/-- Every event keeps the invariant of the net. -/
theorem NetOk.step {ev : NetEvent} (hn : NetOk P n) (hP : Endpoints P n)
    (hev : ev.Authenticated) (h : n.step ev = some n') : NetOk P n' := by
  cases ev with
  | connect id selfKey =>
    obtain ⟨s, hs, rfl⟩ := Option.map_eq_some_iff.mp h
    exact hn.connect hs
  | server ev =>
    -- the server's step, and what it takes from an outbox
    obtain ⟨s, hs, hrest⟩ := Option.bind_eq_some_iff.mp h
    obtain ⟨agents, hdeliver, rfl⟩ := Option.map_eq_some_iff.mp hrest
    exact hn.server hev hs hdeliver
  | agent id ev =>
    obtain ⟨a, ha, hrest⟩ := Option.bind_eq_some_iff.mp h
    obtain ⟨a', ha', rfl⟩ := Option.map_eq_some_iff.mp hrest
    exact hn.agent hP ha ha'

/-- What is written to an agent's stream is for the agent. -/
private theorem NetOk.addressee (hn : NetOk P n) {id : StreamId} {a : RelayAgent}
    (ha : n.agents id = some a) {x : Held} (hx : (id, x) ∈ n.signal.written) :
    x.msg.remoteKey = a.selfKey := by
  -- one stream has one verified key
  obtain ⟨hd₁, hhd₁, hkey₁⟩ := hn.addressed.written _ hx
  obtain ⟨hd₂, hhd₂, hkey₂⟩ := (hn.agents id a ha).mine
  obtain rfl := Option.some.inj (hhd₁.symm.trans hhd₂)
  exact Option.some.inj (hkey₁.symm.trans hkey₂)

/-- What is written was received from its sender. If that is an agent, the message has its key,
    and the agent has sent it unless its stream is corrupt. -/
private theorem NetOk.sender (hn : NetOk P n) {id : StreamId} {x : Held}
    (hx : (id, x) ∈ n.signal.written) {b : RelayAgent} (hb : n.agents x.src = some b) :
    b.selfKey = x.msg.key ∧ (b.corrupt = false → x.msg ∈ b.posted) := by
  obtain ⟨hreceived, hd₁, hhd₁, hkey₁⟩ := hn.authentic.written _ hx
  obtain ⟨hd₂, hhd₂, hkey₂⟩ := (hn.agents x.src b hb).mine
  obtain rfl := Option.some.inj (hhd₁.symm.trans hhd₂)
  refine ⟨Option.some.inj (hkey₂.symm.trans hkey₁), fun hintact => ?_⟩
  rw [← (hn.agents x.src b hb).posted hintact]
  refine List.mem_append_left _ (List.mem_map.mpr ⟨x, ?_, rfl⟩)
  simpa using hreceived

/-- At the start there is no agent. -/
private theorem netOk_init : NetOk P {} where
  authentic := Signal.authentic_init
  addressed := Signal.addressed_init
  relayed _ := Signal.relayOrdered_init
  received := nofun
  agents := nofun

end Net

/-- The agent on `id` had `ep` for `k` at some point of the run. -/
def HadEndpoint (es : List NetEvent) (id : StreamId) (k : String) (ep : AddrPort) : Prop :=
  ∃ n a, Visited RelayNet.step {} es n ∧ n.agents id = some a ∧ a.relay.endpts k = some ep

/-- Along every run. -/
private theorem netOk_run {es : List NetEvent} {n : RelayNet} (hauth : ∀ ev ∈ es, ev.Authenticated)
    (h : exec RelayNet.step {} es = some n) : NetOk (HadEndpoint es) n := by
  have hstep (n : RelayNet) (ev : NetEvent) (n' : RelayNet)
      (hat : Visited RelayNet.step {} es n ∧ ev.Authenticated) (hn : NetOk (HadEndpoint es) n)
      (h : n.step ev = some n') : NetOk (HadEndpoint es) n' := by
    have hP : Endpoints (HadEndpoint es) n := by
      intro id a ha k ep hep
      exact ⟨n, a, hat.1, ha, hep⟩
    exact hn.step hP hat.2 h
  have halong := (ExecAlong.visited RelayNet.step {} es).and_forall hauth
  exact (halong.throughout hstep netOk_init).last h

/-- The message behind a packet that was handed up. -/
private theorem mem_origins_handed {a : RelayAgent} {pkt : RelayPacket} {size : Nat} {x : Held}
    (hpkt : (pkt, size) ∈ a.handed) (hx : pkt.msg = some x) :
    x ∈ origins (a.handed.map (·.1)) :=
  List.mem_filterMap.mpr ⟨pkt, List.mem_map.mpr ⟨_, hpkt, rfl⟩, hx⟩

/-- The relayed messages of what was handed over were written to the stream, for this agent. -/
private theorem NetOk.handed_written {P : StreamId → String → AddrPort → Prop} {n : RelayNet}
    (hn : NetOk P n) {id : StreamId} {a : RelayAgent} (ha : n.agents id = some a) :
    (origins (a.handed.map (·.1))).Sublist (n.signal.writtenTo id) ∧
    ∀ x ∈ origins (a.handed.map (·.1)),
      x.msg.remoteKey = a.selfKey ∧ x.msg.bodyType = .relay := by
  have hok := hn.agents id a ha
  have hflow : (origins (a.handed.map (·.1))).Sublist (n.signal.writtenTo id) := by
    -- what was handed over is the first part of the pipeline
    refine List.Sublist.trans ?_ (hok.flow.trans (List.take_sublist _ _))
    exact (List.sublist_append_left _ _).trans (List.sublist_append_left _ _)
  refine ⟨hflow, fun x hx => ?_⟩
  obtain ⟨pkt, hpkt, hmsg⟩ := List.mem_filterMap.mp hx
  obtain ⟨⟨pkt, size⟩, hmem, rfl⟩ := List.mem_map.mp hpkt
  obtain ⟨data, ⟨⟨body, hbody, htype, -⟩, -⟩, -⟩ := hok.handed pkt size hmem x hmsg
  refine ⟨hn.addressee ha (Signal.mem_writtenTo.mp (hflow.subset hx)), ?_⟩
  rw [Message.bodyType, hbody]
  exact htype

/-- **A relayed packet is what it seems to be.** Whatever the relay hands to WireGuard under an
    endpoint is the relay data of a message, as far as the buffer took it; the message came from a
    stream whose verified key is that of a peer the agent had the endpoint for, and was addressed
    to this agent. If the peer is an agent, and no two of its sends overlapped, it has sent the
    message. -/
theorem relayed_packet_genuine (es : List NetEvent) (n : RelayNet)
    (hauth : ∀ ev ∈ es, ev.Authenticated) (h : exec RelayNet.step {} es = some n)
    (id : StreamId) (a : RelayAgent) (ha : n.agents id = some a) (pkt : RelayPacket) (size : Nat)
    (hpkt : (pkt, size) ∈ a.handed) (x : Held) (hx : pkt.msg = some x) :
    (∃ hd, n.signal.handlers x.src = some hd ∧ hd.authKey = some x.msg.key) ∧
    x.msg.remoteKey = a.selfKey ∧
    (∃ body, x.msg.body = some body ∧ body.type = .relay ∧ pkt.data = body.data.take size) ∧
    HadEndpoint es id x.msg.key pkt.src ∧
    ∀ b, n.agents x.src = some b →
      b.selfKey = x.msg.key ∧ (b.corrupt = false → x.msg ∈ b.posted) := by
  have hn := netOk_run hauth h
  have hok := hn.agents id a ha
  -- the invariant says what the packet carries
  obtain ⟨data, ⟨⟨body, hbody, htype, rfl⟩, hendpoint⟩, hdata⟩ := hok.handed pkt size hpkt x hx
  -- its message was written to this stream
  have hwritten : (id, x) ∈ n.signal.written :=
    Signal.mem_writtenTo.mp ((hn.handed_written ha).1.subset (mem_origins_handed hpkt hx))
  obtain ⟨-, hd, hhd, hkey⟩ := hn.authentic.written _ hwritten
  exact ⟨⟨hd, hhd, hkey⟩, hn.addressee ha hwritten, ⟨body, hbody, htype, hdata⟩, hendpoint,
    fun b hb => hn.sender hwritten hb⟩

/-! ## Order -/

/-- The packet came through the relay from the stream `src`. -/
def RelayPacket.isFrom (src : StreamId) (pkt : RelayPacket) : Bool := pkt.msg.any (·.src == src)

/-- Packets from a stream, with the messages that they came in. -/
private theorem forall₂_origins {R : RelayPacket × Nat → Held → Prop} {src : StreamId}
    (l : List (RelayPacket × Nat))
    (h : ∀ p ∈ l, ∀ x, p.1.msg = some x → x.src = src → R p x) :
    List.Forall₂ R (l.filter (·.1.isFrom src))
      ((origins (l.map (·.1))).filter (·.src == src)) := by
  induction l with
  | nil => exact .nil
  | cons p l ih =>
    have hrest := ih fun q hq => h q (List.mem_cons_of_mem _ hq)
    rw [List.map_cons, origins_cons]
    -- a packet of a direct call has no message, and falls out on both sides
    cases hmsg : p.1.msg with
    | none => simpa [RelayPacket.isFrom, hmsg] using hrest
    | some x =>
      by_cases hsrc : x.src = src
      · simpa [RelayPacket.isFrom, hmsg, hsrc] using
          ⟨h p List.mem_cons_self x hmsg hsrc, hrest⟩
      · simpa [RelayPacket.isFrom, hmsg, hsrc] using hrest

/-- **Relayed packets keep their order.** What one agent's WireGuard gets of another through the
    relay is, packet by packet, the data of a subsequence of the relay messages that the other one
    has sent to it, each as far as the buffer took it and under an endpoint that the agent had for
    the sender: nothing is reordered, repeated or made up. The sends of the other one must not
    overlap. -/
theorem relayed_in_order (es : List NetEvent) (n : RelayNet)
    (hauth : ∀ ev ∈ es, ev.Authenticated) (h : exec RelayNet.step {} es = some n)
    (id src : StreamId) (a b : RelayAgent) (ha : n.agents id = some a)
    (hb : n.agents src = some b) (hintact : b.corrupt = false) :
    ∃ sent : List Message,
      sent.Sublist
        (b.posted.filter fun m => m.remoteKey == a.selfKey && m.bodyType == .relay) ∧
      List.Forall₂ (fun p m => ∃ body, m.body = some body ∧ p.1.data = body.data.take p.2 ∧
          HadEndpoint es id b.selfKey p.1.src)
        (a.handed.filter (·.1.isFrom src)) sent := by
  have hn := netOk_run hauth h
  obtain ⟨hflow, hrelay⟩ := hn.handed_written ha
  refine ⟨((origins (a.handed.map (·.1))).filter (·.src == src)).map (·.msg), ?_, ?_⟩
  · have hfilter : (origins (a.handed.map (·.1))).filter (·.src == src) =
        ((origins (a.handed.map (·.1))).filter (·.relays src)).filter
          (·.msg.remoteKey == a.selfKey) := by
      rw [List.filter_filter]
      refine List.filter_congr fun x hx => ?_
      simp [Held.relays, hrelay x hx]
    have hrelayed : ((n.signal.writtenTo id).filter (·.relays src)).Sublist
        (n.signal.relayedBy src) :=
      (List.sublist_append_left _ _).trans (hn.relayed src id)
    have hsent : ((n.signal.relayedBy src).filter (·.msg.remoteKey == a.selfKey)).map (·.msg) =
        ((n.signal.received.reverse.filter (·.src == src)).map (·.msg)).filter
          fun m => m.remoteKey == a.selfKey && m.bodyType == .relay := by
      rw [Signal.State.relayedBy, List.filter_map, List.filter_filter, List.filter_filter]
      refine congrArg _ (List.filter_congr fun x _ => ?_)
      simp only [Held.relays, Function.comp_apply]
      cases x.src == src <;> simp
    -- the server received what the sender posted, in this order, and so far
    rw [hfilter, ← (hn.agents src b hb).posted hintact, List.filter_append]
    refine List.Sublist.trans ?_ (List.sublist_append_left _ _)
    rw [← hsent]
    exact (((hflow.filter _).trans hrelayed).filter _).map _
  · rw [List.forall₂_map_right_iff]
    refine forall₂_origins _ fun p hpkt x hx hsrc => ?_
    obtain ⟨pkt, size⟩ := p
    obtain ⟨data, ⟨⟨body, hbody, -, rfl⟩, hendpoint⟩, hdata⟩ :=
      (hn.agents id a ha).handed pkt size hpkt x hx
    have hwritten := Signal.mem_writtenTo.mp (hflow.subset (mem_origins_handed hpkt hx))
    rw [(hn.sender hwritten (hsrc ▸ hb)).1]
    exact ⟨body, hbody, hdata, hendpoint⟩

/-! ## Nothing is lost -/

/-- The message is relay data of the peer `k`. -/
def relayOf (k : String) (x : Held) : Bool := x.msg.key == k && x.msg.bodyType == .relay

/-- The bind was closed while the callback waits for it. -/
def Dispatch.interrupted (closed : List Nat) : Dispatch → Bool
  | .injecting _ done => closed.contains done
  | _ => false

/-- The agent has an endpoint for `k`, and the bind takes what the callback has. -/
def RelayAgent.Listening (k : String) (a : RelayAgent) : Prop :=
  (a.relay.endpts k).isSome = true ∧ a.dispatch.interrupted a.bind.closed = false

instance (k : String) : DecidablePred (RelayAgent.Listening k) :=
  fun _ => inferInstanceAs (Decidable (_ ∧ _))

section Lossless

variable {k : String} {a a' : RelayAgent} {inbox : List Held}

/-- The callback does not drop the message of a peer that is known. -/
private theorem filter_callback (hk : (a.relay.endpts k).isSome = true) (x : Held) :
    (a.callback x).inHand.filter (relayOf k) = [x].filter (relayOf k) := by
  by_cases hx : relayOf k x = true
  · obtain ⟨hkey, htype⟩ := Bool.and_eq_true_iff.mp hx
    obtain ⟨ep, hep⟩ := Option.isSome_iff_exists.mp hk
    rw [← beq_iff_eq.mp hkey] at hep
    have htype := beq_iff_eq.mp htype
    unfold Message.bodyType at htype
    -- a relay message has a body
    split at htype
    · rename_i body hbody
      simp only [RelayAgent.callback, hbody, htype, hep, if_true, Dispatch.inHand,
        Option.toList_some]
    · cases htype
  · -- another message is not counted on either side
    have hnone : [x].filter (relayOf k) = [] := by simp [hx]
    rw [hnone]
    rcases callback_cases a x with heq | ⟨body, ep, -, -, -, heq⟩ <;> rw [heq]
    · rfl
    · exact hnone

/-- One step of an agent that listens: the pipeline grows by what `Recv` returns. -/
private theorem pipeline_grows
    (hcalls : ∀ c pkt done, a.calls c = some (pkt, done) → pkt.msg = none)
    (hlisten : a.Listening k) (h : a.Step inbox a') :
    ∃ got, inbox.take a'.taken = inbox.take a.taken ++ got ∧
      a'.pipeline.filter (relayOf k) = a.pipeline.filter (relayOf k) ++ got.filter (relayOf k) := by
  have hsame {b : RelayAgent} (htaken : b.taken = a.taken)
      (hpipe : b.pipeline.filter (relayOf k) = a.pipeline.filter (relayOf k)) :
      ∃ got, inbox.take b.taken = inbox.take a.taken ++ got ∧
        b.pipeline.filter (relayOf k) =
          a.pipeline.filter (relayOf k) ++ got.filter (relayOf k) := by
    refine ⟨[], ?_, ?_⟩
    · rw [htaken, List.append_nil]
    · rw [hpipe, List.filter_nil, List.append_nil]
  cases h with
  | recv x hd hx =>
    refine ⟨[x], ?_, ?_⟩
    · rw [List.take_add_one, hx, Option.toList_some]
    · simp [RelayAgent.pipeline, hd, Dispatch.inHand]
  | callback x hd =>
    refine hsame rfl ?_
    simp only [RelayAgent.pipeline, List.filter_append, hd, filter_callback hlisten.1]
    rfl
  | put pkt done hd =>
    refine hsame rfl ?_
    simp [RelayAgent.pipeline, hd, origins_append, origins_singleton, Dispatch.inHand]
  -- a bind that was not closed does not make the dispatcher give up
  | giveUp pkt done hd hclosed =>
    have hopen := hlisten.2
    rw [hd] at hopen
    simp [Dispatch.interrupted, hclosed] at hopen
  | putCall c pkt done hc =>
    refine hsame rfl ?_
    simp [RelayAgent.pipeline, origins_append, origins_singleton, hcalls c pkt done hc]
  | take pkt rest size hch =>
    refine hsame rfl ?_
    rw [RelayAgent.pipeline, RelayAgent.pipeline, hch, origins_cons]
    simp [origins_append, origins_singleton]
  | control relay bind hch =>
    refine hsame rfl ?_
    simp only [RelayAgent.pipeline, hch]
  | post remoteKey body => exact hsame rfl rfl
  | sent sending => exact hsame rfl rfl
  | inject c data ep => exact hsame rfl rfl
  | giveUpCall c => exact hsame rfl rfl

/-- Since `n₀`, where the agent on `id` was `a₀`, its pipeline has grown by what `Recv` has
    returned. -/
def GrownFrom (n₀ : RelayNet) (a₀ : RelayAgent) (k : String) (id : StreamId) (n : RelayNet) :
    Prop :=
  ∃ a since, n.agents id = some a ∧
    (n.signal.writtenTo id).take a.taken = (n₀.signal.writtenTo id).take a₀.taken ++ since ∧
    a.pipeline.filter (relayOf k) =
      a₀.pipeline.filter (relayOf k) ++ since.filter (relayOf k)

variable {n₀ n n' : RelayNet} {a₀ : RelayAgent} {id : StreamId}
  {P : StreamId → String → AddrPort → Prop}

/-- A step of the server, after which the agent is the same but for its outbox. -/
theorem GrownFrom.server (hg : GrownFrom n₀ a₀ k id n) (hn : NetOk P n) {s : Signal.State}
    {ev : Signal.Event} (h : Signal.step n.signal ev = some s)
    {agents : PMap StreamId RelayAgent}
    (hagents : ∀ a, n.agents id = some a → ∃ outbox, agents id = some { a with outbox }) :
    GrownFrom n₀ a₀ k id { signal := s, agents } := by
  obtain ⟨a, since, ha, hsince, hpipe⟩ := hg
  obtain ⟨outbox, hout⟩ := hagents a ha
  obtain ⟨more, hmore⟩ := Signal.step_writtenTo h id
  refine ⟨_, since, hout, ?_, hpipe⟩
  rw [hmore, List.take_append_of_le_length (hn.agents id a ha).taken]
  exact hsince

/-- The server takes messages from an agent's stream and changes nothing else of it. -/
private theorem deliver_agent {ev : Signal.Event} {agents : PMap StreamId RelayAgent}
    (h : n.deliver ev = some agents) {a : RelayAgent} (ha : n.agents id = some a) :
    ∃ outbox, agents id = some { a with outbox } := by
  unfold RelayNet.deliver at h
  split at h
  · rename_i i m
    split at h
    · obtain rfl := Option.some.inj h
      exact ⟨a.outbox, ha⟩
    · rename_i b hb
      split at h
      · obtain rfl := Option.some.inj h
        exact ⟨a.outbox, ha⟩
      split at h
      · obtain rfl := Option.some.inj h
        -- the stream whose outbox was read, or another
        by_cases heq : id = i
        · subst heq
          obtain rfl := Option.some.inj (ha.symm.trans hb)
          exact ⟨_, PMap.set_self _ _ _⟩
        · exact ⟨a.outbox, (PMap.set_ne _ _ heq).trans ha⟩
      · cases h
  · -- no other event of the server receives
    obtain rfl := Option.some.inj h
    exact ⟨a.outbox, ha⟩

/-- Every event adds what is received to the pipeline, while the agent listens. -/
theorem GrownFrom.step {ev : NetEvent} (hg : GrownFrom n₀ a₀ k id n) (hn : NetOk P n)
    (hlisten : ∀ a ∈ n.agents id, a.Listening k) (h : n.step ev = some n') :
    GrownFrom n₀ a₀ k id n' := by
  cases ev with
  | connect i selfKey =>
    obtain ⟨s, hs, rfl⟩ := Option.map_eq_some_iff.mp h
    refine hg.server hn hs fun a ha => ⟨a.outbox, ?_⟩
    -- the stream of the agent is open already
    have hne : id ≠ i := by
      rintro rfl
      obtain ⟨hd, hhd, -⟩ := (hn.agents id a ha).mine
      exact nomatch hhd.symm.trans (Signal.step_open_fresh hs)
    exact (PMap.set_ne _ _ hne).trans ha
  | server ev =>
    obtain ⟨s, hs, hrest⟩ := Option.bind_eq_some_iff.mp h
    obtain ⟨agents, hdeliver, rfl⟩ := Option.map_eq_some_iff.mp hrest
    exact hg.server hn hs fun a ha => deliver_agent hdeliver ha
  | agent i ev =>
    obtain ⟨b, hb, hrest⟩ := Option.bind_eq_some_iff.mp h
    obtain ⟨b', hb', rfl⟩ := Option.map_eq_some_iff.mp hrest
    obtain ⟨a, since, ha, hsince, hpipe⟩ := hg
    by_cases heq : id = i
    · subst heq
      obtain rfl := Option.some.inj (ha.symm.trans hb)
      obtain ⟨got, htake, hgrow⟩ := pipeline_grows (hn.agents id a ha).calls (hlisten a ha)
        (RelayAgent.step_cases hb')
      refine ⟨b', since ++ got, PMap.set_self _ _ _, ?_, ?_⟩
      · rw [← List.append_assoc, ← hsince]
        exact htake
      · rw [hgrow, hpipe, List.filter_append, List.append_assoc]
    · exact ⟨a, since, (PMap.set_ne _ _ heq).trans ha, hsince, hpipe⟩

end Lossless

/-- **The agent loses nothing.** As long as an agent knows the peer and no `Close` interrupts its
    callback, the relay data of the peer that `Recv` returns goes to WireGuard, or is on the way
    there, exactly once and in order. Each packet on the way has the data of its message, and each
    one in a buffer as much of it as the buffer takes, under an endpoint that the agent had for the
    sender. -/
theorem relayed_none_lost (before evs : List NetEvent) (n₁ n₂ : RelayNet)
    (hauth : ∀ ev ∈ before ++ evs, ev.Authenticated)
    (h₁ : exec RelayNet.step {} before = some n₁) (h₂ : exec RelayNet.step n₁ evs = some n₂)
    (id : StreamId) (k : String) (a₁ a₂ : RelayAgent) (ha₁ : n₁.agents id = some a₁)
    (ha₂ : n₂.agents id = some a₂)
    (hlisten : Throughout RelayNet.step (fun n => ∀ a ∈ n.agents id, a.Listening k) n₁ evs) :
    (∃ since,
      (n₂.signal.writtenTo id).take a₂.taken = (n₁.signal.writtenTo id).take a₁.taken ++ since ∧
      a₂.pipeline.filter (relayOf k) =
        a₁.pipeline.filter (relayOf k) ++ since.filter (relayOf k)) ∧
    (∀ pkt ∈ a₂.waiting, ∀ x, pkt.msg = some x →
      Carries (HadEndpoint (before ++ evs) id) pkt.data pkt.src x.msg) ∧
    ∀ pkt size, (pkt, size) ∈ a₂.handed → ∀ x, pkt.msg = some x →
      ∃ data, Carries (HadEndpoint (before ++ evs) id) data pkt.src x.msg ∧
        pkt.data = data.take size := by
  have hrun : exec RelayNet.step {} (before ++ evs) = some n₂ := by
    rw [exec_append, h₁]
    exact h₂
  have hok := (netOk_run hauth hrun).agents id a₂ ha₂
  refine ⟨?_, hok.waiting, hok.handed⟩
  -- the endpoints do not matter here, so the invariant is taken without them
  have hn₁ : NetOk (fun _ _ _ => True) n₁ :=
    exec_invariant (fun _ _ _ hev hn h => hn.step (fun _ _ _ _ _ _ => trivial) hev h)
      (fun ev hev => hauth ev (List.mem_append_left _ hev)) netOk_init h₁
  have hstep (n : RelayNet) (ev : NetEvent) (n' : RelayNet)
      (hat : (∀ a ∈ n.agents id, a.Listening k) ∧ ev.Authenticated)
      (hn : NetOk (fun _ _ _ => True) n ∧ GrownFrom n₁ a₁ k id n) (h : n.step ev = some n') :
      NetOk (fun _ _ _ => True) n' ∧ GrownFrom n₁ a₁ k id n' :=
    ⟨hn.1.step (fun _ _ _ _ _ _ => trivial) hat.2 h, hn.2.step hn.1 hat.1 h⟩
  have hstart : GrownFrom n₁ a₁ k id n₁ :=
    ⟨a₁, [], ha₁, (List.append_nil _).symm, (List.append_nil _).symm⟩
  -- the agent listens before every event, and every event is authenticated
  have halong := hlisten.execAlong.and_forall
    fun ev hev => hauth ev (List.mem_append_right _ hev)
  obtain ⟨-, a, since, ha, hsince, hpipe⟩ := (halong.throughout hstep ⟨hn₁, hstart⟩).last h₂
  obtain rfl := Option.some.inj (ha.symm.trans ha₂)
  exact ⟨since, hsince, hpipe⟩

/-! ## A packet from `A` to `B` -/

/-- The endpoint under which both agents know the other one. -/
def pairEndpoint : AddrPort := Engine.relayEndpoint 1

/-- The tables of an agent with one peer. -/
def pairTables (peer : String) : Relay where
  counter := 1
  conns := PMap.empty.set peer 1
  endpts := PMap.empty.set peer pairEndpoint
  links := PMap.empty.set peer 1
  bind := PMap.empty.set pairEndpoint 1

/-- The registration of an agent as a message. -/
def registration (selfKey : String) : Message := { key := selfKey, body := some { type := .mode } }

/-- The agents `A` and `B` connect, register and learn of each other. -/
def pairSetup : List NetEvent :=
  [.connect 1 "A", .connect 2 "B", .agent 1 .register, .agent 1 (.sent (registration "A")),
    .agent 2 .register, .agent 2 (.sent (registration "B")),
    .server (.act 1 (.recv (registration "A"))), .server (.act 1 .register),
    .server (.act 2 (.recv (registration "B"))), .server (.act 2 .register),
    .agent 1 (.tables (pairTables "B")), .agent 2 (.tables (pairTables "A"))]

/-- The packet as a message. -/
def pairMessage : Message :=
  { key := "A", remoteKey := "B", body := some { type := .relay, data := [1, 2, 3] } }

/-- WireGuard of `A` sends a packet to `B`. -/
def pairRun : List NetEvent :=
  [.agent 1 (.send pairEndpoint "B" [1, 2, 3]), .server (.act 1 (.recv pairMessage)),
    .agent 1 (.sent pairMessage), .server (.act 1 .lookup), .server (.act 1 (.forward true)),
    .agent 2 .recv, .agent 2 .callback, .agent 2 .put, .agent 2 (.take 1500)]

/-- What WireGuard of `B` is given. -/
def pairPacket : RelayPacket := ⟨[1, 2, 3], pairEndpoint, some ⟨1, pairMessage⟩⟩

private theorem pairRun_authenticated : ∀ ev ∈ pairSetup ++ pairRun, ev.Authenticated := by
  simp [pairSetup, pairRun, NetEvent.Authenticated, Signal.Event.Authenticated]

/-- The agents in the end, and what `B` has handed over. -/
private theorem pairRun_handed : ∃ n a b, exec RelayNet.step {} (pairSetup ++ pairRun) = some n ∧
    n.agents 1 = some a ∧ n.agents 2 = some b ∧ a.selfKey = "A" ∧ a.corrupt = false ∧
    b.selfKey = "B" ∧ b.handed = [(pairPacket, 1500)] := by
  -- the run, down to what the statement asks
  have hend : ((exec RelayNet.step {} (pairSetup ++ pairRun)).map fun n =>
      ((n.agents 1).map fun a => (a.selfKey, a.corrupt),
        (n.agents 2).map fun b => (b.selfKey, b.handed))) =
      some (some ("A", false), some ("B", [(pairPacket, 1500)])) := by
    decide +kernel
  obtain ⟨n, hn, hends⟩ := Option.map_eq_some_iff.mp hend
  obtain ⟨hone, htwo⟩ := Prod.mk.inj hends
  obtain ⟨a, ha, hafter⟩ := Option.map_eq_some_iff.mp hone
  obtain ⟨hself, hintact⟩ := Prod.mk.inj hafter
  obtain ⟨b, hb, hkey⟩ := Option.map_eq_some_iff.mp htwo
  obtain ⟨hkey, hhanded⟩ := Prod.mk.inj hkey
  exact ⟨n, a, b, hn, ha, hb, hself, hintact, hkey, hhanded⟩

/-- The packet comes from `A`, which has sent it, and was meant for `B`, which had the endpoint
    for `A`. -/
theorem pairRun_genuine : ∃ n a b, exec RelayNet.step {} (pairSetup ++ pairRun) = some n ∧
    n.agents 1 = some a ∧ a.corrupt = false ∧ pairMessage ∈ a.posted ∧
    n.agents 2 = some b ∧ (pairPacket, 1500) ∈ b.handed ∧ pairMessage.remoteKey = b.selfKey ∧
    HadEndpoint (pairSetup ++ pairRun) 2 "A" pairPacket.src := by
  obtain ⟨n, a, b, hn, ha, hb, -, hintact, -, hhanded⟩ := pairRun_handed
  have hmem : (pairPacket, 1500) ∈ b.handed := hhanded ▸ List.mem_singleton.mpr rfl
  have hgenuine := relayed_packet_genuine _ n pairRun_authenticated hn 2 b hb pairPacket 1500
    hmem ⟨1, pairMessage⟩ rfl
  obtain ⟨-, hmine, -, hendpoint, hsender⟩ := hgenuine
  exact ⟨n, a, b, hn, ha, hintact, (hsender a ha).2 hintact, hb, hmem, hmine, hendpoint⟩

/-- `A` has sent the data of the packet. -/
theorem pairRun_in_order : ∃ n a, exec RelayNet.step {} (pairSetup ++ pairRun) = some n ∧
    n.agents 1 = some a ∧ a.corrupt = false ∧ ∃ m body,
      [m].Sublist (a.posted.filter fun m => m.remoteKey == "B" && m.bodyType == .relay) ∧
      m.body = some body ∧ [1, 2, 3] = body.data.take 1500 ∧
      HadEndpoint (pairSetup ++ pairRun) 2 "A" pairEndpoint := by
  obtain ⟨n, a, b, hn, ha, hb, hself, hintact, hkey, hhanded⟩ := pairRun_handed
  obtain ⟨sent, hsent, hdata⟩ :=
    relayed_in_order _ n pairRun_authenticated hn 2 1 b a hb ha hintact
  have hfrom : b.handed.filter (·.1.isFrom 1) = [(pairPacket, 1500)] := by
    rw [hhanded]
    rfl
  rw [hfrom, hself] at hdata
  rw [hkey] at hsent
  -- one packet was handed up, so one message was sent
  cases hdata with
  | cons hfirst hrest =>
    cases hrest
    obtain ⟨body, hbody, hcopied, hendpoint⟩ := hfirst
    exact ⟨n, a, hn, ha, hintact, _, body, hsent, hbody, hcopied, hendpoint⟩

/-- A signal of ICE while the registration has not returned corrupts the stream. -/
example : ((exec RelayNet.step {} [.connect 1 "A", .agent 1 .register,
    .agent 1 (.signal "B" { type := .offer })]).bind (·.agents 1)).map (·.corrupt) = some true := by
  decide +kernel

/-- `B` listens to `A` all the while, its pipeline grows by what comes in, and the packet in the
    buffer carries it. -/
theorem pairRun_none_lost : ∃ n₁ n₂ b₁ b₂, ∃ since : List Held,
    exec RelayNet.step {} pairSetup = some n₁ ∧ exec RelayNet.step n₁ pairRun = some n₂ ∧
    n₁.agents 2 = some b₁ ∧ n₂.agents 2 = some b₂ ∧
    (n₂.signal.writtenTo 2).take b₂.taken = (n₁.signal.writtenTo 2).take b₁.taken ++ since ∧
    b₂.pipeline.filter (relayOf "A") =
      b₁.pipeline.filter (relayOf "A") ++ since.filter (relayOf "A") ∧
    (pairPacket, 1500) ∈ b₂.handed ∧
    ∃ data, Carries (HadEndpoint (pairSetup ++ pairRun) 2) data pairEndpoint pairMessage ∧
      [1, 2, 3] = data.take 1500 := by
  obtain ⟨n₂, a₂, b₂, hn₂, -, hb₂, -, -, -, hhanded⟩ := pairRun_handed
  rw [exec_append] at hn₂
  obtain ⟨n₁, hn₁, hrun⟩ := Option.bind_eq_some_iff.mp hn₂
  -- `B` is there after the set-up and listens from then on
  have hlisten : ∀ n ∈ exec RelayNet.step {} pairSetup, (n.agents 2).isSome = true ∧
      Throughout RelayNet.step (fun n => ∀ b ∈ n.agents 2, b.Listening "A") n pairRun := by
    decide +kernel
  have hmem : (pairPacket, 1500) ∈ b₂.handed := hhanded ▸ List.mem_singleton.mpr rfl
  obtain ⟨b₁, hb₁⟩ := Option.isSome_iff_exists.mp (hlisten n₁ hn₁).1
  obtain ⟨⟨since, hsince, hpipe⟩, -, hdata⟩ := relayed_none_lost pairSetup pairRun n₁ n₂
    pairRun_authenticated hn₁ hrun 2 "A" b₁ b₂ hb₁ hb₂ (hlisten n₁ hn₁).2
  exact ⟨n₁, n₂, b₁, b₂, since, hn₁, hrun, hb₁, hb₂, hsince, hpipe, hmem,
    hdata pairPacket 1500 hmem ⟨1, pairMessage⟩ rfl⟩

end Blinex.Native
