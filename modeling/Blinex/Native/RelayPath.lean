import Blinex.Native.Engine
import Blinex.Native.SignalServer

/-!
# The relay path

`client/internal/wgmgr/bind.go`, `client/internal/relay/conn.go`,
`client/internal/signalclient/client.go` and the callback of `Engine.Run`: how a packet of
WireGuard gets from one agent to another through the signal server.

A stream of gRPC keeps what is sent on it in order, provided that one goroutine at a time is in
`stream.Send`; two at once corrupt it. The server has a lock for that (`peerStream.mu`), the client
has none, though the goroutines of WireGuard, of ICE and of the registration all send. So a
corrupted stream is a state that an agent can get into, and from then on the server may receive
anything on it.

What the agents do is cut where other goroutines get in. The tables of the engine may change at
any time in any way, as a sync is at work on them.
-/

namespace Blinex.Native

open Signalv1 (Message Body)
open Signal (StreamId Held)

/-! ## bind.go -/

/-- The capacity of `relayCh`. -/
def relayChSize : Nat := 512

/-- `relayPacket`; `msg` is history: the relayed message that it came in, none for a packet from
    a direct path. -/
structure RelayPacket where
  data : List UInt8
  src : AddrPort
  msg : Option Held := none
deriving DecidableEq

/-- `RelayBind`, its endpoints aside. Done channels are numbered in the order in which `Open`
    makes them; `once` says that `Close` was called since. -/
structure RelayBind where
  relayCh : List RelayPacket := []
  doneCh : Nat := 0
  closed : List Nat := []
  once : Bool := false

namespace RelayBind

/-- The first case of the `select` in `ReceiveFromRelay`, unless the channel is full. -/
def put (b : RelayBind) (pkt : RelayPacket) : Option RelayBind :=
  if b.relayCh.length < relayChSize then some { b with relayCh := b.relayCh ++ [pkt] } else none

/-- The second case of the `select` in `receiveRelayed`. -/
def take (b : RelayBind) : Option (RelayPacket × RelayBind) :=
  match b.relayCh with
  | [] => none
  | pkt :: rest => some (pkt, { b with relayCh := rest })

/-- `Open`. -/
def «open» (b : RelayBind) : RelayBind := { b with doneCh := b.doneCh + 1, once := false }

/-- `Close`. -/
def close (b : RelayBind) : RelayBind :=
  if b.once then b else { b with closed := b.doneCh :: b.closed, once := true }

end RelayBind

/-! ## An agent -/

/-- Where the goroutine is that reads the signal stream. -/
inductive Dispatch where
  /-- In `stream.Recv`. -/
  | receiving
  /-- In the callback, before it takes the lock. -/
  | received (x : Held)
  /-- In `ReceiveFromRelay`, with the done channel that it selects on. -/
  | injecting (pkt : RelayPacket) (done : Nat)
deriving DecidableEq

/-- An agent with its signal stream. `outbox` is on the way to the server, `sending` are the
    messages whose `stream.Send` has not returned, and the stream is `corrupt` if there were two
    at once. `taken` counts what `Recv` has returned, and `calls` are the read loops of direct
    paths in `ReceiveFromRelay`. `posted` and `handed` are history: what was sent on the stream,
    and what WireGuard was given, with the sizes of its buffers. -/
structure RelayAgent where
  selfKey : String
  relay : Relay := {}
  outbox : List Message := []
  sending : List Message := []
  corrupt : Bool := false
  taken : Nat := 0
  dispatch : Dispatch := .receiving
  calls : PMap Nat (RelayPacket × Nat) := PMap.empty
  bind : RelayBind := {}
  posted : List Message := []
  handed : List (RelayPacket × Nat) := []

/-- What the goroutines of an agent do next. -/
inductive AgentEvent where
  /-- `Connect` registers. -/
  | register
  /-- ICE signals. -/
  | signal (remoteKey : String) (body : Body)
  /-- WireGuard sends to `ep`, where the link of `k` is bound, and the link leaves it to its relay
      connection. -/
  | send (ep : AddrPort) (k : String) (data : List UInt8)
  /-- The `stream.Send` of one of these three returns. -/
  | sent (m : Message)
  /-- `Recv` returns. -/
  | recv
  /-- The callback decides what to do with the message. -/
  | callback
  /-- The goroutine of the callback puts its packet into the channel, -/
  | put
  /-- or sees that the bind was closed. -/
  | giveUp
  /-- The read loop of a direct path calls `ReceiveFromRelay`. -/
  | inject (c : Nat) (data : List UInt8) (ep : AddrPort)
  | putCall (c : Nat)
  | giveUpCall (c : Nat)
  /-- `receiveRelayed` copies a packet into a buffer of this size. -/
  | take (size : Nat)
  | open
  | close
  | tables (relay : Relay)

namespace RelayAgent

/-- `Client.Send` on a connected stream calls `stream.Send`, without a lock. From now on the
    message may arrive. -/
def post (a : RelayAgent) (remoteKey : String) (body : Body) : RelayAgent :=
  let m : Message := { key := a.selfKey, remoteKey, body := some body }
  { a with
    outbox := a.outbox ++ [m]
    sending := m :: a.sending
    corrupt := a.corrupt || !a.sending.isEmpty
    posted := a.posted ++ [m] }

/-- The callback of `Engine.Run`, up to the call of `ReceiveFromRelay`. -/
def callback (a : RelayAgent) (x : Held) : Dispatch :=
  match x.msg.body with
  | some body =>
    if body.type = .relay then
      match a.relay.endpts x.msg.key with
      | some ep => .injecting { data := body.data, src := ep, msg := some x } a.bind.doneCh
      | none => .receiving  -- dropped, with a line in the log
    else .receiving  -- left to ICE
  | none => .receiving

/-- One step of an agent; `inbox` is what the server has written to its stream. -/
def step (a : RelayAgent) (inbox : List Held) : AgentEvent → Option RelayAgent
  | .register => some (a.post "" { type := .mode })
  | .signal remoteKey body => if body.type = .relay then none else some (a.post remoteKey body)
  | .send ep k data =>
    -- the link of the peer writes to its relay connection, which signals to the peer
    if (a.relay.bind ep).isSome ∧ a.relay.bind ep = a.relay.links k then
      some (a.post k { type := .relay, data })
    else none
  | .sent m => if m ∈ a.sending then some { a with sending := a.sending.erase m } else none
  | .recv =>
    match a.dispatch, inbox[a.taken]? with
    | .receiving, some x => some { a with dispatch := .received x, taken := a.taken + 1 }
    | _, _ => none
  | .callback =>
    match a.dispatch with
    | .received x => some { a with dispatch := a.callback x }
    | _ => none
  | .put =>
    match a.dispatch with
    | .injecting pkt _ => (a.bind.put pkt).map ({ a with dispatch := .receiving, bind := · })
    | _ => none
  | .giveUp =>
    match a.dispatch with
    | .injecting _ done =>
      if done ∈ a.bind.closed then some { a with dispatch := .receiving } else none
    | _ => none
  | .inject c data ep =>
    match a.calls c with
    | none => some { a with calls := a.calls.set c ({ data, src := ep }, a.bind.doneCh) }
    | some _ => none
  | .putCall c =>
    match a.calls c with
    | some (pkt, _) => (a.bind.put pkt).map ({ a with calls := a.calls.delete c, bind := · })
    | none => none
  -- a call that waits for the channel ends when its generation of the bind was closed
  | .giveUpCall c =>
    match a.calls c with
    | some (_, done) =>
      if done ∈ a.bind.closed then some { a with calls := a.calls.delete c } else none
    | none => none
  | .take size =>
    -- what does not fit into the buffer is cut off
    a.bind.take.map fun (pkt, bind) =>
      { a with bind, handed := a.handed ++ [({ pkt with data := pkt.data.take size }, size)] }
  | .open => some { a with bind := a.bind.open }
  | .close => some { a with bind := a.bind.close }
  | .tables relay => some { a with relay }

end RelayAgent

/-! ## The server and its clients -/

/-- The signal server, and the agents on its streams; other streams are any clients'. -/
structure RelayNet where
  signal : Signal.State := {}
  agents : PMap StreamId RelayAgent := PMap.empty

/-- An agent connects with the token that `Login` gave it for its key, the server takes a step, or
    an agent does. -/
inductive NetEvent where
  | connect (id : StreamId) (selfKey : String)
  | server (ev : Signal.Event)
  | agent (id : StreamId) (ev : AgentEvent)

namespace RelayNet

/-- What the server receives on the stream of an agent is what the agent sent, unless the stream
    is corrupt. -/
def deliver (n : RelayNet) : Signal.Event → Option (PMap StreamId RelayAgent)
  | .act id (.recv m) =>
    match n.agents id with
    | none => some n.agents
    | some a =>
      if a.corrupt then some n.agents
      else if a.outbox.head? = some m then
        some (n.agents.set id { a with outbox := a.outbox.tail })
      else none
  | _ => some n.agents

/-- One step of the network. -/
def step (n : RelayNet) : NetEvent → Option RelayNet
  | .connect id selfKey =>
    (Signal.step n.signal (.open id (some selfKey))).map fun signal =>
      { signal, agents := n.agents.set id { selfKey } }
  | .server ev =>
    (Signal.step n.signal ev).bind fun signal =>
      (n.deliver ev).map fun agents => { signal, agents }
  | .agent id ev =>
    (n.agents id).bind fun a =>
      (a.step ((n.signal.written.reverse.filter (·.1 == id)).map (·.2)) ev).map fun a =>
        { n with agents := n.agents.set id a }

end RelayNet

end Blinex.Native
