import Blinex.ForStd.Semaphore
import Blinex.Native.EchoForward

/-!
# `client/internal/wgmgr/nsrouter.go`: forwards at work

The netstack calls the forwarders from many goroutines, and a sync replaces subnets and rules
under them. A forwarder is a program over what it shares with the others: the two lists, each
read under the lock, the two semaphores, and the host's sockets. The goroutine that a forwarder
starts is the end of its program.
-/

namespace Blinex.Native

open Blinex.Go

/-- `maxConcurrentForwards`. -/
def maxConcurrentForwards : Nat := 1024

/-- `maxConcurrentICMP`. -/
def maxConcurrentICMP : Nat := 64

/-- What a forward is for; the source is missing if it does not parse. -/
structure ForwardFlow where
  src : Option Addr
  dst : Addr
  proto : String
  port : BitVec 16
deriving DecidableEq

/-- What the forwarders share: of a channel that serves as a semaphore, the number of its
    elements. -/
structure Router where
  subnets : List Prefix := []
  aclRules : List Commonv1.Rule := []
  sem : Nat := 0
  icmpSem : Nat := 0

/-- The operations of the forwarders and of a sync. `complete` answers the netstack's request,
    with a reset or not. -/
inductive RouterOp where
  | subnets
  | aclRules
  | setSubnets (subnets : List Prefix)
  | setACLRules (rules : List Commonv1.Rule)
  | acquire
  | release
  | acquireICMP
  | releaseICMP
  | complete (reset : Bool)
  | dial (flow : ForwardFlow) (addr : Addr)
  | pipeConns
  | ping (flow : ForwardFlow) (sent : List (List UInt8))
  | inject (packet : List UInt8)

namespace RouterOp

/-- What an operation returns. -/
@[reducible] def Res : RouterOp → Type
  | subnets => List Prefix
  | aclRules => List Commonv1.Rule
  | acquire | acquireICMP => Bool
  | _ => Unit

instance : ∀ o : RouterOp, Nonempty o.Res
  | subnets => ⟨([] : List Prefix)⟩
  | aclRules => ⟨([] : List Commonv1.Rule)⟩
  | acquire | acquireICMP => ⟨true⟩
  | setSubnets _ | setACLRules _ | release | releaseICMP | complete _ | dial _ _ | pipeConns
  | ping _ _ | inject _ => ⟨()⟩

/-- What the operations do. A send on a full channel takes the `default` of its `select`. -/
def exec : (o : RouterOp) → Router → o.Res × Router
  | subnets, n => (n.subnets, n)
  | aclRules, n => (n.aclRules, n)
  | setSubnets list, n => ((), { n with subnets := list })
  | setACLRules rules, n => ((), { n with aclRules := rules })
  -- a full semaphore is not waited for
  | acquire, n =>
    if n.sem < maxConcurrentForwards then (true, { n with sem := n.sem + 1 }) else (false, n)
  | release, n => ((), { n with sem := n.sem - 1 })
  | acquireICMP, n =>
    if n.icmpSem < maxConcurrentICMP then (true, { n with icmpSem := n.icmpSem + 1 })
    else (false, n)
  | releaseICMP, n => ((), { n with icmpSem := n.icmpSem - 1 })
  -- these four act outside of the router
  | complete _, n => ((), n)
  | dial _ _, n => ((), n)
  | pipeConns, n => ((), n)
  | ping _ _, n => ((), n)
  | inject _, n => ((), n)

end RouterOp

/-- A program of the router. -/
abbrev RouterProg := Prog RouterOp.Res

/-- `ForwarderRequest`, and what becomes of it: whether `CreateEndpoint` and the host's dial
    succeed. -/
structure ForwarderRequest where
  localAddress : List UInt8
  remoteAddress : List UInt8
  localPort : BitVec 16
  endpoint : Bool := true
  dialled : Bool := true

namespace ForwardTask

/-- `shouldForward` with the subnets it finds. -/
def shouldForward (localAddr dst : Addr) : RouterProg Bool :=
  .op .subnets fun subnets => .ret (RoutingNet.shouldForward { localAddr, subnets } dst)

/-- The gate of `handleTCP`: a service of the host needs no subnet. -/
def gateTCP (localAddr dst : Addr) : RouterProg Bool :=
  if dst == localAddr then .ret true else shouldForward localAddr dst

/-- The check of the policy, with the rules it finds. -/
def aclDenies (flow : ForwardFlow) : RouterProg Bool :=
  match flow.src with
  | none => .ret false
  | some src =>
    .op .aclRules fun rules => .ret (!aclAllows rules src flow.dst flow.proto flow.port)

/-- The goroutine of a forward. -/
def proxy (flow : ForwardFlow) (addr : Addr) (dialled : Bool) : RouterProg Unit :=
  .op (.dial flow addr) fun _ =>
    if dialled then .op .pipeConns fun _ => .op .release fun _ => .ret ()
    else .op .release fun _ => .ret ()

/-- `req.Complete(true)`, and the end. -/
def reset : RouterProg Unit := .op (.complete true) fun _ => .ret ()

/-- `handleTCP` behind its checks. -/
def slotTCP (flow : ForwardFlow) (addr : Addr) (req : ForwarderRequest) : RouterProg Unit :=
  .op .acquire fun got =>
    if !got then reset
    else if !req.endpoint then .op .release fun _ => reset
    else .op (.complete false) fun _ => proxy flow addr req.dialled

/-- `handleTCP`. -/
def handleTCP (localAddr : Addr) (req : ForwarderRequest) : RouterProg Unit :=
  match addrFromSlice req.localAddress with
  | none => reset
  | some dst => do
    let flow : ForwardFlow := ⟨addrFromSlice req.remoteAddress, dst, "tcp", req.localPort⟩
    let forwards ← gateTCP localAddr dst
    if !forwards then reset
    else
      let denied ← aclDenies flow
      if denied then reset
      else slotTCP flow (if dst == localAddr then addrFrom4 127 0 0 1 else dst) req

/-- `handleUDP` behind its checks. -/
def slotUDP (flow : ForwardFlow) (addr : Addr) (req : ForwarderRequest) : RouterProg Unit :=
  .op .acquire fun got =>
    if !got then .ret ()
    else if !req.endpoint then .op .release fun _ => .ret ()
    else proxy flow addr req.dialled

/-- `handleUDP`. -/
def handleUDP (localAddr : Addr) (req : ForwarderRequest) : RouterProg Unit :=
  match addrFromSlice req.localAddress with
  | none => .ret ()
  | some dst => do
    let flow : ForwardFlow := ⟨addrFromSlice req.remoteAddress, dst, "udp", req.localPort⟩
    let forwards ← shouldForward localAddr dst
    if !forwards then .ret ()
    else
      let denied ← aclDenies flow
      if denied then .ret () else slotUDP flow dst req

/-- `forwardICMPv4`: `out` is what it sends and the packet that it injects. -/
def forwardICMPv4 (flow : ForwardFlow) (out : List (List UInt8) × Option (List UInt8)) :
    RouterProg Unit :=
  .op (.ping flow out.1) fun _ =>
    match out.2 with
    | none => .op .releaseICMP fun _ => .ret ()
    | some pkt => .op (.inject pkt) fun _ => .op .releaseICMP fun _ => .ret ()

/-- `interceptICMPv4` behind its checks, with the goroutine that it starts. -/
def slotICMP (flow : ForwardFlow) (out : List (List UInt8) × Option (List UInt8)) :
    RouterProg Unit :=
  .op .acquireICMP fun got => if !got then .ret () else forwardICMPv4 flow out

/-- `interceptICMPv4`. A packet that is not consumed goes on to the netstack, and to the other
    forwarders. -/
def interceptICMPv4 (lib : PacketLib) (localAddr : Addr) (packet : List UInt8)
    (attempts : List PingAttempt) : RouterProg Unit :=
  -- an IPv4 packet that carries ICMP
  if packet.length < 20 ∨ packet.getD 0 0 >>> 4 ≠ 4 then .ret ()
  else if packet.getD 9 0 ≠ 1 then .ret ()
  else
    let ihl := (packet.getD 0 0 &&& 0x0f).toNat * 4
    -- an echo request with a whole header
    if ihl < 20 ∨ packet.length < ihl + 8 then .ret ()
    else if packet.getD ihl 0 ≠ 8 then .ret ()
    else
      match addrFromSlice ((packet.drop 16).take 4) with
      | none => .ret ()
      | some dst => do
        -- the source is read after the gate, the policy after both
        let forwards ← shouldForward localAddr dst
        if !forwards then .ret ()
        else
          match addrFromSlice ((packet.drop 12).take 4) with
          | none => .ret ()
          | some src =>
            let flow : ForwardFlow := ⟨some src, dst, "icmp", 0⟩
            let denied ← aclDenies flow
            if denied then .ret ()
            else slotICMP flow (Native.forwardICMPv4 lib src dst (packet.drop ihl) attempts)

end ForwardTask

/-- What happens to a router: requests of the netstack, packets of the mesh, and syncs. -/
inductive RouterTask where
  | tcp (req : ForwarderRequest)
  | udp (req : ForwarderRequest)
  | icmp (packet : List UInt8) (attempts : List PingAttempt)
  | sync (subnets : List Prefix) (rules : List Commonv1.Rule)

/-- The program of a task. In `applySync` the subnets are replaced first, then the rules. -/
def RouterTask.program (lib : PacketLib) (localAddr : Addr) : RouterTask → RouterProg Unit
  | tcp req => ForwardTask.handleTCP localAddr req
  | udp req => ForwardTask.handleUDP localAddr req
  | icmp packet attempts => ForwardTask.interceptICMPv4 lib localAddr packet attempts
  | sync subnets rules =>
    .op (.setSubnets subnets) fun _ => .op (.setACLRules rules) fun _ => .ret ()

end Blinex.Native
