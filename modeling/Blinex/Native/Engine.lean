import Blinex.Native.AclLinux
import Blinex.Native.PeerManager
import Blinex.Native.Resolver
import Blinex.Native.Routing
import Blinex.Native.WireGuard

/-!
# `client/internal/engine`: applying a sync

`applySync` brings the device, the OS routes, Magic DNS, the relay links and the
packet filter from the state the previous sync left to that of the new one. It
edits each of them in place while looping over the peers `Diff` reports; failures
of the device, netlink and iptables are logged and passed over.

Left out: log output, IP forwarding and masquerading, ICE, and `lastRoutes`, which
only the status command reads.
-/

namespace Blinex.Native

open Blinex.Go
open Commonv1 (Peer Route Rule)
open Managementv1 (SyncResponse)

/-- What does not change while the engine runs. -/
structure Config where
  publicKey : RawKey
  netstackMode : Bool := false
  wgInterface : String := ""
  managementURL : String := ""
  signalURL : String := ""
  dnsSuffix : String := ""

/-- `wg.PublicKey()`. -/
def Config.selfKey (cfg : Config) : String := Base64.encodeToString cfg.publicKey

/-- The answers of the system during one sync. `resolveHost` is the function of
    that name; an IPv6 literal, for which it returns a nil address and no error, counts as
    not resolved. `order` is the order in which `Diff` visits the known peers. -/
structure Env where
  order : List String
  defaultGateway : Option (BitVec 32 × String) := none
  resolveHost : String → Option (BitVec 32) := fun _ => none
  routeFails : Nat → Bool := fun _ => false
  ensureChain : Bool := true
  iptables : Iptables := Iptables.strict
  aclFails : Nat → Bool := fun _ => false

/-- `exitNodeState`. -/
structure ExitNodeState where
  gwIP : BitVec 32
  gwIface : String
  hostIPs : List (BitVec 32)

/-- The relay plumbing. A connection is named by the value of `relayCounter` it was
    created with; `bind` is `RelayBind.endpoints`. -/
structure Relay where
  counter : BitVec 32 := 0
  conns : PMap String (BitVec 32) := PMap.empty
  endpts : PMap String AddrPort := PMap.empty
  links : PMap String (BitVec 32) := PMap.empty
  bind : PMap AddrPort (BitVec 32) := PMap.empty

/-- The parts of `Engine` that a sync changes. -/
structure Engine where
  peers : PMap String Peer := PMap.empty
  dev : Device := {}
  net : Netlink := {}
  appliedRoutes : PMap String (List String) := PMap.empty
  exitNode : Option ExitNodeState := none
  dns : Records := PMap.empty
  relay : Relay := {}
  routerSubnets : List Prefix := []
  routerACL : List Rule := []
  chain : List Entry := []

/-! ## Routes -/

/-- `isDefaultRoute`. -/
def isDefaultRoute (cidr : String) : Bool := cidr == "0.0.0.0/0" || cidr == "::/0"

/-- `diffRemoved`. -/
def diffRemoved (old new : List String) : List String := old.filter fun s => !new.contains s

/-- `diffAdded`. -/
def diffAdded (old new : List String) : List String := new.filter fun s => !old.contains s

/-- The map `routesByGateway` of `applySync`. -/
def routesByGateway (routes : List Route) : PMap String (List String) :=
  routes.foldl (fun m r =>
    if r.enabled then m.set r.gateway ((m r.gateway).getD [] ++ [r.network]) else m) PMap.empty

/-- The value `routesByGateway[key]`, nil read as `[]`. -/
def gatewayRoutes (resp : SyncResponse) (key : String) : List String :=
  (routesByGateway resp.routes key).getD []

namespace Engine

/-- `applyOSRoutes`. A nil list and an empty one are the same here: the lists of
    `routesByGateway` are never empty, so `newRoutes != nil` says it has elements. -/
def applyOSRoutes (cfg : Config) (env : Env) (peerKey : String)
    (oldRoutes newRoutes : List String) (e : Engine) : Engine :=
  -- default routes are the exit node's business
  let net := (diffRemoved oldRoutes newRoutes).foldl (fun n cidr =>
    if isDefaultRoute cidr then n
    else n.removeRoute env.routeFails cidr cfg.wgInterface) e.net
  let net := (diffAdded oldRoutes newRoutes).foldl (fun n cidr =>
    if isDefaultRoute cidr then n
    else (n.addRoute env.routeFails cidr cfg.wgInterface).2) net
  { e with
    net
    appliedRoutes :=
      if newRoutes ≠ [] then e.appliedRoutes.set peerKey newRoutes else e.appliedRoutes }

/-! ## Exit node -/

/-- The two halves of the IPv4 space. -/
def splitRoutes : List String := ["0.0.0.0/1", "128.0.0.0/1"]

/-- `net.IP.IsLoopback`, IPv4. -/
def isLoopback (ip : BitVec 32) : Bool := ip >>> 24 == 127

/-- The pinning loop of `activateExitNode`. -/
def pinHosts (env : Env) (gwIP : BitVec 32) (gwIface : String) (addrs : List String)
    (n : Netlink) : List (BitVec 32) × Netlink :=
  addrs.foldl (fun (hostIPs, n) addr =>
    match env.resolveHost addr with
    | none => (hostIPs, n)
    | some ip =>
      if isLoopback ip then (hostIPs, n)
      else
        -- only a route that was installed is remembered for removal
        let (ok, n) := n.addHostRoute env.routeFails ip gwIP gwIface
        (if ok then hostIPs ++ [ip] else hostIPs, n)) ([], n)

/-- `activateExitNode`. -/
def activateExitNode (cfg : Config) (env : Env) (e : Engine) : Engine :=
  match env.defaultGateway with
  | none => e  -- stays inactive; the next sync tries again
  | some (gwIP, gwIface) =>
    let (hostIPs, net) := pinHosts env gwIP gwIface [cfg.managementURL, cfg.signalURL] e.net
    let net := splitRoutes.foldl
      (fun n cidr => (n.addRoute env.routeFails cidr cfg.wgInterface).2) net
    { e with net, exitNode := some { gwIP, gwIface, hostIPs } }

/-- `deactivateExitNode`. -/
def deactivateExitNode (cfg : Config) (env : Env) (e : Engine) : Engine :=
  match e.exitNode with
  | none => e
  | some st =>
    let net := splitRoutes.foldl
      (fun n cidr => n.removeRoute env.routeFails cidr cfg.wgInterface) e.net
    let net := st.hostIPs.foldl (fun n ip => n.removeHostRoute env.routeFails ip st.gwIface) net
    { e with net, exitNode := none }

/-- `useExitNode` of `applySync`. -/
def useExitNode (cfg : Config) (resp : SyncResponse) : Bool :=
  resp.exitNode != "" && resp.exitNode != cfg.selfKey

/-- The exit node part of `applySync`. -/
def applyExitNode (cfg : Config) (env : Env) (resp : SyncResponse) (e : Engine) : Engine :=
  if useExitNode cfg resp && e.exitNode.isNone then e.activateExitNode cfg env
  else if !useExitNode cfg resp && e.exitNode.isSome then e.deactivateExitNode cfg env
  else e

/-- The netstack part of `applySync`. -/
def setRouter (cfg : Config) (resp : SyncResponse) (e : Engine) : Engine :=
  { e with
    routerSubnets := (gatewayRoutes resp cfg.selfKey).filterMap Netip.parsePrefix
    routerACL := resp.rules }

/-! ## Peers -/

/-- `relay.Conn.Endpoint` of the `n`-th connection: `127.127.<n>>8>.<n>:1`. -/
def relayEndpoint (n : BitVec 32) : AddrPort where
  addr := 127#8 ++ 127#8 ++ (n >>> 8).setWidth 8 ++ n.setWidth 8
  port := 1

/-- `ensureRelayLink`. -/
def ensureRelayLink (cfg : Config) (peerKey : String) (e : Engine) : Engine :=
  if (e.relay.endpts peerKey).isSome && (e.relay.links peerKey).isSome then e
  else
    -- the endpoint shows the low 16 bits of the counter
    let n := e.relay.counter + 1
    let ep := relayEndpoint n
    { e with
      relay :=
        { counter := n
          conns := e.relay.conns.set peerKey n
          endpts := e.relay.endpts.set peerKey ep
          links := e.relay.links.set peerKey n
          bind := e.relay.bind.set ep n }
      dev := (e.dev.setPeerEndpoint cfg.publicKey peerKey ep).2 }

/-- `UpsertPeer` with its error logged. -/
def upsertPeer (cfg : Config) (p : Peer) (e : Engine) : Engine :=
  { e with dev := (e.dev.upsertPeer cfg.publicKey p.wgPubKey p.allowedIps none).2 }

/-- The body of the loop over the added peers. -/
def addPeer (cfg : Config) (env : Env) (resp : SyncResponse) (e : Engine) (p : Peer) : Engine :=
  if p.wgPubKey = cfg.selfKey then e
  else
    let e := e.upsertPeer cfg p
    let e := if cfg.netstackMode then e
      else e.applyOSRoutes cfg env p.wgPubKey [] (gatewayRoutes resp p.wgPubKey)
    let e := { e with dns := e.dns.upsert cfg.dnsSuffix p.dnsLabel p.ip }
    e.ensureRelayLink cfg p.wgPubKey

/-- The body of the loop over the updated peers. -/
def updatePeer (cfg : Config) (env : Env) (resp : SyncResponse) (e : Engine) (u : Update) :
    Engine :=
  let p := u.new
  if p.wgPubKey = cfg.selfKey then e
  else
    let e := e.upsertPeer cfg p
    let e := if cfg.netstackMode then e
      else e.applyOSRoutes cfg env p.wgPubKey ((e.appliedRoutes p.wgPubKey).getD [])
        (gatewayRoutes resp p.wgPubKey)
    -- the old name goes first, whoever has it by now
    let e := if u.old.dnsLabel ≠ p.dnsLabel then
        { e with dns := e.dns.remove cfg.dnsSuffix u.old.dnsLabel }
      else e
    let e := { e with dns := e.dns.upsert cfg.dnsSuffix p.dnsLabel p.ip }
    e.ensureRelayLink cfg p.wgPubKey

/-- The body of the loop over the removed peers. -/
def removePeer (cfg : Config) (env : Env) (e : Engine) (p : Peer) : Engine :=
  if p.wgPubKey = cfg.selfKey then e
  else
    -- the peer leaves the device before its routes leave the kernel
    let e := { e with dev := (e.dev.removePeer cfg.publicKey p.wgPubKey).2 }
    let e := if cfg.netstackMode then e
      else e.applyOSRoutes cfg env p.wgPubKey ((e.appliedRoutes p.wgPubKey).getD []) []
    { e with
      appliedRoutes := e.appliedRoutes.delete p.wgPubKey
      dns := e.dns.remove cfg.dnsSuffix p.dnsLabel
      relay := { e.relay with
        links := e.relay.links.delete p.wgPubKey
        endpts := e.relay.endpts.delete p.wgPubKey
        conns := e.relay.conns.delete p.wgPubKey } }

/-- The ACL part of `applySync`. -/
def applyACL (cfg : Config) (env : Env) (resp : SyncResponse) (e : Engine) : Engine :=
  if env.ensureChain then
    { e with chain :=
        (applyRules env.iptables env.aclFails resp.rules cfg.wgInterface ⟨e.chain, 0⟩).2.chain }
  else e

/-- `applySync`. -/
def applySync (cfg : Config) (env : Env) (resp : SyncResponse) (e : Engine) : Engine :=
  let e := if cfg.netstackMode then e.setRouter cfg resp else e.applyExitNode cfg env resp
  -- `Diff` commits the new peers before the loops run
  let added := diffAddedPeers e.peers resp.peers
  let updated := diffUpdatedPeers e.peers resp.peers
  let removed := diffRemovedPeers e.peers env.order resp.peers
  let e := { e with peers := incomingMap resp.peers }
  let e := added.foldl (addPeer cfg env resp) e
  let e := updated.foldl (updatePeer cfg env resp) e
  let e := removed.foldl (removePeer cfg env) e
  if cfg.netstackMode then e else e.applyACL cfg env resp

end Engine

/-- One sync of a run: what the server sent and how the system answered. -/
structure Sync where
  env : Env
  resp : SyncResponse

/-- The engine after one more sync. -/
def Engine.step (cfg : Config) (e : Engine) (s : Sync) : Engine :=
  e.applySync cfg s.env s.resp

end Blinex.Native
