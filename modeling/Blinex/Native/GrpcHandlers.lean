import Blinex.Go.Netip
import Blinex.Native.GrpcServer
import Blinex.Native.Management

/-!
# `management/internal/grpcserver`: the handlers

`Login`, `Sync`, `UpdatePeerMeta` and what they call, as programs over the shared
state. `Sync` is cut where its goroutine waits: `syncOpen` is what runs before the
first response, `send` builds one response, `syncClose` is the deferred function.
The goroutine of `resolveCountryAsync` is `resolveCountry`.

Records read with `GetPeer` are copies here, as in the Postgres store. The in-memory
store shares the record, but every handler in this file saves what it assigns; what
differs there is that the record `Sync` saves with a new address carries the
`LastSeen` that `touchLastSeen` has just set.
-/

namespace Blinex.Native.Management

open Blinex.Go

/-- The gRPC codes the handlers return. -/
inductive Code where
  | resourceExhausted | invalidArgument | unauthenticated | permissionDenied | internal | notFound
deriving DecidableEq, Repr

/-- A gRPC error status. -/
structure Status where
  code : Code
  message : String
deriving DecidableEq, Repr

/-- `auth.Claims`, with the registered claims `iat` and `exp`. -/
structure Claims where
  peerID : String := ""
  wgPubKey : String := ""
  accountID : String := ""
  role : String := ""
  issuedAt : Int := 0
  expiresAt : Int := 0
deriving DecidableEq

/-- `jwt.NewNumericDate`: whole seconds. -/
def numericDate (t : Int) : Int := t / 1000000000 * 1000000000

/-- `Manager.IssueToken`; a token is what its signature protects. -/
def issueToken (now : Int) (peerID wgPubKey accountID : String) : Claims :=
  { peerID, wgPubKey, accountID, role := "peer", issuedAt := numericDate now,
    expiresAt := numericDate (now + 24 * 3600 * 1000000000) }

/-- The context of a call: what `sourceIP` makes of it, and the claims that the
    interceptor put there. -/
structure Ctx where
  sourceIP : String := "unknown"
  claims : Option Claims := none

/-- The check of `Sync` and `UpdatePeerMeta` that the token is for the key. -/
def Ctx.matches (ctx : Ctx) (wgPubKey : String) : Bool :=
  match ctx.claims with
  | some claims => claims.wgPubKey == wgPubKey
  | none => true

/-- `managementv1.LoginRequest`. -/
structure LoginRequest where
  setupKey : String := ""
  wgPubKey : String := ""
  peerMeta : Option Commonv1.PeerMeta := none
deriving DecidableEq

/-- `managementv1.LoginResponse`. -/
structure LoginResponse where
  peerId : String
  token : Claims
  networkConfig : Commonv1.NetworkConfig
deriving DecidableEq

/-! ## Background work -/

/-- `touchLastSeen`. -/
def touchLastSeen (now : Int) (err : Option String) (wgPubKey : String) : M Unit := do
  let .ok fresh ← Call.getPeer wgPubKey | return
  let _ ← Call.savePeer { fresh with lastSeen := now } err

/-- `resolveCountryAsync` up to the goroutine it starts. -/
def resolveCountryAsync (wgPubKey ip : String) : M Unit :=
  match Net.parseIP ip with
  | none => return
  | some parsed =>
    if Net.isPrivate parsed || Net.isLoopback parsed || Net.isUnspecified parsed then return
    else Call.lookupCountry wgPubKey ip

/-- The goroutine of `resolveCountryAsync`; `country` is what `geoip.Lookup` gives. -/
def resolveCountry (wgPubKey ip : String) (country : Except String String)
    (err : Option String) : M Unit := do
  let .ok country := country | return
  let .ok peer ← Call.getPeer wgPubKey | return
  -- the peer has moved on: a stale result
  if peer.publicIP ≠ ip then return
  let _ ← Call.savePeer { peer with country } err

/-! ## `Login` -/

/-- The groups of a first-time enrollee. -/
def enrollGroups (autoGroups : List String) : List String :=
  Domain.defaultGroupName :: autoGroups.filter (· ≠ Domain.defaultGroupName)

/-- The record a `Login` builds before it looks for an existing one. -/
def newPeer (env : Env) (ctx : Ctx) (req : LoginRequest) (sk : Domain.SetupKey) (ip : String) :
    Domain.Peer :=
  let peerMeta := req.peerMeta.getD {}
  { id := env.uuid 0
    accountID := sk.accountID
    wgPubKey := req.wgPubKey
    ip
    localIP := peerMeta.localIp
    publicIP := ctx.sourceIP
    hostname := peerMeta.hostname
    os := peerMeta.os
    kernel := peerMeta.kernel
    version := peerMeta.coreVersion
    dnsLabel := Domain.toDNSLabel (env.uuid 1) peerMeta.hostname
    groups := enrollGroups sk.autoGroups
    allowedIPs := [ip ++ "/32"]
    lastSeen := env.now 1
    createdAt := env.now 2 }

/-- What a `Login` takes over from the record it finds. -/
def reenroll (peer existing : Domain.Peer) : Domain.Peer :=
  { peer with
    id := existing.id
    createdAt := existing.createdAt
    groups := existing.groups
    advertisedRoutes := existing.advertisedRoutes
    hostname := existing.hostname
    dnsLabel := existing.dnsLabel }

/-- `Login` from `SavePeer` on. -/
def enroll (network : String) (env : Env) (sk : Domain.SetupKey) (ip : String)
    (peer : Domain.Peer) : M (Except Status LoginResponse) := do
  let saved ← Call.savePeer peer (env.fails 0)
  if let .error e := saved then return .error ⟨.internal, "failed to save peer: " ++ e⟩
  -- a failed increment is only logged
  let _ ← Call.incrementSetupKeyUsage sk.id env.orders.setupKeys (env.fails 1)
  resolveCountryAsync peer.wgPubKey peer.publicIP
  Call.notifyAll peer.accountID
  return .ok
    { peerId := peer.id
      token := issueToken (env.now 3) peer.id peer.wgPubKey peer.accountID
      networkConfig := { address := ip ++ "/32", network, serial := toString (env.now 4) } }

/-- `Login`. `allowed` is what the rate limiter says about the source address. -/
def login (network : String) (env : Env) (ctx : Ctx) (allowed : Bool) (req : LoginRequest) :
    M (Except Status LoginResponse) := do
  -- the limiter answers before the request is looked at
  if !allowed then
    return .error ⟨.resourceExhausted, "too many login attempts, please try again later"⟩
  if req.setupKey = "" ∨ req.wgPubKey = "" then
    return .error ⟨.invalidArgument, "setup_key and wg_pub_key are required"⟩
  let .ok sk ← Call.getSetupKey req.setupKey (env.now 0)
    | return .error ⟨.unauthenticated, "invalid or expired setup key"⟩
  -- an ephemeral key enrolls one peer; the count is raised later, in `enroll`
  if sk.ephemeral ∧ 0 < sk.usedCount then
    return .error ⟨.unauthenticated, "invalid or expired setup key"⟩
  -- the address is allocated before it is known whether the peer exists
  match ← Call.allocate req.wgPubKey with
  | .error e => return .error ⟨.resourceExhausted, "IP allocation failed: " ++ e⟩
  | .ok ip =>
    let peer := newPeer env ctx req sk ip
    match ← Call.getPeer req.wgPubKey with
    | .error _ => enroll network env sk ip peer
    | .ok existing =>
      if existing.accountID ≠ sk.accountID then
        return .error ⟨.permissionDenied, "public key already enrolled in another account"⟩
      enroll network env sk ip (reenroll peer existing)

/-! ## `Sync` -/

/-- `Sync` up to its first response; `stream` is the identity of its `syncSub`. -/
def syncOpen (env : Env) (ctx : Ctx) (stream : Nat) (wgPubKey : String) :
    M (Except Status Domain.Peer) := do
  if wgPubKey = "" then return .error ⟨.invalidArgument, "wg_pub_key is required"⟩
  if !ctx.matches wgPubKey then
    return .error ⟨.permissionDenied, "wg_pub_key does not match token"⟩
  match ← Call.getPeer wgPubKey with
  | .error e => return .error ⟨.notFound, "peer not registered: " ++ e⟩
  | .ok peer =>
    Call.registerSub wgPubKey ⟨stream, peer.accountID⟩
    touchLastSeen (env.now 0) (env.fails 0) peer.wgPubKey
    if ctx.sourceIP ≠ "" ∧ ctx.sourceIP ≠ "unknown" ∧ ctx.sourceIP ≠ peer.publicIP then
      -- the record read before `touchLastSeen`, not the one it has just saved
      let peer := { peer with publicIP := ctx.sourceIP }
      if let .ok _ ← Call.savePeer peer (env.fails 1) then
        resolveCountryAsync peer.wgPubKey ctx.sourceIP
      return .ok peer
    return .ok peer

/-- The closure `send` of `Sync`, up to `stream.Send`. -/
def send (network : String) (env : Env) (accountID wgPubKey : String) :
    M (Except String Managementv1.SyncResponse) := do
  match ← Call.getPeersByAccount accountID env.orders.peers (env.fails 0) with
  | .error e => return .error ("listing peers: " ++ e)
  | .ok peers =>
    match ← Call.getRulesByAccount accountID env.orders.rules (env.fails 1) with
    | .error e => return .error ("listing rules: " ++ e)
    | .ok rules => return .ok (buildSyncResponse network (env.now 0) peers rules wgPubKey)

/-- The deferred function of `Sync`. -/
def syncClose (env : Env) (wgPubKey accountID : String) : M Unit := do
  Call.unregisterSub wgPubKey
  touchLastSeen (env.now 0) (env.fails 0) wgPubKey
  Call.notifyAll accountID

/-! ## `UpdatePeerMeta` -/

/-- What `UpdatePeerMeta` makes of a record. -/
def applyMeta (uuid : String) (peer : Domain.Peer) : Option Commonv1.PeerMeta → Domain.Peer
  | none => peer
  | some peerMeta =>
    { peer with
      hostname := peerMeta.hostname
      os := peerMeta.os
      kernel := peerMeta.kernel
      version := peerMeta.coreVersion
      dnsLabel := Domain.toDNSLabel uuid peerMeta.hostname
      localIP := if peerMeta.localIp ≠ "" then peerMeta.localIp else peer.localIP }

/-- `UpdatePeerMeta`. -/
def updatePeerMeta (env : Env) (ctx : Ctx) (wgPubKey : String)
    (peerMeta : Option Commonv1.PeerMeta) : M (Except Status Unit) := do
  if wgPubKey = "" then return .error ⟨.invalidArgument, "wg_pub_key is required"⟩
  if !ctx.matches wgPubKey then
    return .error ⟨.permissionDenied, "wg_pub_key does not match token"⟩
  match ← Call.getPeer wgPubKey with
  | .error e => return .error ⟨.notFound, "peer not found: " ++ e⟩
  | .ok peer =>
    let peer := { applyMeta (env.uuid 0) peer peerMeta with lastSeen := env.now 0 }
    match ← Call.savePeer peer (env.fails 0) with
    | .error e => return .error ⟨.internal, "failed to update peer: " ++ e⟩
    | .ok _ => return .ok ()

end Blinex.Native.Management
