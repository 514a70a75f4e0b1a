import Mathlib.Algebra.Group.Nat.Defs
import Blinex.Go.Strings

/-!
# Wire messages and stored records

The protobuf messages the services exchange (`commonv1`, `managementv1`,
`signalv1`) and the records of the management store (`domain`). Field defaults
are Go's zero values. A Go `int` is an `Int`; `int32` fields are `Int`s that
have gone through `toInt32`. Times are counted from a fixed origin.
-/

namespace Blinex.Native

/-- The Go conversion `int32(x)`. -/
def toInt32 (x : Int) : Int := x.bmod (2 ^ 32)

/-- The Go conversion `uint16(x)`. -/
def toUInt16 (x : Int) : BitVec 16 := BitVec.ofInt 16 x

/-- `int32` keeps every value that is a valid port. -/
theorem toInt32_of_port {x : Int} (h₀ : 0 ≤ x) (h₁ : x ≤ 65535) : toInt32 x = x := by
  unfold toInt32
  apply Int.bmod_eq_of_le <;> omega

/-! ## Package `domain` -/

namespace Domain

/-- `domain.Peer`. -/
structure Peer where
  id : String := ""
  accountID : String := ""
  wgPubKey : String := ""
  ip : String := ""
  localIP : String := ""
  publicIP : String := ""
  country : String := ""
  hostname : String := ""
  os : String := ""
  kernel : String := ""
  version : String := ""
  dnsLabel : String := ""
  groups : List String := []
  allowedIPs : List String := []
  advertisedRoutes : List String := []
  exitNode : String := ""
  lastSeen : Int := 0
  createdAt : Int := 0
deriving DecidableEq

/-- `domain.Rule`. -/
structure Rule where
  id : String := ""
  accountID : String := ""
  name : String := ""
  src : String := ""
  dst : String := ""
  protocol : String := ""
  port : Int := 0
  action : String := ""
  enabled : Bool := false
  priority : Int := 0
  createdAt : Int := 0
deriving DecidableEq

/-- `domain.SetupKey`. -/
structure SetupKey where
  id : String := ""
  accountID : String := ""
  key : String := ""
  name : String := ""
  ephemeral : Bool := false
  usedCount : Int := 0
  autoGroups : List String := []
  createdAt : Int := 0
  expiresAt : Int := 0
deriving DecidableEq

/-- `domain.Group`. -/
structure Group where
  id : String := ""
  accountID : String := ""
  name : String := ""
  createdAt : Int := 0
deriving DecidableEq

/-- `const DefaultGroupName`. -/
def defaultGroupName : String := "Default"

/-- `ToDNSLabel`; `uuid` is the one drawn when nothing is left of the hostname. -/
def toDNSLabel (uuid : String) (hostname : String) : String :=
  let label := String.ofList ((Go.Strings.toLower hostname).toList.map fun r =>
    if ('a' ≤ r ∧ r ≤ 'z') ∨ ('0' ≤ r ∧ r ≤ '9') ∨ r = '-' then r else '-')
  let label := Go.Strings.trim label '-'
  if label = "" then "peer-" ++ String.ofList (uuid.toList.take 8) else label

end Domain

/-! ## Package `commonv1` -/

namespace Commonv1

/-- `commonv1.Peer`. -/
structure Peer where
  id : String := ""
  wgPubKey : String := ""
  ip : String := ""
  hostname : String := ""
  os : String := ""
  allowedIps : List String := []
  dnsLabel : String := ""
  localIp : String := ""
  publicIp : String := ""
  country : String := ""
deriving DecidableEq

/-- `commonv1.PeerMeta`. -/
structure PeerMeta where
  hostname : String := ""
  os : String := ""
  kernel : String := ""
  coreVersion : String := ""
  localIp : String := ""
deriving DecidableEq

/-- `commonv1.Route`. -/
structure Route where
  id : String := ""
  network : String := ""
  gateway : String := ""
  metric : Int := 0
  enabled : Bool := false
deriving DecidableEq

/-- `commonv1.Rule`. -/
structure Rule where
  id : String := ""
  name : String := ""
  src : String := ""
  dst : String := ""
  protocol : String := ""
  port : Int := 0
  action : String := ""
  enabled : Bool := false
  priority : Int := 0
deriving DecidableEq

/-- `commonv1.NetworkConfig`. -/
structure NetworkConfig where
  address : String := ""
  network : String := ""
  dnsPort : Int := 0
  serial : String := ""
  exitNode : String := ""
deriving DecidableEq

end Commonv1

/-! ## Package `managementv1` -/

namespace Managementv1

/-- `managementv1.SyncResponse`. The server never sets `dns_config`. -/
structure SyncResponse where
  peers : List Commonv1.Peer := []
  routes : List Commonv1.Route := []
  network : Option Commonv1.NetworkConfig := none
  serial : String := ""
  rules : List Commonv1.Rule := []
deriving DecidableEq

/-- `resp.Network.GetExitNode()`, which is safe on a nil `Network`. -/
def SyncResponse.exitNode (resp : SyncResponse) : String :=
  match resp.network with
  | some n => n.exitNode
  | none => ""

end Managementv1

/-! ## Package `signalv1` -/

namespace Signalv1

/-- `signalv1.Body_Type`. -/
inductive BodyType where
  | offer | answer | candidate | mode | relay
deriving DecidableEq, Repr

/-- `signalv1.Body`. -/
structure Body where
  type : BodyType := .offer
  payload : String := ""
  data : List UInt8 := []
deriving DecidableEq, Repr

/-- `signalv1.Message`. -/
structure Message where
  key : String := ""
  remoteKey : String := ""
  body : Option Body := none
deriving DecidableEq, Repr

/-- `msg.Body.GetType()`; a nil body reads as the zero value, `OFFER`. -/
def Message.bodyType (m : Message) : BodyType :=
  match m.body with
  | some b => b.type
  | none => .offer

end Signalv1

end Blinex.Native
