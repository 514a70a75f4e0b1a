import Blinex.Native.Acl

/-!
# `client/internal/wgmgr`: what the userspace router sends out

The netstack of a peer without kernel interface gets every packet of the mesh that is addressed
beyond it. The forwarders decide which of them leave over the host's own network; what is left
out here is the copying of data once a connection stands.
-/

namespace Blinex.Native

open Blinex.Go

/-- `meshExclude`. -/
def meshExclude : Prefix := ⟨.v4 0x64400000, 10, by decide⟩

/-- The network that is never forwarded to is the text of the source. -/
theorem parsePrefix_meshExclude : Netip.parsePrefix "100.64.0.0/10" = some meshExclude := by
  decide +kernel

/-- `RoutingNet`, as far as the forwarders read it. -/
structure RoutingNet where
  localAddr : Addr
  subnets : List Prefix := []
  aclRules : List Commonv1.Rule := []

namespace RoutingNet

/-- `shouldForward`. -/
def shouldForward (n : RoutingNet) (dst : Addr) : Bool :=
  if !dst.isValid || dst.isLoopback || dst.isUnspecified || dst.isLinkLocalUnicast ||
      dst.isMulticast || meshExclude.contains dst then false
  else
    -- a default route does not cover the host's private network
    n.subnets.any fun s => s.contains dst && !(s.bits == 0 && dst.isPrivate)

/-- The policy check of the forwarders; a malformed source is not checked. -/
def aclDenies (n : RoutingNet) (remote : List UInt8) (dst : Addr) (proto : String)
    (port : BitVec 16) : Bool :=
  match addrFromSlice remote with
  | some src => !aclAllows n.aclRules src dst proto port
  | none => false

/-- `handleTCP`: the address that is dialled. `acquire` is whether there is capacity left,
    `endpoint` whether `CreateEndpoint` succeeds. -/
def handleTCP (n : RoutingNet) (acquire endpoint : Bool) (remote dst : List UInt8)
    (port : BitVec 16) : Option Addr :=
  match addrFromSlice dst with
  | none => none
  | some dst =>
    -- the peer's own address stands for a service of the host
    let toLocalService := dst == n.localAddr
    if !toLocalService && !n.shouldForward dst then none
    else if n.aclDenies remote dst "tcp" port then none
    else if !acquire || !endpoint then none
    else some (if toLocalService then addrFrom4 127 0 0 1 else dst)

/-- `handleUDP`: the address that is dialled. -/
def handleUDP (n : RoutingNet) (acquire endpoint : Bool) (remote dst : List UInt8)
    (port : BitVec 16) : Option Addr :=
  match addrFromSlice dst with
  | none => none
  | some dst =>
    if !n.shouldForward dst then none
    else if n.aclDenies remote dst "udp" port then none
    else if !acquire || !endpoint then none
    else some dst

/-- `interceptICMPv4`: whether the packet is consumed, and the address that is pinged for it.
    Indexing is guarded as in `aclFilterAllowsFor`. -/
def interceptICMPv4 (n : RoutingNet) (acquire : Bool) (packet : List UInt8) :
    Bool × Option Addr :=
  if packet.length < 20 ∨ packet.getD 0 0 >>> 4 ≠ 4 then (false, none)
  else if packet.getD 9 0 ≠ 1 then (false, none)
  else
    let ihl := (packet.getD 0 0 &&& 0x0f).toNat * 4
    if ihl < 20 ∨ packet.length < ihl + 8 then (false, none)
    else if packet.getD ihl 0 ≠ 8 then (false, none)  -- no echo request
    else
      match addrFromSlice ((packet.drop 16).take 4) with
      | none => (false, none)
      | some dst =>
        -- a packet that is not consumed goes on to the stack
        if !n.shouldForward dst then (false, none)
        else
          match addrFromSlice ((packet.drop 12).take 4) with
          | none => (false, none)
          | some src =>
            -- a packet that policy or the limit refuses is consumed and dropped
            if !aclAllows n.aclRules src dst "icmp" 0 then (true, none)
            else if !acquire then (true, none)
            else (true, some dst)

end RoutingNet

end Blinex.Native
