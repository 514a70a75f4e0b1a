import Blinex.ForStd.PMap
import Blinex.Go.Netip

/-!
# `client/internal/routing`: the kernel's routing table

The agent edits one table of the kernel through netlink. A destination has one route: the calls
that add a route use `RouteReplace`, which puts the new route in the place of the one that is
there, whatever that one is for. `RouteDel` is given a destination and a link and removes the
route to this destination if it leaves by this link.

As in acl_linux.go a call may fail for reasons of its own; `fails i` says that the `i`-th call of
one sync does.
-/

namespace Blinex.Native

open Blinex.Go

/-- Where a route leads: out of an interface, directly or by a gateway. -/
structure NextHop where
  iface : String
  gw : Option (BitVec 32) := none
deriving DecidableEq

/-- The routing table, and the number of netlink calls so far. -/
structure Netlink where
  routes : PMap Prefix NextHop := PMap.empty
  calls : Nat := 0

/-- The destination of a host route: `net.CIDRMask(32, 32)`. -/
def hostPrefix (ip : BitVec 32) : Prefix := ⟨.v4 ip, 32, Nat.le_of_eq rfl⟩

namespace Netlink

/-- `netlink.RouteDel` on the table. -/
def routeDel (routes : PMap Prefix NextHop) (dst : Prefix) (iface : String) :
    PMap Prefix NextHop := fun x =>
  (routes x).filter fun hop => ¬(x = dst ∧ hop.iface = iface)

variable (fails : Nat → Bool)

/-- `AddRoute`. -/
def addRoute (cidr iface : String) (n : Netlink) : Bool × Netlink :=
  let n' := { n with calls := n.calls + 1 }
  if fails n.calls then (false, n')
  else
    match Net.parseCIDR cidr with
    | none => (false, n')
    | some dst => (true, { n' with routes := n.routes.set dst { iface } })

/-- `RemoveRoute`, which reports nothing. -/
def removeRoute (cidr iface : String) (n : Netlink) : Netlink :=
  let n' := { n with calls := n.calls + 1 }
  if fails n.calls then n'
  else
    match Net.parseCIDR cidr with
    | none => n'
    | some dst => { n' with routes := routeDel n.routes dst iface }

/-- `AddHostRoute`. -/
def addHostRoute (ip gwIP : BitVec 32) (ifaceName : String) (n : Netlink) : Bool × Netlink :=
  let n' := { n with calls := n.calls + 1 }
  if fails n.calls then (false, n')
  else
    let hop : NextHop := { iface := ifaceName, gw := some gwIP }
    (true, { n' with routes := n.routes.set (hostPrefix ip) hop })

/-- `RemoveHostRoute`. -/
def removeHostRoute (ip : BitVec 32) (ifaceName : String) (n : Netlink) : Netlink :=
  let n' := { n with calls := n.calls + 1 }
  if fails n.calls then n'
  else { n' with routes := routeDel n.routes (hostPrefix ip) ifaceName }

/-! ## Reading the table -/

/-- The routes that lead straight out of an interface, as those of `AddRoute` do. -/
def routesVia (n : Netlink) (iface : String) : PMap Prefix Unit := fun x =>
  if n.routes x = some { iface } then some () else none

/-- The hosts that are routed by a gateway, as those of `AddHostRoute` are. -/
def hostRoutes (n : Netlink) : PMap (BitVec 32) (BitVec 32 × String) := fun ip =>
  match n.routes (hostPrefix ip) with
  | some { iface, gw := some gwIP } => some (gwIP, iface)
  | _ => none

end Netlink

end Blinex.Native
