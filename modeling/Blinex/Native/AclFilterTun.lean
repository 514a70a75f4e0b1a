import Blinex.ForStd.Prog
import Blinex.Native.Conntrack

/-!
# `client/internal/wgmgr/aclfilter_windows.go`

On Windows the policy is enforced where wireguard-go hands packets to the system. The filter's
methods run in goroutines of their own: `Write` with the packets that arrive, `Read` with those
that leave, `SetRules` and `ClearRules` from a sync. They are programs over what is done under
one of the filter's locks. A packet is the part of its buffer behind the offset.
-/

namespace Blinex.Native

open Blinex.Go

/-- `localAddrsTTL`. -/
def localAddrsTTL : Int := 10 * 1000000000

/-- A `net.Addr` of an interface. -/
inductive InterfaceAddr where
  | ipNet (ip : BitVec 128)
  | other

/-- The loop of `localAddrs`: IPv6 addresses are left out. -/
def localSet (addrs : List InterfaceAddr) : List Addr :=
  addrs.filterMap fun
    | .ipNet ip => (Net.to4 ip).map .v4
    | .other => none

/-- `aclFilterTUN`, the device aside. -/
structure AclFilterTun where
  rules : List Commonv1.Rule := []
  rulesSet : Bool := false
  localCache : Option (List Addr) := none
  localAt : Int := 0
  ct : Conntrack := .new

/-- What the methods do under a lock, and the delivery to the system. -/
inductive TunOp where
  | policy
  | setRules (rules : List Commonv1.Rule)
  | clearRules
  /-- `localAddrs` at `now`; `addrs` is the result of `net.InterfaceAddrs`, unless it fails, and
      `done` the time when it is there. -/
  | localAddrs (now : Int) (addrs : Option (List InterfaceAddr)) (done : Int)
  | allowInbound (now : Int) (pkt : List UInt8)
  | observeOutbound (now : Int) (pkt : List UInt8)
  | deliver (pkts : List (List UInt8))

namespace TunOp

/-- What an operation returns. -/
@[reducible] def Res : TunOp → Type
  | policy => List Commonv1.Rule × Bool
  | localAddrs .. => List Addr
  | allowInbound .. => Bool
  | _ => Unit

/-- What the operations do. -/
def exec : (o : TunOp) → AclFilterTun → o.Res × AclFilterTun
  | policy, f => ((f.rules, f.rulesSet), f)
  | setRules rules, f => ((), { f with rules, rulesSet := true })
  | clearRules, f => ((), { f with rules := [], rulesSet := false })
  | localAddrs now addrs done, f =>
    -- an enumeration is used for ten seconds, an empty one too
    match f.localCache.filter fun _ => now - f.localAt < localAddrsTTL with
    | some cache => (cache, f)
    | none =>
      match addrs with
      | none => ([], f)  -- everything is policed
      | some addrs =>
        (localSet addrs, { f with localCache := some (localSet addrs), localAt := done })
  | allowInbound now pkt, f =>
    ((f.ct.allowInbound now pkt).1, { f with ct := (f.ct.allowInbound now pkt).2 })
  | observeOutbound now pkt, f =>
    ((), { f with ct := f.ct.observeOutbound now pkt })
  | deliver _, f => ((), f)

end TunOp

/-- A method of the filter. -/
abbrev TunProg := Prog TunOp.Res

namespace AclFilterTun

/-- The loop of `Write`, every packet with the time when it is looked up; `allowed` is what
    `append` has collected. -/
def writeLoop (rules : List Commonv1.Rule) (locals : List Addr) :
    List (Int × List UInt8) → List (List UInt8) → TunProg Unit
  | [], allowed =>
    if allowed.isEmpty then .ret () else .op (.deliver allowed) fun _ => .ret ()
  | (now, pkt) :: rest, allowed =>
    if pkt.isEmpty then writeLoop rules locals rest allowed
    else
      .op (.allowInbound now pkt) fun tracked =>
        if tracked || aclFilterAllowsFor pkt rules locals then
          writeLoop rules locals rest (allowed ++ [pkt])
        else writeLoop rules locals rest allowed

/-- `Write`. -/
def write (now : Int) (addrs : Option (List InterfaceAddr)) (done : Int)
    (pkts : List (Int × List UInt8)) : TunProg Unit :=
  .op .policy fun (rules, rulesSet) =>
    -- no policy before the first sync
    if !rulesSet then .op (.deliver (pkts.map Prod.snd)) fun _ => .ret ()
    else .op (.localAddrs now addrs done) fun locals => writeLoop rules locals pkts []

/-- The loop of `Read`. -/
def readLoop : List (Int × List UInt8) → TunProg Unit
  | [] => .ret ()
  | (now, pkt) :: rest =>
    if pkt.isEmpty then readLoop rest
    else .op (.observeOutbound now pkt) fun _ => readLoop rest

/-- `Read`, once the device has given it packets. -/
def read (pkts : List (Int × List UInt8)) : TunProg Unit :=
  .op .policy fun (_, rulesSet) => if !rulesSet then .ret () else readLoop pkts

end AclFilterTun

/-- The calls of a filter's methods. -/
inductive TunTask where
  | write (now : Int) (addrs : Option (List InterfaceAddr)) (done : Int)
      (pkts : List (Int × List UInt8))
  | read (pkts : List (Int × List UInt8))
  | setRules (rules : List Commonv1.Rule)
  | clearRules

/-- What each caller runs. -/
def TunTask.program : TunTask → TunProg Unit
  | write now addrs done pkts => AclFilterTun.write now addrs done pkts
  | read pkts => AclFilterTun.read pkts
  | setRules rules => .op (.setRules rules) fun _ => .ret ()
  | clearRules => .op .clearRules fun _ => .ret ()

end Blinex.Native
