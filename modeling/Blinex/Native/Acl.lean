import Blinex.Go.Netip
import Blinex.Native.Messages

/-!
# `client/internal/wgmgr`: the two userspace policy engines

`aclAllows` (nsrouter.go) decides on connection metadata, `aclFilterAllowsFor`
(aclfilter.go) on a raw packet. Both walk the same synced rule list; the body of
their loops is textually the same and is `aclRuleMatches` here.
-/

namespace Blinex.Native

open Blinex.Go

/-- `aclHostMatch`: `""` and `"*"` are any address, then a CIDR, then a single
    address; anything else matches nothing. -/
def aclHostMatch (field : String) (ip : Addr) : Bool :=
  if field = "" ∨ field = "*" then true
  else
    match Netip.parsePrefix field with
    | some p => p.contains ip
    | none =>
      match Netip.parseAddr field with
      | some a => a == ip
      | none => false

/-- The protocol and port test in the loop of `aclAllows`. -/
def aclProtoMatch (protocol : String) (port : Int) (proto : String) (dport : BitVec 16) : Bool :=
  let p := Strings.toLower protocol
  if p ≠ "" ∧ p ≠ "all" then
    if p ≠ proto then false
    else !(decide (0 < port) && (p == "tcp" || p == "udp") && toUInt16 port != dport)
  else true

/-- The loop body of `aclAllows` and `aclFilterAllowsFor` up to its `return`. -/
def aclRuleMatches (r : Commonv1.Rule) (src dst : Addr) (proto : String) (dport : BitVec 16) :
    Bool :=
  r.enabled && aclHostMatch r.src src && aclHostMatch r.dst dst &&
    aclProtoMatch r.protocol r.port proto dport

/-- `RoutingNet.aclAllows` on the rules installed by `SetACLRules`. -/
def aclAllows (rules : List Commonv1.Rule) (src dst : Addr) (proto : String)
    (dport : BitVec 16) : Bool :=
  match rules with
  | [] => false
  | r :: rules =>
    if aclRuleMatches r src dst proto dport then r.action == "allow"
    else aclAllows rules src dst proto dport

/-- `netip.AddrFromSlice`. -/
def addrFromSlice (b : List UInt8) : Option Addr :=
  match b with
  | [a, b, c, d] => some (addrFrom4 a b c d)
  | b =>
    if b.length = 16 then
      some (.v6 (BitVec.ofNat 128 (b.foldl (fun acc x => acc * 256 + x.toNat) 0)) "")
    else none

/-- The `switch pkt[9]` of `aclFilterAllowsFor`. -/
def protoName (n : UInt8) : String :=
  if n = 6 then "tcp" else if n = 17 then "udp" else if n = 1 then "icmp" else ""

/-- `aclFilterAllowsFor`. Indexing is guarded by the length tests before it, so
    the default of `getD` is never used. -/
def aclFilterAllowsFor (pkt : List UInt8) (rules : List Commonv1.Rule) (locals : List Addr) :
    Bool :=
  -- only IPv4 is policed
  if pkt.length < 20 ∨ pkt.getD 0 0 >>> 4 ≠ 4 then true
  else
    let ihl := (pkt.getD 0 0 &&& 0x0f).toNat * 4
    if ihl < 20 ∨ pkt.length < ihl then true
    else
      match addrFromSlice ((pkt.drop 12).take 4), addrFromSlice ((pkt.drop 16).take 4) with
      | some src, some dst =>
        if 0 < locals.length ∧ dst ∉ locals then true  -- transit, not policed here
        else
          let proto := protoName (pkt.getD 9 0)
          -- a port is read only where the header of the transport protocol is there
          let dport : BitVec 16 :=
            if (proto = "tcp" ∨ proto = "udp") ∧ ihl + 4 ≤ pkt.length then
              (pkt.getD (ihl + 2) 0).toBitVec ++ (pkt.getD (ihl + 3) 0).toBitVec
            else 0
          aclAllows rules src dst proto dport
      | _, _ => true

end Blinex.Native
