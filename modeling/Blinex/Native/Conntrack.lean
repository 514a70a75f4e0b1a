import Mathlib.Data.List.AList
import Blinex.Native.Acl

/-!
# `client/internal/wgmgr/conntrack.go`

Packets are lists of bytes, times are nanoseconds; every call gets the reading of its
clock.
-/

namespace Blinex.Native

open Blinex.Go

/-- `flowKey`. -/
structure FlowKey where
  proto : UInt8
  src : Addr
  dst : Addr
  sport : BitVec 16
  dport : BitVec 16
deriving DecidableEq, Repr

/-- `flowKey.reverse`. -/
def FlowKey.reverse (k : FlowKey) : FlowKey where
  proto := k.proto
  src := k.dst
  dst := k.src
  sport := k.dport
  dport := k.sport

/-- `binary.BigEndian.Uint16` of the two bytes at `i`. -/
def uint16At (pkt : List UInt8) (i : Nat) : BitVec 16 :=
  (pkt.getD i 0).toBitVec ++ (pkt.getD (i + 1) 0).toBitVec

/-- `parseFlowKey`. Indexing is guarded by the length tests before it. -/
def parseFlowKey (pkt : List UInt8) : Option FlowKey :=
  if pkt.length < 20 ∨ pkt.getD 0 0 >>> 4 ≠ 4 then none
  else
    let ihl := (pkt.getD 0 0 &&& 0x0f).toNat * 4
    if ihl < 20 ∨ pkt.length < ihl then none
    else
      match addrFromSlice ((pkt.drop 12).take 4), addrFromSlice ((pkt.drop 16).take 4) with
      | some src, some dst =>
        let proto := pkt.getD 9 0
        if proto = 6 ∨ proto = 17 then
          if pkt.length < ihl + 4 then none
          else some ⟨proto, src, dst, uint16At pkt ihl, uint16At pkt (ihl + 2)⟩
        else if proto = 1 then
          -- only echo request and reply carry an identifier
          if pkt.length < ihl + 6 then none
          else if pkt.getD ihl 0 ≠ 8 ∧ pkt.getD ihl 0 ≠ 0 then none
          else some ⟨proto, src, dst, uint16At pkt (ihl + 4), uint16At pkt (ihl + 4)⟩
        else none
      | _, _ => none

/-- `conntrackTTL`. -/
def conntrackTTL : Int := 2 * 60 * 1000000000

/-- `conntrackMax`. -/
def conntrackMax : Nat := 8192

/-- `conntrack`, its clock aside. -/
structure Conntrack where
  flows : AList fun _ : FlowKey => Int

namespace Conntrack

/-- `newConntrack`. -/
def new : Conntrack := ⟨∅⟩

/-- `observeOutbound`. -/
def observeOutbound (c : Conntrack) (now : Int) (pkt : List UInt8) : Conntrack :=
  match parseFlowKey pkt with
  | none => c
  | some k =>
    let flows := if conntrackMax ≤ c.flows.keys.length then ∅ else c.flows
    ⟨flows.insert k.reverse now⟩

/-- `allowInbound`. -/
def allowInbound (c : Conntrack) (now : Int) (pkt : List UInt8) : Bool × Conntrack :=
  match parseFlowKey pkt with
  | none => (false, c)
  | some k =>
    match c.flows.lookup k with
    | none => (false, c)
    | some seen => if conntrackTTL < now - seen then (false, ⟨c.flows.erase k⟩) else (true, c)

end Conntrack

end Blinex.Native
