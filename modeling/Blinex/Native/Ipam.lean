import Blinex.ForStd.PMap
import Blinex.Go.Netip
import Blinex.Native.Messages

/-!
# `management/internal/grpcserver/ipam.go`: mesh addresses

Host addresses are `uint32` values; `network` and `mask` are the leading four bytes
of the block's address and mask, which is all that `Allocate` reads of them.
-/

namespace Blinex.Native

open Blinex.Go

/-- `IPAM`. -/
structure IPAM where
  network : BitVec 32
  mask : BitVec 32
  next : BitVec 32
  leased : PMap String (BitVec 32) := PMap.empty

/-- `hostToIP`. -/
def hostToIP (host : BitVec 32) : String :=
  toString (host >>> 24).toNat ++ "." ++ toString ((host >>> 16).toNat % 256) ++ "." ++
    toString ((host >>> 8).toNat % 256) ++ "." ++ toString (host.toNat % 256)

example : hostToIP 0x64400001#32 = "100.64.0.1" := by decide

/-- The leading four bytes of an address. -/
def leading32 : Addr → BitVec 32
  | .invalid => 0  -- no network has it
  | .v4 a => a
  | .v6 b _ => (b >>> 96).setWidth 32

namespace IPAM

/-- `NewIPAM`; `none` is the error for text that is no CIDR. -/
def newIPAM (cidr : String) : Option IPAM :=
  match Net.parseCIDR cidr with
  | none => none
  | some network =>
    let base := leading32 network.addr
    -- the first address is the network's own
    some { network := base, mask := ~~~(BitVec.allOnes 32 >>> network.bits), next := base + 1 }

/-- `Allocate`. -/
def allocate (i : IPAM) (wgPubKey : String) : Except String String × IPAM :=
  match i.leased wgPubKey with
  | some host => (.ok (hostToIP host), i)
  | none =>
    let broadcast := i.network ||| ~~~i.mask
    if broadcast ≤ i.next then (.error "IPAM pool exhausted", i)
    else
      let host := i.next
      (.ok (hostToIP host), { i with next := i.next + 1, leased := i.leased.set wgPubKey host })

/-- `Release`. -/
def release (i : IPAM) (wgPubKey : String) : IPAM :=
  { i with leased := i.leased.delete wgPubKey }

/-- The address that `PreloadPeers` takes from a peer, if it does not pass over it. -/
def preloadHost (p : Domain.Peer) : Option (BitVec 32) :=
  if p.ip = "" then none
  else
    match Net.parseIP p.ip with
    | none => none
    | some ip => Net.to4 ip

/-- The body of the loop of `PreloadPeers`. -/
def preloadPeer (i : IPAM) (p : Domain.Peer) : IPAM :=
  match preloadHost p with
  | none => i
  | some host =>
    { i with
      leased := i.leased.set p.wgPubKey host
      next := if i.next ≤ host then host + 1 else i.next }

/-- `PreloadPeers`. -/
def preloadPeers (i : IPAM) (peers : List Domain.Peer) : IPAM := peers.foldl preloadPeer i

end IPAM

end Blinex.Native
