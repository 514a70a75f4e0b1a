import Blinex.ForStd.PMap
import Blinex.Go.Base64
import Blinex.Go.Netip

/-!
# `client/internal/wgmgr`: the WireGuard device

The first half is what is assumed of wireguard-go: a configuration is a sequence
of lines applied one by one, an error stops it and leaves the lines before it
applied, every prefix has one owner, and lookups take the longest prefix. The
second half is `Manager`'s use of it in wireguard.go.

Keys travel to the device in hexadecimal, which is read back exactly; the lines
here carry the bytes.
-/

namespace Blinex.Native

open Blinex.Go

/-- The bytes of a public key. -/
abbrev RawKey := List UInt8

/-- `netip.AddrPort`, IPv4. -/
structure AddrPort where
  addr : BitVec 32
  port : BitVec 16
deriving DecidableEq, Repr

/-! ## wireguard-go -/

/-- What the device keeps about a peer besides its prefixes. -/
structure DevicePeer where
  endpoint : Option AddrPort := none
  keepalive : Nat := 0
deriving DecidableEq

/-- The configurable state of a device: its peers, and who owns each allowed
    prefix (host bits cleared). -/
structure Device where
  peers : PMap RawKey DevicePeer := PMap.empty
  owner : PMap Prefix RawKey := PMap.empty

/-- The lines of a UAPI `set` that the agent can send. -/
inductive Uapi where
  | publicKey (key : List UInt8)
  | allowedIP (cidr : String)
  | replaceAllowedIPs
  | endpoint (ep : AddrPort)
  | persistentKeepalive (seconds : Nat)
  | remove

/-- The peer the lines refer to: none yet, one to be ignored, or `key`. -/
inductive Selected where
  | none
  | dummy
  | peer (key : RawKey)

namespace Device

/-- `AllowedIPs.RemoveByPeer`. -/
def clearPrefixes (d : Device) (key : RawKey) : Device :=
  { d with owner := fun x => (d.owner x).filter fun k => !decide (k = key) }

/-- Updates a peer, creating it if need be. -/
def modifyPeer (d : Device) (key : RawKey) (f : DevicePeer → DevicePeer) : Device :=
  { d with peers := d.peers.set key (f ((d.peers key).getD {})) }

/-- One line; `none` is an error. Lines about the device's own key, or after
    `remove`, are read and ignored. -/
def ipcLine (own : RawKey) (d : Device) (sel : Selected) (line : Uapi) :
    Option (Device × Selected) :=
  match line, sel with
  | .publicKey key, _ =>
    -- selects the peer and creates it if it is new
    if key.length ≠ 32 then none
    else if key = own then some (d, .dummy)
    else some (d.modifyPeer key id, .peer key)
  | _, .none => none
  | .allowedIP cidr, sel =>
    match Netip.parsePrefix cidr, sel with
    | none, _ => none
    -- taken from whoever owned it
    | some p, .peer key => some ({ d with owner := d.owner.set p.masked key }, sel)
    | some _, _ => some (d, sel)
  | .replaceAllowedIPs, .peer key => some (d.clearPrefixes key, sel)
  | .endpoint ep, .peer key => some (d.modifyPeer key ({ · with endpoint := some ep }), sel)
  | .persistentKeepalive n, .peer key =>
    some (d.modifyPeer key ({ · with keepalive := n }), sel)
  | .remove, .peer key =>
    some ({ d.clearPrefixes key with peers := d.peers.delete key }, .dummy)
  | _, .dummy => some (d, sel)

/-- The lines from `sel` on: whether all were accepted, and the device they leave. -/
def ipcLines (own : RawKey) (d : Device) (sel : Selected) : List Uapi → Bool × Device
  | [] => (true, d)
  | line :: lines =>
    match ipcLine own d sel line with
    | none => (false, d)
    | some (d, sel) => ipcLines own d sel lines

/-- `IpcSet`. -/
def ipcSet (own : RawKey) (lines : List Uapi) (d : Device) : Bool × Device :=
  ipcLines own d .none lines

/-- The owner of the longest prefix of length at most `n` around an IPv4 address. -/
def lookupFrom (d : Device) (dst : BitVec 32) : (n : Nat) → n ≤ 32 → Option RawKey
  | 0, h => d.owner (Prefix.around 0 h dst)
  | n + 1, h =>
    match d.owner (Prefix.around (n + 1) h dst) with
    | some key => some key
    | none => d.lookupFrom dst n (Nat.le_of_succ_le h)

/-- `AllowedIPs.Lookup` on an IPv4 destination. -/
def lookup (d : Device) (dst : BitVec 32) : Option RawKey := d.lookupFrom dst 32 (Nat.le_refl _)

end Device

/-! ## wireguard.go -/

namespace Device

/-- What the calls about one peer share: the key is decoded and followed by `lines`
    in one `IpcSet`. -/
def setPeer (own : RawKey) (pubKeyB64 : String) (lines : List Uapi) (d : Device) :
    Bool × Device :=
  match Base64.decodeString pubKeyB64 with
  | none => (false, d)
  | some raw => d.ipcSet own (.publicKey raw :: lines)

/-- `Manager.UpsertPeer`. -/
def upsertPeer (own : RawKey) (pubKeyB64 : String) (allowedIPs : List String)
    (endpoint : Option AddrPort) (d : Device) : Bool × Device :=
  d.setPeer own pubKeyB64
    (allowedIPs.map .allowedIP ++ endpoint.toList.map .endpoint ++ [.persistentKeepalive 25])

/-- `Manager.SetPeerEndpoint`. -/
def setPeerEndpoint (own : RawKey) (pubKeyB64 : String) (endpoint : AddrPort) (d : Device) :
    Bool × Device :=
  d.setPeer own pubKeyB64 [.endpoint endpoint]

/-- `Manager.RemovePeer`. -/
def removePeer (own : RawKey) (pubKeyB64 : String) (d : Device) : Bool × Device :=
  d.setPeer own pubKeyB64 [.remove]

end Device

end Blinex.Native
