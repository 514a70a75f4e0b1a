import Blinex.ForStd.OnesComplement
import Blinex.Native.Conntrack
import Blinex.Native.NsRouter

/-!
# `client/internal/wgmgr/nsrouter.go`: pings through the userspace router

The netstack has no forwarder for ICMP, so the router pings the destination from the host and
writes the echo reply itself.

It does so with functions of gVisor (`header`, `checksum`) and of `golang.org/x/net/icmp`, which
are not part of the repository. They are the parameters `PacketLib`; what is assumed of them is
`PacketLib.Lawful`, their documented effect on a buffer.
-/

namespace Blinex.Go

/-- `Addr.AsSlice`. -/
def Addr.asSlice : Addr → List UInt8
  | .invalid => []
  | .v4 a =>
    [⟨a.extractLsb' 24 8⟩, ⟨a.extractLsb' 16 8⟩, ⟨a.extractLsb' 8 8⟩, ⟨a.extractLsb' 0 8⟩]
  | .v6 a _ => (List.range 16).map fun i => ⟨a.extractLsb' (8 * (15 - i)) 8⟩

/-- The bytes that an IPv4 address was made of. -/
theorem asSlice_addrFrom4 (a b c d : UInt8) : (addrFrom4 a b c d).asSlice = [a, b, c, d] := by
  simp only [addrFrom4, Addr.asSlice, List.cons.injEq, and_true, ← UInt8.toBitVec_inj]
  refine ⟨?_, ?_, ?_, ?_⟩ <;> ext i hi <;>
    simp only [BitVec.getElem_extractLsb', BitVec.getLsbD_append] <;> grind

end Blinex.Go

namespace Blinex.Native

open Blinex.Go OnesComplement

/-- The fields of `header.IPv4Fields` that `forwardICMPv4` sets. -/
structure IPv4Fields where
  totalLength : BitVec 16
  ttl : UInt8
  protocol : UInt8
  srcAddr : List UInt8
  dstAddr : List UInt8

/-- What the router uses of other packages. A setter returns the buffer it has written to. -/
structure PacketLib where
  /-- `header.IPv4.Encode` -/
  encode : List UInt8 → IPv4Fields → List UInt8
  /-- `header.IPv4.CalculateChecksum` -/
  calculateChecksum : List UInt8 → BitVec 16
  /-- `header.IPv4.SetChecksum` -/
  setIPChecksum : List UInt8 → BitVec 16 → List UInt8
  /-- `header.ICMPv4.SetType` -/
  setType : List UInt8 → UInt8 → List UInt8
  /-- `header.ICMPv4.SetCode` -/
  setCode : List UInt8 → UInt8 → List UInt8
  /-- `header.ICMPv4.SetIdent` -/
  setIdent : List UInt8 → BitVec 16 → List UInt8
  /-- `header.ICMPv4.SetSequence` -/
  setSequence : List UInt8 → BitVec 16 → List UInt8
  /-- `header.ICMPv4.SetChecksum` -/
  setChecksum : List UInt8 → BitVec 16 → List UInt8
  /-- `checksum.Checksum` -/
  checksum : List UInt8 → BitVec 16 → BitVec 16
  /-- `icmp.Message.Marshal` of an echo request; `none` is an error -/
  marshalEcho : BitVec 16 → BitVec 16 → List UInt8 → Option (List UInt8)
  /-- `icmp.ParseMessage` finds an echo reply -/
  isEchoReply : List UInt8 → Bool

/-! ## What is assumed of the packages -/

/-- An ICMP echo message, request (8) or reply (0). -/
def echoMessage (type : UInt8) (checksum ident seq : BitVec 16) (payload : List UInt8) :
    List UInt8 :=
  type :: 0 :: high checksum :: low checksum ::
    high ident :: low ident :: high seq :: low seq :: payload

/-- An IPv4 header without options, identification and fragmentation. -/
def plainHeader (f : IPv4Fields) (checksum : BitVec 16) : List UInt8 :=
  [0x45, 0, high f.totalLength, low f.totalLength, 0, 0, 0, 0, f.ttl, f.protocol,
    high checksum, low checksum] ++ f.srcAddr ++ f.dstAddr

/-- The buffer with a big-endian word at `i`. -/
def putUint16 (buf : List UInt8) (i : Nat) (w : BitVec 16) : List UInt8 :=
  buf.take i ++ high w :: low w :: buf.drop (i + 2)

/-- **What is assumed of gVisor and x/net.** The encoder writes a header without options and
    leaves the rest of the buffer alone, the setters write their field, checksums are Internet
    checksums, and a marshalled request is the echo message with a checksum that verifies. -/
structure PacketLib.Lawful (lib : PacketLib) : Prop where
  encode : ∀ buf f, 20 ≤ buf.length → f.srcAddr.length = 4 → f.dstAddr.length = 4 →
    lib.encode buf f = plainHeader f 0 ++ buf.drop 20
  calculateChecksum : ∀ f c rest, f.srcAddr.length = 4 → f.dstAddr.length = 4 →
    lib.calculateChecksum (plainHeader f c ++ rest) = sum 0 (plainHeader f c)
  setIPChecksum : ∀ buf c, 20 ≤ buf.length → lib.setIPChecksum buf c = putUint16 buf 10 c
  setType : ∀ buf t, 8 ≤ buf.length → lib.setType buf t = buf.set 0 t
  setCode : ∀ buf c, 8 ≤ buf.length → lib.setCode buf c = buf.set 1 c
  setChecksum : ∀ buf w, 8 ≤ buf.length → lib.setChecksum buf w = putUint16 buf 2 w
  setIdent : ∀ buf w, 8 ≤ buf.length → lib.setIdent buf w = putUint16 buf 4 w
  setSequence : ∀ buf w, 8 ≤ buf.length → lib.setSequence buf w = putUint16 buf 6 w
  checksum : ∀ buf, lib.checksum buf 0 = sum 0 buf
  marshalEcho : ∀ ident seq payload wire, payload.length ≤ 65507 →
    lib.marshalEcho ident seq payload = some wire →
    ∃ c, c ≠ 0xffff ∧ wire = echoMessage 8 c ident seq payload ∧ sum 0 wire = 0xffff

/-! ## The router -/

variable (lib : PacketLib)

/-- What becomes of one of the two sockets of `pingHost`. -/
inductive PingAttempt where
  | listenErr
  | writeErr
  | readErr
  | received (resp : List UInt8)

/-- The loop of `pingHost` over the sockets. The buffer for a response has 1500 bytes. -/
def tryNetworks (wire : List UInt8) : List PingAttempt → List (List UInt8) × Bool
  | [] => ([], false)
  | a :: attempts =>
    let rest := tryNetworks wire attempts
    match a with
    | .listenErr | .writeErr => rest
    | .readErr => (wire :: rest.1, rest.2)
    | .received resp =>
      if lib.isEchoReply (resp.take 1500) then ([wire], true) else (wire :: rest.1, rest.2)

/-- `pingHost`: the messages that were sent, and whether one was answered. -/
def pingHost (ident seq : BitVec 16) (payload : List UInt8) (attempts : List PingAttempt) :
    List (List UInt8) × Bool :=
  match lib.marshalEcho ident seq payload with
  | none => ([], false)
  | some wire => tryNetworks lib wire attempts

/-- The reply that `forwardICMPv4` writes for a ping from `src` to `dst`. -/
def craftReply (src dst : Addr) (ident seq : BitVec 16) (payload : List UInt8) : List UInt8 :=
  let total := 20 + 8 + payload.length
  let ip := lib.encode (List.replicate total 0)
    { totalLength := BitVec.ofNat 16 total
      ttl := 64
      protocol := 1
      srcAddr := dst.asSlice
      dstAddr := src.asSlice }
  let ip := lib.setIPChecksum ip (~~~ lib.calculateChecksum ip)
  -- `ic` is the rest of the same buffer
  let ic := ip.drop 20
  let ic := lib.setType ic 0
  let ic := lib.setCode ic 0
  let ic := lib.setIdent ic ident
  let ic := lib.setSequence ic seq
  let ic := ic.take 8 ++ payload
  let ic := lib.setChecksum ic 0
  let ic := lib.setChecksum ic (~~~ lib.checksum ic 0)
  ip.take 20 ++ ic

/-- `forwardICMPv4`: the messages that were sent, and the packet that is injected. -/
def forwardICMPv4 (src dst : Addr) (icmpMsg : List UInt8) (attempts : List PingAttempt) :
    List (List UInt8) × Option (List UInt8) :=
  let ident := uint16At icmpMsg 4
  let seq := uint16At icmpMsg 6
  let payload := icmpMsg.drop 8
  let (sent, answered) := pingHost lib ident seq payload attempts
  (sent, if answered then some (craftReply lib src dst ident seq payload) else none)

namespace RoutingNet

/-- The packet from the mesh, intercepted and pinged for. -/
def forwardPing (lib : PacketLib) (n : RoutingNet) (acquire : Bool) (attempts : List PingAttempt)
    (packet : List UInt8) : List (List UInt8) × Option (List UInt8) :=
  match (n.interceptICMPv4 acquire packet).2, addrFromSlice ((packet.drop 12).take 4) with
  | some dst, some src =>
    forwardICMPv4 lib src dst (packet.drop ((packet.getD 0 0 &&& 0x0f).toNat * 4)) attempts
  | _, _ => ([], none)

end RoutingNet

end Blinex.Native
