import Blinex.Go.Networks
import Blinex.Native.NsRouter

/-!
# Where the userspace router connects to

`shouldForward` keeps the mesh and the host itself out of reach of the peers. Dialling an
IPv4-mapped address connects to the IPv4 address, so what counts is the destination without its
mapping. Most tests of `netip` look through a mapping; containment in the mesh and the test for
the unspecified address do not, and `forward_gate_iff` says what that lets through.
-/

namespace Blinex.Spec

open Blinex.Go Blinex.Native

/-- An address the router must not connect to, without a mapping. -/
def Forbidden (u : Addr) : Prop :=
  u.isLoopback = true ∨ u.isUnspecified = true ∨ u.isLinkLocalUnicast = true ∨
    u.isMulticast = true ∨ meshExclude.contains u = true

/-- The router forwards to no forbidden address and to a private one only through a subnet that
    is not the default route; and it forwards to every other address of its subnets. -/
structure GateExact (n : RoutingNet) (dst : Addr) : Prop where
  safe : n.shouldForward dst = true → ¬Forbidden dst.unmap ∧
    (dst.unmap.isPrivate = true → ∃ s ∈ n.subnets, s.bits ≠ 0 ∧ s.contains dst = true)
  complete : dst.is4In6 = false → ¬Forbidden dst →
    (∃ s ∈ n.subnets, s.contains dst = true ∧ (dst.isPrivate = true → s.bits ≠ 0)) →
    n.shouldForward dst = true

/-- The mapped form of the unspecified address or of a mesh address, in a configured subnet. -/
def MappedLeak (n : RoutingNet) (dst : Addr) : Prop :=
  dst.is4In6 = true ∧
    (dst.unmap.isUnspecified = true ∨ meshExclude.contains dst.unmap = true) ∧
    ∃ s ∈ n.subnets, s.contains dst = true

/-! ## The tests of `netip` -/

section Unmap

variable (dst : Addr)

/-- The test unmaps by itself. -/
@[simp] theorem isLoopback_unmap : dst.unmap.isLoopback = dst.isLoopback := by
  simp only [Addr.isLoopback, Addr.unmap_unmap]

/-- The test unmaps by itself. -/
@[simp] theorem isLinkLocalUnicast_unmap :
    dst.unmap.isLinkLocalUnicast = dst.isLinkLocalUnicast := by
  simp only [Addr.isLinkLocalUnicast, Addr.unmap_unmap]

/-- The test unmaps by itself. -/
@[simp] theorem isMulticast_unmap : dst.unmap.isMulticast = dst.isMulticast := by
  simp only [Addr.isMulticast, Addr.unmap_unmap]

/-- The test unmaps by itself. -/
@[simp] theorem isPrivate_unmap : dst.unmap.isPrivate = dst.isPrivate := by
  simp only [Addr.isPrivate, Addr.unmap_unmap]

end Unmap

/-- A mapped address is not the unspecified one to `netip`, nor in the mesh. -/
private theorem mapped_not_excluded {dst : Addr} (h : dst.is4In6 = true) :
    dst.isUnspecified = false ∧ meshExclude.contains dst = false := by
  cases dst with
  | invalid => cases h
  | v4 a => cases h
  | v6 a z =>
    refine ⟨?_, rfl⟩
    have hne : Addr.v6 a z ≠ .v6 0 "" := by
      intro heq
      rw [heq] at h
      exact absurd h (by decide)
    simp only [Addr.isUnspecified, Bool.or_eq_false_iff, beq_eq_false_iff_ne]
    exact ⟨nofun, hne⟩

/-- The leading bits of a mesh address. -/
private theorem mesh_toNat {a : BitVec 32} (h : meshExclude.contains (.v4 a) = true) :
    a.toNat / 2 ^ 22 = 401 := by
  have hblock : a >>> 22 = 0x64400000 >>> 22 := (Prefix.contains_v4_iff _ a 10 _).mp h
  have hnat := congrArg BitVec.toNat hblock
  rw [BitVec.toNat_ushiftRight, Nat.shiftRight_eq_div_pow] at hnat
  exact hnat

/-- The unspecified address and those of the mesh are in none of the other classes. -/
private theorem excluded_ordinary {a : BitVec 32}
    (h : (Addr.v4 a).isUnspecified = true ∨ meshExclude.contains (.v4 a) = true) :
    (Addr.v4 a).isLoopback = false ∧ (Addr.v4 a).isLinkLocalUnicast = false ∧
      (Addr.v4 a).isMulticast = false ∧ (Addr.v4 a).isPrivate = false := by
  have hval : a.toNat = 0 ∨ a.toNat / 2 ^ 22 = 401 := by
    rcases h with h | h
    · simp only [Addr.isUnspecified, Bool.or_eq_true, beq_iff_eq, Addr.v4.injEq, reduceCtorEq,
        or_false] at h
      exact .inl (congrArg BitVec.toNat h)
    · exact .inr (mesh_toNat h)
  -- a class fixes other leading bits
  have hshift (k : Nat) (b : BitVec 32) (hb : a.toNat / 2 ^ k ≠ b.toNat) :
      (a >>> k == b) = false := by
    rw [beq_eq_false_iff_ne]
    intro heq
    refine hb ?_
    rw [← heq, BitVec.toNat_ushiftRight, Nat.shiftRight_eq_div_pow]
  have hloopback := hshift 24 127 (by show a.toNat / 2 ^ 24 ≠ 127; omega)
  have hlinkLocal := hshift 16 0xa9fe (by show a.toNat / 2 ^ 16 ≠ 0xa9fe; omega)
  have hmulticast := hshift 28 0xe (by show a.toNat / 2 ^ 28 ≠ 0xe; omega)
  have hprivate8 := hshift 24 10 (by show a.toNat / 2 ^ 24 ≠ 10; omega)
  have hprivate12 := hshift 20 0xac1 (by show a.toNat / 2 ^ 20 ≠ 0xac1; omega)
  have hprivate16 := hshift 16 0xc0a8 (by show a.toNat / 2 ^ 16 ≠ 0xc0a8; omega)
  refine ⟨hloopback, hlinkLocal, hmulticast, ?_⟩
  show (a >>> 24 == 10 || a >>> 20 == 0xac1 || a >>> 16 == 0xc0a8) = false
  rw [hprivate8, hprivate12, hprivate16]
  rfl

/-! ## The gate -/

/-- What the gate lets through: not forbidden, and in a subnet that is not a default route for a
    private address. -/
private theorem shouldForward_iff (n : RoutingNet) (dst : Addr) :
    n.shouldForward dst = true ↔ ¬Forbidden dst ∧
      ∃ s ∈ n.subnets, s.contains dst = true ∧ (dst.isPrivate = true → s.bits ≠ 0) := by
  -- an address that is in a subnet is valid
  have hvalid : ∀ s : Prefix, s.contains dst = true → dst.isValid = true := by
    intro s hs
    cases dst with
    | invalid =>
      unfold Prefix.contains at hs
      split at hs <;> simp_all
    | v4 a => rfl
    | v6 a z => rfl
  have hsubnet : ∀ s : Prefix, (s.contains dst && !(s.bits == 0 && dst.isPrivate)) = true ↔
      s.contains dst = true ∧ (dst.isPrivate = true → s.bits ≠ 0) := by
    intro s
    cases dst.isPrivate <;> simp
  -- the tests that come first, as one disjunction
  have htests : (!dst.isValid || dst.isLoopback || dst.isUnspecified || dst.isLinkLocalUnicast ||
      dst.isMulticast || meshExclude.contains dst) = true ↔
      dst.isValid = false ∨ Forbidden dst := by
    simp only [Forbidden, Bool.or_eq_true, Bool.not_eq_true', or_assoc]
  unfold RoutingNet.shouldForward
  by_cases hno : dst.isValid = false ∨ Forbidden dst
  · rw [if_pos (htests.mpr hno)]
    refine iff_of_false Bool.false_ne_true ?_
    rintro ⟨hok, s, _, hs, _⟩
    rcases hno with hinvalid | hforbidden
    · rw [hvalid s hs] at hinvalid
      cases hinvalid
    · exact hok hforbidden
  · rw [if_neg (mt htests.mp hno), List.any_eq_true]
    simp only [hsubnet]
    exact (and_iff_right fun h => hno (.inr h)).symm

/-- An address that is not mapped passes exactly as it should. -/
private theorem gateExact_of_not_mapped {n : RoutingNet} {dst : Addr} (h : dst.is4In6 = false) :
    GateExact n dst := by
  refine ⟨fun hfwd => ?_, fun _ hok hsub => (shouldForward_iff n dst).mpr ⟨hok, hsub⟩⟩
  obtain ⟨hok, s, hs, hin, hbits⟩ := (shouldForward_iff n dst).mp hfwd
  rw [Addr.unmap_of_not_is4In6 h]
  exact ⟨hok, fun hpriv => ⟨s, hs, hbits hpriv, hin⟩⟩

/-- A mapped address passes if the tests that look through the mapping let it. -/
private theorem shouldForward_mapped_leak {n : RoutingNet} {dst : Addr} (h : MappedLeak n dst) :
    n.shouldForward dst = true := by
  obtain ⟨hmapped, hexcluded, s, hs, hin⟩ := h
  obtain ⟨a, ha⟩ := Addr.unmap_of_is4In6 hmapped
  obtain ⟨hunspec, hmesh⟩ := mapped_not_excluded hmapped
  rw [ha] at hexcluded
  -- the three tests that unmap see an ordinary address, the other two see the mapped one
  obtain ⟨hloop, hlink, hmulti, hpriv⟩ := excluded_ordinary hexcluded
  rw [← ha, isLoopback_unmap] at hloop
  rw [← ha, isLinkLocalUnicast_unmap] at hlink
  rw [← ha, isMulticast_unmap] at hmulti
  rw [← ha, isPrivate_unmap] at hpriv
  refine (shouldForward_iff n dst).mpr ⟨?_, s, hs, hin, ?_⟩
  · simp [Forbidden, hloop, hunspec, hlink, hmulti, hmesh]
  · simp [hpriv]

/-- Without a leak the gate is exact. -/
private theorem gateExact_of_not_leak {n : RoutingNet} {dst : Addr} (h : ¬MappedLeak n dst) :
    GateExact n dst := by
  cases hmapped : dst.is4In6 with
  | false => exact gateExact_of_not_mapped hmapped
  | true =>
    refine ⟨fun hfwd => ?_, fun hplain => ?_⟩
    · obtain ⟨hok, s, hs, hin, hbits⟩ := (shouldForward_iff n dst).mp hfwd
      rw [isPrivate_unmap]
      refine ⟨?_, fun hpriv => ⟨s, hs, hbits hpriv, hin⟩⟩
      unfold Forbidden at hok ⊢
      rw [isLoopback_unmap, isLinkLocalUnicast_unmap, isMulticast_unmap]
      -- each reason to forbid the unmapped address is seen by the gate, or is a leak
      rintro (hloop | hunspec | hlink | hmulti | hmesh)
      · exact hok (.inl hloop)
      · exact h ⟨hmapped, .inl hunspec, s, hs, hin⟩
      · exact hok (.inr (.inr (.inl hlink)))
      · exact hok (.inr (.inr (.inr (.inl hmulti))))
      · exact h ⟨hmapped, .inr hmesh, s, hs, hin⟩
    · rw [hmapped] at hplain
      cases hplain

/-- **What the userspace router lets through.** For every list of subnets and every destination,
    the gate is exact unless the destination is the mapped form of 0.0.0.0 or of a mesh address
    and lies in a configured subnet. -/
theorem forward_gate_iff (n : RoutingNet) (dst : Addr) :
    GateExact n dst ↔ ¬MappedLeak n dst := by
  constructor
  · intro hgate hleak
    have hsafe := (hgate.safe (shouldForward_mapped_leak hleak)).1
    rcases hleak.2.1 with hunspec | hmesh
    · exact hsafe (.inr (.inl hunspec))
    · exact hsafe (.inr (.inr (.inr (.inr hmesh))))
  · exact gateExact_of_not_leak

/-- `::ffff:100.64.0.1`. -/
def mappedMesh : Addr := .v6 ((0xffff#96) ++ 0x64400001#32) ""

/-- An exit node for IPv6. -/
def exitRouter : RoutingNet where
  localAddr := .v4 0x64400002
  subnets := (Netip.parsePrefix "::/0").toList

/-- The exit node connects to the mesh when the address comes mapped. -/
theorem mapped_mesh_forwarded :
    exitRouter.shouldForward mappedMesh = true ∧ mappedMesh.unmap = .v4 0x64400001 ∧
      ¬GateExact exitRouter mappedMesh := by
  have hfwd : exitRouter.shouldForward mappedMesh = true := by decide +kernel
  have hunmap : mappedMesh.unmap = .v4 0x64400001 := by decide +kernel
  refine ⟨hfwd, hunmap, fun h => (h.safe hfwd).1 ?_⟩
  rw [hunmap]
  exact .inr (.inr (.inr (.inr (by decide))))

/-! ## The forwarders -/

section Forwarders

variable {n : RoutingNet} {acquire endpoint : Bool} {remote dst packet : List UInt8}
  {port : BitVec 16} {addr : Addr}

/-- A TCP connection goes where the gate lets it, or to a service of the host. -/
private theorem handleTCP_dials (h : n.handleTCP acquire endpoint remote dst port = some addr) :
    n.shouldForward addr = true ∨
      addrFromSlice dst = some n.localAddr ∧ addr = addrFrom4 127 0 0 1 := by
  -- the address that is dialled passed the gate, or is the host's own
  unfold RoutingNet.handleTCP at h
  split at h
  · cases h
  · rename_i a ha
    dsimp only at h
    split at h
    · cases h
    · rename_i hgate
      split at h
      · cases h
      · split at h
        · cases h
        · obtain rfl := Option.some.inj h
          cases hlocal : a == n.localAddr with
          | true =>
            rw [ha, beq_iff_eq.mp hlocal]
            exact .inr ⟨rfl, rfl⟩
          | false =>
            rw [hlocal] at hgate
            exact .inl (by simpa using hgate)

/-- An address that is dialled for UDP passed the gate. -/
private theorem handleUDP_dials (h : n.handleUDP acquire endpoint remote dst port = some addr) :
    n.shouldForward addr = true := by
  unfold RoutingNet.handleUDP at h
  split at h
  · cases h
  · split at h
    · cases h
    · rename_i hgate
      -- past the gate: the policy and the slot
      split at h
      · cases h
      · split at h
        · cases h
        · obtain rfl := Option.some.inj h
          simpa using hgate

/-- Apart from the leak and from services of the host, nothing forbidden is dialled. -/
theorem dialled_not_forbidden
    (h : n.handleTCP acquire endpoint remote dst port = some addr ∨
      n.handleUDP acquire endpoint remote dst port = some addr)
    (hlocal : addrFromSlice dst ≠ some n.localAddr) (hno : ¬MappedLeak n addr) :
    ¬Forbidden addr.unmap := by
  have hfwd : n.shouldForward addr = true := by
    rcases h with h | h
    · exact (handleTCP_dials h).resolve_right fun hservice => hlocal hservice.1
    · exact handleUDP_dials h
  exact ((gateExact_of_not_leak hno).safe hfwd).1

/-- Four bytes or fewer make an IPv4 address, if any. -/
private theorem is4_of_addrFromSlice {b : List UInt8} (h : addrFromSlice b = some addr)
    (hlen : b.length ≤ 4) : addr.is4 = true := by
  unfold addrFromSlice at h
  split at h
  · obtain rfl := Option.some.inj h
    rfl
  · split at h
    · omega
    · cases h

/-- A ping goes where the gate lets it, and to an IPv4 address. -/
private theorem interceptICMPv4_pings (h : (n.interceptICMPv4 acquire packet).2 = some addr) :
    n.shouldForward addr = true ∧ addr.is4 = true := by
  unfold RoutingNet.interceptICMPv4 at h
  -- every branch but the last pings nothing
  split at h
  · cases h
  split at h
  · cases h
  dsimp only at h
  split at h
  · cases h
  split at h
  · cases h
  split at h
  · cases h
  rename_i a ha
  split at h
  · cases h
  rename_i hgate
  split at h
  · cases h
  split at h
  · cases h
  split at h
  · cases h
  obtain rfl := Option.some.inj h
  exact ⟨by simpa using hgate, is4_of_addrFromSlice ha (List.length_take_le _ _)⟩

/-- No ping leaves for a forbidden address: there is no mapping in an IPv4 packet. -/
theorem pinged_not_forbidden (h : (n.interceptICMPv4 acquire packet).2 = some addr) :
    ¬Forbidden addr.unmap := by
  obtain ⟨hfwd, hv4⟩ := interceptICMPv4_pings h
  cases addr with
  | v4 a => exact ((shouldForward_iff n _).mp hfwd).1
  | invalid => cases hv4
  | v6 a z => cases hv4

end Forwarders

end Blinex.Spec
