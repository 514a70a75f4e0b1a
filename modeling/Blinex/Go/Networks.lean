import Blinex.ForStd.Blocks
import Blinex.Go.Netip

/-!
# The IPv4 addresses of a network

`net` and `netip` disagree about which networks have IPv4 addresses in them: to
`net.IPNet.Contains` a network of IPv4-mapped IPv6 addresses is an IPv4 network, to
`netip.Prefix.Contains` it is not. In both packages the IPv4 addresses of an IPv4 network are a
`Block`.
-/

namespace Blinex.Go

namespace Net

/-- The IPv4 addresses that `IPNet.Contains` finds in a network. -/
def v4Addrs (n : Prefix) : Set (BitVec 32) := {x | contains n ((0xffff#96) ++ x) = true}

/-- The length of the host part of an IPv4 network. -/
def hostBits (n : Prefix) : Nat := 32 - (if n.addr.is4 then n.bits else n.bits - 96)

/-- The IPv4 addresses of a network with an IPv4 address are a block. -/
theorem v4Addrs_of_to4 {n : Prefix} {a : BitVec 32} (h : to4 n.addr.as16 = some a) :
    v4Addrs n = Block (hostBits n) a := by
  ext x
  simp only [v4Addrs, Set.mem_ofPred_eq, contains, h, to4_mapped, beq_iff_eq, Block.mem_iff]
  exact eq_comm

/-- A network of IPv6 has no IPv4 address in it. -/
private theorem v4Addrs_of_none {n : Prefix} (h : to4 n.addr.as16 = none) : v4Addrs n = ∅ := by
  ext x
  simp only [v4Addrs, Set.mem_ofPred_eq, contains, h, to4_mapped, Bool.false_eq_true,
    Set.mem_empty_iff_false]

/-- A network has IPv4 addresses if its own address is one, mapped or not. -/
theorem v4Addrs_eq_empty_iff (n : Prefix) : v4Addrs n = ∅ ↔ to4 n.addr.as16 = none := by
  cases h : to4 n.addr.as16 with
  | none => exact iff_of_true (v4Addrs_of_none h) rfl
  | some a =>
    rw [v4Addrs_of_to4 h]
    refine iff_of_false (fun hempty => ?_) (by simp)
    have hself : a ∈ Block (hostBits n) a := Block.mem_self
    rw [hempty] at hself
    exact hself

/-- The network around an IPv4 address. -/
theorem v4Addrs_masked (a : BitVec 32) (bits : Nat) (h : bits ≤ 32) :
    v4Addrs (Prefix.masked ⟨.v4 a, bits, h⟩) = Block (32 - bits) a := by
  have hto4 : to4 (Prefix.masked ⟨.v4 a, bits, h⟩).addr.as16 =
      some (a >>> (32 - bits) <<< (32 - bits)) := by
    simp only [Prefix.masked, Prefix.maskAddr, Addr.as16, to4_mapped]
  have hbits : hostBits (Prefix.masked ⟨.v4 a, bits, h⟩) = 32 - bits := rfl
  rw [v4Addrs_of_to4 hto4, hbits]
  exact Block.eq_of_mem (Block.clear_mem (32 - bits) a)

/-- Two networks have an IPv4 address in common exactly when one contains the address of the
    other. -/
theorem v4Addrs_meet_iff {m n : Prefix} {a : BitVec 32} (hm : to4 m.addr.as16 = some a) :
    (∃ x, x ∈ v4Addrs m ∧ x ∈ v4Addrs n) ↔
      (contains m n.addr.as16 || contains n m.addr.as16) = true := by
  cases hn : to4 n.addr.as16 with
  | none => simp [v4Addrs_of_none hn, contains, hm, hn]
  | some b =>
    rw [v4Addrs_of_to4 hm, v4Addrs_of_to4 hn, Block.meets_iff, Block.mem_comm,
      Block.mem_comm (k := hostBits m), Bool.or_eq_true, or_comm]
    simp only [contains, hm, hn, beq_iff_eq, Block.mem_iff, hostBits]

end Net

/-- The IPv4 addresses that `Prefix.Contains` finds in an IPv4 prefix. -/
theorem Prefix.contains_v4_iff (a x : BitVec 32) (bits : Nat) (h : bits ≤ 32) :
    Prefix.contains ⟨.v4 a, bits, h⟩ (.v4 x) = true ↔ x ∈ Block (32 - bits) a := by
  simp only [Prefix.contains, beq_iff_eq, Block.mem_iff, BitVec.ushiftRight_xor_distrib]
  exact BitVec.xor_eq_zero_iff

end Blinex.Go
