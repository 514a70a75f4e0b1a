import Blinex.Spec.MeshAddresses

/-!
# The pool of addresses

What `Allocate` hands out lies between `next` and the end of the pool. `next` starts behind the
leading four bytes of the network address, and only grows. For an IPv4 network those are the
network address itself and the pool ends at the broadcast address; the one network where `next`
starts at zero instead is 255.255.255.255/32. For an IPv6 network they are no address of it.

An address that is released stays behind `next`: it is not handed out again, and the pool is
exhausted when the addresses handed out so far, not the leases, have reached the hosts.
-/

namespace Blinex.Spec

open Blinex.Go Blinex.Native

/-! ## Blocks -/

/-- The last address of a block, in the form of `As16`; the broadcast address for IPv4. -/
def lastAddr (n : Prefix) : BitVec 128 :=
  n.addr.as16 ||| BitVec.allOnes 128 >>> (if n.addr.is4 then 96 + n.bits else n.bits)

/-- An IPv4 address is in the block, and neither the first nor the last of it. -/
structure HostOf (n : Prefix) (host : BitVec 32) : Prop where
  contains : Net.contains n ((0xffff#96) ++ host) = true
  ne_network : (0xffff#96) ++ host ≠ n.addr.as16
  ne_broadcast : (0xffff#96) ++ host ≠ lastAddr n

/-- How many addresses are strictly between the first and the last. -/
def hostCount (n : Prefix) : Nat := (lastAddr n).toNat - n.addr.as16.toNat - 1

/-- The last `k` bits of a word. -/
private theorem toNat_allOnes_ushiftRight {w k : Nat} (hk : k ≤ w) :
    (BitVec.allOnes w >>> (w - k)).toNat = 2 ^ k - 1 := by
  have hsplit : 2 ^ w = 2 ^ k * 2 ^ (w - k) := by
    rw [← Nat.pow_add, Nat.add_sub_cancel' hk]
  have hk0 : 0 < 2 ^ k := Nat.two_pow_pos k
  have hwk0 : 0 < 2 ^ (w - k) := Nat.two_pow_pos (w - k)
  rw [BitVec.toNat_ushiftRight, BitVec.toNat_allOnes, Nat.shiftRight_eq_div_pow, hsplit]
  apply Nat.div_eq_of_lt_le
  · rw [Nat.sub_mul]
    omega
  · rw [Nat.sub_add_cancel hk0]
    have hpos : 0 < 2 ^ k * 2 ^ (w - k) := Nat.mul_pos hk0 hwk0
    omega

/-- Filling up the cleared bits of a word adds them. -/
private theorem toNat_or_low {w k q : Nat} (hk : k ≤ w) {x : BitVec w} (hx : x.toNat = q * 2 ^ k) :
    (x ||| BitVec.allOnes w >>> (w - k)).toNat = x.toNat + (2 ^ k - 1) := by
  have hlow : 2 ^ k - 1 < 2 ^ k := Nat.sub_lt (Nat.two_pow_pos k) Nat.one_pos
  rw [BitVec.toNat_or, toNat_allOnes_ushiftRight hk, hx, ← Nat.shiftLeft_eq,
    Nat.shiftLeft_add_eq_or_of_lt hlow]

/-- Shifting down and up again clears the low bits. -/
private theorem toNat_clear_low {w k : Nat} (x : BitVec w) :
    (x >>> k <<< k).toNat = x.toNat / 2 ^ k * 2 ^ k := by
  rw [BitVec.toNat_shiftLeft, BitVec.toNat_ushiftRight, Nat.shiftRight_eq_div_pow,
    Nat.shiftLeft_eq]
  exact Nat.mod_eq_of_lt (Nat.lt_of_le_of_lt (Nat.div_mul_le_self _ _) x.isLt)

/-- The leading four bytes of a network have no host bits. -/
private theorem leading32_masked (p : Prefix) :
    ∃ q, (leading32 p.masked.addr).toNat = q * 2 ^ (32 - p.bits) := by
  obtain ⟨addr, bits, hbits⟩ := p
  cases addr with
  | invalid => exact ⟨0, by rw [Nat.zero_mul]; rfl⟩
  | v4 a => exact ⟨_, toNat_clear_low a⟩
  | v6 b zone =>
    -- the four bytes read are the leading ones: up to 32 bits of the length show in them
    by_cases hle : bits ≤ 32
    · have hsplit : 2 ^ (128 - bits) = 2 ^ (32 - bits) * 2 ^ 96 := by
        rw [← Nat.pow_add]
        congr 1
        omega
      refine ⟨b.toNat / 2 ^ (128 - bits), ?_⟩
      have hlt : b.toNat / 2 ^ (128 - bits) * 2 ^ (32 - bits) < 2 ^ 32 := by
        have hb := b.isLt
        have hmul := Nat.div_mul_le_self b.toNat (2 ^ (128 - bits))
        rw [hsplit, ← Nat.mul_assoc] at hmul
        rw [hsplit]
        omega
      show (((b >>> (128 - bits) <<< (128 - bits)) >>> 96).setWidth 32).toNat = _
      rw [BitVec.toNat_setWidth, BitVec.toNat_ushiftRight, toNat_clear_low,
        Nat.shiftRight_eq_div_pow, hsplit, ← Nat.mul_assoc, Nat.mul_div_cancel _ (by decide),
        ← hsplit, Nat.mod_eq_of_lt hlt]
    · refine ⟨(leading32 (Prefix.masked ⟨.v6 b zone, bits, hbits⟩).addr).toNat, ?_⟩
      rw [show 32 - bits = 0 by omega, Nat.pow_zero, Nat.mul_one]

/-- `net.ParseCIDR` gives a network by its first address. -/
private theorem parseCIDR_masked {s : String} {n : Prefix} (h : Net.parseCIDR s = some n) :
    ∃ p : Prefix, n = p.masked := by
  obtain ⟨ip, bits, t, heq⟩ := Netip.exists_cidrText h
  exact ⟨_, heq⟩

/-- The address where the pool ends; `Allocate` calls it the broadcast address. -/
def poolEnd (i : IPAM) : BitVec 32 := i.network ||| ~~~i.mask

/-- A new pool: the first address is the network's own, the rest are the host bits. -/
structure PoolOf (n : Prefix) (i : IPAM) : Prop where
  base : i.network = leading32 n.addr
  first : i.next = leading32 n.addr + 1
  empty : i.leased = PMap.empty
  last : (poolEnd i).toNat = (leading32 n.addr).toNat + (2 ^ (32 - n.bits) - 1)
  aligned : ∃ q, (leading32 n.addr).toNat = q * 2 ^ (32 - n.bits)

/-- The pool that `NewIPAM` makes for a network. -/
theorem PoolOf.new {cidr : String} {n : Prefix} {i : IPAM} (hn : Net.parseCIDR cidr = some n)
    (hi : IPAM.newIPAM cidr = some i) : PoolOf n i := by
  obtain ⟨p, rfl⟩ := parseCIDR_masked hn
  rw [IPAM.newIPAM, hn] at hi
  obtain rfl := Option.some.inj hi
  obtain ⟨q, hq⟩ := leading32_masked p
  refine ⟨rfl, rfl, rfl, ?_, q, hq⟩
  have hmask : ~~~(~~~(BitVec.allOnes 32 >>> p.bits)) =
      BitVec.allOnes 32 >>> (32 - (32 - p.bits)) := by
    rw [BitVec.not_not]
    -- a length over 32 shifts everything out
    by_cases hle : p.bits ≤ 32
    · rw [show 32 - (32 - p.bits) = p.bits by omega]
    · rw [BitVec.ushiftRight_eq_zero (by omega), BitVec.ushiftRight_eq_zero (by omega)]
  show (leading32 p.masked.addr ||| ~~~(~~~(BitVec.allOnes 32 >>> p.bits))).toNat = _
  rw [hmask, toNat_or_low (Nat.sub_le _ _) hq]
  rfl

/-! ## Growth -/

/-- The block stays, and `next` only grows. -/
structure GrownFrom (i j : IPAM) : Prop where
  pool : poolEnd j = poolEnd i
  next : i.next ≤ j.next

theorem GrownFrom.trans {i j k : IPAM} (h : GrownFrom i j) (h' : GrownFrom j k) :
    GrownFrom i k :=
  ⟨h'.pool.trans h.pool, BitVec.le_trans h.next h'.next⟩

/-- A call never takes the pool back. -/
theorem ipamStep_grown (i : IPAM) (c : IpamCall) : GrownFrom i (ipamStep i c) := by
  cases c with
  | release k => exact ⟨rfl, BitVec.le_refl _⟩
  | allocate k =>
    rcases allocate_cases i k with ⟨host, _, heq⟩ | ⟨_, _, heq⟩ | ⟨_, hfree, heq⟩
    · rw [ipamStep, heq]
      exact ⟨rfl, BitVec.le_refl _⟩
    · rw [ipamStep, heq]
      exact ⟨rfl, BitVec.le_refl _⟩
    · rw [ipamStep, heq]
      exact ⟨rfl, BitVec.le_of_lt (lt_succ_of_lt hfree)⟩

/-- Neither does a preloaded peer, but for the one address that wraps. -/
private theorem preloadPeer_grown (i : IPAM) {p : Domain.Peer}
    (hlast : IPAM.preloadHost p ≠ some (BitVec.allOnes 32)) : GrownFrom i (i.preloadPeer p) := by
  unfold IPAM.preloadPeer
  split
  · exact ⟨rfl, BitVec.le_refl _⟩
  · rename_i host hhost
    have hlt : host < host + 1 := lt_succ_of_ne fun heq => hlast (heq ▸ hhost)
    refine ⟨rfl, ?_⟩
    show i.next ≤ if i.next ≤ host then host + 1 else i.next
    split
    · bv_omega
    · exact BitVec.le_refl _

/-- Nor does a run of calls. -/
private theorem calls_grown (i : IPAM) (calls : List IpamCall) :
    GrownFrom i (calls.foldl ipamStep i) := by
  induction calls generalizing i with
  | nil => exact ⟨rfl, BitVec.le_refl _⟩
  | cons c calls ih => exact (ipamStep_grown i c).trans (ih _)

/-- Nor do the preloaded peers. -/
theorem preloadPeers_grown (i : IPAM) {peers : List Domain.Peer}
    (hlast : ∀ p ∈ peers, IPAM.preloadHost p ≠ some (BitVec.allOnes 32)) :
    GrownFrom i (i.preloadPeers peers) := by
  unfold IPAM.preloadPeers
  induction peers generalizing i with
  | nil => exact ⟨rfl, BitVec.le_refl _⟩
  | cons p peers ih =>
    exact (preloadPeer_grown i (hlast p List.mem_cons_self)).trans
      (ih _ fun q hq => hlast q (List.mem_cons_of_mem _ hq))

/-- A new lease is `next`, and inside the pool. -/
private theorem allocate_new {i : IPAM} {k ip : String} (hfree : i.leased k = none)
    (hok : (i.allocate k).1 = .ok ip) : ip = hostToIP i.next ∧ i.next < poolEnd i := by
  rcases allocate_cases i k with ⟨host, hk, _⟩ | ⟨_, _, heq⟩ | ⟨_, hlt, heq⟩
  · rw [hfree] at hk
    cases hk
  · rw [heq] at hok
    cases hok
  · rw [heq] at hok
    exact ⟨(Except.ok.inj hok).symm, hlt⟩

/-! ## New leases and their network -/

/-- The last address of an IPv4 block, with its host bits. -/
private theorem lastAddr_toNat {n : Prefix} {a : BitVec 32} {q : Nat} (hn : n.addr = .v4 a)
    (ha : a.toNat = q * 2 ^ (32 - n.bits)) :
    (lastAddr n).toNat = ((0xffff#96) ++ a).toNat + (2 ^ (32 - n.bits) - 1) := by
  have hbits : n.bits ≤ 32 := by
    have hle := n.bits_le
    rw [hn] at hle
    exact hle
  -- the block is a multiple of its size, mapped or not
  have hmapped : ((0xffff#96) ++ a).toNat = (65535 * 2 ^ n.bits + q) * 2 ^ (32 - n.bits) := by
    rw [Net.toNat_mapped, ha, Nat.add_mul, Nat.mul_assoc, ← Nat.pow_add,
      Nat.add_sub_cancel' hbits]
  have hlow := toNat_or_low (show 32 - n.bits ≤ 128 by omega) hmapped
  rw [show 128 - (32 - n.bits) = 96 + n.bits by omega] at hlow
  rw [lastAddr, hn]
  exact hlow

/-- Strictly between the first and the last address of an IPv4 block are its hosts. -/
private theorem HostOf.of_between {n : Prefix} {a host : BitVec 32} {q : Nat} (hn : n.addr = .v4 a)
    (ha : a.toNat = q * 2 ^ (32 - n.bits)) (hlow : a < host)
    (hhigh : host.toNat < a.toNat + (2 ^ (32 - n.bits) - 1)) : HostOf n host := by
  have hlow' : a.toNat < host.toNat := hlow
  constructor
  · -- between the first and the last address of the block the leading bits agree
    have hprefix : a >>> (32 - n.bits) = host >>> (32 - n.bits) := by
      apply BitVec.eq_of_toNat_eq
      rw [BitVec.toNat_ushiftRight, BitVec.toNat_ushiftRight, Nat.shiftRight_eq_div_pow,
        Nat.shiftRight_eq_div_pow, ha, Nat.mul_div_cancel _ (Nat.two_pow_pos _)]
      symm
      apply Nat.div_eq_of_lt_le
      · omega
      · rw [Nat.add_mul]
        omega
    simp only [Net.contains, hn, Addr.as16, Net.to4_mapped, Addr.is4, ↓reduceIte, hprefix,
      BEq.rfl]
  · rw [hn]
    intro heq
    rw [Net.mapped_inj heq] at hlow'
    exact Nat.lt_irrefl _ hlow'
  · intro heq
    have hnat := congrArg BitVec.toNat heq
    rw [lastAddr_toNat hn ha, Net.toNat_mapped, Net.toNat_mapped] at hnat
    omega

/-- 255.255.255.255/32 has no other address. -/
private theorem not_hostOf_last {n : Prefix} {host : BitVec 32}
    (hn : n.addr = .v4 (BitVec.allOnes 32)) (hbits : n.bits = 32)
    (hhost : host < BitVec.allOnes 32) : ¬ HostOf n host := by
  intro h
  have hin := h.contains
  simp only [Net.contains, hn, hbits, Addr.as16, Net.to4_mapped, Addr.is4, ↓reduceIte,
    Nat.sub_self, BitVec.ushiftRight_zero, beq_iff_eq] at hin
  rw [hin] at hhost
  exact BitVec.lt_irrefl _ hhost

theorem exists_of_is4 {addr : Addr} (h : addr.is4 = true) : ∃ a, addr = .v4 a := by
  cases addr with
  | v4 a => exact ⟨a, rfl⟩
  | invalid => cases h
  | v6 b zone => cases h

/-- The addresses of an IPv4 pool are hosts of the network, unless `next` has wrapped around at
    its start. -/
private theorem pool_hostOf_iff {n : Prefix} {i : IPAM} (hpool : PoolOf n i) {a host : BitVec 32}
    (ha : n.addr = .v4 a) (hlow : a + 1 ≤ host) (hhigh : host < poolEnd i) :
    HostOf n host ↔ a ≠ BitVec.allOnes 32 := by
  obtain ⟨q, hq⟩ := hpool.aligned
  have hlast := hpool.last
  rw [ha] at hq hlast
  have hlast' : (poolEnd i).toNat = a.toNat + (2 ^ (32 - n.bits) - 1) := hlast
  have hhigh' : host.toNat < (poolEnd i).toNat := hhigh
  have hlt := (poolEnd i).isLt
  constructor
  · -- the block is the last address alone, and `next` has wrapped around to zero
    rintro hhost rfl
    rw [BitVec.toNat_allOnes] at hlast'
    have hbits : n.bits = 32 := by
      have hle := n.bits_le
      rw [ha] at hle
      have hle' : n.bits ≤ 32 := hle
      rcases Nat.eq_zero_or_pos (32 - n.bits) with hzero | hpos
      · omega
      · have hpow := Nat.pow_le_pow_right (show 0 < 2 by decide) hpos
        omega
    refine not_hostOf_last ha hbits ?_ hhost
    show host.toNat < (BitVec.allOnes 32).toNat
    rw [BitVec.toNat_allOnes]
    omega
  · intro hne
    have hsucc := lt_succ_of_ne hne
    exact .of_between ha hq (by bv_omega) (by omega)

/-- A network of mapped addresses has a long prefix. -/
private theorem to4_clear_low {b : BitVec 128} {bits : Nat} (hbits : bits ≤ 80) :
    Net.to4 (b >>> (128 - bits) <<< (128 - bits)) = none := by
  cases hto4 : Net.to4 (b >>> (128 - bits) <<< (128 - bits)) with
  | none => rfl
  | some a =>
    exfalso
    have hval := congrArg BitVec.toNat (Net.to4_eq_some hto4)
    rw [Net.toNat_mapped, toNat_clear_low] at hval
    have ha := a.isLt
    have hpow : 2 ^ 48 ≤ 2 ^ (128 - bits) := Nat.pow_le_pow_right (by decide) (by omega)
    -- a multiple of the power that is below it is zero
    rcases Nat.eq_zero_or_pos (b.toNat / 2 ^ (128 - bits)) with hzero | hpos
    · rw [hzero] at hval
      omega
    · have hle := Nat.le_mul_of_pos_left (2 ^ (128 - bits)) hpos
      omega

/-- A mapped IPv4 address has four leading bytes that are zero. -/
private theorem leading32_mapped {b : BitVec 128} {zone : String} {a : BitVec 32}
    (h : Net.to4 b = some a) : (leading32 (.v6 b zone)).toNat = 0 := by
  have hb := congrArg BitVec.toNat (Net.to4_eq_some h)
  have ha := a.isLt
  rw [Net.toNat_mapped] at hb
  show ((b >>> 96).setWidth 32).toNat = 0
  rw [BitVec.toNat_setWidth, BitVec.toNat_ushiftRight, Nat.shiftRight_eq_div_pow]
  omega

/-- An IPv6 block from which something is leased contains no IPv4 address. -/
private theorem contains_of_pool_v6 {cidr : String} {n : Prefix} {i : IPAM}
    (hn : Net.parseCIDR cidr = some n) (hpool : PoolOf n i) (h4 : n.addr.is4 = false)
    (hpos : 0 < (poolEnd i).toNat) (host : BitVec 32) :
    Net.contains n ((0xffff#96) ++ host) = false := by
  have hnone : Net.to4 n.addr.as16 = none := by
    obtain ⟨⟨addr, bits, hbits⟩, rfl⟩ := parseCIDR_masked hn
    cases addr with
    | invalid => exact (by decide : Net.to4 0 = none)
    | v4 a => cases h4
    | v6 b zone =>
      by_cases hshort : bits ≤ 80
      · exact to4_clear_low hshort
      · cases hto4 : Net.to4 (b >>> (128 - bits) <<< (128 - bits)) with
        | none => exact hto4
        | some a =>
          -- the pool would be empty: no host bits, and zeros in front
          have hlast := hpool.last
          rw [show leading32 (Prefix.masked ⟨.v6 b zone, bits, hbits⟩).addr =
              leading32 (.v6 (b >>> (128 - bits) <<< (128 - bits)) zone) from rfl,
            leading32_mapped hto4,
            show 32 - (Prefix.masked ⟨.v6 b zone, bits, hbits⟩).bits = 0 from
              Nat.sub_eq_zero_of_le (show 32 ≤ bits by omega)] at hlast
          omega
  simp only [Net.contains, hnone, Net.to4_mapped]

/-- A new lease lies in its network exactly if that is an IPv4 network other than
    255.255.255.255/32, for every network, every list of preloaded peers none of which has the
    address 255.255.255.255, and all calls before. -/
theorem new_lease_in_network_iff {cidr : String} {n : Prefix} {i : IPAM}
    (hn : Net.parseCIDR cidr = some n) (hi : IPAM.newIPAM cidr = some i)
    (peers : List Domain.Peer)
    (hpeers : ∀ p ∈ peers, Net.parseIP p.ip ≠ Net.parseIP "255.255.255.255")
    (calls : List IpamCall) {k ip : String}
    (hfree : (calls.foldl ipamStep (i.preloadPeers peers)).leased k = none)
    (hok : ((calls.foldl ipamStep (i.preloadPeers peers)).allocate k).1 = .ok ip) :
    (∃ host, Net.parseIP ip = some ((0xffff#96) ++ host) ∧ HostOf n host) ↔
      n.addr.is4 = true ∧ n.addr ≠ .v4 (BitVec.allOnes 32) := by
  have hpool := PoolOf.new hn hi
  have hgrown : GrownFrom i (calls.foldl ipamStep (i.preloadPeers peers)) := by
    refine (preloadPeers_grown i fun p hp hhost => hpeers p hp ?_).trans (calls_grown _ calls)
    exact (preloadHost_eq_some hhost).trans (by decide +kernel)
  obtain ⟨rfl, hlt⟩ := allocate_new hfree hok
  generalize calls.foldl ipamStep (i.preloadPeers peers) = s at hgrown hlt
  rw [hgrown.pool] at hlt
  have hhigh : s.next.toNat < (poolEnd i).toNat := hlt
  -- an IPv6 network is allocated from its leading bytes, as if they were an IPv4 address
  cases h4 : n.addr.is4 with
  | false =>
    constructor
    · rintro ⟨host, _, hhost⟩
      have hno := contains_of_pool_v6 hn hpool h4 (by omega) host
      rw [hhost.contains] at hno
      cases hno
    · rintro ⟨hfalse, _⟩
      cases hfalse
  | true =>
    obtain ⟨a, ha⟩ := exists_of_is4 h4
    have hlow : a + 1 ≤ s.next := by
      have hfirst := hpool.first
      rw [ha] at hfirst
      exact hfirst ▸ hgrown.next
    have hiff := pool_hostOf_iff hpool ha hlow hlt
    rw [ha]
    constructor
    · rintro ⟨host, hparse, hhost⟩
      rw [parseIP_hostToIP, Option.some.injEq] at hparse
      obtain rfl := Net.mapped_inj hparse
      exact ⟨rfl, fun heq => hiff.mp hhost (Addr.v4.inj heq)⟩
    · rintro ⟨_, hne⟩
      exact ⟨s.next, parseIP_hostToIP _, hiff.mpr fun heq => hne (heq ▸ rfl)⟩

/-- An answer to `Allocate` for a key without a lease, from the answer as data. -/
private theorem allocate_answer {cidr : String} {peers : List Domain.Peer} {calls : List IpamCall}
    {k : String} {res : Except String String}
    (hrun : (IPAM.newIPAM cidr).map (fun i =>
      ((calls.foldl ipamStep (i.preloadPeers peers)).leased k,
        ((calls.foldl ipamStep (i.preloadPeers peers)).allocate k).1)) = some (none, res)) :
    ∃ i, IPAM.newIPAM cidr = some i ∧
      (calls.foldl ipamStep (i.preloadPeers peers)).leased k = none ∧
      ((calls.foldl ipamStep (i.preloadPeers peers)).allocate k).1 = res := by
  obtain ⟨i, hi, heq⟩ := Option.map_eq_some_iff.mp hrun
  exact ⟨i, hi, (Prod.mk.inj heq).1, (Prod.mk.inj heq).2⟩

/-- D logs in after the peers of an earlier run, and gets the address after A's. -/
theorem storedPeers_new_lease : ∃ n i, Net.parseCIDR "10.0.0.0/24" = some n ∧
    IPAM.newIPAM "10.0.0.0/24" = some i ∧
    ((i.preloadPeers storedPeers).allocate "D").1 = .ok "10.0.0.3" ∧
    ((∃ host, Net.parseIP "10.0.0.3" = some ((0xffff#96) ++ host) ∧ HostOf n host) ↔
      n.addr.is4 = true ∧ n.addr ≠ .v4 (BitVec.allOnes 32)) := by
  obtain ⟨n, hn⟩ := Option.isSome_iff_exists.mp
    (show (Net.parseCIDR "10.0.0.0/24").isSome = true by decide +kernel)
  -- the answer is that of the run
  obtain ⟨i, hi, hfree, hok⟩ := allocate_answer
    (show (IPAM.newIPAM "10.0.0.0/24").map (fun i =>
      (([].foldl ipamStep (i.preloadPeers storedPeers)).leased "D",
        (([].foldl ipamStep (i.preloadPeers storedPeers)).allocate "D").1)) =
          some (none, .ok "10.0.0.3") by decide +kernel)
  exact ⟨n, i, hn, hi, hok,
    new_lease_in_network_iff hn hi storedPeers (by decide +kernel) [] hfree hok⟩

/-- The network that an IPv6 prefix of eight bits names. -/
def uniqueLocal8 : Prefix := ⟨.v6 0xfd000000000000000000000000000000#128 "", 8, by decide⟩

/-- An IPv6 network leases IPv4 addresses. -/
theorem lease_outside_network : ∃ i, Net.parseCIDR "fd00::/8" = some uniqueLocal8 ∧
    IPAM.newIPAM "fd00::/8" = some i ∧ i.leased "A" = none ∧
    (i.allocate "A").1 = .ok "253.0.0.1" ∧
    ∀ host, Net.parseIP "253.0.0.1" = some ((0xffff#96) ++ host) →
      ¬ HostOf uniqueLocal8 host := by
  obtain ⟨i, hi, hfree, hok⟩ := allocate_answer
    (show (IPAM.newIPAM "fd00::/8").map (fun i =>
      (([].foldl ipamStep (i.preloadPeers [])).leased "A",
        (([].foldl ipamStep (i.preloadPeers [])).allocate "A").1)) =
          some (none, .ok "253.0.0.1") by decide +kernel)
  refine ⟨i, by decide +kernel, hi, hfree, hok, ?_⟩
  intro host hparse hhost
  have hin := hhost.contains
  -- the address is not in the network
  have hout : (Net.parseIP "253.0.0.1").map (Net.contains uniqueLocal8) = some false := by
    decide +kernel
  rw [hparse, Option.map_some, hin] at hout
  cases hout

/-! ## Exhaustion -/

/-- How many of the `Release` calls find a lease. -/
def leasesReleased : IPAM → List IpamCall → Nat
  | _, [] => 0
  | i, .allocate k :: calls => leasesReleased (ipamStep i (.allocate k)) calls
  | i, .release k :: calls =>
    (if (i.leased k).isSome then 1 else 0) + leasesReleased (ipamStep i (.release k)) calls

/-- Every address that was handed out is leased or was released; nothing is handed out from
    the end of the pool on. -/
structure PoolBalance (i : IPAM) (handed released : Nat) : Prop where
  finite : i.leased.domain.Finite
  balance : i.leased.domain.ncard + released = handed
  room : i.next ≤ poolEnd i

/-- An allocation hands out one more address, or none. -/
theorem PoolBalance.allocate {i : IPAM} {handed released : Nat}
    (h : PoolBalance i handed released) (k : String) :
    ∃ more, PoolBalance (i.allocate k).2 (handed + more) released ∧
      (i.allocate k).2.next.toNat = i.next.toNat + more := by
  rcases allocate_cases i k with ⟨host, _, heq⟩ | ⟨_, _, heq⟩ | ⟨hnone, hfree, heq⟩
  · rw [heq]
    exact ⟨0, h, rfl⟩
  · rw [heq]
    exact ⟨0, h, rfl⟩
  · -- one more lease, and `next` moves up by one
    rw [heq]
    have hlt : i.next.toNat < (poolEnd i).toNat := hfree
    refine ⟨1, ⟨?_, ?_, ?_⟩, ?_⟩
    · rw [PMap.domain_set]
      exact h.finite.insert k
    · rw [PMap.ncard_domain_set h.finite hnone]
      have hbal := h.balance
      omega
    · show i.next + 1 ≤ poolEnd i
      bv_omega
    · show (i.next + 1).toNat = i.next.toNat + 1
      bv_omega

/-- A release counts if the key had a lease. -/
theorem PoolBalance.release {i : IPAM} {handed released : Nat}
    (h : PoolBalance i handed released) (k : String) :
    PoolBalance (i.release k) handed
      (released + (if (i.leased k).isSome then 1 else 0)) := by
  refine ⟨?_, ?_, h.room⟩
  · show (i.leased.delete k).domain.Finite
    rw [PMap.domain_delete]
    exact h.finite.sdiff
  · have hcard := PMap.ncard_domain_delete h.finite k
    have hbal := h.balance
    show (i.leased.delete k).domain.ncard + _ = handed
    omega

/-- The balance over a run of calls. -/
theorem PoolBalance.run {i : IPAM} {handed released : Nat} (h : PoolBalance i handed released)
    (calls : List IpamCall) :
    ∃ more, PoolBalance (calls.foldl ipamStep i) (handed + more)
        (released + leasesReleased i calls) ∧
      (calls.foldl ipamStep i).next.toNat = i.next.toNat + more := by
  -- the counts so far are carried along
  induction calls generalizing i handed released with
  | nil => exact ⟨0, h, rfl⟩
  | cons c calls ih =>
    cases c with
    | allocate k =>
      obtain ⟨m, hstep, hnext⟩ := h.allocate k
      obtain ⟨m', hrun, hnext'⟩ := ih hstep
      refine ⟨m + m', Nat.add_assoc handed m m' ▸ hrun, ?_⟩
      rw [List.foldl_cons]
      exact hnext'.trans (by rw [hnext, Nat.add_assoc])
    | release k =>
      obtain ⟨m, hrun, hnext⟩ := ih (h.release k)
      exact ⟨m, Nat.add_assoc released _ _ ▸ hrun, hnext⟩

/-- A block has all its addresses but the first and the last as hosts. -/
private theorem hostCount_v4 {n : Prefix} {i : IPAM} (hpool : PoolOf n i) (h4 : n.addr.is4 = true) :
    hostCount n = 2 ^ (32 - n.bits) - 2 := by
  obtain ⟨a, ha⟩ := exists_of_is4 h4
  obtain ⟨q, hq⟩ := hpool.aligned
  rw [ha] at hq
  have hlast := lastAddr_toNat ha hq
  rw [hostCount, hlast, ha]
  show ((0xffff#96) ++ a).toNat + (2 ^ (32 - n.bits) - 1) - ((0xffff#96) ++ a).toNat - 1 = _
  omega

/-- A pool with a host in it starts with room. -/
private theorem PoolOf.balance {n : Prefix} {i : IPAM} (hpool : PoolOf n i)
    (hroom : 2 < 2 ^ (32 - n.bits)) :
    PoolBalance i 0 0 ∧ (poolEnd i).toNat = i.next.toNat + (2 ^ (32 - n.bits) - 2) := by
  have hlast := hpool.last
  have hlt := (poolEnd i).isLt
  -- `next` starts after the network address and does not wrap
  have hnext : i.next.toNat = (leading32 n.addr).toNat + 1 := by
    rw [hpool.first, BitVec.toNat_add]
    apply Nat.mod_eq_of_lt
    show (leading32 n.addr).toNat + 1 < 2 ^ 32
    omega
  refine ⟨⟨?_, ?_, ?_⟩, by omega⟩
  · rw [hpool.empty, PMap.domain_empty]
    exact Set.finite_empty
  · rw [hpool.empty, PMap.domain_empty, Set.ncard_empty]
  · show i.next.toNat ≤ (poolEnd i).toNat
    omega

/-- When `Allocate` fails for a key without a lease, the leases are as many as the hosts
    exactly if no `Release` before has released a lease. -/
theorem exhausted_full_iff {cidr : String} {n : Prefix} {i : IPAM}
    (hn : Net.parseCIDR cidr = some n) (hi : IPAM.newIPAM cidr = some i)
    (h4 : n.addr.is4 = true) (hhosts : 0 < hostCount n) (calls : List IpamCall) {k e : String}
    (hfree : (calls.foldl ipamStep i).leased k = none)
    (herr : ((calls.foldl ipamStep i).allocate k).1 = .error e) :
    (calls.foldl ipamStep i).leased.domain.ncard = hostCount n ↔ leasesReleased i calls = 0 := by
  have hpool := PoolOf.new hn hi
  have hcount := hostCount_v4 hpool h4
  obtain ⟨hstart, hend⟩ := hpool.balance (by omega)
  obtain ⟨handed, hrun, hnext⟩ := hstart.run calls
  have hsame := (calls_grown i calls).pool
  -- the failing call has found `next` at the end of the pool
  have hfull : (calls.foldl ipamStep i).next = poolEnd i := by
    rcases allocate_cases (calls.foldl ipamStep i) k with
      ⟨_, hk, _⟩ | ⟨_, hge, _⟩ | ⟨_, _, heq⟩
    · rw [hfree] at hk
      cases hk
    · have hroom := hrun.room
      rw [hsame] at hroom
      exact BitVec.le_antisymm hroom (hsame ▸ hge)
    · rw [heq] at herr
      cases herr
  have hbal := hrun.balance
  rw [hfull] at hnext
  omega

/-- The network of two hosts. -/
def block30 : Prefix := ⟨.v4 0x0a000000#32, 30, by decide⟩

/-- Two keys fill 10.0.0.0/30, and a third finds it full. -/
theorem block30_full : ∃ i, IPAM.newIPAM "10.0.0.0/30" = some i ∧ hostCount block30 = 2 ∧
    (([.allocate "A", .allocate "B"].foldl ipamStep i).leased.domain.ncard = hostCount block30 ↔
      leasesReleased i [.allocate "A", .allocate "B"] = 0) := by
  obtain ⟨i, hi, hfree, herr⟩ := allocate_answer
    (show (IPAM.newIPAM "10.0.0.0/30").map (fun i =>
      (([.allocate "A", .allocate "B"].foldl ipamStep (i.preloadPeers [])).leased "C",
        (([.allocate "A", .allocate "B"].foldl ipamStep (i.preloadPeers [])).allocate "C").1)) =
          some (none, .error "IPAM pool exhausted") by decide +kernel)
  exact ⟨i, hi, by decide +kernel,
    exhausted_full_iff (by decide +kernel) hi rfl (by decide +kernel) _ hfree herr⟩

/-- A client that enrols and is deleted, twice. -/
def churnCalls : List IpamCall := [.allocate "A", .release "A", .allocate "A", .release "A"]

/-- After that no key has a lease in the network of two hosts, and it is exhausted. -/
theorem block30_exhausted_without_leases : ∃ i,
    Net.parseCIDR "10.0.0.0/30" = some block30 ∧ IPAM.newIPAM "10.0.0.0/30" = some i ∧
    (churnCalls.foldl ipamStep i).leased "A" = none ∧
    ((churnCalls.foldl ipamStep i).allocate "A").1 = .error "IPAM pool exhausted" ∧
    (churnCalls.foldl ipamStep i).leased.domain.ncard = 0 ∧ hostCount block30 = 2 := by
  obtain ⟨i, hi, hfree, herr⟩ := allocate_answer
    (show (IPAM.newIPAM "10.0.0.0/30").map (fun i =>
      ((churnCalls.foldl ipamStep (i.preloadPeers [])).leased "A",
        ((churnCalls.foldl ipamStep (i.preloadPeers [])).allocate "A").1)) =
          some (none, .error "IPAM pool exhausted") by decide +kernel)
  refine ⟨i, by decide +kernel, hi, hfree, herr, ?_, by decide +kernel⟩
  -- two addresses are gone, and two leases were released
  have hcounts : (IPAM.newIPAM "10.0.0.0/30").map (fun i => (leasesReleased i churnCalls,
      (churnCalls.foldl ipamStep i).next.toNat - i.next.toNat)) = some (2, 2) := by
    decide +kernel
  rw [hi, Option.map_some, Option.some.injEq, Prod.mk.injEq] at hcounts
  obtain ⟨hstart, -⟩ := (PoolOf.new (n := block30) (by decide +kernel) hi).balance (by decide)
  obtain ⟨handed, hrun, hnext⟩ := hstart.run churnCalls
  have hbal := hrun.balance
  omega

end Blinex.Spec
