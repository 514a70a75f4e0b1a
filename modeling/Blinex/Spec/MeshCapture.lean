import Blinex.Spec.AdvertisedRoutes

/-!
# Leased addresses and advertised subnets

The addresses that an IPAM can lease over the whole life of its server, restarts included, are
those of a fresh pool (`canLease_iff`). An accepted route spares the mesh of the overlap check,
100.64.0.0/10, and nothing else, so no subnet can capture a leased address exactly when the
pool lies in that mesh.
-/

namespace Blinex.Spec

open Blinex.Go Blinex.Native
open Management (validateRoute)

/-! ## What an IPAM can lease -/

/-- An IPAM and the addresses that `Allocate` has returned so far, in earlier runs of the server
    too. -/
structure LeaseLife where
  ipam : IPAM
  answered : List String

/-- A call, or a restart that preloads peers from the store. -/
inductive LeaseEvent where
  | allocate (wgPubKey : String)
  | release (wgPubKey : String)
  | restart (peers : List Domain.Peer)

/-- The stored peers have no address or one that was leased to them. -/
def leaseStep (cidr : String) (s : LeaseLife) : LeaseEvent → Option LeaseLife
  | .allocate k =>
    match s.ipam.allocate k with
    | (.ok ip, i) => some ⟨i, ip :: s.answered⟩
    | (.error _, i) => some ⟨i, s.answered⟩
  | .release k => some ⟨s.ipam.release k, s.answered⟩
  | .restart peers =>
    if ∀ p ∈ peers, p.ip = "" ∨ p.ip ∈ s.answered then
      (IPAM.newIPAM cidr).map fun i => ⟨i.preloadPeers peers, s.answered⟩
    else none

/-- The IPAM built from `cidr` can lease the address. -/
def CanLease (cidr ip : String) : Prop :=
  ∃ i events s, IPAM.newIPAM cidr = some i ∧
    exec (leaseStep cidr) ⟨i, []⟩ events = some s ∧ ip ∈ s.answered

/-- An address of a fresh pool. -/
structure InPool (i : IPAM) (host : BitVec 32) : Prop where
  low : i.next ≤ host
  high : host < poolEnd i

/-- Leases and answers are addresses of the fresh pool `i₀`. -/
structure LeasesInPool (i₀ : IPAM) (s : LeaseLife) : Prop where
  grown : GrownFrom i₀ s.ipam
  leased : ∀ k host, s.ipam.leased k = some host → InPool i₀ host
  answered : ∀ ip ∈ s.answered, ∃ host, InPool i₀ host ∧ ip = hostToIP host

/-- `Allocate` leases and answers addresses of the pool only. -/
theorem LeasesInPool.allocate {i₀ : IPAM} {s : LeaseLife} (h : LeasesInPool i₀ s) (k : String) :
    LeasesInPool i₀ ⟨(s.ipam.allocate k).2, s.answered⟩ ∧
      ∀ ip, (s.ipam.allocate k).1 = .ok ip → ∃ host, InPool i₀ host ∧ ip = hostToIP host := by
  have hgrown : GrownFrom i₀ (s.ipam.allocate k).2 :=
    h.grown.trans (ipamStep_grown s.ipam (.allocate k))
  -- known, refused, or leased now
  rcases allocate_cases s.ipam k with ⟨host, hk, heq⟩ | ⟨_, _, heq⟩ | ⟨_, hlt, heq⟩
  · rw [heq] at hgrown ⊢
    refine ⟨⟨hgrown, h.leased, h.answered⟩, fun ip hip => ?_⟩
    exact ⟨host, h.leased k host hk, (Except.ok.inj hip).symm⟩
  · rw [heq] at hgrown ⊢
    exact ⟨⟨hgrown, h.leased, h.answered⟩, fun ip hip => nomatch hip⟩
  · rw [heq] at hgrown ⊢
    have hnew : InPool i₀ s.ipam.next := ⟨h.grown.next, h.grown.pool ▸ hlt⟩
    refine ⟨⟨hgrown, ?_, h.answered⟩, fun ip hip => ⟨_, hnew, (Except.ok.inj hip).symm⟩⟩
    intro k' host hk'
    rcases PMap.set_eq_some _ hk' with ⟨-, rfl⟩ | ⟨-, hold⟩
    · exact hnew
    · exact h.leased k' host hold

/-- The addresses that stored peers give back. -/
private theorem preloadHost_inPool {i₀ : IPAM} {s : LeaseLife} (h : LeasesInPool i₀ s)
    {p : Domain.Peer}
    (hp : p.ip = "" ∨ p.ip ∈ s.answered) {host : BitVec 32}
    (hhost : IPAM.preloadHost p = some host) : InPool i₀ host := by
  rcases hp with hempty | hmem
  · simp [IPAM.preloadHost, hempty] at hhost
  · obtain ⟨host', hin, hip⟩ := h.answered p.ip hmem
    rw [preloadHost_of_ip hip] at hhost
    obtain rfl := Option.some.inj hhost
    exact hin

/-- The last address of all is in no pool. -/
private theorem InPool.ne_last {i : IPAM} {host : BitVec 32} (h : InPool i host) :
    host ≠ BitVec.allOnes 32 := by
  rintro rfl
  have hhigh : (BitVec.allOnes 32).toNat < (poolEnd i).toNat := h.high
  have hlt := (poolEnd i).isLt
  rw [BitVec.toNat_allOnes] at hhigh
  omega

/-- A start leases addresses that were answered before. -/
theorem LeasesInPool.restart {i₀ : IPAM} {s : LeaseLife} (h : LeasesInPool i₀ s)
    (hempty : i₀.leased = PMap.empty) {peers : List Domain.Peer}
    (hpeers : ∀ p ∈ peers, p.ip = "" ∨ p.ip ∈ s.answered) :
    LeasesInPool i₀ ⟨i₀.preloadPeers peers, s.answered⟩ := by
  refine ⟨preloadPeers_grown i₀ fun p hp hhost => ?_, ?_, h.answered⟩
  · exact (preloadHost_inPool h (hpeers p hp) hhost).ne_last rfl
  · -- every preloaded lease is one of the pool
    refine List.foldlRecOn (motive := fun i : IPAM => ∀ k host, i.leased k = some host →
      InPool i₀ host) peers IPAM.preloadPeer (fun k host hk => ?_) ?_
    · rw [hempty] at hk
      cases hk
    · intro i hi p hp k host hk
      unfold IPAM.preloadPeer at hk
      split at hk
      · exact hi k host hk
      · rename_i host' hhost'
        rcases PMap.set_eq_some _ hk with ⟨-, rfl⟩ | ⟨-, hold⟩
        · exact preloadHost_inPool h (hpeers p hp) hhost'
        · exact hi k host hold

/-- Every event keeps the leases in the pool. -/
private theorem leasesInPool_step {cidr : String} {i₀ : IPAM} (hi : IPAM.newIPAM cidr = some i₀)
    (hempty : i₀.leased = PMap.empty) {s s' : LeaseLife} {ev : LeaseEvent}
    (h : LeasesInPool i₀ s) (hstep : leaseStep cidr s ev = some s') : LeasesInPool i₀ s' := by
  cases ev with
  | allocate k =>
    obtain ⟨hnext, hip⟩ := h.allocate k
    simp only [leaseStep] at hstep
    -- only an answer is recorded
    split at hstep
    · rename_i ip i heq
      rw [heq] at hnext hip
      obtain rfl := Option.some.inj hstep
      refine ⟨hnext.grown, hnext.leased, fun ip' hmem => ?_⟩
      rcases List.mem_cons.mp hmem with rfl | hmem
      · exact hip _ rfl
      · exact h.answered ip' hmem
    · rename_i e i heq
      rw [heq] at hnext
      obtain rfl := Option.some.inj hstep
      exact hnext
  | release k =>
    obtain rfl := Option.some.inj hstep
    refine ⟨h.grown.trans (ipamStep_grown s.ipam (.release k)), fun k' host hk' => ?_, h.answered⟩
    exact h.leased k' host (PMap.delete_eq_some _ hk').2
  | restart peers =>
    simp only [leaseStep, hi, Option.map_some] at hstep
    -- the restart lists peers that have been answered
    split at hstep
    · rename_i hpeers
      obtain rfl := Option.some.inj hstep
      exact h.restart hempty hpeers
    · cases hstep

/-- Keys that nobody has used. -/
def freshKey (n : Nat) : String := String.ofList (List.replicate n 'k')

private theorem freshKey_inj {m n : Nat} (h : freshKey m = freshKey n) : m = n := by
  have hlen := congrArg (fun s => s.toList.length) h
  simpa [freshKey] using hlen

/-- `m` enrolments, with the fresh keys from `a` on. -/
def enrolments : Nat → Nat → List LeaseEvent
  | _, 0 => []
  | a, m + 1 => .allocate (freshKey a) :: enrolments (a + 1) m

/-- The next address of the pool is leased. -/
def LeaseLife.lease (s : LeaseLife) (k : String) : LeaseLife where
  ipam := { s.ipam with
    next := s.ipam.next + 1
    leased := s.ipam.leased.set k s.ipam.next }
  answered := hostToIP s.ipam.next :: s.answered

/-- A key without a lease gets the next address while there is one. -/
private theorem leaseStep_allocate_new {cidr : String} {s : LeaseLife} {k : String}
    (hfree : s.ipam.leased k = none) (hroom : s.ipam.next < poolEnd s.ipam) :
    leaseStep cidr s (.allocate k) = some (s.lease k) := by
  rcases allocate_cases s.ipam k with ⟨_, hk, _⟩ | ⟨_, hfull, _⟩ | ⟨_, _, heq⟩
  · rw [hfree] at hk
    cases hk
  · exact absurd hroom (BitVec.not_lt.mpr hfull)
  · rw [leaseStep, heq]
    rfl

/-- As long as the pool has room, the addresses from `next` on are leased in turn. -/
private theorem enrolments_answered (cidr : String) (m : Nat) (s : LeaseLife) (a : Nat)
    (hfree : ∀ n, a ≤ n → s.ipam.leased (freshKey n) = none)
    (hroom : s.ipam.next.toNat + m < (poolEnd s.ipam).toNat) :
    ∃ s', exec (leaseStep cidr) s (enrolments a (m + 1)) = some s' ∧
      hostToIP (s.ipam.next + BitVec.ofNat 32 m) ∈ s'.answered := by
  -- each enrolment takes the next address, so the last one gets the `m`-th
  induction m generalizing s a with
  | zero =>
    refine ⟨s.lease (freshKey a), ?_, ?_⟩
    · rw [enrolments, exec, leaseStep_allocate_new (hfree a (Nat.le_refl a)) hroom]
      rfl
    · simp [LeaseLife.lease]
  | succ m ih =>
    have hlt : s.ipam.next < poolEnd s.ipam := by
      show s.ipam.next.toNat < (poolEnd s.ipam).toNat
      omega
    have hend := (poolEnd s.ipam).isLt
    have hnext : (s.ipam.next + 1).toNat = s.ipam.next.toNat + 1 := by bv_omega
    have hfree' : ∀ n, a + 1 ≤ n → (s.lease (freshKey a)).ipam.leased (freshKey n) = none := by
      intro n hn
      have hne : freshKey n ≠ freshKey a := fun heq => by
        have hsame := freshKey_inj heq
        omega
      exact (PMap.set_ne _ _ hne).trans (hfree n (by omega))
    obtain ⟨s', hrun, hmem⟩ := ih (s.lease (freshKey a)) (a + 1) hfree'
      (show (s.ipam.next + 1).toNat + m < (poolEnd s.ipam).toNat by omega)
    refine ⟨s', ?_, ?_⟩
    · rw [enrolments, exec, leaseStep_allocate_new (hfree a (Nat.le_refl a)) hlt]
      exact hrun
    · have hsum : s.ipam.next + 1 + BitVec.ofNat 32 m =
          s.ipam.next + BitVec.ofNat 32 (m + 1) := by
        rw [BitVec.ofNat_add, BitVec.add_assoc, BitVec.add_comm 1]
        rfl
      rw [← hsum]
      exact hmem

/-- What can be leased is the pool. -/
theorem canLease_iff {cidr : String} {n : Prefix} {i : IPAM} (hn : Net.parseCIDR cidr = some n)
    (hi : IPAM.newIPAM cidr = some i) (ip : String) :
    CanLease cidr ip ↔ ∃ host, InPool i host ∧ ip = hostToIP host := by
  have hempty := (PoolOf.new hn hi).empty
  constructor
  · rintro ⟨i', events, s, hi', hrun, hmem⟩
    obtain rfl := Option.some.inj (hi.symm.trans hi')
    have hstart : LeasesInPool i ⟨i, []⟩ := by
      refine ⟨⟨rfl, BitVec.le_refl _⟩, fun k host hk => ?_, fun ip hip => nomatch hip⟩
      rw [hempty] at hk
      cases hk
    have hend : LeasesInPool i s :=
      exec_invariant (fun _ _ _ (_ : True) h hstep => leasesInPool_step hi hempty h hstep)
        (fun _ _ => trivial) hstart hrun
    exact hend.answered ip hmem
  · -- enough enrolments reach every address of the pool
    rintro ⟨host, hin, rfl⟩
    have hlow : i.next.toNat ≤ host.toNat := hin.low
    have hhigh : host.toNat < (poolEnd i).toNat := hin.high
    obtain ⟨s, hrun, hmem⟩ := enrolments_answered cidr (host.toNat - i.next.toNat) ⟨i, []⟩ 0
      (fun n _ => by rw [hempty]; rfl)
      (show i.next.toNat + (host.toNat - i.next.toNat) < (poolEnd i).toNat by omega)
    refine ⟨i, _, s, hi, hrun, ?_⟩
    have hhost : i.next + BitVec.ofNat 32 (host.toNat - i.next.toNat) = host := by
      bv_omega
    rwa [hhost] at hmem

/-! ## Captured addresses -/

/-- The address lies in the network that the route names. -/
def LiesIn (ip r : String) : Prop :=
  ∃ n x, Net.parseCIDR r = some n ∧ Net.parseIP ip = some x ∧ Net.contains n x = true

/-- No accepted route other than the default routes has an address in it that the IPAM can
    lease. -/
def NoCapture (cidr : String) : Prop :=
  ∀ ip, CanLease cidr ip → ∀ routes : List String, routes.findSome? validateRoute = none →
    ∀ r ∈ routes, r ≠ "0.0.0.0/0" → r ≠ "::/0" → ¬ LiesIn ip r

/-- The network is part of 100.64.0.0/10, or has no address to lease. -/
def MeshOnly (n : Prefix) : Prop :=
  (10 ≤ n.bits ∧ Net.contains meshNet n.addr.as16 = true) ∨
    (31 ≤ n.bits ∧ n.addr ≠ .v4 (BitVec.allOnes 32))

/-- An address lies in a route if it is one of the network's IPv4 addresses. -/
private theorem liesIn_hostToIP_iff {host : BitVec 32} {r : String} :
    LiesIn (hostToIP host) r ↔ ∃ n, Net.parseCIDR r = some n ∧ host ∈ Net.v4Addrs n := by
  simp only [LiesIn, parseIP_hostToIP, Option.some.injEq, exists_and_left, exists_eq_left']
  rfl

/-- A route can capture an address exactly if the address is outside of the mesh of the check. -/
private theorem captured_iff (host : BitVec 32) :
    (∃ routes : List String, routes.findSome? validateRoute = none ∧
      ∃ r ∈ routes, r ≠ "0.0.0.0/0" ∧ r ≠ "::/0" ∧ LiesIn (hostToIP host) r) ↔
      host ∉ Block 22 0x64400000#32 := by
  constructor
  · rintro ⟨routes, hok, r, hr, h4, h6, hin⟩ hmesh
    obtain ⟨n, hn, hhost⟩ := liesIn_hostToIP_iff.mp hin
    rcases (validateRoute_eq_none_iff r).mp (List.findSome?_eq_none_iff.mp hok r hr) with
      (h | h) | ⟨n', hn', hdisj⟩
    · exact h4 h
    · exact h6 h
    · obtain rfl := Option.some.inj (hn.symm.trans hn')
      rw [v4Addrs_mesh] at hdisj
      exact Set.disjoint_left.mp hdisj hmesh hhost
  · intro hout
    -- the route of the address alone
    have hparse := parseCIDR_cidrText host (Nat.le_refl 32)
    have haddrs := Net.v4Addrs_masked host 32 (Nat.le_refl 32)
    have hbits : (Net.parseCIDR (cidrText host 32)).map Prefix.bits = some 32 := by
      rw [hparse]
      rfl
    have hok : validateRoute (cidrText host 32) = none := by
      refine (validateRoute_eq_none_iff _).mpr (.inr ⟨_, hparse, ?_⟩)
      rw [v4Addrs_mesh, haddrs, Set.disjoint_right]
      intro x hx
      rw [show x = host by simpa [Block.mem_iff] using hx]
      exact hout
    refine ⟨[cidrText host 32], by simp [hok], _, List.mem_singleton_self _, ?_, ?_, ?_⟩
    · intro heq
      rw [heq] at hbits
      exact absurd hbits (by decide +kernel)
    · intro heq
      rw [heq] at hbits
      exact absurd hbits (by decide +kernel)
    · refine liesIn_hostToIP_iff.mpr ⟨_, hparse, ?_⟩
      rw [haddrs]
      exact Block.mem_self

/-- Nothing is captured when the whole pool is inside the mesh. -/
private theorem noCapture_iff_pool {cidr : String} {n : Prefix} {i : IPAM}
    (hn : Net.parseCIDR cidr = some n) (hi : IPAM.newIPAM cidr = some i) :
    NoCapture cidr ↔ ∀ host, InPool i host → host ∈ Block 22 0x64400000#32 := by
  constructor
  · intro h host hin
    by_contra hout
    obtain ⟨routes, hok, r, hr, h4, h6, hlies⟩ := (captured_iff host).mpr hout
    exact h _ ((canLease_iff hn hi _).mpr ⟨host, hin, rfl⟩) routes hok r hr h4 h6 hlies
  · intro h ip hip routes hok r hr h4 h6 hlies
    obtain ⟨host, hin, rfl⟩ := (canLease_iff hn hi ip).mp hip
    exact (captured_iff host).mp ⟨routes, hok, r, hr, h4, h6, hlies⟩ (h host hin)

/-! ## Pools inside the mesh -/

/-- The mesh is the 402nd block of 2²² addresses. -/
private theorem mem_mesh_iff (x : BitVec 32) :
    x ∈ Block 22 0x64400000#32 ↔ x.toNat / 2 ^ 22 = 401 := by
  rw [Block.mem_iff, ← BitVec.toNat_inj, BitVec.toNat_ushiftRight, Nat.shiftRight_eq_div_pow]
  rfl

/-- The mesh by the leading ten bits of the address. -/
private theorem contains_mesh_iff (a : BitVec 32) :
    Net.contains meshNet (Addr.v4 a).as16 = true ↔ a.toNat / 2 ^ 22 = 401 := by
  rw [← mem_mesh_iff, ← v4Addrs_mesh]
  rfl

/-- An aligned run of addresses, its ends left out, is in the mesh if its first address is and
    it is no longer than the mesh. -/
private theorem run_in_mesh_iff {a k q : Nat} (hk : 2 ≤ k) (ha : a = q * 2 ^ k) :
    (∀ h, a + 1 ≤ h → h < a + (2 ^ k - 1) → h / 2 ^ 22 = 401) ↔ k ≤ 22 ∧ a / 2 ^ 22 = 401 := by
  obtain ⟨c, hc⟩ : ∃ c, 2 ^ k = 4 * c := ⟨2 ^ (k - 2), by
    rw [show (4 : Nat) = 2 ^ 2 from rfl, ← Nat.pow_add, Nat.add_sub_cancel' hk]⟩
  have hfour : a = 4 * (q * c) := by
    rw [ha, hc, Nat.mul_left_comm]
  have hpos : 0 < 2 ^ k := Nat.two_pow_pos k
  constructor
  · intro h
    -- the two ends of the run
    have hfirst := h (a + 1) (Nat.le_refl _) (by omega)
    have hlast := h (a + (2 ^ k - 2)) (by omega) (by omega)
    have hk22 : k ≤ 22 := by
      by_contra hlong
      have hpow : 2 ^ 23 ≤ 2 ^ k := Nat.pow_le_pow_right (by decide) (by omega)
      omega
    exact ⟨hk22, by omega⟩
  · rintro ⟨hk22, hmesh⟩ h hlow hhigh
    have hsplit : 2 ^ 22 = 2 ^ k * 2 ^ (22 - k) := by
      rw [← Nat.pow_add, Nat.add_sub_cancel' hk22]
    have hsame : h / 2 ^ k = a / 2 ^ k := by
      rw [ha, Nat.mul_div_cancel _ hpos]
      apply Nat.div_eq_of_lt_le
      · omega
      · rw [Nat.add_mul]
        omega
    rw [hsplit, ← Nat.div_div_eq_div_mul] at hmesh ⊢
    rw [hsame]
    exact hmesh

section Pool

variable {n : Prefix} {i : IPAM} {a : BitVec 32} (hpool : PoolOf n i) (ha : n.addr = .v4 a)
include hpool ha

/-- The bounds of an IPv4 pool as numbers; `next` has not wrapped around. -/
private theorem inPool_toNat_iff (hlast : a ≠ BitVec.allOnes 32) (host : BitVec 32) :
    InPool i host ↔ a.toNat + 1 ≤ host.toNat ∧ host.toNat < a.toNat + (2 ^ (32 - n.bits) - 1) := by
  have hend : (poolEnd i).toNat = a.toNat + (2 ^ (32 - n.bits) - 1) := by
    rw [hpool.last, ha]
    rfl
  -- the pool starts after an address that is not the last
  have hnext : i.next.toNat = a.toNat + 1 := by
    have hsucc : a < a + 1 := lt_succ_of_ne hlast
    have hfirst := hpool.first
    rw [ha] at hfirst
    rw [hfirst]
    show (a + 1).toNat = _
    bv_omega
  rw [← hend, ← hnext]
  exact ⟨fun h => ⟨h.low, h.high⟩, fun h => ⟨h.1, h.2⟩⟩

/-- The pool of 255.255.255.255/32 starts with 0.0.0.0. -/
private theorem inPool_zero (hlast : a = BitVec.allOnes 32) : InPool i 0 := by
  subst hlast
  have hend := hpool.last
  have hfirst := hpool.first
  rw [ha] at hend hfirst
  have hend' : (poolEnd i).toNat = (BitVec.allOnes 32).toNat + (2 ^ (32 - n.bits) - 1) := hend
  rw [BitVec.toNat_allOnes] at hend'
  refine ⟨?_, ?_⟩
  · rw [hfirst]
    exact (by decide : (BitVec.allOnes 32) + 1 ≤ 0)
  · show 0 < (poolEnd i).toNat
    omega

/-- A pool lies in the mesh if its network does, and if it is empty. -/
private theorem pool_in_mesh_iff :
    (∀ host, InPool i host → host ∈ Block 22 0x64400000#32) ↔ MeshOnly n := by
  obtain ⟨q, hq⟩ := hpool.aligned
  rw [ha] at hq
  have hq' : a.toNat = q * 2 ^ (32 - n.bits) := hq
  have hbits : n.bits ≤ 32 := by
    have hle := n.bits_le
    rw [ha] at hle
    exact hle
  rw [MeshOnly, ha, contains_mesh_iff]
  -- the block of the last address of all starts over at zero, outside the mesh
  by_cases hlast : a = BitVec.allOnes 32
  · refine iff_of_false (fun h => ?_) ?_
    · have hzero := (mem_mesh_iff 0).mp (h 0 (inPool_zero hpool ha hlast))
      exact absurd hzero (by decide)
    · rintro (⟨-, hmesh⟩ | ⟨-, hne⟩)
      · rw [hlast, BitVec.toNat_allOnes] at hmesh
        exact absurd hmesh (by decide)
      · exact hne (by rw [hlast])
  · have hne : Addr.v4 a ≠ Addr.v4 (BitVec.allOnes 32) := fun heq => hlast (Addr.v4.inj heq)
    simp only [inPool_toNat_iff hpool ha hlast, mem_mesh_iff]
    by_cases hlong : 31 ≤ n.bits
    · -- no room between the first and the last address
      have hpow : 2 ^ (32 - n.bits) ≤ 2 ^ 1 := Nat.pow_le_pow_right (by decide) (by omega)
      refine iff_of_true (fun host hhost => ?_) (.inr ⟨hlong, hne⟩)
      omega
    · have hrun := run_in_mesh_iff (show 2 ≤ 32 - n.bits by omega) hq'
      have hfits := (poolEnd i).isLt
      have hend := hpool.last
      rw [ha] at hend
      have hend' : (poolEnd i).toNat = a.toNat + (2 ^ (32 - n.bits) - 1) := hend
      constructor
      · intro h
        left
        obtain ⟨hk, hmesh⟩ := hrun.mp fun x hlow hhigh => by
          have hx : (BitVec.ofNat 32 x).toNat = x := by
            rw [BitVec.toNat_ofNat, Nat.mod_eq_of_lt (by omega)]
          have hin := h (BitVec.ofNat 32 x)
          rw [hx] at hin
          exact hin ⟨hlow, hhigh⟩
        exact ⟨by omega, hmesh⟩
      · rintro (⟨hten, hmesh⟩ | ⟨hlong', -⟩)
        · intro host hhost
          exact hrun.mpr ⟨by omega, hmesh⟩ host.toNat hhost.1 hhost.2
        · exact absurd hlong' hlong

end Pool

/-- **No advertised subnet captures a mesh address** exactly when the IPv4 network of the IPAM
    is part of 100.64.0.0/10, or has no address to lease. -/
theorem no_capture_iff {cidr : String} {n : Prefix} (hn : Net.parseCIDR cidr = some n)
    (h4 : n.addr.is4 = true) : NoCapture cidr ↔ MeshOnly n := by
  obtain ⟨a, ha⟩ := exists_of_is4 h4
  obtain ⟨i, hi⟩ : ∃ i, IPAM.newIPAM cidr = some i := ⟨_, by rw [IPAM.newIPAM, hn]⟩
  rw [noCapture_iff_pool hn hi, pool_in_mesh_iff (PoolOf.new hn hi) ha]

/-- The network that is configured by default. -/
theorem default_network_not_captured :
    Net.parseCIDR "100.64.0.0/10" = some meshNet ∧ NoCapture "100.64.0.0/10" :=
  ⟨parseCIDR_mesh, (no_capture_iff parseCIDR_mesh rfl).mpr
    (.inl ⟨by decide, by decide +kernel⟩)⟩

/-- 10.0.0.0/8. -/
def privateNet : Prefix := ⟨.v4 0x0a000000#32, 8, by decide⟩

/-- In 10.0.0.0/8 the first address is leased, and the route 10.0.0.0/24 to it is accepted. -/
theorem private_network_captured :
    Net.parseCIDR "10.0.0.0/8" = some privateNet ∧ CanLease "10.0.0.0/8" "10.0.0.1" ∧
    validateRoute "10.0.0.0/24" = none ∧ LiesIn "10.0.0.1" "10.0.0.0/24" ∧
    ¬ NoCapture "10.0.0.0/8" := by
  -- one login is enough
  have hlease : CanLease "10.0.0.0/8" "10.0.0.1" := by
    have hrun : ((IPAM.newIPAM "10.0.0.0/8").bind fun i =>
        (exec (leaseStep "10.0.0.0/8") ⟨i, []⟩ [.allocate "A"]).map LeaseLife.answered) =
          some ["10.0.0.1"] := by decide +kernel
    obtain ⟨i, hi, hanswered⟩ := Option.bind_eq_some_iff.mp hrun
    obtain ⟨s, hs, heq⟩ := Option.map_eq_some_iff.mp hanswered
    exact ⟨i, _, s, hi, hs, by rw [heq]; exact List.mem_singleton_self _⟩
  have hroute : validateRoute "10.0.0.0/24" = none := by decide +kernel
  have hlies : LiesIn "10.0.0.1" "10.0.0.0/24" := by
    have hin : ((Net.parseCIDR "10.0.0.0/24").bind fun n =>
        (Net.parseIP "10.0.0.1").map (Net.contains n)) = some true := by decide +kernel
    obtain ⟨n, hn, hcontains⟩ := Option.bind_eq_some_iff.mp hin
    obtain ⟨x, hx, htrue⟩ := Option.map_eq_some_iff.mp hcontains
    exact ⟨n, x, hn, hx, htrue⟩
  -- the route is no default route and not refused, and has the address in it
  refine ⟨by decide +kernel, hlease, hroute, hlies, fun h => ?_⟩
  exact h "10.0.0.1" hlease ["10.0.0.0/24"] (by simp [hroute]) "10.0.0.0/24"
    (List.mem_singleton_self _) (by decide) (by decide) hlies

end Blinex.Spec
