import Mathlib.Data.BitVec
import Blinex.ForStd.Run
import Blinex.Native.Ipam

/-!
# Leases

`next` is above every address that was ever leased, preloaded ones included, and it
only grows: `Allocate` hands out `next` itself and never reaches the end of the
32-bit range, because it stops at the broadcast address. So an address that is
released is not handed out again.
-/

namespace Blinex.Spec

open Blinex.Go Blinex.Native

/-- Every lease is below `next`, and no two keys have the same. -/
structure LeasesFresh (i : IPAM) : Prop where
  below : ∀ k host, i.leased k = some host → host < i.next
  distinct : ∀ k k' host, i.leased k = some host → i.leased k' = some host → k = k'

/-! ## One call -/

/-- Everything `Allocate` can do. -/
theorem allocate_cases (i : IPAM) (k : String) :
    (∃ host, i.leased k = some host ∧ i.allocate k = (.ok (hostToIP host), i)) ∨
    (i.leased k = none ∧ i.network ||| ~~~i.mask ≤ i.next ∧
      i.allocate k = (.error "IPAM pool exhausted", i)) ∨
    (i.leased k = none ∧ i.next < i.network ||| ~~~i.mask ∧
      i.allocate k = (.ok (hostToIP i.next),
        { i with next := i.next + 1, leased := i.leased.set k i.next })) := by
  unfold IPAM.allocate
  split
  · rename_i host hk
    exact .inl ⟨host, hk, rfl⟩
  · rename_i hk
    dsimp only
    -- the pool is used up, or `next` is free
    split
    · rename_i hfull
      exact .inr (.inl ⟨hk, hfull, rfl⟩)
    · rename_i hfree
      exact .inr (.inr ⟨hk, BitVec.not_le.mp hfree, rfl⟩)

/-- A free address is not the last of the range. -/
theorem lt_succ_of_lt {a b : BitVec 32} (h : a < b) : a < a + 1 := by
  bv_omega

/-- The address after another one is larger, but for the last. -/
theorem lt_succ_of_ne {a : BitVec 32} (h : a ≠ BitVec.allOnes 32) : a < a + 1 := by
  have hne : a.toNat ≠ 2 ^ 32 - 1 := by
    rw [← BitVec.toNat_allOnes]
    exact fun heq => h (BitVec.eq_of_toNat_eq heq)
  bv_omega

/-- A lease of a new address below the next one. -/
theorem LeasesFresh.set {i : IPAM} (h : LeasesFresh i) {k : String} {host next : BitVec 32}
    (hnext : i.next ≤ next) (hhost : host < next) (hnew : ∀ k', i.leased k' ≠ some host) :
    LeasesFresh { i with next := next, leased := i.leased.set k host } := by
  constructor
  · intro k' host' hk'
    rcases PMap.set_eq_some _ hk' with ⟨_, rfl⟩ | ⟨_, hold⟩
    · exact hhost
    · have hlt := h.below k' host' hold
      show host' < next
      bv_omega
  · -- two leases of one address: the new one is nobody else's
    intro k₁ k₂ host' h₁ h₂
    rcases PMap.set_eq_some _ h₁ with ⟨hk₁, rfl⟩ | ⟨_, hold₁⟩ <;>
      rcases PMap.set_eq_some _ h₂ with ⟨hk₂, heq⟩ | ⟨_, hold₂⟩
    · rw [hk₁, hk₂]
    · exact absurd hold₂ (hnew k₂)
    · rw [← heq] at hold₁
      exact absurd hold₁ (hnew k₁)
    · exact h.distinct k₁ k₂ host' hold₁ hold₂

/-- `next` itself is free. -/
private theorem LeasesFresh.next_free {i : IPAM} (h : LeasesFresh i) (k : String) :
    i.leased k ≠ some i.next := by
  intro hk
  exact absurd (h.below k i.next hk) (BitVec.lt_irrefl _)

/-- `Allocate` keeps the leases fresh, and `next` does not go back. -/
theorem LeasesFresh.allocate {i : IPAM} (h : LeasesFresh i) (k : String) :
    LeasesFresh (i.allocate k).2 ∧ i.next ≤ (i.allocate k).2.next := by
  rcases allocate_cases i k with ⟨host, _, heq⟩ | ⟨_, _, heq⟩ | ⟨_, hfree, heq⟩
  · rw [heq]
    exact ⟨h, BitVec.le_refl _⟩
  · rw [heq]
    exact ⟨h, BitVec.le_refl _⟩
  · rw [heq]
    have hlt := lt_succ_of_lt hfree
    exact ⟨h.set (BitVec.le_of_lt hlt) hlt h.next_free, BitVec.le_of_lt hlt⟩

/-- `Release` keeps the leases fresh. -/
theorem LeasesFresh.release {i : IPAM} (h : LeasesFresh i) (k : String) :
    LeasesFresh (i.release k) := by
  constructor
  · intro k' host hk'
    exact h.below k' host (PMap.delete_eq_some _ hk').2
  · intro k₁ k₂ host h₁ h₂
    exact h.distinct k₁ k₂ host (PMap.delete_eq_some _ h₁).2 (PMap.delete_eq_some _ h₂).2

/-! ## `PreloadPeers` -/

/-- A peer is preloaded when its address is an IPv4 one. -/
theorem preloadHost_eq_some {p : Domain.Peer} {host : BitVec 32}
    (h : IPAM.preloadHost p = some host) : Net.parseIP p.ip = some ((0xffff#96) ++ host) := by
  unfold IPAM.preloadHost at h
  split at h
  · cases h
  · split at h
    · cases h
    · rename_i ip hip
      rw [hip, Net.to4_eq_some h]

/-- The loop raises `next` past the address it takes. -/
theorem LeasesFresh.preloadPeer {i : IPAM} (h : LeasesFresh i) {p : Domain.Peer}
    (hlast : IPAM.preloadHost p ≠ some (BitVec.allOnes 32))
    (hnew : ∀ k host, IPAM.preloadHost p = some host → i.leased k ≠ some host) :
    LeasesFresh (i.preloadPeer p) := by
  unfold IPAM.preloadPeer
  split
  · exact h
  · rename_i host hhost
    -- no wrap: the address is not the last one there is
    have hlt : host < host + 1 := lt_succ_of_ne fun heq => hlast (heq ▸ hhost)
    refine h.set ?_ ?_ fun k => hnew k host hhost
    · split
      · bv_omega
      · exact BitVec.le_refl _
    · split
      · exact hlt
      · bv_omega

/-- A lease after one peer is that peer's, or an earlier one. -/
private theorem preloadPeer_leased {i : IPAM} {p : Domain.Peer} {k : String} {host : BitVec 32}
    (h : (i.preloadPeer p).leased k = some host) :
    (k = p.wgPubKey ∧ IPAM.preloadHost p = some host) ∨ i.leased k = some host := by
  unfold IPAM.preloadPeer at h
  split at h
  · exact .inr h
  · rename_i host' hhost
    rcases PMap.set_eq_some _ h with ⟨hk, rfl⟩ | ⟨_, hold⟩
    · exact .inl ⟨hk, hhost⟩
    · exact .inr hold

/-- Peers of different addresses are preloaded to fresh leases. -/
theorem LeasesFresh.preloadPeers {i : IPAM} (h : LeasesFresh i) {peers : List Domain.Peer}
    (hips : peers.Pairwise fun p q =>
      ∀ host, IPAM.preloadHost p = some host → IPAM.preloadHost q ≠ some host)
    (hlast : ∀ p ∈ peers, IPAM.preloadHost p ≠ some (BitVec.allOnes 32))
    (hnew : ∀ p ∈ peers, ∀ k host, IPAM.preloadHost p = some host → i.leased k ≠ some host) :
    LeasesFresh (i.preloadPeers peers) := by
  -- the leases made so far are those of earlier peers, which differ from the later ones
  induction peers generalizing i with
  | nil => exact h
  | cons p peers ih =>
    rw [List.pairwise_cons] at hips
    have hp := h.preloadPeer (hlast p List.mem_cons_self) (hnew p List.mem_cons_self)
    refine ih hp hips.2 (fun q hq => hlast q (List.mem_cons_of_mem _ hq)) ?_
    intro q hq k host hhost hk
    rcases preloadPeer_leased hk with ⟨_, hsame⟩ | hold
    · exact hips.1 q hq host hsame hhost
    · exact hnew q (List.mem_cons_of_mem _ hq) k host hhost hold

/-- A new pool leases nothing. -/
theorem newIPAM_leased {cidr : String} {i : IPAM} (h : IPAM.newIPAM cidr = some i) (k : String) :
    i.leased k = none := by
  unfold IPAM.newIPAM at h
  split at h
  · cases h
  · rw [← Option.some.inj h]
    rfl

/-- A new pool is fresh. -/
theorem LeasesFresh.new {cidr : String} {i : IPAM} (h : IPAM.newIPAM cidr = some i) :
    LeasesFresh i := by
  constructor
  · intro k host hk
    rw [newIPAM_leased h] at hk
    cases hk
  · intro k _ host hk
    rw [newIPAM_leased h] at hk
    cases hk

/-! ## Runs -/

/-- The calls of a serving IPAM. -/
inductive IpamCall where
  | allocate (wgPubKey : String)
  | release (wgPubKey : String)
deriving DecidableEq

/-- What a call leaves behind. -/
def ipamStep (i : IPAM) : IpamCall → IPAM
  | .allocate k => (i.allocate k).2
  | .release k => i.release k

/-- Runs of calls keep the leases fresh, and `next` does not go back. -/
theorem LeasesFresh.run {i : IPAM} (h : LeasesFresh i) (calls : List IpamCall) :
    LeasesFresh (calls.foldl ipamStep i) ∧ i.next ≤ (calls.foldl ipamStep i).next := by
  induction calls generalizing i with
  | nil => exact ⟨h, BitVec.le_refl _⟩
  | cons c calls ih =>
    cases c with
    | allocate k =>
      obtain ⟨hstep, hle⟩ := h.allocate k
      obtain ⟨hrun, hle'⟩ := ih hstep
      exact ⟨hrun, BitVec.le_trans hle hle'⟩
    | release k => exact ih (h.release k)

/-- A prefix of the calls leaves `next` no higher than all of them. -/
private theorem LeasesFresh.next_le {i : IPAM} (h : LeasesFresh i) {before calls : List IpamCall}
    (hpre : before <+: calls) :
    (before.foldl ipamStep i).next ≤ (calls.foldl ipamStep i).next := by
  obtain ⟨after, rfl⟩ := hpre
  rw [List.foldl_append]
  exact ((h.run before).1.run after).2

/-- What an `Allocate` newly leases was in no earlier state anybody's. -/
private theorem LeasesFresh.new_lease {i : IPAM} (h : LeasesFresh i) {before calls : List IpamCall}
    (hpre : before <+: calls) {k : String} {host : BitVec 32}
    (hfree : (calls.foldl ipamStep i).leased k = none)
    (hnew : ((calls.foldl ipamStep i).allocate k).2.leased k = some host) (k' : String) :
    (before.foldl ipamStep i).leased k' ≠ some host := by
  intro hk'
  have hlt := (h.run before).1.below k' host hk'
  have hle := h.next_le hpre
  -- the key has no lease, and a full pool gives none: the new one is `next`
  rcases allocate_cases (calls.foldl ipamStep i) k with
    ⟨_, hk, _⟩ | ⟨_, _, heq⟩ | ⟨_, _, heq⟩
  · rw [hfree] at hk
    cases hk
  · rw [heq, hfree] at hnew
    cases hnew
  · rw [heq] at hnew
    have hhost : (calls.foldl ipamStep i).next = host :=
      Option.some.inj ((PMap.set_self _ _ _).symm.trans hnew)
    rw [hhost] at hle
    bv_omega

/-- The state `now` that the calls lead to, against all earlier ones. -/
structure LeasesStable (start : IPAM) (calls : List IpamCall) (now : IPAM) : Prop where
  /-- Two keys never have the same address. -/
  unique : ∀ k k' host, now.leased k = some host → now.leased k' = some host → k = k'
  /-- A lease is kept. -/
  existing : ∀ k host, now.leased k = some host → now.allocate k = (.ok (hostToIP host), now)
  /-- A failing `Allocate` changes nothing. -/
  failing : ∀ k e, (now.allocate k).1 = .error e → (now.allocate k).2 = now
  /-- A new lease is an address that no other key had before. -/
  fresh : ∀ k host, now.leased k = none → (now.allocate k).2.leased k = some host →
    ∀ before, before <+: calls → ∀ k', k' ≠ k →
      (before.foldl ipamStep start).leased k' ≠ some host

/-- **Leases are unique and stable.** The IPAM of a network takes over peers whose
    addresses are different IPs, none of them 255.255.255.255, and serves any calls. -/
theorem leases_unique_stable {cidr : String} {i : IPAM} (hi : IPAM.newIPAM cidr = some i)
    (peers : List Domain.Peer)
    (hips : peers.Pairwise fun p q => ∀ ip, Net.parseIP p.ip = some ip → Net.parseIP q.ip ≠ some ip)
    (hlast : ∀ p ∈ peers, Net.parseIP p.ip ≠ Net.parseIP "255.255.255.255")
    (calls : List IpamCall) :
    LeasesStable (i.preloadPeers peers) calls (calls.foldl ipamStep (i.preloadPeers peers)) := by
  have hstart : LeasesFresh (i.preloadPeers peers) := by
    refine (LeasesFresh.new hi).preloadPeers (hips.imp ?_) ?_ ?_
    · intro p q hne host hp hq
      exact hne _ (preloadHost_eq_some hp) (preloadHost_eq_some hq)
    · intro p hp hhost
      refine hlast p hp ((preloadHost_eq_some hhost).trans ?_)
      decide +kernel
    · intro p _ k host _ hk
      rw [newIPAM_leased hi] at hk
      cases hk
  refine ⟨(hstart.run calls).1.distinct, fun k host hk => ?_, fun k e he => ?_,
    fun k host hfree hnew before hpre k' _ => hstart.new_lease hpre hfree hnew k'⟩
  · -- a key with a lease is answered from the table
    rcases allocate_cases (calls.foldl ipamStep (i.preloadPeers peers)) k with
      ⟨host', hk', heq⟩ | ⟨hk', _, _⟩ | ⟨hk', _, _⟩
    · rw [hk] at hk'
      rw [heq, Option.some.inj hk']
    · rw [hk] at hk'
      cases hk'
    · rw [hk] at hk'
      cases hk'
  · -- only a new lease changes the pool, and that one is no error
    rcases allocate_cases (calls.foldl ipamStep (i.preloadPeers peers)) k with
      ⟨_, _, heq⟩ | ⟨_, _, heq⟩ | ⟨_, _, heq⟩
    · rw [heq]
    · rw [heq]
    · rw [heq] at he
      cases he

/-- What earlier runs left: an address above the first, one below the network, one
    IPv6 address and a peer without an address. -/
def storedPeers : List Domain.Peer :=
  [{ wgPubKey := "A", ip := "10.0.0.2" }, { wgPubKey := "B", ip := "9.0.0.1" },
   { wgPubKey := "C", ip := "fd00::1" }, { wgPubKey := "D", ip := "" }]

/-- Both new keys get addresses above A's, and A a new one after its release. -/
def leaseCalls : List IpamCall :=
  [.allocate "C", .allocate "D", .release "A", .allocate "A"]

/-- A run over the stored peers, in which `A` keeps the address it had. -/
theorem leaseCalls_stable : ∃ i, IPAM.newIPAM "10.0.0.0/24" = some i ∧
    (leaseCalls.foldl ipamStep (i.preloadPeers storedPeers)).leased "A" = some 0x0a000005#32 ∧
    LeasesStable (i.preloadPeers storedPeers) leaseCalls
      (leaseCalls.foldl ipamStep (i.preloadPeers storedPeers)) := by
  obtain ⟨i, hi⟩ := Option.isSome_iff_exists.mp
    (show (IPAM.newIPAM "10.0.0.0/24").isSome = true by decide +kernel)
  refine ⟨i, hi, ?_, leases_unique_stable hi storedPeers ?_ (by decide +kernel) leaseCalls⟩
  · have hval : (IPAM.newIPAM "10.0.0.0/24").bind (fun i =>
        (leaseCalls.foldl ipamStep (i.preloadPeers storedPeers)).leased "A") =
          some 0x0a000005#32 := by decide +kernel
    rwa [hi, Option.bind_some] at hval
  · -- stored addresses that parse differ
    refine List.Pairwise.imp (R := fun p q =>
      Net.parseIP p.ip = none ∨ Net.parseIP p.ip ≠ Net.parseIP q.ip) ?_ (by decide +kernel)
    intro p q h ip hp hq
    rw [hp, hq] at h
    simp at h

end Blinex.Spec
