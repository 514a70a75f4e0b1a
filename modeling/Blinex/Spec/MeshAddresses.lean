import Blinex.ForStd.Run
import Blinex.Native.HttpServer
import Blinex.Native.PostgresStore
import Blinex.Spec.IpamLeases

/-!
# Mesh addresses over the life of the server

The address of a peer is in two places: the row of the peer, and the lease table of the
IPAM, which is lost when the server stops. `Agree` ties the two: every stored peer has
the address that its key has a lease for. `Login` and `deletePeer` keep that, and a
start that lists the stored peers brings it about.

A start whose `GetAllPeers` fails goes on with no leases at all, and the addresses of the
stored peers are handed out again.
-/

namespace Blinex.Spec

open Blinex.Go Blinex.Native Blinex.Native.Management

/-! ## Addresses as text -/

private theorem hostToIP_toNat (host : BitVec 32) :
    host.toNat = (((host >>> 24).toNat * 256 + (host >>> 16).toNat % 256) * 256 +
      (host >>> 8).toNat % 256) * 256 + host.toNat % 256 := by
  simp only [BitVec.toNat_ushiftRight, Nat.shiftRight_eq_div_pow]
  omega

/-- The address that `hostToIP` writes is read back by `netip`. -/
theorem parseAddr_hostToIP (host : BitVec 32) :
    Netip.parseAddr (hostToIP host) = some (.v4 host) := by
  have hlt : (host >>> 24).toNat < 256 := by
    rw [BitVec.toNat_ushiftRight, Nat.shiftRight_eq_div_pow]
    omega
  rw [hostToIP, Netip.parseAddr_dotted hlt (Nat.mod_lt _ (by decide))
    (Nat.mod_lt _ (by decide)) (Nat.mod_lt _ (by decide)), ← hostToIP_toNat, BitVec.ofNat_toNat,
    BitVec.setWidth_eq]

/-- It is read back by `net.ParseIP` in its mapped form. -/
theorem parseIP_hostToIP (host : BitVec 32) :
    Net.parseIP (hostToIP host) = some ((0xffff#96) ++ host) := by
  rw [Net.parseIP, parseAddr_hostToIP]
  rfl

/-- Two hosts do not look the same. -/
private theorem hostToIP_inj {a b : BitVec 32} (h : hostToIP a = hostToIP b) : a = b := by
  have ha := parseIP_hostToIP a
  rw [h, parseIP_hostToIP b] at ha
  exact (Net.mapped_inj (Option.some.inj ha)).symm

/-- `PreloadPeers` takes back what `Allocate` has returned. -/
theorem preloadHost_of_ip {p : Domain.Peer} {host : BitVec 32} (h : p.ip = hostToIP host) :
    IPAM.preloadHost p = some host := by
  have hparse := parseIP_hostToIP host
  have hne : hostToIP host ≠ "" := by
    intro hempty
    rw [hempty] at hparse
    exact absurd hparse (by simp [show Net.parseIP "" = none by decide])
  simp only [IPAM.preloadHost, h, hne, if_false, hparse, Net.to4_mapped]

/-! ## One request -/

/-- The two places an address is in. -/
def addressState (s : Server) : Table Domain.Peer.wgPubKey × IPAM := (s.store.peers, s.ipam)

/-- What a `Login` that nothing interrupts can do: fail and at most lease an address, or
    save the peer with the address it was given and return that. -/
inductive LoginOutcome (key : String) (s : Server) :
    Except Status LoginResponse → Table Domain.Peer.wgPubKey × IPAM → Prop where
  | refused (e : Status) : LoginOutcome key s (.error e) (s.store.peers, s.ipam)
  | failed (e : Status) : LoginOutcome key s (.error e) (s.store.peers, (s.ipam.allocate key).2)
  | enrolled {resp : LoginResponse} {ip : String} {p : Domain.Peer}
      (halloc : (s.ipam.allocate key).1 = .ok ip) (hkey : p.wgPubKey = key) (hip : p.ip = ip)
      (haddr : resp.networkConfig.address = ip ++ "/32") :
    LoginOutcome key s (.ok resp) (s.store.peers.save p, (s.ipam.allocate key).2)

/-- Counting the use of a key changes no address. -/
private theorem pgExec_incrementSetupKeyUsage_addressState (keyID : String) (order : List String)
    (err : Option String) (s : Server) :
    addressState (pgExec (.incrementSetupKeyUsage keyID order err) s).2 = addressState s := by
  simp only [pgExec, Server.exec, Server.change, Store.incrementSetupKeyUsage]
  cases err with
  | some e => rfl
  | none =>
    dsimp only
    split <;> rfl

/-- Nor does starting the lookup of a country. -/
private theorem resolveCountryAsync_addressState (key ip : String) (s : Server) :
    addressState ((resolveCountryAsync key ip).run pgExec s).2 = addressState s := by
  unfold resolveCountryAsync
  split
  · rfl
  · split <;> rfl

/-- The end of `Login` saves the peer, or leaves the addresses as they were. -/
private theorem enroll_outcome (network : String) (env : Management.Env) (sk : Domain.SetupKey)
    (ip : String) (p : Domain.Peer) (s : Server) :
    (∃ e, ((enroll network env sk ip p).run pgExec s).1 = .error e ∧
      addressState ((enroll network env sk ip p).run pgExec s).2 = addressState s) ∨
    (∃ resp, ((enroll network env sk ip p).run pgExec s).1 = .ok resp ∧
      resp.networkConfig.address = ip ++ "/32" ∧
      addressState ((enroll network env sk ip p).run pgExec s).2 =
        (s.store.peers.save (toDomainPeer (peerRow p)), s.ipam)) := by
  simp only [enroll, Call.savePeer, Call.incrementSetupKeyUsage, Call.notifyAll, Prog.op_bind,
    Prog.ret_bind, Prog.run_op]
  cases hf : env.fails 0 with
  | some e =>
    left
    exact ⟨_, rfl, rfl⟩
  | none =>
    right
    simp only [pgExec, Server.exec, Server.write, Prog.run_op, Prog.run_bind, Prog.run_pure]
    refine ⟨_, rfl, rfl, ?_⟩
    -- what follows the save touches neither place
    exact (resolveCountryAsync_addressState _ _ _).trans
      (pgExec_incrementSetupKeyUsage_addressState sk.id env.orders.setupKeys (env.fails 1) _)

/-- What `Login` does to the addresses: nothing, a lease, or a lease and a peer. -/
private theorem login_outcome (network : String) (env : Management.Env) (ctx : Ctx) (allowed : Bool)
    (req : LoginRequest) (s : Server) :
    LoginOutcome req.wgPubKey s ((login network env ctx allowed req).run pgExec s).1
      (addressState ((login network env ctx allowed req).run pgExec s).2) := by
  -- `enroll` with the address that `Allocate` returned
  have henroll {sk : Domain.SetupKey} {ip : String} {p : Domain.Peer}
      (halloc : (s.ipam.allocate req.wgPubKey).1 = .ok ip) (hkey : p.wgPubKey = req.wgPubKey)
      (hip : p.ip = ip) :
      LoginOutcome req.wgPubKey s
        ((enroll network env sk ip p).run pgExec
          { s with ipam := (s.ipam.allocate req.wgPubKey).2 }).1
        (addressState ((enroll network env sk ip p).run pgExec
          { s with ipam := (s.ipam.allocate req.wgPubKey).2 }).2) := by
    rcases enroll_outcome network env sk ip p
      { s with ipam := (s.ipam.allocate req.wgPubKey).2 } with ⟨e, he, hs⟩ | ⟨resp, hr, haddr, hs⟩
    · rw [he, hs]
      exact .failed e
    · rw [hr, hs]
      exact .enrolled halloc hkey hip haddr
  unfold login
  split
  · exact .refused _
  · split
    · exact .refused _
    · simp only [Call.getSetupKey, Call.allocate, Call.getPeer, Prog.op_bind, Prog.ret_bind,
        Prog.run_op, pgExec, Server.exec]
      cases s.store.getSetupKey (env.now 0) req.setupKey with
      | error e => exact .refused _
      | ok sk =>
        dsimp only
        split
        · exact .refused _
        · simp only [Prog.run_op, pgExec, Server.exec]
          -- from here on the lease is made, whatever becomes of the request
          cases halloc : (s.ipam.allocate req.wgPubKey).1 with
          | error e => exact .failed _
          | ok ip =>
            simp only [Prog.run_op, pgExec, Server.exec]
            cases s.store.getPeer req.wgPubKey with
            | error e => exact henroll halloc rfl rfl
            | ok existing =>
              dsimp only
              split
              · exact .failed _
              · exact henroll halloc rfl rfl

/-- `deletePeer` changes nothing, or answers 204 and takes the peer out of both places. -/
theorem deletePeer_run (env : Management.Env) (claims : Claims) (key : String) (s : Server) :
    (((serveREST env claims (.deletePeer key)).run pgExec s).1.status ≠ 204 ∧
      ((serveREST env claims (.deletePeer key)).run pgExec s).2 = s) ∨
    (((serveREST env claims (.deletePeer key)).run pgExec s).1.status = 204 ∧
      ((serveREST env claims (.deletePeer key)).run pgExec s).2 =
        { s with
          store := s.store.deletePeer key
          revoked := s.revoked.set key (env.now 0)
          ipam := s.ipam.release key }) := by
  -- every refusal has another status
  have h403 : (403 : Nat) ≠ 204 := by decide
  have h404 : (404 : Nat) ≠ 204 := by decide
  have h500 : (500 : Nat) ≠ 204 := by decide
  unfold serveREST
  split
  · exact .inl ⟨h403, rfl⟩
  · simp only [route, deletePeer, Call.getPeer, Call.deletePeer, Call.revokeByWGKey,
      Call.releaseIP, Prog.op_bind, Prog.ret_bind, Prog.run_op, pgExec, Server.exec]
    cases s.store.getPeer key with
    | error e => exact .inl ⟨h404, rfl⟩
    | ok peer =>
      dsimp only
      split
      · exact .inl ⟨h403, rfl⟩
      · -- the record is deleted first: if that fails, the token and the lease stay
        cases hf : env.fails 0 with
        | some e =>
          left
          simp only [Prog.run_op, pgExec, Server.exec, Server.write]
          exact ⟨h500, rfl⟩
        | none =>
          right
          simp only [Prog.run_op, pgExec, Server.exec, Server.write]
          exact ⟨rfl, rfl⟩

/-! ## The two places agree -/

/-- Every stored peer has the address that its key has a lease for. -/
structure Agree (peers : Table Domain.Peer.wgPubKey) (ipam : IPAM) : Prop where
  fresh : LeasesFresh ipam
  leased : ∀ k p, peers.rows k = some p → ∃ host, ipam.leased k = some host ∧ p.ip = hostToIP host

/-- Two distinct stored peers never have the same IP. -/
def DistinctIPs (peers : Table Domain.Peer.wgPubKey) : Prop :=
  ∀ k k' p p', peers.rows k = some p → peers.rows k' = some p' → p.ip = p'.ip → k = k'

section Agree

variable {peers : Table Domain.Peer.wgPubKey} {ipam : IPAM}

/-- Where the two places agree, no two peers have one address. -/
private theorem Agree.distinctIPs (h : Agree peers ipam) : DistinctIPs peers := by
  intro k k' p p' hk hk' hip
  obtain ⟨host, hlease, hp⟩ := h.leased k p hk
  obtain ⟨host', hlease', hp'⟩ := h.leased k' p' hk'
  have hhost : host = host' := hostToIP_inj (by rw [← hp, ← hp', hip])
  rw [← hhost] at hlease'
  exact h.fresh.distinct k k' host hlease hlease'

/-- `Allocate` keeps the leases it finds. -/
private theorem allocate_leased {k k' : String} {host : BitVec 32}
    (h : ipam.leased k' = some host) :
    (ipam.allocate k).2.leased k' = some host := by
  rcases allocate_cases ipam k with ⟨_, _, heq⟩ | ⟨_, _, heq⟩ | ⟨hk, _, heq⟩
  · rw [heq]
    exact h
  · rw [heq]
    exact h
  · -- the key had no lease, so it is another one
    have hne : k' ≠ k := by
      rintro rfl
      rw [hk] at h
      cases h
    rw [heq]
    exact (PMap.set_ne _ _ hne).trans h

/-- An answer is the address of the lease that the key has afterwards. -/
private theorem allocate_ok {k ip : String} (h : (ipam.allocate k).1 = .ok ip) :
    ∃ host, (ipam.allocate k).2.leased k = some host ∧ ip = hostToIP host := by
  rcases allocate_cases ipam k with ⟨host, hk, heq⟩ | ⟨_, _, heq⟩ | ⟨_, _, heq⟩
  · rw [heq] at h ⊢
    exact ⟨host, hk, (Except.ok.inj h).symm⟩
  · rw [heq] at h
    cases h
  · rw [heq] at h ⊢
    exact ⟨ipam.next, PMap.set_self _ _ _, (Except.ok.inj h).symm⟩

theorem Agree.allocate (h : Agree peers ipam) (k : String) : Agree peers (ipam.allocate k).2 := by
  refine ⟨(h.fresh.allocate k).1, fun k' p hp => ?_⟩
  obtain ⟨host, hlease, hip⟩ := h.leased k' p hp
  exact ⟨host, allocate_leased hlease, hip⟩

/-- Saving a peer with the address of its lease. -/
theorem Agree.enroll (h : Agree peers ipam) {key ip : String} {p : Domain.Peer}
    (halloc : (ipam.allocate key).1 = .ok ip) (hkey : p.wgPubKey = key) (hip : p.ip = ip) :
    Agree (peers.save p) (ipam.allocate key).2 := by
  refine ⟨(h.fresh.allocate key).1, fun k q hq => ?_⟩
  rcases PMap.set_eq_some _ hq with ⟨hk, rfl⟩ | ⟨_, hold⟩
  · obtain ⟨host, hlease, hhost⟩ := allocate_ok halloc
    rw [hk, hkey]
    exact ⟨host, hlease, hip.trans hhost⟩
  · exact (h.allocate key).leased k q hold

/-- Deleting a peer and releasing its lease. -/
theorem Agree.delete (h : Agree peers ipam) (key : String) :
    Agree (peers.delete key) (ipam.release key) := by
  refine ⟨h.fresh.release key, fun k p hp => ?_⟩
  obtain ⟨hne, hold⟩ := PMap.delete_eq_some _ hp
  obtain ⟨host, hlease, hip⟩ := h.leased k p hold
  exact ⟨host, (PMap.delete_ne _ hne).trans hlease, hip⟩

end Agree

/-- `Login` keeps the agreement, also when it fails after the lease. -/
private theorem LoginOutcome.agree {key : String} {s : Server} {res : Except Status LoginResponse}
    {a : Table Domain.Peer.wgPubKey × IPAM} (hout : LoginOutcome key s res a)
    (h : Agree s.store.peers s.ipam) : Agree a.1 a.2 := by
  cases hout with
  | refused e => exact h
  | failed e => exact h.allocate key
  | enrolled halloc hkey hip _ => exact h.enroll halloc hkey hip

/-- A stored peer gets the address it has. -/
private theorem LoginOutcome.keepsIP {key : String} {s : Server} {resp : LoginResponse}
    {a : Table Domain.Peer.wgPubKey × IPAM} (hout : LoginOutcome key s (.ok resp) a)
    (h : Agree s.store.peers s.ipam) {p : Domain.Peer} (hp : s.store.peers.rows key = some p) :
    resp.networkConfig.address = p.ip ++ "/32" ∧ ∃ p', a.1.rows key = some p' ∧ p'.ip = p.ip := by
  cases hout with
  | enrolled halloc hkey hip haddr =>
    rename_i ip q
    obtain ⟨host, hlease, hpip⟩ := h.leased key p hp
    obtain ⟨host', hlease', hip'⟩ := allocate_ok halloc
    -- the key had a lease, and `Allocate` answered from it
    rw [allocate_leased hlease] at hlease'
    have hsame : ip = p.ip := by
      rw [hpip, hip', Option.some.inj hlease']
    rw [haddr, hsame]
    refine ⟨rfl, q, ?_, hip.trans hsame⟩
    rw [← hkey]
    exact PMap.set_self _ _ _

/-! ## Starts -/

/-- Peers with other keys leave a lease alone. -/
private theorem preloadPeers_leased_of_not_mem {peers : List Domain.Peer} {k : String}
    (h : ∀ p ∈ peers, p.wgPubKey ≠ k) (i : IPAM) :
    (i.preloadPeers peers).leased k = i.leased k := by
  induction peers generalizing i with
  | nil => rfl
  | cons p peers ih =>
    have hp : (i.preloadPeer p).leased k = i.leased k := by
      unfold IPAM.preloadPeer
      split
      · rfl
      · exact PMap.set_ne _ _ (h p List.mem_cons_self).symm
    rw [← hp]
    exact ih (fun q hq => h q (List.mem_cons_of_mem _ hq)) (i.preloadPeer p)

/-- Every address of the list is leased afterwards. -/
private theorem preloadPeers_leased {peers : List Domain.Peer}
    (hkeys : peers.Pairwise fun p q => p.wgPubKey ≠ q.wgPubKey) {p : Domain.Peer} (hp : p ∈ peers)
    {host : BitVec 32} (hhost : IPAM.preloadHost p = some host) (i : IPAM) :
    (i.preloadPeers peers).leased p.wgPubKey = some host := by
  induction peers generalizing i with
  | nil => cases hp
  | cons q peers ih =>
    rw [List.pairwise_cons] at hkeys
    -- the later peers have other keys, so the lease made here stays
    rcases List.mem_cons.mp hp with rfl | hp
    · have hlater := preloadPeers_leased_of_not_mem (fun r hr => (hkeys.1 r hr).symm)
        (i.preloadPeer p)
      refine hlater.trans ?_
      simp only [IPAM.preloadPeer, hhost, PMap.set_self]
    · exact ih hkeys.2 hp (i.preloadPeer q)

private theorem backfillPeer_ip (p : Domain.Peer) : (backfillPeer p).ip = p.ip := by
  unfold backfillPeer backfillRow
  split <;> rfl

/-- Opening the store fills in labels and changes no peer otherwise. -/
private theorem openStore_peers (u : Startup) (st : Store) (k : String) :
    (u.openStore st).peers.rows k = (st.peers.rows k).map backfillPeer := by
  unfold Startup.openStore seed
  split <;> rfl

/-- A start that lists the stored peers takes over their addresses. -/
private theorem Agree.preload {peers : Table Domain.Peer.wgPubKey} {ipam i : IPAM}
    (h : Agree peers ipam)
    {cidr : String} (hi : IPAM.newIPAM cidr = some i) {order : List String}
    (horder : PMap.RangeOrder peers.rows order) :
    Agree peers (i.preloadPeers (order.filterMap peers.rows)) := by
  have hkeys : (order.filterMap peers.rows).Pairwise fun p q => p.wgPubKey ≠ q.wgPubKey := by
    rw [List.pairwise_filterMap]
    refine horder.nodup.imp fun {k k'} hne p hp q hq heq => hne ?_
    rw [← peers.keyed k p hp, ← peers.keyed k' q hq, heq]
  -- every listed peer has the host that was leased to its key
  have hhost : ∀ p ∈ order.filterMap peers.rows, ∀ host, IPAM.preloadHost p = some host →
      ipam.leased p.wgPubKey = some host := by
    intro p hp host hhost
    obtain ⟨k, _, hk⟩ := List.mem_filterMap.mp hp
    obtain ⟨host', hlease, hip⟩ := h.leased k p hk
    rw [preloadHost_of_ip hip] at hhost
    rw [peers.keyed k p hk, hlease, hhost]
  refine ⟨(LeasesFresh.new hi).preloadPeers ?_ ?_ ?_, fun k p hk => ?_⟩
  · refine hkeys.imp_of_mem fun {p q} hp hq hne host hph hqh => hne ?_
    exact h.fresh.distinct _ _ host (hhost p hp host hph) (hhost q hq host hqh)
  · intro p hp hlast
    have hlt := h.fresh.below _ _ (hhost p hp _ hlast)
    have hmax : (BitVec.allOnes 32).toNat = 2 ^ 32 - 1 := BitVec.toNat_allOnes
    bv_omega
  · intro p _ k host _ hk
    rw [newIPAM_leased hi] at hk
    cases hk
  · obtain ⟨host, _, hip⟩ := h.leased k p hk
    have hmem : p ∈ order.filterMap peers.rows := by
      refine List.mem_filterMap.mpr ⟨k, (horder.mem_iff k).mpr ?_, hk⟩
      rw [hk]
      exact Option.some_ne_none p
    have hlease := preloadPeers_leased hkeys hmem (preloadHost_of_ip hip) i
    rw [peers.keyed k p hk] at hlease
    exact ⟨host, hlease, hip⟩

/-- The backfill does not touch the addresses. -/
theorem Agree.openStore {st : Store} {ipam : IPAM} (h : Agree st.peers ipam) (u : Startup) :
    Agree (u.openStore st).peers ipam := by
  refine ⟨h.fresh, fun k p hp => ?_⟩
  rw [openStore_peers] at hp
  obtain ⟨q, hq, rfl⟩ := Option.map_eq_some_iff.mp hp
  obtain ⟨host, hlease, hip⟩ := h.leased k q hq
  exact ⟨host, hlease, (backfillPeer_ip q).trans hip⟩

/-! ## Runs -/

/-- What happens in the life of the server. -/
inductive LifeEvent where
  | login (network : String) (env : Management.Env) (ctx : Ctx) (allowed : Bool)
      (req : LoginRequest)
  | deletePeer (env : Management.Env) (claims : Claims) (key : String)
  | restart (u : Startup)

/-- The server after an event that nothing interrupts. -/
def lifeStep (s : Server) : LifeEvent → Option Server
  | .login network env ctx allowed req => some ((login network env ctx allowed req).run pgExec s).2
  | .deletePeer env claims key => some ((serveREST env claims (.deletePeer key)).run pgExec s).2
  | .restart u => s.restart u

/-- The database lists the stored peers in some order. -/
def OrderValid (s : Server) : LifeEvent → Prop
  | .restart u => PMap.RangeOrder s.store.peers.rows u.order
  | _ => True

/-- No start loses the stored peers: if its `GetAllPeers` fails, there are none. -/
def PeersListed (s : Server) : LifeEvent → Prop
  | .restart u => u.getAllPeersErr = none ∨ ∀ k, s.store.peers.rows k = none
  | _ => True

/-- A successful `Login` for a stored peer returns and stores the IP it already had. -/
def LoginKeepsIP (s : Server) : LifeEvent → Prop
  | .login network env ctx allowed req => ∀ p resp,
    s.store.peers.rows req.wgPubKey = some p →
    ((login network env ctx allowed req).run pgExec s).1 = .ok resp →
      resp.networkConfig.address = p.ip ++ "/32" ∧
      ∃ p', ((login network env ctx allowed req).run pgExec s).2.store.peers.rows req.wgPubKey =
        some p' ∧ p'.ip = p.ip
  | _ => True

/-- A start that lists the peers leases their addresses again. -/
private theorem agree_restart {s s' : Server} {u : Startup} (h : Agree s.store.peers s.ipam)
    (horder : PMap.RangeOrder s.store.peers.rows u.order)
    (hlisted : u.getAllPeersErr = none ∨ ∀ k, s.store.peers.rows k = none)
    (hs' : s.restart u = some s') : Agree s'.store.peers s'.ipam := by
  obtain ⟨i, hi, rfl⟩ := Option.map_eq_some_iff.mp hs'
  have horder' : PMap.RangeOrder (u.openStore s.store).peers.rows u.order := by
    refine ⟨horder.nodup, fun k => ?_⟩
    rw [horder.mem_iff, openStore_peers, ne_eq, ne_eq, Option.map_eq_none_iff]
  cases herr : u.getAllPeersErr with
  | none => exact (h.openStore u).preload hi horder'
  | some e =>
    -- an IPAM without leases agrees with a store without peers
    refine ⟨LeasesFresh.new hi, fun k p hp => ?_⟩
    have hnone : s.store.peers.rows k = none := by
      rcases hlisted with hok | hempty
      · rw [herr] at hok
        cases hok
      · exact hempty k
    have hp' : (u.openStore s.store).peers.rows k = some p := hp
    rw [openStore_peers, hnone] at hp'
    cases hp'

/-- Every event keeps the agreement. -/
private theorem agree_step {s s' : Server} {ev : LifeEvent} (h : Agree s.store.peers s.ipam)
    (horder : OrderValid s ev) (hlisted : PeersListed s ev) (hs' : lifeStep s ev = some s') :
    Agree s'.store.peers s'.ipam := by
  cases ev with
  | login network env ctx allowed req =>
    obtain rfl := Option.some.inj hs'
    exact (login_outcome network env ctx allowed req s).agree h
  | deletePeer env claims key =>
    obtain rfl := Option.some.inj hs'
    -- a refused deletion changes nothing
    rcases deletePeer_run env claims key s with ⟨_, hs⟩ | ⟨_, hs⟩
    · rw [hs]
      exact h
    · rw [hs]
      exact h.delete key
  | restart u => exact agree_restart h horder hlisted hs'

/-- Where the two places agree, a login answers the address of the record. -/
private theorem loginKeepsIP_of_agree {s : Server} (h : Agree s.store.peers s.ipam)
    (ev : LifeEvent) :
    LoginKeepsIP s ev := by
  cases ev with
  | login network env ctx allowed req =>
    intro p resp hp hresp
    have hout := login_outcome network env ctx allowed req s
    rw [hresp] at hout
    exact hout.keepsIP h hp
  | deletePeer => trivial
  | restart => trivial

/-- **Mesh addresses are unique and stable.** The server starts with no stored peer and
    handles any sequence of `Login`, `deletePeer` and restarts. As long as no restart fails
    to list peers that are stored, two stored peers never have the same IP, and a `Login`
    for a stored peer returns and stores the IP it had. -/
theorem mesh_ips_unique_stable {cidr : String} {s : Server}
    (hipam : IPAM.newIPAM cidr = some s.ipam) (hpeers : ∀ k, s.store.peers.rows k = none)
    {events : List LifeEvent} (horders : ExecAlong lifeStep OrderValid s events)
    (hlisted : ExecAlong lifeStep PeersListed s events) :
    Throughout lifeStep (fun s => DistinctIPs s.store.peers) s events ∧
      ExecAlong lifeStep LoginKeepsIP s events := by
  -- nothing is stored, so there is nothing to agree on
  have hstart : Agree s.store.peers s.ipam := by
    refine ⟨LeasesFresh.new hipam, fun k p hp => ?_⟩
    rw [hpeers k] at hp
    cases hp
  have hkeep : ∀ (s : Server) ev s', OrderValid s ev ∧ PeersListed s ev →
      Agree s.store.peers s.ipam → lifeStep s ev = some s' → Agree s'.store.peers s'.ipam :=
    fun s ev s' hcond h hs' => agree_step h hcond.1 hcond.2 hs'
  -- the two conditions hold before every event
  have hconds := horders.and hlisted
  constructor
  · exact (hconds.throughout hkeep hstart).imp fun s h => h.distinctIPs
  · exact hconds.of_inv hkeep (fun s ev _ h => loginKeepsIP_of_agree h ev) hstart

/-- A server of the default network with one setup key and no peers. -/
def sampleServer : Server where
  store := { setupKeys := Table.empty.save { id := "1", key := "sk", expiresAt := 1 } }
  ipam := { network := 0x64400000#32, mask := 0xffc00000#32, next := 0x64400001#32 }

/-- A login with a key that the store has. -/
def sampleLogin (key : String) : LifeEvent :=
  .login "100.64.0.0/10" { uuid := fun _ => key } {} true { setupKey := "sk", wgPubKey := key }

/-- K enrols, the server restarts without getting at the peers, and L enrols. -/
def lossRun : List LifeEvent :=
  [sampleLogin "K",
   .restart { networkCIDR := "100.64.0.0/10", order := ["K"], getAllPeersErr := some "timeout" },
   sampleLogin "L"]

/-- The addresses of two stored peers. -/
def ipsOf (k k' : String) (s : Server) : Option String × Option String :=
  ((s.store.peers.rows k).map (·.ip), (s.store.peers.rows k').map (·.ip))

/-- Two keys with one address. -/
private theorem not_distinctIPs {s : Server} {k k' ip : String} (hne : k ≠ k')
    (h : ipsOf k k' s = (some ip, some ip)) : ¬DistinctIPs s.store.peers := by
  obtain ⟨hk, hk'⟩ := Prod.mk.inj h
  obtain ⟨p, hp, hip⟩ := Option.map_eq_some_iff.mp hk
  obtain ⟨p', hp', hip'⟩ := Option.map_eq_some_iff.mp hk'
  exact fun hdistinct => hne (hdistinct k k' p p' hp hp' (hip.trans hip'.symm))

/-- The address that a `Login` as in `sampleLogin` returns. -/
def loginAddress (key : String) (s : Server) : Option String :=
  ((login "100.64.0.0/10" { uuid := fun _ => key } {} true
    { setupKey := "sk", wgPubKey := key }).run pgExec s).1.toOption.map (·.networkConfig.address)

/-- A login that answers another address than the record has. -/
private theorem not_loginKeepsIP {s : Server} {key ip addr : String}
    (hip : (s.store.peers.rows key).map (·.ip) = some ip)
    (haddr : loginAddress key s = some addr) (hne : addr ≠ ip ++ "/32") :
    ¬LoginKeepsIP s (sampleLogin key) := by
  obtain ⟨p, hp, rfl⟩ := Option.map_eq_some_iff.mp hip
  obtain ⟨resp, hresp, rfl⟩ := Option.map_eq_some_iff.mp haddr
  intro h
  refine hne (h p resp hp ?_).1
  -- the address is that of the response
  cases hres : ((login "100.64.0.0/10" { uuid := fun _ => key } {} true
      { setupKey := "sk", wgPubKey := key }).run pgExec s).1 with
  | error e =>
    rw [hres] at hresp
    cases hresp
  | ok r =>
    rw [hres] at hresp
    rw [Option.some.inj hresp]

/-- Both peers have 100.64.0.1, and the next `Login` of K gives it another address. -/
theorem lossRun_addresses :
    (IPAM.newIPAM "100.64.0.0/10" = some sampleServer.ipam ∧
      ExecAlong lifeStep OrderValid sampleServer lossRun) ∧
    ¬Throughout lifeStep (fun s => DistinctIPs s.store.peers) sampleServer lossRun ∧
    ¬ExecAlong lifeStep LoginKeepsIP sampleServer (lossRun ++ [sampleLogin "K"]) := by
  -- the start could not list the peers, so the first address is leased again
  have hrun : (exec lifeStep sampleServer lossRun).map
      (fun s => (ipsOf "K" "L" s, loginAddress "K" s)) =
        some ((some "100.64.0.1", some "100.64.0.1"), some "100.64.0.2/32") := by decide +kernel
  obtain ⟨t, ht, hval⟩ := Option.map_eq_some_iff.mp hrun
  obtain ⟨hips, haddr⟩ := Prod.mk.inj hval
  refine ⟨⟨rfl, ?_⟩, fun h => ?_, fun h => ?_⟩
  · exact .cons rfl trivial (.cons rfl (PMap.RangeOrder.singleton "K" _)
      (.cons rfl trivial trivial))
  · exact not_distinctIPs (by decide) hips (h.last ht)
  · exact not_loginKeepsIP (Prod.mk.inj hips).1 haddr (by decide) (h.last ht rfl)

/-- K enrols, the server restarts with the database at hand, L enrols and K logs in
    again. -/
def restoredRun : List LifeEvent :=
  [sampleLogin "K", .restart { networkCIDR := "100.64.0.0/10", order := ["K"] },
   sampleLogin "L", sampleLogin "K"]

/-- With the peers listed, the two agents keep different addresses. -/
theorem restoredRun_addresses :
    (exec lifeStep sampleServer restoredRun).map (ipsOf "K" "L") =
      some (some "100.64.0.1", some "100.64.0.2") ∧
    Throughout lifeStep (fun s => DistinctIPs s.store.peers) sampleServer restoredRun ∧
    ExecAlong lifeStep LoginKeepsIP sampleServer restoredRun := by
  refine ⟨by decide +kernel,
    mesh_ips_unique_stable (show IPAM.newIPAM "100.64.0.0/10" = some sampleServer.ipam from rfl)
      (fun k => rfl) ?_ ?_⟩
  · exact .cons rfl trivial (.cons rfl (PMap.RangeOrder.singleton "K" _)
      (.cons rfl trivial (.cons rfl trivial trivial)))
  · exact .cons rfl trivial (.cons rfl (.inl rfl) (.cons rfl trivial (.cons rfl trivial trivial)))

end Blinex.Spec
