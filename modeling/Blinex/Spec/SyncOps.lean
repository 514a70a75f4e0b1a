import Blinex.Native.Engine
import Blinex.Native.GrpcServer

/-!
# A sync as a log of peer operations

The three loops of `applySync` are one loop over `syncOps`: the added, updated and
removed peers in that order, the device itself skipped. Each part of the engine
sees such an operation as an edit of its own table (`PMap.Edit`), so what a table
holds after a sync is read off the log of operations.

`applySync_proj` moves from the whole engine to one part of it.
-/

namespace Blinex.Spec

open Blinex.Go Blinex.Native
open Commonv1 (Peer)
open Managementv1 (SyncResponse)

/-- One turn of one of the three loops. -/
inductive PeerOp where
  | add (p : Peer)
  | update (u : Update)
  | remove (p : Peer)

namespace PeerOp

/-- The key of the peer. -/
def key : PeerOp → String
  | add p => p.wgPubKey
  | update u => u.new.wgPubKey
  | remove p => p.wgPubKey

/-- The peer as the response has it, if the response has it. -/
def incoming? : PeerOp → Option Peer
  | add p => some p
  | update u => some u.new
  | remove _ => none

end PeerOp

/-- What the loops do for one peer. -/
def applyOp (cfg : Config) (env : Env) (resp : SyncResponse) (e : Engine) : PeerOp → Engine
  | .add p => e.addPeer cfg env resp p
  | .update u => e.updatePeer cfg env resp u
  | .remove p => e.removePeer cfg env p

/-- Everything the diff reports, in the order of the loops. -/
def diffOps (peers : PMap String Peer) (order : List String) (resp : SyncResponse) :
    List PeerOp :=
  (diffAddedPeers peers resp.peers).map .add ++
    ((diffUpdatedPeers peers resp.peers).map .update ++
      (diffRemovedPeers peers order resp.peers).map .remove)

/-- The operations of a sync: what the diff reports about other devices. -/
def syncOps (cfg : Config) (peers : PMap String Peer) (order : List String)
    (resp : SyncResponse) : List PeerOp :=
  (diffOps peers order resp).filter fun op => op.key != cfg.selfKey

section Membership

variable {cfg : Config} {peers : PMap String Peer} {order : List String} {resp : SyncResponse}

/-- The operations of a sync are the differences, the own key apart. -/
theorem mem_syncOps {op : PeerOp} :
    op ∈ syncOps cfg peers order resp ↔ op ∈ diffOps peers order resp ∧ op.key ≠ cfg.selfKey := by
  simp only [syncOps, List.mem_filter, bne_iff_ne, ne_eq]

/-- A peer is added if it was not known. -/
theorem add_mem_syncOps {p : Peer} :
    .add p ∈ syncOps cfg peers order resp ↔
      p ∈ resp.peers ∧ peers p.wgPubKey = none ∧ p.wgPubKey ≠ cfg.selfKey := by
  simp [mem_syncOps, diffOps, mem_diffAddedPeers, PeerOp.key, and_assoc]

/-- A peer is updated if it was known and has changed. -/
theorem update_mem_syncOps {u : Update} :
    .update u ∈ syncOps cfg peers order resp ↔
      u.new ∈ resp.peers ∧ peers u.new.wgPubKey = some u.old ∧ peerChanged u.old u.new = true ∧
        u.new.wgPubKey ≠ cfg.selfKey := by
  simp [mem_syncOps, diffOps, mem_diffUpdatedPeers, PeerOp.key, and_assoc]

/-- The peers of the response that a sync acts on: those it adds or updates. -/
def Reported (cfg : Config) (peers : PMap String Peer) (resp : SyncResponse) (p : Peer) : Prop :=
  p ∈ resp.peers ∧ p.wgPubKey ≠ cfg.selfKey ∧
    ∀ existing, peers p.wgPubKey = some existing → peerChanged existing p = true

/-- A sync acts on the peers that its operations bring in. -/
theorem reported_iff (order : List String) {p : Peer} :
    Reported cfg peers resp p ↔ ∃ op ∈ syncOps cfg peers order resp, op.incoming? = some p := by
  constructor
  · rintro ⟨hp, hself, hch⟩
    -- it is added or updated, as it was known or not
    cases hk : peers p.wgPubKey with
    | none => exact ⟨.add p, add_mem_syncOps.mpr ⟨hp, hk, hself⟩, rfl⟩
    | some existing =>
      exact ⟨.update ⟨existing, p⟩, update_mem_syncOps.mpr ⟨hp, hk, hch existing hk, hself⟩, rfl⟩
  · rintro ⟨op, hop, hin⟩
    cases op with
    | add q =>
      obtain rfl := Option.some.inj hin
      obtain ⟨hp, hk, hself⟩ := add_mem_syncOps.mp hop
      exact ⟨hp, hself, fun existing hex => nomatch hk.symm.trans hex⟩
    | update u =>
      obtain rfl := Option.some.inj hin
      obtain ⟨hp, hk, hch, hself⟩ := update_mem_syncOps.mp hop
      refine ⟨hp, hself, fun existing hex => ?_⟩
      obtain rfl := Option.some.inj (hk.symm.trans hex)
      exact hch
    | remove q => exact nomatch hin

end Membership

/-! ## One loop -/

/-- The engine before the loops: exit node or router handled, the diff committed. -/
def beforeLoops (cfg : Config) (env : Env) (resp : SyncResponse) (e : Engine) : Engine :=
  { (if cfg.netstackMode then e.setRouter cfg resp else e.applyExitNode cfg env resp) with
    peers := incomingMap resp.peers }

/-- The exit node changes no peer. -/
private theorem applyExitNode_peers (cfg : Config) (env : Env) (resp : SyncResponse) (e : Engine) :
    (e.applyExitNode cfg env resp).peers = e.peers := by
  unfold Engine.applyExitNode Engine.activateExitNode Engine.deactivateExitNode
  split_ifs
  · split <;> rfl
  · split <;> rfl
  · rfl

/-- A loop that passes over the device itself. -/
private theorem foldl_skip_self {cfg : Config} {env : Env} {resp : SyncResponse} (ops : List PeerOp)
    (e : Engine) :
    ops.foldl (applyOp cfg env resp) e =
      (ops.filter fun op => op.key != cfg.selfKey).foldl (applyOp cfg env resp) e := by
  induction ops generalizing e with
  | nil => rfl
  | cons op ops ih =>
    by_cases hself : op.key = cfg.selfKey
    · -- the `continue` at the top of each loop
      rw [List.filter_cons_of_neg (by simpa using hself), List.foldl_cons, ih]
      congr 1
      cases op <;>
        simp_all [applyOp, PeerOp.key, Engine.addPeer, Engine.updatePeer, Engine.removePeer]
    · rw [List.filter_cons_of_pos (by simpa using hself), List.foldl_cons, List.foldl_cons, ih]

/-- `applySync` is one loop over the operations, then the packet filter. -/
theorem applySync_eq (cfg : Config) (env : Env) (resp : SyncResponse) (e : Engine) :
    e.applySync cfg env resp =
      let e' := (syncOps cfg e.peers env.order resp).foldl (applyOp cfg env resp)
        (beforeLoops cfg env resp e)
      if cfg.netstackMode then e' else e'.applyACL cfg env resp := by
  -- the differences are taken from the peers as they were before
  have hpeers : (if cfg.netstackMode then e.setRouter cfg resp
      else e.applyExitNode cfg env resp).peers = e.peers := by
    split
    · rfl
    · exact applyExitNode_peers cfg env resp e
  simp only [Engine.applySync, hpeers]
  rw [syncOps, ← foldl_skip_self, diffOps, List.foldl_append, List.foldl_append, List.foldl_map,
    List.foldl_map, List.foldl_map]
  rfl

/-- `ensureRelayLink` only touches the relay and the device. -/
theorem ensureRelayLink_frame {α : Type} (proj : Engine → α)
    (hproj : ∀ e dev relay, proj { e with dev := dev, relay := relay } = proj e) (cfg : Config)
    (k : String) (e : Engine) : proj (e.ensureRelayLink cfg k) = proj e := by
  unfold Engine.ensureRelayLink
  split
  · rfl
  · exact hproj e _ _

/-- The packet filter is the last part of a sync and only touches the chain. -/
theorem applyACL_frame {α : Type} (proj : Engine → α)
    (hproj : ∀ e chain, proj { e with chain := chain } = proj e) (cfg : Config) (env : Env)
    (resp : SyncResponse) (e : Engine) : proj (e.applyACL cfg env resp) = proj e := by
  unfold Engine.applyACL
  split
  · exact hproj e _
  · rfl

/-- What comes before the loops touches the routes, the exit node, the router and the
    known peers. -/
theorem beforeLoops_frame {α : Type} (proj : Engine → α)
    (hproj : ∀ e net exitNode subnets acl peers,
      proj { e with net := net, exitNode := exitNode, routerSubnets := subnets, routerACL := acl,
                    peers := peers } = proj e)
    (cfg : Config) (env : Env) (resp : SyncResponse) (e : Engine) :
    proj (beforeLoops cfg env resp e) = proj e := by
  unfold beforeLoops Engine.applyExitNode Engine.activateExitNode Engine.deactivateExitNode
  split_ifs
  · exact hproj e _ _ _ _ _
  · split <;> exact hproj e _ _ _ _ _
  · split <;> exact hproj e _ _ _ _ _
  · exact hproj e _ _ _ _ _

/-- The parts of the engine that the loops leave alone. -/
def outsideLoops (e : Engine) : PMap String Peer × Option ExitNodeState × List Entry :=
  (e.peers, e.exitNode, e.chain)

/-- An operation keeps what is outside the loops. -/
private theorem applyOp_frame (cfg : Config) (env : Env) (resp : SyncResponse) (e : Engine)
    (op : PeerOp) : outsideLoops (applyOp cfg env resp e op) = outsideLoops e := by
  have hrelay := ensureRelayLink_frame outsideLoops (fun _ _ _ => rfl) cfg
  cases op with
  | add p =>
    rw [applyOp, Engine.addPeer]
    -- the device's own key
    split
    · rfl
    · refine (hrelay _ _).trans ?_
      split <;> rfl
  | update u =>
    rw [applyOp, Engine.updatePeer]
    dsimp only
    split
    · rfl
    · refine (hrelay _ _).trans ?_
      split <;> split <;> rfl
  | remove p =>
    rw [applyOp, Engine.removePeer]
    split
    · rfl
    · dsimp only
      split <;> rfl

/-- So do all of them. -/
private theorem foldl_applyOp_frame (cfg : Config) (env : Env) (resp : SyncResponse)
    (ops : List PeerOp)
    (e : Engine) : outsideLoops (ops.foldl (applyOp cfg env resp) e) = outsideLoops e := by
  induction ops generalizing e with
  | nil => rfl
  | cons op ops ih => rw [List.foldl_cons, ih, applyOp_frame]

/-- Known peers and exit node are settled before the loops. -/
theorem step_frame (cfg : Config) (e : Engine) (s : Sync) :
    (e.step cfg s).peers = (beforeLoops cfg s.env s.resp e).peers ∧
      (e.step cfg s).exitNode = (beforeLoops cfg s.env s.resp e).exitNode := by
  have hloops := foldl_applyOp_frame cfg s.env s.resp (syncOps cfg e.peers s.env.order s.resp)
    (beforeLoops cfg s.env s.resp e)
  simp only [outsideLoops, Prod.mk.injEq] at hloops
  obtain ⟨hpeers, hexit, _⟩ := hloops
  rw [Engine.step, applySync_eq, ← hpeers, ← hexit]
  dsimp only
  split
  · exact ⟨rfl, rfl⟩
  · exact ⟨applyACL_frame Engine.peers (fun _ _ => rfl) cfg s.env s.resp _,
      applyACL_frame Engine.exitNode (fun _ _ => rfl) cfg s.env s.resp _⟩

/-- After a sync the known peers are those of the response. -/
theorem step_peers (cfg : Config) (e : Engine) (s : Sync) :
    (e.step cfg s).peers = incomingMap s.resp.peers :=
  (step_frame cfg e s).1

/-- The runtime visits the known peers in some order, and the server sends each key
    once. -/
structure ValidSync (e : Engine) (s : Sync) : Prop where
  order : PMap.RangeOrder e.peers s.env.order
  keys : (s.resp.peers.map Peer.wgPubKey).Nodup

/-- The known peers are filed under their keys, which every sync brings about. -/
def Keyed (e : Engine) : Prop := ∀ k p, e.peers k = some p → p.wgPubKey = k

/-- After a sync the peers are stored by their keys. -/
theorem keyed_step (cfg : Config) (e : Engine) (s : Sync) : Keyed (e.step cfg s) := by
  intro k p h
  rw [step_peers] at h
  exact (PMap.index_eq_some _ _ h).2

/-- In a sync every peer has one turn. -/
theorem syncOps_keys_nodup (cfg : Config) {e : Engine} {s : Sync} (hkeyed : Keyed e)
    (hvalid : ValidSync e s) :
    ((syncOps cfg e.peers s.env.order s.resp).map PeerOp.key).Nodup := by
  refine List.Nodup.sublist (List.filter_sublist.map _) ?_
  have hadd : ((diffAddedPeers e.peers s.resp.peers).map Peer.wgPubKey).Nodup :=
    hvalid.keys.sublist (List.filter_sublist.map _)
  have hupd : ((diffUpdatedPeers e.peers s.resp.peers).map fun u => u.new.wgPubKey).Nodup := by
    have h := hvalid.keys.sublist ((diffUpdatedPeers_new_sublist e.peers s.resp.peers).map _)
    rwa [List.map_map] at h
  have hrem : ((diffRemovedPeers e.peers s.env.order s.resp.peers).map Peer.wgPubKey).Nodup :=
    hvalid.order.nodup.sublist (diffRemovedPeers_key_sublist hkeyed _ _)
  -- a removed peer shares its key with no peer of the response
  have hgone : ∀ p ∈ diffRemovedPeers e.peers s.env.order s.resp.peers,
      ∀ q ∈ s.resp.peers, q.wgPubKey ≠ p.wgPubKey := by
    intro p hp
    obtain ⟨k, hk, hnot⟩ := (mem_diffRemovedPeers hvalid.order).mp hp
    rwa [hkeyed k p hk]
  simp only [diffOps, List.map_append, List.map_map]
  refine hadd.append (hupd.append hrem ?_) ?_
  · intro k hk hk'
    obtain ⟨u, hu, rfl⟩ := List.mem_map.mp hk
    obtain ⟨p, hp, hpk⟩ := List.mem_map.mp hk'
    exact hgone p hp u.new (mem_diffUpdatedPeers.mp hu).1 hpk.symm
  · intro k hk hk'
    obtain ⟨q, hq, rfl⟩ := List.mem_map.mp hk
    obtain ⟨hmem, hnew⟩ := mem_diffAddedPeers.mp hq
    rcases List.mem_append.mp hk' with hu | hr
    · -- added peers are unknown, updated ones are known
      obtain ⟨u, hu, huk⟩ := List.mem_map.mp hu
      have hold := (mem_diffUpdatedPeers.mp hu).2.1
      have hkey : u.new.wgPubKey = q.wgPubKey := huk
      rw [hkey, hnew] at hold
      exact nomatch hold
    · obtain ⟨p, hp, hpk⟩ := List.mem_map.mp hr
      exact hgone p hp q hmem hpk.symm

/-- The sync a device gets from the server for the peers and rules of its account. -/
def accountSync (cfg : Config) (env : Env) (network : String) (now : Int)
    (peers : List Domain.Peer) (rules : List Domain.Rule) : Sync where
  env := env
  resp := buildSyncResponse network now peers rules cfg.selfKey

/-- The device of the sample runs, whose key is all zeros. -/
def sampleConfig : Config := { publicKey := List.replicate 32 0, dnsSuffix := "blinex" }

/-- The key of 32 bytes `b`. -/
def sampleKey (b : UInt8) : String := Base64.encodeToString (List.replicate 32 b)

/-- The effect of a sync on a table that only the loops touch, when each operation edits
    it in a way that depends on nothing else. -/
theorem applySync_proj {K V : Type} (proj : Engine → PMap K V)
    (edit : PeerOp → PMap.Edit K V) (cfg : Config) (env : Env) (resp : SyncResponse) (e : Engine)
    (hop : ∀ e op, op.key ≠ cfg.selfKey →
      proj (applyOp cfg env resp e op) = (edit op).apply (proj e))
    (hframe : ∀ e net exitNode subnets acl peers chain,
      proj { e with net := net, exitNode := exitNode, routerSubnets := subnets, routerACL := acl,
                    peers := peers, chain := chain } = proj e) :
    proj (e.applySync cfg env resp) =
      PMap.Edit.applyAll ((syncOps cfg e.peers env.order resp).map edit) (proj e) := by
  have hfold (ops : List PeerOp) (hops : ∀ op ∈ ops, op.key ≠ cfg.selfKey) (e : Engine) :
      proj (ops.foldl (applyOp cfg env resp) e) =
        PMap.Edit.applyAll (ops.map edit) (proj e) := by
    -- each operation is one edit
    induction ops generalizing e with
    | nil => rfl
    | cons op ops ih =>
      rw [List.foldl_cons, ih (fun op' h => hops op' (List.mem_cons_of_mem _ h)),
        hop e op (hops op List.mem_cons_self), List.map_cons, PMap.Edit.applyAll_cons]
  have hbefore : proj (beforeLoops cfg env resp e) = proj e :=
    beforeLoops_frame proj (fun e _ _ _ _ _ => hframe e _ _ _ _ _ e.chain) cfg env resp e
  have hloops := hfold (syncOps cfg e.peers env.order resp)
    (fun op hop => (mem_syncOps.mp hop).2) (beforeLoops cfg env resp e)
  rw [hbefore] at hloops
  rw [applySync_eq]
  dsimp only
  split
  · exact hloops
  · exact (applyACL_frame proj (fun e _ => hframe e e.net e.exitNode e.routerSubnets e.routerACL
      e.peers _) cfg env resp _).trans hloops

end Blinex.Spec
