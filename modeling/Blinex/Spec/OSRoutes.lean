import Blinex.ForStd.Run
import Blinex.Spec.SyncOps

/-!
# OS routes after a sync

`applyOSRoutes` installs and removes routes by comparing what a gateway advertises with
what was last recorded for it in `appliedRoutes`; the table of the kernel is shared by all
gateways, by the exit node and by the control hosts that an exit node pins to the original
gateway. `os_routes_follow_iff` is the exact condition under which the table holds the routes of
the last response after every sync of a run.

## Key results

- `step_routes`: a sync edits the routes out of the interface turn by turn
- `routesFollow_step_iff`: one sync leads to the routes of its response iff every route settles
- `os_routes_follow_iff`: the same along every run
- `readvertiseRun_not_follows`, `pinnedRun_not_follows`: runs in which a wanted route is missing
-/

namespace Blinex.Spec

open Blinex.Go Blinex.Native
open Commonv1 (Peer Route)
open Managementv1 (SyncResponse)

/-! ## The table when netlink does not fail -/

section Table

variable {fails : Nat → Bool} (hok : ∀ i, fails i = false) (n : Netlink) (iface : String)

/-- A removal by destination and link takes away the routes out of this link only. -/
private theorem routesVia_routeDel (calls : Nat) (dst : Prefix) (link : String) (x : Prefix) :
    Netlink.routesVia ⟨Netlink.routeDel n.routes dst link, calls⟩ iface x =
      if x = dst ∧ link = iface then none else n.routesVia iface x := by
  simp only [Netlink.routesVia, Netlink.routeDel, Option.filter_eq_some_iff]
  -- the route to compare with leaves by `iface`
  by_cases hdel : x = dst ∧ link = iface
  · obtain ⟨rfl, rfl⟩ := hdel
    simp
  · have hkeep : ¬(x = dst ∧ iface = link) := fun h => hdel ⟨h.1, h.2.symm⟩
    simp [hdel, hkeep]

include hok

/-- `AddRoute` puts the network into the table. -/
private theorem addRoute_routesVia (cidr : String) (x : Prefix) :
    (n.addRoute fails cidr iface).2.routesVia iface x =
      if Net.parseCIDR cidr = some x then some () else n.routesVia iface x := by
  unfold Netlink.addRoute
  rw [hok]
  cases hc : Net.parseCIDR cidr with
  | none => simp [Netlink.routesVia]
  | some dst =>
    by_cases hx : x = dst
    · simp [Netlink.routesVia, hx]
    · simp [Netlink.routesVia, PMap.set_ne _ _ hx, Ne.symm hx]

/-- `RemoveRoute` takes it out again. -/
private theorem removeRoute_routesVia (cidr : String) (x : Prefix) :
    (n.removeRoute fails cidr iface).routesVia iface x =
      if Net.parseCIDR cidr = some x then none else n.routesVia iface x := by
  unfold Netlink.removeRoute
  rw [hok]
  cases hc : Net.parseCIDR cidr with
  | none => simp [Netlink.routesVia]
  | some dst =>
    refine (routesVia_routeDel n iface (n.calls + 1) dst iface x).trans ?_
    simp [eq_comm]

/-- A pinned host is not routed over the interface any more, whatever route it had. -/
private theorem addHostRoute_routesVia (ip gwIP : BitVec 32) (link : String) (x : Prefix) :
    (n.addHostRoute fails ip gwIP link).2.routesVia iface x =
      if some (hostPrefix ip) = some x then none else n.routesVia iface x := by
  unfold Netlink.addHostRoute
  rw [hok]
  by_cases hx : x = hostPrefix ip
  · simp [Netlink.routesVia, hx]
  · simp [Netlink.routesVia, PMap.set_ne _ _ hx, Ne.symm hx]

/-- Unpinning a host only meets a route over the interface if the gateway is behind it too. -/
private theorem removeHostRoute_routesVia (ip : BitVec 32) (link : String) (x : Prefix) :
    (n.removeHostRoute fails ip link).routesVia iface x =
      if (if link = iface then some (hostPrefix ip) else none) = some x then none
      else n.routesVia iface x := by
  unfold Netlink.removeHostRoute
  rw [hok]
  refine (routesVia_routeDel n iface (n.calls + 1) (hostPrefix ip) link x).trans ?_
  by_cases hlink : link = iface
  · simp [hlink, eq_comm]
  · simp [hlink]

end Table

/-- Calls that each set the route to some destination, or each remove it, do so for all of their
    destinations. -/
private theorem foldl_routesVia {β : Type} {f : Netlink → β → Netlink} {dst : β → Option Prefix}
    {iface : String} {v : Option Unit} {x : Prefix}
    (hstep : ∀ n b, (f n b).routesVia iface x = if dst b = some x then v else n.routesVia iface x)
    (items : List β) (n : Netlink) :
    (items.foldl f n).routesVia iface x =
      if x ∈ items.filterMap dst then v else n.routesVia iface x := by
  induction items generalizing n with
  | nil => rfl
  | cons b items ih =>
    rw [List.foldl_cons, ih, hstep]
    by_cases hb : dst b = some x
    · simp [List.mem_filterMap, hb]
    · simp [List.mem_filterMap, hb]

/-- The destinations of the subnet routes among some CIDRs; default routes are left to the
    exit node. -/
def subnets (cidrs : List String) : List Prefix :=
  (cidrs.filter fun c => !isDefaultRoute c).filterMap Net.parseCIDR

/-- The networks among the routes, the default routes left out. -/
private theorem mem_subnets {cidrs : List String} {x : Prefix} :
    x ∈ subnets cidrs ↔ ∃ c ∈ cidrs, isDefaultRoute c = false ∧ Net.parseCIDR c = some x := by
  simp only [subnets, List.mem_filterMap, List.mem_filter, Bool.not_eq_true', and_assoc]

/-- Skipping the default routes is filtering them out. -/
private theorem foldl_skip_default (f : Netlink → String → Netlink) (cidrs : List String)
    (n : Netlink) :
    cidrs.foldl (fun n cidr => if isDefaultRoute cidr then n else f n cidr) n =
      (cidrs.filter fun c => !isDefaultRoute c).foldl f n := by
  rw [List.foldl_filter]
  congr 1
  funext n c
  cases isDefaultRoute c <;> rfl

/-- What `applyOSRoutes` does to the routes over the interface: the new ones are added after the
    old ones are removed. -/
private theorem applyOSRoutes_routes {env : Env} (hok : ∀ i, env.routeFails i = false)
    (cfg : Config) (key : String) (old new : List String) (e : Engine) (x : Prefix) :
    (e.applyOSRoutes cfg env key old new).net.routesVia cfg.wgInterface x =
      if x ∈ subnets (diffAdded old new) then some ()
      else if x ∈ subnets (diffRemoved old new) then none
      else e.net.routesVia cfg.wgInterface x := by
  simp only [Engine.applyOSRoutes]
  rw [foldl_skip_default (fun n cidr => (n.addRoute env.routeFails cidr cfg.wgInterface).2),
    foldl_skip_default (fun n cidr => n.removeRoute env.routeFails cidr cfg.wgInterface),
    foldl_routesVia (fun n cidr => addRoute_routesVia hok n cfg.wgInterface cidr x),
    foldl_routesVia (fun n cidr => removeRoute_routesVia hok n cfg.wgInterface cidr x)]
  rfl

/-! ## The turns of a sync -/

/-- What touches the table during a sync: the exit node, then the loops. -/
inductive Turn where
  | exitNode
  | peer (op : PeerOp)

/-- The turns of a sync. -/
def turns (cfg : Config) (e : Engine) (s : Sync) : List Turn :=
  .exitNode :: (syncOps cfg e.peers s.env.order s.resp).map .peer

/-- The routes the peer is recorded with, as the loops look them up. -/
def recordedRoutes (applied : PMap String (List String)) : PeerOp → List String
  | .add _ => []
  | .update u => (applied u.new.wgPubKey).getD []
  | .remove p => (applied p.wgPubKey).getD []

/-- The routes the peer is to have. -/
def desiredRoutes (resp : SyncResponse) : PeerOp → List String
  | .add p => gatewayRoutes resp p.wgPubKey
  | .update u => gatewayRoutes resp u.new.wgPubKey
  | .remove _ => []

/-- The two destinations an exit node is reached through. -/
def halves : List Prefix := Engine.splitRoutes.filterMap Net.parseCIDR

/-- The hosts whose connections must not go through the tunnel. -/
def controlHosts (cfg : Config) : List String := [cfg.managementURL, cfg.signalURL]

/-- The addresses that are to be pinned, in the order of the `AddHostRoute` calls. -/
def pinCalls (env : Env) (addrs : List String) : List (BitVec 32) :=
  addrs.filterMap fun addr => (env.resolveHost addr).filter fun ip => !Engine.isLoopback ip

/-- The sync activates an exit node. -/
def activates (cfg : Config) (e : Engine) (s : Sync) : Bool :=
  Engine.useExitNode cfg s.resp && e.exitNode.isNone && s.env.defaultGateway.isSome

/-- The destinations of the hosts that the sync pins past the tunnel. -/
def pins (cfg : Config) (e : Engine) (s : Sync) : List Prefix :=
  if activates cfg e s then (pinCalls s.env (controlHosts cfg)).map hostPrefix else []

/-- The destinations that the sync gives up with an exit node: the halves, and those of the pinned
    hosts if the gateway is behind the WireGuard interface itself. -/
def released (cfg : Config) (e : Engine) (s : Sync) : List Prefix :=
  match e.exitNode with
  | some st =>
    if Engine.useExitNode cfg s.resp then []
    else halves ++ if st.gwIface = cfg.wgInterface then st.hostIPs.map hostPrefix else []
  | none => []

/-- The turn installs a route to `x` over the interface. -/
def installs (cfg : Config) (e : Engine) (s : Sync) (x : Prefix) : Turn → Bool
  | .exitNode => activates cfg e s && decide (x ∈ halves)
  | .peer op =>
    decide (x ∈ subnets (diffAdded (recordedRoutes e.appliedRoutes op) (desiredRoutes s.resp op)))

/-- The turn removes the route to `x` over the interface, or puts the route of a pinned host in
    its place. -/
def withdraws (cfg : Config) (e : Engine) (s : Sync) (x : Prefix) : Turn → Bool
  | .exitNode => decide (x ∈ pins cfg e s) || decide (x ∈ released cfg e s)
  | .peer op =>
    decide (x ∈ subnets (diffRemoved (recordedRoutes e.appliedRoutes op) (desiredRoutes s.resp op)))

/-- A turn as an edit of the table. -/
def turnEdit (cfg : Config) (e : Engine) (s : Sync) (t : Turn) : PMap.Edit Prefix Unit where
  erase := fun x _ => withdraws cfg e s x t
  write := fun x => if installs cfg e s x t then some () else none

/-- A route that a turn installs is there, also if the turn withdraws it. -/
private theorem turnEdit_apply (cfg : Config) (e : Engine) (s : Sync) (t : Turn)
    (m : PMap Prefix Unit)
    (x : Prefix) :
    (turnEdit cfg e s t).apply m x =
      if installs cfg e s x t then some () else if withdraws cfg e s x t then none else m x := by
  cases hi : installs cfg e s x t with
  | true => exact PMap.Edit.apply_of_write m (by simp [turnEdit, hi])
  | false =>
    have hw : (turnEdit cfg e s t).write x = none := by simp [turnEdit, hi]
    cases hr : withdraws cfg e s x t with
    | true => exact PMap.Edit.apply_of_erase m hw fun _ => hr
    | false => exact PMap.Edit.apply_of_keep m hw fun _ => hr

/-! ## The record -/

/-- `applyOSRoutes` records the routes of a peer that stays, if there are any. -/
def recordEdit (resp : SyncResponse) (key : String) : PMap.Edit String (List String) where
  erase := fun _ _ => false
  write := fun k =>
    if k = key ∧ gatewayRoutes resp key ≠ [] then some (gatewayRoutes resp key) else none

/-- The record of a removed peer goes. -/
def forgetEdit (key : String) : PMap.Edit String (List String) where
  erase := fun k _ => k = key
  write := fun _ => none

/-- A turn of the loops as an edit of the record. -/
def bookEdit (resp : SyncResponse) : PeerOp → PMap.Edit String (List String)
  | .add p => recordEdit resp p.wgPubKey
  | .update u => recordEdit resp u.new.wgPubKey
  | .remove p => forgetEdit p.wgPubKey

/-- The routes of a gateway are recorded if there are any. -/
private theorem recordEdit_apply (resp : SyncResponse) (key : String)
    (m : PMap String (List String)) :
    (recordEdit resp key).apply m =
      if gatewayRoutes resp key ≠ [] then m.set key (gatewayRoutes resp key) else m := by
  funext k
  by_cases hwrite : k = key ∧ gatewayRoutes resp key ≠ []
  · obtain ⟨rfl, hne⟩ := hwrite
    rw [if_pos hne, PMap.set_self]
    exact PMap.Edit.apply_of_write m (if_pos ⟨rfl, hne⟩)
  · -- other keys are kept, and so is this one without routes
    have hkeep : (recordEdit resp key).apply m k = m k :=
      PMap.Edit.apply_of_keep m (if_neg hwrite) fun _ => rfl
    rw [hkeep]
    split
    · rename_i hne
      exact (PMap.set_ne _ _ fun hk => hwrite ⟨hk, hne⟩).symm
    · rfl

/-- A removed peer is forgotten. -/
private theorem forgetEdit_apply (key : String) (m : PMap String (List String)) :
    (forgetEdit key).apply m = m.delete key := by
  funext k
  by_cases hk : k = key
  · rw [hk, PMap.delete_self]
    exact PMap.Edit.apply_of_erase m rfl fun _ => decide_eq_true rfl
  · rw [PMap.delete_ne _ hk]
    exact PMap.Edit.apply_of_keep m rfl fun _ => decide_eq_false hk

/-- A turn leaves the records of the other peers alone. -/
private theorem bookEdit_apply_ne (resp : SyncResponse) (m : PMap String (List String))
    {op : PeerOp}
    {k : String} (hk : k ≠ op.key) : (bookEdit resp op).apply m k = m k := by
  cases op with
  | add p => exact PMap.Edit.apply_of_keep m (if_neg fun h => hk h.1) fun _ => rfl
  | update u => exact PMap.Edit.apply_of_keep m (if_neg fun h => hk h.1) fun _ => rfl
  | remove p => exact PMap.Edit.apply_of_keep m rfl fun _ => decide_eq_false hk

/-! ## The loops -/

section Loops

variable {cfg : Config}

/-- Of the routes, a turn of the loops changes what `applyOSRoutes` does, and its own peer's
    record. -/
theorem applyOp_osRoutes (hkernel : cfg.netstackMode = false) (env : Env) (resp : SyncResponse)
    (e : Engine) {op : PeerOp} (hself : op.key ≠ cfg.selfKey) :
    (applyOp cfg env resp e op).net =
        (e.applyOSRoutes cfg env op.key (recordedRoutes e.appliedRoutes op)
          (desiredRoutes resp op)).net ∧
      (applyOp cfg env resp e op).appliedRoutes = (bookEdit resp op).apply e.appliedRoutes := by
  have hnet := ensureRelayLink_frame Engine.net (fun _ _ _ => rfl) cfg
  have hrec := ensureRelayLink_frame Engine.appliedRoutes (fun _ _ _ => rfl) cfg
  cases op with
  -- the routes go from the recorded ones to the wanted ones, which are recorded if any
  | add p =>
    have hp : p.wgPubKey ≠ cfg.selfKey := hself
    simp only [applyOp, Engine.addPeer, if_neg hp, hkernel, Bool.false_eq_true, if_false, hnet,
      hrec, bookEdit, recordEdit_apply]
    exact ⟨rfl, rfl⟩
  | update u =>
    have hp : u.new.wgPubKey ≠ cfg.selfKey := hself
    simp only [applyOp, Engine.updatePeer, if_neg hp, hkernel, Bool.false_eq_true, if_false, hnet,
      hrec, bookEdit, recordEdit_apply]
    split <;> exact ⟨rfl, rfl⟩
  | remove p =>
    have hp : p.wgPubKey ≠ cfg.selfKey := hself
    simp only [applyOp, Engine.removePeer, if_neg hp, hkernel, Bool.false_eq_true, if_false,
      bookEdit, forgetEdit_apply]
    exact ⟨rfl, rfl⟩

/-- A turn of the loops edits the routes over the interface. -/
private theorem applyOp_routes (hkernel : cfg.netstackMode = false) {s : Sync}
    (hok : ∀ i, s.env.routeFails i = false) (e : Engine) {op : PeerOp}
    (hself : op.key ≠ cfg.selfKey) :
    (applyOp cfg s.env s.resp e op).net.routesVia cfg.wgInterface =
      (turnEdit cfg e s (.peer op)).apply (e.net.routesVia cfg.wgInterface) := by
  funext x
  rw [turnEdit_apply, (applyOp_osRoutes hkernel s.env s.resp e hself).1,
    applyOSRoutes_routes hok]
  simp only [installs, withdraws, decide_eq_true_eq]

/-- A turn only looks at the record of its own peer. -/
private theorem turnEdit_congr {e e' : Engine} (s : Sync) {op : PeerOp}
    (h : e.appliedRoutes op.key = e'.appliedRoutes op.key) :
    turnEdit cfg e s (.peer op) = turnEdit cfg e' s (.peer op) := by
  have hrec : recordedRoutes e.appliedRoutes op = recordedRoutes e'.appliedRoutes op := by
    cases op with
    | add p => rfl
    | update u => exact congrArg (·.getD []) h
    | remove p => exact congrArg (·.getD []) h
  simp only [turnEdit, installs, withdraws, hrec]
  rfl

/-- The loops edit the table by what was recorded before them: each peer has one turn. -/
private theorem foldl_applyOp_routes (hkernel : cfg.netstackMode = false) {s : Sync}
    (hok : ∀ i, s.env.routeFails i = false) (e₀ : Engine) (ops : List PeerOp)
    (hnd : (ops.map PeerOp.key).Nodup) (hself : ∀ op ∈ ops, op.key ≠ cfg.selfKey) (e : Engine)
    (hrec : ∀ op ∈ ops, e.appliedRoutes op.key = e₀.appliedRoutes op.key) :
    (ops.foldl (applyOp cfg s.env s.resp) e).net.routesVia cfg.wgInterface =
      PMap.Edit.applyAll (ops.map fun op => turnEdit cfg e₀ s (.peer op))
        (e.net.routesVia cfg.wgInterface) := by
  induction ops generalizing e with
  | nil => rfl
  | cons op ops ih =>
    have hop := hself op List.mem_cons_self
    rw [List.map_cons, List.nodup_cons] at hnd
    rw [List.foldl_cons, ih hnd.2 (fun op' h => hself op' (List.mem_cons_of_mem _ h)),
      applyOp_routes hkernel hok e hop, turnEdit_congr s (hrec op List.mem_cons_self)]
    · rfl
    · intro op' hop'
      -- the record of a later peer is still the one it had before the loops
      have hne : op'.key ≠ op.key := by
        intro heq
        exact hnd.1 (heq ▸ List.mem_map_of_mem hop')
      rw [(applyOp_osRoutes hkernel s.env s.resp e hop).2, bookEdit_apply_ne s.resp _ hne]
      exact hrec op' (List.mem_cons_of_mem _ hop')

end Loops

section ExitNode

variable {env : Env}

/-- What pinning does to the table: one call for each address. -/
theorem pinHosts_net (gwIP : BitVec 32) (gwIface : String) (addrs : List String) (n : Netlink) :
    (Engine.pinHosts env gwIP gwIface addrs n).2 =
      (pinCalls env addrs).foldl
        (fun n ip => (n.addHostRoute env.routeFails ip gwIP gwIface).2) n := by
  rw [pinCalls, List.foldl_filterMap]
  -- the addresses collected so far have no influence on the table
  refine (List.foldl_hom Prod.snd ?_).symm
  intro acc addr
  cases env.resolveHost addr with
  | none => rfl
  | some ip => cases hlo : Engine.isLoopback ip <;> simp [Option.filter, hlo]

/-- The routes over the interface once the exit node is active: the halves are there, the pinned
    hosts are not. -/
private theorem activateExitNode_routes (hok : ∀ i, env.routeFails i = false) (cfg : Config)
    {gw : BitVec 32 × String} (hgw : env.defaultGateway = some gw) (e : Engine) (x : Prefix) :
    (e.activateExitNode cfg env).net.routesVia cfg.wgInterface x =
      if x ∈ halves then some ()
      else if x ∈ (pinCalls env (controlHosts cfg)).map hostPrefix then none
      else e.net.routesVia cfg.wgInterface x := by
  unfold Engine.activateExitNode
  rw [hgw]
  dsimp only
  -- the halves are added after the hosts are pinned
  rw [foldl_routesVia (fun n cidr => addRoute_routesVia hok n cfg.wgInterface cidr x),
    pinHosts_net,
    foldl_routesVia (fun n ip => addHostRoute_routesVia hok n cfg.wgInterface ip gw.1 gw.2 x)]
  rw [List.filterMap_eq_map']
  rfl

/-- The routes over the interface once the exit node is given up. -/
private theorem deactivateExitNode_routes (hok : ∀ i, env.routeFails i = false) (cfg : Config)
    {e : Engine} {st : ExitNodeState} (hexit : e.exitNode = some st) (x : Prefix) :
    (e.deactivateExitNode cfg env).net.routesVia cfg.wgInterface x =
      if x ∈ halves ++ (if st.gwIface = cfg.wgInterface then st.hostIPs.map hostPrefix else [])
      then none else e.net.routesVia cfg.wgInterface x := by
  unfold Engine.deactivateExitNode
  rw [hexit]
  dsimp only
  rw [foldl_routesVia (fun n ip => removeHostRoute_routesVia hok n cfg.wgInterface ip st.gwIface x),
    foldl_routesVia (fun n cidr => removeRoute_routesVia hok n cfg.wgInterface cidr x)]
  -- the unpinned hosts count only if their gateway is behind the interface
  have hhosts : x ∈ st.hostIPs.filterMap (fun ip =>
        if st.gwIface = cfg.wgInterface then some (hostPrefix ip) else none) ↔
      x ∈ if st.gwIface = cfg.wgInterface then st.hostIPs.map hostPrefix else [] := by
    by_cases hlink : st.gwIface = cfg.wgInterface <;> simp [hlink]
  have hhalves : Engine.splitRoutes.filterMap Net.parseCIDR = halves := rfl
  simp only [hhalves, List.mem_append, hhosts]
  -- the order of the two removals does not matter
  by_cases hhalf : x ∈ halves
  · simp [hhalf]
  · simp [hhalf]

/-- Before the loops the exit node edits the routes over the interface. -/
private theorem beforeLoops_routes {cfg : Config} (hkernel : cfg.netstackMode = false) {s : Sync}
    (hok : ∀ i, s.env.routeFails i = false) (e : Engine) :
    (beforeLoops cfg s.env s.resp e).net.routesVia cfg.wgInterface =
      (turnEdit cfg e s .exitNode).apply (e.net.routesVia cfg.wgInterface) := by
  have hnet : (beforeLoops cfg s.env s.resp e).net = (e.applyExitNode cfg s.env s.resp).net := by
    simp only [beforeLoops, hkernel, Bool.false_eq_true, if_false]
  funext x
  rw [turnEdit_apply, hnet]
  -- selected or not, in use or not; only two of the four cases touch the table
  cases huse : Engine.useExitNode cfg s.resp with
  | true =>
    cases hexit : e.exitNode with
    | some st =>
      simp [Engine.applyExitNode, installs, withdraws, activates, pins, released, huse, hexit]
    | none =>
      cases hgw : s.env.defaultGateway with
      | none =>
        simp [Engine.applyExitNode, installs, withdraws, activates, pins, released, huse, hexit,
          Engine.activateExitNode, hgw]
      | some gw =>
        simp [Engine.applyExitNode, installs, withdraws, activates, pins, released, huse, hexit,
          hgw, activateExitNode_routes hok cfg hgw]
  | false =>
    cases hexit : e.exitNode with
    | none =>
      simp [Engine.applyExitNode, installs, withdraws, activates, pins, released, huse, hexit]
    | some st =>
      simp [Engine.applyExitNode, installs, withdraws, activates, pins, released, huse, hexit,
        deactivateExitNode_routes hok cfg hexit]

/-- Whether the exit node is in use after a sync. -/
def exitActive (cfg : Config) (e : Engine) (s : Sync) : Bool :=
  Engine.useExitNode cfg s.resp && (e.exitNode.isSome || s.env.defaultGateway.isSome)

/-- The exit node is active after a sync as `exitActive` says. -/
private theorem step_exitNode {cfg : Config} (hkernel : cfg.netstackMode = false) (e : Engine)
    (s : Sync) :
    (e.step cfg s).exitNode.isSome = exitActive cfg e s := by
  rw [(step_frame cfg e s).2]
  simp only [beforeLoops, hkernel, Bool.false_eq_true, if_false, Engine.applyExitNode, exitActive]
  cases huse : Engine.useExitNode cfg s.resp with
  | true =>
    cases hexit : e.exitNode with
    | some st => simp [hexit]
    -- without a default gateway nothing is activated
    | none =>
      simp only [Engine.activateExitNode]
      cases s.env.defaultGateway <;> simp [hexit]
  | false =>
    cases hexit : e.exitNode with
    | none => simp [hexit]
    | some st => simp [Engine.deactivateExitNode, hexit]

end ExitNode

/-! ## Following the last response -/

/-- The response has an enabled route to `x` through another device that it lists. -/
def Wanted (cfg : Config) (resp : SyncResponse) (x : Prefix) : Prop :=
  ∃ r ∈ resp.routes, r.enabled = true ∧ isDefaultRoute r.network = false ∧
    Net.parseCIDR r.network = some x ∧ r.gateway ≠ cfg.selfKey ∧
    ∃ p ∈ resp.peers, p.wgPubKey = r.gateway

/-- The table has the routes of a response over the WireGuard interface and, apart from those of
    an exit node in use, no others over it. -/
structure RoutesFollow (cfg : Config) (resp : SyncResponse) (e : Engine) : Prop where
  installed : ∀ x, Wanted cfg resp x → e.net.routesVia cfg.wgInterface x ≠ none
  wanted : ∀ x, e.net.routesVia cfg.wgInterface x ≠ none →
    Wanted cfg resp x ∨ (e.exitNode.isSome = true ∧ x ∈ halves)

/-- The last turn that installs a route to `x` is followed by none that removes it. -/
def GetsRoute (cfg : Config) (e : Engine) (s : Sync) (x : Prefix) : Prop :=
  ∃ l₁ t l₂, turns cfg e s = l₁ ++ t :: l₂ ∧ installs cfg e s x t = true ∧
    ∀ t' ∈ l₂, installs cfg e s x t' = false ∧ withdraws cfg e s x t' = false

/-- There is a route to `x` before the sync, and no turn touches it. -/
def KeepsRoute (cfg : Config) (e : Engine) (s : Sync) (x : Prefix) : Prop :=
  e.net.routesVia cfg.wgInterface x ≠ none ∧
    ∀ t ∈ turns cfg e s, installs cfg e s x t = false ∧ withdraws cfg e s x t = false

/-- What makes the route to `x` come out right: one that is wanted is got or kept, and one
    that is there and is not wanted is removed by some turn. -/
structure RouteSettles (cfg : Config) (e : Engine) (s : Sync) (x : Prefix) : Prop where
  wanted : Wanted cfg s.resp x → GetsRoute cfg e s x ∨ KeepsRoute cfg e s x
  unwanted : e.net.routesVia cfg.wgInterface x ≠ none → Wanted cfg s.resp x ∨
    (exitActive cfg e s = true ∧ x ∈ halves) ∨ ∃ t ∈ turns cfg e s, withdraws cfg e s x t = true

/-- A sync during which netlink does not fail. -/
structure RoutedSync (e : Engine) (s : Sync) : Prop extends ValidSync e s where
  routes_ok : ∀ i, s.env.routeFails i = false

/-- `routesByGateway` lists under a gateway the networks of its enabled routes. -/
theorem mem_gatewayRoutes {resp : SyncResponse} {key cidr : String} :
    cidr ∈ gatewayRoutes resp key ↔
      ∃ r ∈ resp.routes, r.enabled = true ∧ r.gateway = key ∧ r.network = cidr := by
  have hfold (routes : List Route) (m : PMap String (List String)) :
      cidr ∈ (routes.foldl (fun m r =>
          if r.enabled then m.set r.gateway ((m r.gateway).getD [] ++ [r.network]) else m)
          m key).getD [] ↔
        cidr ∈ (m key).getD [] ∨
          ∃ r ∈ routes, r.enabled = true ∧ r.gateway = key ∧ r.network = cidr := by
    induction routes generalizing m with
    | nil => simp
    | cons r routes ih =>
      rw [List.foldl_cons, ih, List.exists_mem_cons_iff, ← or_assoc]
      refine or_congr_left ?_
      -- a disabled route leaves the map alone, an enabled one extends its gateway's list
      cases r.enabled with
      | false => simp
      | true =>
        by_cases hk : key = r.gateway
        · subst hk
          simp [eq_comm]
        · simp [PMap.set_ne _ _ hk, Ne.symm hk]
  rw [gatewayRoutes, routesByGateway, hfold]
  simp

section Step

variable {cfg : Config} {e : Engine} {s : Sync} {x : Prefix}

/-- The table after a sync is a log of edits. -/
theorem step_routes (hkernel : cfg.netstackMode = false) (hkeyed : Keyed e)
    (hsync : RoutedSync e s) :
    (e.step cfg s).net.routesVia cfg.wgInterface =
      PMap.Edit.applyAll ((turns cfg e s).map (turnEdit cfg e s))
        (e.net.routesVia cfg.wgInterface) := by
  -- what follows the loops does not touch the table
  have hacl := applyACL_frame Engine.net (fun _ _ => rfl) cfg s.env s.resp
  have hrec := beforeLoops_frame Engine.appliedRoutes (fun _ _ _ _ _ _ => rfl) cfg s.env s.resp e
  have hloops := foldl_applyOp_routes hkernel hsync.routes_ok e
    (syncOps cfg e.peers s.env.order s.resp) (syncOps_keys_nodup cfg hkeyed hsync.toValidSync)
    (fun op hop => (mem_syncOps.mp hop).2) (beforeLoops cfg s.env s.resp e)
    (fun op _ => by rw [hrec])
  rw [Engine.step, applySync_eq]
  simp only [hkernel, Bool.false_eq_true, if_false, hacl]
  rw [hloops, beforeLoops_routes hkernel hsync.routes_ok, turns, List.map_cons, List.map_map]
  rfl

/-- What a turn writes is what it installs. -/
private theorem turnEdit_write (t : Turn) :
    (turnEdit cfg e s t).write x = some () ↔ installs cfg e s x t = true := by
  simp [turnEdit]

/-- What a turn keeps it neither installs nor withdraws. -/
private theorem turnEdit_keeps (t : Turn) :
    (turnEdit cfg e s t).Keeps x () ↔
      installs cfg e s x t = false ∧ withdraws cfg e s x t = false := by
  simp [turnEdit, PMap.Edit.Keeps]

/-- How a route came to be there after a sync. -/
private theorem step_routes_ne_none (hkernel : cfg.netstackMode = false) (hkeyed : Keyed e)
    (hsync : RoutedSync e s) :
    (e.step cfg s).net.routesVia cfg.wgInterface x ≠ none ↔
      GetsRoute cfg e s x ∨ KeepsRoute cfg e s x := by
  have hunit (o : Option Unit) : o ≠ none ↔ o = some () := by
    cases o <;> simp
  unfold GetsRoute KeepsRoute
  rw [hunit, hunit, step_routes hkernel hkeyed hsync, PMap.Edit.applyAll_map_eq_some_iff]
  simp only [turnEdit_write, turnEdit_keeps]

/-- Nothing is installed that is not wanted, except for the exit node. -/
private theorem wanted_of_installs {t : Turn} (ht : t ∈ turns cfg e s)
    (h : installs cfg e s x t = true) :
    Wanted cfg s.resp x ∨ (exitActive cfg e s = true ∧ x ∈ halves) := by
  cases t with
  | exitNode =>
    simp only [installs, activates, Bool.and_eq_true, decide_eq_true_eq] at h
    obtain ⟨⟨⟨huse, _⟩, hgw⟩, hx⟩ := h
    refine .inr ⟨?_, hx⟩
    rw [exitActive, huse, hgw, Bool.or_true, Bool.and_true]
  | peer op =>
    have hop : op ∈ syncOps cfg e.peers s.env.order s.resp := by
      simpa [turns] using ht
    obtain ⟨c, hc, hdef, hparse⟩ := mem_subnets.mp (of_decide_eq_true h)
    have hdes : c ∈ desiredRoutes s.resp op := (List.mem_filter.mp hc).1
    -- only a peer of the response is to have routes
    obtain ⟨p, hin, hroutes⟩ : ∃ p, op.incoming? = some p ∧
        c ∈ gatewayRoutes s.resp p.wgPubKey := by
      cases op with
      | add p => exact ⟨p, rfl, hdes⟩
      | update u => exact ⟨u.new, rfl, hdes⟩
      | remove p => exact nomatch hdes
    obtain ⟨hp, hself, _⟩ := (reported_iff _).mpr ⟨op, hop, hin⟩
    obtain ⟨r, hr, hen, hgw, rfl⟩ := mem_gatewayRoutes.mp hroutes
    exact .inl ⟨r, hr, hen, hdef, hparse, hgw ▸ hself, p, hp, hgw.symm⟩

/-- The table follows the response after a sync exactly when every route settles in it. -/
theorem routesFollow_step_iff (hkernel : cfg.netstackMode = false) (hkeyed : Keyed e)
    (hsync : RoutedSync e s) :
    RoutesFollow cfg s.resp (e.step cfg s) ↔ ∀ x, RouteSettles cfg e s x := by
  constructor
  · intro h x
    constructor
    · intro hx
      exact (step_routes_ne_none hkernel hkeyed hsync).mp (h.installed x hx)
    · intro hthere
      by_cases htouched : ∃ t ∈ turns cfg e s,
          installs cfg e s x t = true ∨ withdraws cfg e s x t = true
      · obtain ⟨t, ht, hinst | hwd⟩ := htouched
        · exact (wanted_of_installs ht hinst).imp_right .inl
        · exact .inr (.inr ⟨t, ht, hwd⟩)
      · -- untouched, the route is still there, so it is one that may be
        push Not at htouched
        have hkeeps : KeepsRoute cfg e s x := by
          refine ⟨hthere, fun t ht => ?_⟩
          simpa using htouched t ht
        have hx := h.wanted x ((step_routes_ne_none hkernel hkeyed hsync).mpr (.inr hkeeps))
        rw [step_exitNode hkernel] at hx
        exact hx.imp_right .inl
  · intro h
    constructor
    · intro x hx
      exact (step_routes_ne_none hkernel hkeyed hsync).mpr ((h x).wanted hx)
    · intro x hx
      rw [step_exitNode hkernel]
      -- a route that is there was installed last, or was there and nobody touched it
      rcases (step_routes_ne_none hkernel hkeyed hsync).mp hx with
        ⟨l₁, t, l₂, hturns, hinst, _⟩ | ⟨hthere, hno⟩
      · exact wanted_of_installs (hturns ▸ List.mem_append_cons_self) hinst
      · rcases (h x).unwanted hthere with hw | hhalf | ⟨t, ht, hwd⟩
        · exact .inl hw
        · exact .inr hhalf
        · exact absurd hwd (by simp [(hno t ht).2])

end Step

/-- **When the OS routes follow the syncs.** In kernel mode, from an engine whose peers are
    filed under their keys and along any run in which netlink does not fail, the table
    holds the routes of the last response after every sync exactly when every route
    settles in every sync. -/
theorem os_routes_follow_iff (cfg : Config) (hkernel : cfg.netstackMode = false) (e : Engine)
    (hkeyed : Keyed e) (syncs : List Sync) (hsyncs : Along (Engine.step cfg) RoutedSync e syncs) :
    Along (Engine.step cfg) (fun e s => RoutesFollow cfg s.resp (e.step cfg s)) e syncs ↔
      Along (Engine.step cfg) (fun e s => ∀ x, RouteSettles cfg e s x) e syncs :=
  Along.congr (fun e s _ _ _ => keyed_step cfg e s)
    (fun _ _ hkeyed hsync => routesFollow_step_iff hkernel hkeyed hsync) hkeyed hsyncs

/-- A gateway and the subnets it advertises. -/
def subnetResponse (cidrs : List String) : SyncResponse where
  peers := [{ wgPubKey := sampleKey 1, allowedIps := "100.64.0.2/32" :: cidrs }]
  routes := cidrs.map fun cidr => { network := cidr, gateway := sampleKey 1, enabled := true }

/-- The gateway advertises a subnet, withdraws it, and advertises it again. -/
def readvertiseRun : List Sync :=
  [{ env := { order := [] }, resp := subnetResponse ["10.0.0.0/24"] },
   { env := { order := [sampleKey 1] }, resp := subnetResponse [] },
   { env := { order := [sampleKey 1] }, resp := subnetResponse ["10.0.0.0/24"] }]

/-- A sync that finds the sample gateway among the known peers. -/
private theorem routedSync_sampleGateway {e : Engine} {s : Sync} (cidrs : List String)
    (h : e.peers = incomingMap (subnetResponse cidrs).peers)
    (horder : s.env.order = [sampleKey 1]) (hkeys : (s.resp.peers.map Peer.wgPubKey).Nodup)
    (hok : ∀ i, s.env.routeFails i = false) : RoutedSync e s := by
  refine ⟨⟨?_, hkeys⟩, hok⟩
  rw [h, horder]
  exact PMap.RangeOrder.index Peer.wgPubKey (List.nodup_singleton _)

/-- The subnet's first advertisement is followed. -/
theorem os_routes_follow_first :
    Along (Engine.step sampleConfig) RoutedSync {} (readvertiseRun.take 1) ∧
    Along (Engine.step sampleConfig)
      (fun e s => RoutesFollow sampleConfig s.resp (e.step sampleConfig s)) {}
      (readvertiseRun.take 1) := by
  have hsyncs : Along (Engine.step sampleConfig) RoutedSync {} (readvertiseRun.take 1) :=
    ⟨⟨⟨PMap.RangeOrder.empty, List.nodup_singleton _⟩, fun _ => rfl⟩, trivial⟩
  refine ⟨hsyncs, (os_routes_follow_iff sampleConfig rfl {} (fun _ _ h => nomatch h) _ hsyncs).mpr
    ⟨fun x => ⟨fun hx => ?_, fun h => absurd rfl h⟩, trivial⟩⟩
  -- the one wanted network is installed by the turn of the gateway
  obtain ⟨r, hr, _, _, hparse, _⟩ := hx
  obtain rfl := List.mem_singleton.mp hr
  have hx : x = ⟨.v4 0x0A000000, 24, by decide⟩ :=
    Option.some.inj (hparse.symm.trans (by decide +kernel))
  subst hx
  exact .inl ⟨[.exitNode], .peer (.add _), [], rfl,
    by decide +kernel, nofun⟩

/-- The third sync does not bring the route back: the record of the gateway was not
    cleared when it withdrew its last subnet. -/
theorem readvertiseRun_not_follows :
    Along (Engine.step sampleConfig) RoutedSync {} readvertiseRun ∧
    ¬ Along (Engine.step sampleConfig)
      (fun e s => RoutesFollow sampleConfig s.resp (e.step sampleConfig s)) {}
      readvertiseRun := by
  constructor
  · exact ⟨⟨⟨PMap.RangeOrder.empty, List.nodup_singleton _⟩, fun _ => rfl⟩,
      routedSync_sampleGateway ["10.0.0.0/24"] (step_peers _ _ _) rfl (List.nodup_singleton _)
        fun _ => rfl,
      routedSync_sampleGateway [] (step_peers _ _ _) rfl (List.nodup_singleton _) fun _ => rfl,
      trivial⟩
  · -- the second sync kept its record of the subnet, so the third finds nothing to install
    intro h
    obtain ⟨_, _, hthird, _⟩ := h
    have hwanted : Wanted sampleConfig (subnetResponse ["10.0.0.0/24"])
        ⟨.v4 0x0A000000, 24, by decide⟩ :=
      ⟨_, List.mem_singleton_self _, rfl, by decide, by decide +kernel, by decide +kernel,
        _, List.mem_singleton_self _, rfl⟩
    exact hthird.installed _ hwanted (by decide +kernel)

/-- A device whose management server has the address 203.0.113.1. -/
def pinningConfig : Config :=
  { sampleConfig with wgInterface := "wg0", managementURL := "203.0.113.1:443" }

/-- The gateway advertises the address of the management server, and is then selected as the exit
    node as well. -/
def pinnedRun : List Sync :=
  [{ env := { order := [] }, resp := subnetResponse ["203.0.113.1/32"] },
   { env :=
      { order := [sampleKey 1]
        defaultGateway := some (0xC0A80101, "eth0")
        resolveHost := fun addr => if addr = "203.0.113.1:443" then some 0xCB007101 else none }
     resp :=
      { subnetResponse ["203.0.113.1/32"] with
        network := some { exitNode := sampleKey 1 } } }]

/-- The pin of the management server takes the place of the route that is still wanted. -/
theorem pinnedRun_not_follows :
    Along (Engine.step pinningConfig) RoutedSync {} pinnedRun ∧
    ¬ Along (Engine.step pinningConfig)
      (fun e s => RoutesFollow pinningConfig s.resp (e.step pinningConfig s)) {} pinnedRun := by
  constructor
  · exact ⟨⟨⟨PMap.RangeOrder.empty, List.nodup_singleton _⟩, fun _ => rfl⟩,
      routedSync_sampleGateway ["203.0.113.1/32"] (step_peers _ _ _) rfl (List.nodup_singleton _)
        fun _ => rfl,
      trivial⟩
  · -- the second response still wants the route
    intro h
    obtain ⟨_, hsecond, _⟩ := h
    have hwanted : Wanted pinningConfig (subnetResponse ["203.0.113.1/32"])
        (hostPrefix 0xCB007101) :=
      ⟨_, List.mem_singleton_self _, rfl, by decide, by decide +kernel, by decide +kernel,
        _, List.mem_singleton_self _, rfl⟩
    exact hsecond.installed _ hwanted (by decide +kernel)

end Blinex.Spec
