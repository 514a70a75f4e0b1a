import Blinex.ForStd.PMap
import Blinex.Native.Messages

/-!
# `management/internal/grpcserver`: building a sync response

`buildSyncResponse` turns the peers and rules of one account into the view one
device is sent: every peer with its allowed IPs, the advertised routes, the
rules with group names expanded to peer addresses, and the exit node selected
for that device.
-/

namespace Blinex.Native

open Blinex.Go

/-- The `groupIPs` index of `buildSyncResponse`: for each group the addresses of
    its members, in peer order. -/
def groupIPs (peers : List Domain.Peer) : PMap String (List String) :=
  peers.foldl (fun m p =>
    p.groups.foldl (fun m g => m.set g ((m g).getD [] ++ [p.ip])) m) PMap.empty

/-- `expandGroupRule`. A group that nobody is in removes the rule. -/
def expandGroupRule (r : Domain.Rule) (groupIPs : PMap String (List String)) :
    List Domain.Rule :=
  let srcGroup := Strings.trimPrefix r.src "group:"
  let dstGroup := Strings.trimPrefix r.dst "group:"
  let hasSrcGroup := Strings.hasPrefix r.src "group:"
  let hasDstGroup := Strings.hasPrefix r.dst "group:"
  -- a rule without groups stays as it is, and an empty group drops the rule
  if !hasSrcGroup && !hasDstGroup then [r]
  else
    let srcIPs := if hasSrcGroup then (groupIPs srcGroup).getD [] else [r.src]
    if hasSrcGroup && srcIPs.isEmpty then []
    else
      let dstIPs := if hasDstGroup then (groupIPs dstGroup).getD [] else [r.dst]
      if hasDstGroup && dstIPs.isEmpty then []
      else srcIPs.flatMap fun s => dstIPs.map fun d => { r with src := s, dst := d }

/-- The scan for the chosen peer in `resolveExitNode`: the first peer with that
    key decides. -/
def offersExitNode (chosen : String) : List Domain.Peer → Bool
  | [] => false
  | p :: peers =>
    if p.wgPubKey ≠ chosen then offersExitNode chosen peers
    else p.advertisedRoutes.any (· == "0.0.0.0/0")

/-- `resolveExitNode`. -/
def resolveExitNode (peers : List Domain.Peer) (selfKey : String) : String :=
  let chosen :=
    match peers.find? (·.wgPubKey == selfKey) with
    | some p => p.exitNode
    | none => ""
  if chosen = "" ∨ chosen = selfKey then ""
  else if offersExitNode chosen peers then chosen else ""

/-- The `commonv1.Peer` sent for a stored peer: its allowed IPs are its own
    address followed by the routes it advertises. -/
def pbPeer (p : Domain.Peer) : Commonv1.Peer where
  id := p.id
  wgPubKey := p.wgPubKey
  ip := p.ip
  hostname := p.hostname
  os := p.os
  allowedIps := p.allowedIPs ++ p.advertisedRoutes
  dnsLabel := p.dnsLabel
  localIp := p.localIP
  publicIp := p.publicIP
  country := p.country

/-- The routes sent for a stored peer. -/
def pbRoutes (p : Domain.Peer) : List Commonv1.Route :=
  p.advertisedRoutes.zipIdx.map fun (cidr, i) =>
    { id := p.wgPubKey ++ ":" ++ toString i, network := cidr, gateway := p.wgPubKey,
      metric := 100, enabled := true }

/-- The `commonv1.Rule` sent for an expanded rule. -/
def pbRule (r : Domain.Rule) : Commonv1.Rule where
  id := r.id
  name := r.name
  src := r.src
  dst := r.dst
  protocol := r.protocol
  port := toInt32 r.port
  action := r.action
  enabled := r.enabled
  priority := toInt32 r.priority

/-- `Server.buildSyncResponse`. `network` is the server's mesh CIDR and `now` the
    clock reading that becomes the serial. -/
def buildSyncResponse (network : String) (now : Int) (peers : List Domain.Peer)
    (domainRules : List Domain.Rule) (selfKey : String) : Managementv1.SyncResponse where
  peers := peers.map pbPeer
  routes := peers.flatMap pbRoutes
  rules := domainRules.flatMap fun r => (expandGroupRule r (groupIPs peers)).map pbRule
  network := some { network := network, exitNode := resolveExitNode peers selfKey }
  serial := toString now

/-! ## The group index -/

/-- A peer's address is added to each of its groups. -/
private theorem foldl_groups_mem (ip : String) (gs : List String) (m : PMap String (List String))
    (g x : String) :
    x ∈ ((gs.foldl (fun m g => m.set g ((m g).getD [] ++ [ip])) m) g).getD [] ↔
      x ∈ (m g).getD [] ∨ (g ∈ gs ∧ x = ip) := by
  induction gs generalizing m with
  | nil => simp
  | cons h gs ih =>
    rw [List.foldl_cons, ih]
    -- only the group of this turn gets the address
    by_cases hg : g = h
    · subst hg
      simp only [PMap.set_self, Option.getD_some, List.mem_append,
        List.mem_cons, true_or, true_and]
      tauto
    · simp only [PMap.set_ne _ _ hg, List.mem_cons, hg, false_or]

/-- The index after a list of peers: what was there, and their addresses. -/
private theorem foldl_peers_mem (peers : List Domain.Peer) (m : PMap String (List String))
    (g x : String) :
    x ∈ ((peers.foldl (fun m p =>
        p.groups.foldl (fun m g => m.set g ((m g).getD [] ++ [p.ip])) m) m) g).getD [] ↔
      x ∈ (m g).getD [] ∨ ∃ p ∈ peers, g ∈ p.groups ∧ x = p.ip := by
  induction peers generalizing m with
  | nil => simp
  | cons p peers ih =>
    rw [List.foldl_cons, ih, foldl_groups_mem]
    simp only [List.mem_cons, exists_eq_or_imp, or_assoc]

/-- The index lists under a group exactly the addresses of the peers in it. -/
theorem mem_groupIPs (peers : List Domain.Peer) (g x : String) :
    x ∈ (groupIPs peers g).getD [] ↔ ∃ p ∈ peers, g ∈ p.groups ∧ x = p.ip := by
  rw [groupIPs, foldl_peers_mem]
  simp

end Blinex.Native
