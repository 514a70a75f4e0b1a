import Blinex.Spec.OSRoutes

/-!
# Activating an exit node

`activateExitNode` logs a failed step and goes on, and then records the exit node as active, so
no later sync tries again. After it either everything is in place or nothing is
(`AllOrNothing`) only if every step has succeeded, or the first one has failed.
-/

namespace Blinex.Spec

open Blinex.Go Blinex.Native

/-- The exit node is active, both halves of the address space go through the tunnel, and every
    control host is local or pinned to the original gateway. -/
structure FullyActive (cfg : Config) (env : Env) (e : Engine) : Prop where
  active : e.exitNode.isSome = true
  split : ∀ x ∈ halves, e.net.routesVia cfg.wgInterface x ≠ none
  pinned : ∀ addr ∈ controlHosts cfg, ∃ ip, env.resolveHost addr = some ip ∧
    (Engine.isLoopback ip = true ∨
      ∃ gw, env.defaultGateway = some gw ∧ e.net.hostRoutes ip = some gw)

/-- None of these routes is there. -/
structure NoExitRoutes (cfg : Config) (env : Env) (n : Netlink) : Prop where
  split : ∀ x ∈ halves, n.routesVia cfg.wgInterface x = none
  pinned : ∀ ip ∈ pinCalls env (controlHosts cfg), n.hostRoutes ip = none

/-- All of it, or nothing and the next sync tries again. -/
def AllOrNothing (cfg : Config) (env : Env) (e : Engine) : Prop :=
  FullyActive cfg env e ∨ (e.exitNode = none ∧ NoExitRoutes cfg env e.net)

/-- The hosts are resolved, and of the calls for each route one succeeds, unless the route is
    there already. Calls are numbered: first those that pin a host, then those for the halves. -/
structure StepsSucceed (cfg : Config) (env : Env) (gw : BitVec 32 × String) (n : Netlink) :
    Prop where
  resolved : ∀ addr ∈ controlHosts cfg, env.resolveHost addr ≠ none
  pinned : ∀ ip ∈ pinCalls env (controlHosts cfg), n.hostRoutes ip = some gw ∨
    ∃ i, (pinCalls env (controlHosts cfg))[i]? = some ip ∧ env.routeFails (n.calls + i) = false
  split : ∀ x ∈ halves, n.routesVia cfg.wgInterface x ≠ none ∨
    ∃ i cidr, Engine.splitRoutes[i]? = some cidr ∧ Net.parseCIDR cidr = some x ∧
      env.routeFails (n.calls + (pinCalls env (controlHosts cfg)).length + i) = false

/-! ## The calls -/

section Calls

variable {σ β : Type} {f : σ → β → σ} {calls : σ → Nat} {fails : Nat → Bool}

/-- Each item makes one call, so their numbers follow one another. -/
private theorem foldl_calls (hcalls : ∀ s b, calls (f s b) = calls s + 1) (items : List β) (s : σ) :
    calls (items.foldl f s) = calls s + items.length := by
  induction items generalizing s with
  | nil => rfl
  | cons b items ih =>
    rw [List.foldl_cons, ih, hcalls, List.length_cons]
    omega

/-- What a successful call for an item in `Q` brings about, and nothing undoes, holds in the end
    if it did before or one of those calls succeeded. -/
private theorem foldl_present_iff {P : σ → Prop} {Q : β → Prop}
    (hcalls : ∀ s b, calls (f s b) = calls s + 1)
    (hstep : ∀ s b, P (f s b) ↔ P s ∨ (Q b ∧ fails (calls s) = false))
    (items : List β) (s : σ) :
    P (items.foldl f s) ↔
      P s ∨ ∃ i b, items[i]? = some b ∧ Q b ∧ fails (calls s + i) = false := by
  induction items generalizing s with
  | nil => simp
  | cons b items ih =>
    rw [List.foldl_cons, ih, hstep, hcalls, or_assoc]
    refine or_congr_right ?_
    -- the call for the head comes first
    constructor
    · rintro (⟨hb, hok⟩ | ⟨i, b', hi, hb, hok⟩)
      · exact ⟨0, b, rfl, hb, hok⟩
      · exact ⟨i + 1, b', hi, hb, by rwa [Nat.add_right_comm] at hok⟩
    · rintro ⟨i, b', hi, hb, hok⟩
      cases i with
      | zero =>
        obtain rfl : b = b' := Option.some.inj hi
        exact .inl ⟨hb, hok⟩
      | succ i => exact .inr ⟨i, b', hi, hb, by rwa [Nat.add_right_comm]⟩

end Calls

section Netlink

variable (fails : Nat → Bool) (n : Netlink)

/-- Adding a route is one call. -/
private theorem addRoute_calls (cidr iface : String) :
    (n.addRoute fails cidr iface).2.calls = n.calls + 1 := by
  unfold Netlink.addRoute
  split
  · rfl
  · split <;> rfl

/-- A route to a whole network replaces no host route. -/
private theorem addRoute_hostRoutes {cidr : String} (iface : String)
    (hcidr : ∀ dst, Net.parseCIDR cidr = some dst → dst.bits ≠ 32) :
    (n.addRoute fails cidr iface).2.hostRoutes = n.hostRoutes := by
  unfold Netlink.addRoute
  split
  · rfl
  · split
    · rfl
    · rename_i dst hdst
      funext ip
      have hne : hostPrefix ip ≠ dst := fun h => hcidr dst hdst (by rw [← h]; rfl)
      simp only [Netlink.hostRoutes, PMap.set_ne _ _ hne]

/-- What is routed through the interface after a call: what was, and the route if the call
    succeeded. -/
private theorem addRoute_present_iff (cidr iface : String) (x : Prefix) :
    (n.addRoute fails cidr iface).2.routesVia iface x ≠ none ↔
      n.routesVia iface x ≠ none ∨ (Net.parseCIDR cidr = some x ∧ fails n.calls = false) := by
  unfold Netlink.addRoute
  cases hfail : fails n.calls with
  | true => simp [Netlink.routesVia]
  | false =>
    cases hc : Net.parseCIDR cidr with
    | none => simp [Netlink.routesVia]
    | some dst =>
      by_cases hx : x = dst
      · simp [Netlink.routesVia, hx]
      · simp [Netlink.routesVia, PMap.set_ne _ _ hx, Ne.symm hx]

private theorem addHostRoute_calls (ip gwIP : BitVec 32) (iface : String) :
    (n.addHostRoute fails ip gwIP iface).2.calls = n.calls + 1 := by
  unfold Netlink.addHostRoute
  split <;> rfl

/-- A host route replaces no route to a larger network. -/
private theorem addHostRoute_routesVia_of_bits (ip gwIP : BitVec 32) (link iface : String)
    {x : Prefix} (hx : x.bits ≠ 32) :
    (n.addHostRoute fails ip gwIP link).2.routesVia iface x = n.routesVia iface x := by
  unfold Netlink.addHostRoute
  split
  · rfl
  · have hne : x ≠ hostPrefix ip := fun h => hx (by rw [h]; rfl)
    simp only [Netlink.routesVia, PMap.set_ne _ _ hne]

private theorem hostPrefix_injective {ip ip' : BitVec 32} (h : hostPrefix ip = hostPrefix ip') :
    ip = ip' := by
  injection h with haddr
  injection haddr

/-- What is pinned to the gateway after a call: what was, and the address if the call succeeded. -/
private theorem addHostRoute_pinned_iff (ip gwIP : BitVec 32) (iface : String) (x : BitVec 32) :
    (n.addHostRoute fails ip gwIP iface).2.hostRoutes x = some (gwIP, iface) ↔
      n.hostRoutes x = some (gwIP, iface) ∨ (ip = x ∧ fails n.calls = false) := by
  unfold Netlink.addHostRoute
  cases hfail : fails n.calls with
  | true => simp [Netlink.hostRoutes]
  | false =>
    by_cases hx : x = ip
    · simp [Netlink.hostRoutes, hx]
    · have hne : hostPrefix x ≠ hostPrefix ip := fun h => hx (hostPrefix_injective h)
      simp [Netlink.hostRoutes, PMap.set_ne _ _ hne, Ne.symm hx]

end Netlink

/-! ## The table after the activation -/

section Activate

variable {cfg : Config} {env : Env} {gwIP : BitVec 32} {gwIface : String}

/-- The halves are networks of one leading bit. -/
private theorem bits_of_mem_halves {x : Prefix} (hx : x ∈ halves) : x.bits = 1 := by
  have hall : halves.all (fun x => x.bits == 1) = true := by decide +kernel
  exact beq_iff_eq.mp (List.all_eq_true.mp hall x hx)

/-- Installing the halves leaves the host routes as they are. -/
private theorem foldl_splitRoutes_hostRoutes (iface : String) (n : Netlink) :
    (Engine.splitRoutes.foldl (fun n cidr => (n.addRoute env.routeFails cidr iface).2)
      n).hostRoutes = n.hostRoutes := by
  refine List.foldlRecOn (motive := fun n' : Netlink => n'.hostRoutes = n.hostRoutes)
    Engine.splitRoutes _ rfl ?_
  intro n' hn' cidr hcidr
  refine (addRoute_hostRoutes env.routeFails n' iface fun dst hdst => ?_).trans hn'
  rw [bits_of_mem_halves (List.mem_filterMap.mpr ⟨cidr, hcidr, hdst⟩)]
  decide

/-- Pinning hosts leaves the routes to larger networks as they are. -/
private theorem foldl_pins_routesVia (iface : String) (ips : List (BitVec 32)) (n : Netlink)
    {x : Prefix} (hx : x.bits ≠ 32) :
    (ips.foldl (fun n ip => (n.addHostRoute env.routeFails ip gwIP gwIface).2) n).routesVia iface x
      = n.routesVia iface x := by
  induction ips generalizing n with
  | nil => rfl
  | cons ip ips ih =>
    rw [List.foldl_cons, ih,
      addHostRoute_routesVia_of_bits env.routeFails n ip gwIP gwIface iface hx]

/-- What is pinned after the activation: each address whose call succeeded. -/
private theorem activate_pinned_iff (hgw : env.defaultGateway = some (gwIP, gwIface)) (e : Engine)
    (x : BitVec 32) :
    (e.activateExitNode cfg env).net.hostRoutes x = some (gwIP, gwIface) ↔
      e.net.hostRoutes x = some (gwIP, gwIface) ∨
        ∃ i, (pinCalls env (controlHosts cfg))[i]? = some x ∧
          env.routeFails (e.net.calls + i) = false := by
  unfold Engine.activateExitNode
  rw [hgw]
  dsimp only
  -- the split routes come last and pin nothing
  rw [foldl_splitRoutes_hostRoutes, pinHosts_net,
    foldl_present_iff (P := fun n : Netlink => n.hostRoutes x = some (gwIP, gwIface))
      (fun n ip => addHostRoute_calls env.routeFails n ip gwIP gwIface)
      (fun n ip => addHostRoute_pinned_iff env.routeFails n ip gwIP gwIface x)]
  refine or_congr_right (exists_congr fun i => ?_)
  constructor
  · rintro ⟨ip, hi, rfl, hok⟩
    exact ⟨hi, hok⟩
  · rintro ⟨hi, hok⟩
    exact ⟨x, hi, rfl, hok⟩

/-- A half is routed through the tunnel after the activation if it was before or its call
    succeeded. -/
private theorem activate_split_iff (hgw : env.defaultGateway = some (gwIP, gwIface)) (e : Engine)
    {x : Prefix} (hx : x ∈ halves) :
    (e.activateExitNode cfg env).net.routesVia cfg.wgInterface x ≠ none ↔
      e.net.routesVia cfg.wgInterface x ≠ none ∨
        ∃ i cidr, Engine.splitRoutes[i]? = some cidr ∧ Net.parseCIDR cidr = some x ∧
          env.routeFails (e.net.calls + (pinCalls env (controlHosts cfg)).length + i) = false := by
  -- a half is no host route, so the pins do not touch it
  have hbits : x.bits ≠ 32 := by
    rw [bits_of_mem_halves hx]
    decide
  unfold Engine.activateExitNode
  rw [hgw]
  dsimp only
  rw [foldl_present_iff (P := fun n : Netlink => n.routesVia cfg.wgInterface x ≠ none)
      (fun n cidr => addRoute_calls env.routeFails n cidr cfg.wgInterface)
      (fun n cidr => addRoute_present_iff env.routeFails n cidr cfg.wgInterface x),
    pinHosts_net, foldl_pins_routesVia cfg.wgInterface _ _ hbits,
    foldl_calls (fun n ip => addHostRoute_calls env.routeFails n ip gwIP gwIface)]
  rfl

/-- The activation counts as done once there is a gateway, whatever the calls returned. -/
private theorem activate_exitNode (hgw : env.defaultGateway = some (gwIP, gwIface)) (e : Engine) :
    (e.activateExitNode cfg env).exitNode.isSome = true := by
  unfold Engine.activateExitNode
  rw [hgw]
  rfl

/-- The addresses to pin are those that resolve, loopback aside. -/
private theorem mem_pinCalls {addrs : List String} {ip : BitVec 32} :
    ip ∈ pinCalls env addrs ↔
      ∃ addr ∈ addrs, env.resolveHost addr = some ip ∧ Engine.isLoopback ip = false := by
  simp [pinCalls, List.mem_filterMap, Option.filter_eq_some_iff]

/-- With a gateway, everything is in place afterwards if every step has succeeded. -/
private theorem fullyActive_iff (hgw : env.defaultGateway = some (gwIP, gwIface)) (e : Engine) :
    FullyActive cfg env (e.activateExitNode cfg env) ↔
      StepsSucceed cfg env (gwIP, gwIface) e.net := by
  constructor
  · intro h
    -- a host that is pinned afterwards was resolved, to the address it is pinned by
    refine ⟨fun addr haddr hnone => ?_, fun ip hip => ?_, fun x hx => ?_⟩
    · obtain ⟨ip, hip, -⟩ := h.pinned addr haddr
      simp [hnone] at hip
    · obtain ⟨addr, haddr, hres, hlo⟩ := mem_pinCalls.mp hip
      obtain ⟨ip', hres', hlo' | ⟨gw, hgw', hpin⟩⟩ := h.pinned addr haddr
      · obtain rfl : ip = ip' := Option.some.inj (hres.symm.trans hres')
        simp [hlo] at hlo'
      · obtain rfl : ip = ip' := Option.some.inj (hres.symm.trans hres')
        obtain rfl : gw = (gwIP, gwIface) := Option.some.inj (hgw'.symm.trans hgw)
        exact (activate_pinned_iff hgw e ip).mp hpin
    · exact (activate_split_iff hgw e hx).mp (h.split x hx)
  · intro h
    refine ⟨activate_exitNode hgw e, fun x hx => ?_, fun addr haddr => ?_⟩
    · exact (activate_split_iff hgw e hx).mpr (h.split x hx)
    · obtain ⟨ip, hip⟩ := Option.ne_none_iff_exists'.mp (h.resolved addr haddr)
      refine ⟨ip, hip, ?_⟩
      cases hlo : Engine.isLoopback ip with
      | true => exact .inl rfl
      | false =>
        have hmem := mem_pinCalls.mpr ⟨addr, haddr, hip, hlo⟩
        exact .inr ⟨_, hgw, (activate_pinned_iff hgw e ip).mpr (h.pinned ip hmem)⟩

/-- For every outcome of the steps: activating the exit node is all or nothing exactly if the
    gateway is not found and none of the routes is there, or it is found and every step
    succeeds. `applySync` calls it only while no exit node is active. -/
theorem exit_node_all_or_nothing_iff (cfg : Config) (env : Env) (e : Engine)
    (hinactive : e.exitNode = none) :
    AllOrNothing cfg env (e.activateExitNode cfg env) ↔
      (env.defaultGateway = none → NoExitRoutes cfg env e.net) ∧
      (∀ gw, env.defaultGateway = some gw → StepsSucceed cfg env gw e.net) := by
  cases hgw : env.defaultGateway with
  | none =>
    have hsame : e.activateExitNode cfg env = e := by
      unfold Engine.activateExitNode
      rw [hgw]
    have hnot : ¬ FullyActive cfg env e := by
      intro h
      simpa [hinactive] using h.active
    rw [hsame, AllOrNothing]
    simp [hnot, hinactive]
  | some gw =>
    -- the exit node is recorded whatever has failed before
    have hsome : (e.activateExitNode cfg env).exitNode ≠ none :=
      Option.isSome_iff_ne_none.mp (activate_exitNode hgw e)
    rw [AllOrNothing, fullyActive_iff hgw]
    simp [hsome]

end Activate

/-- A client with a management and a signal server. -/
def exitConfig : Config :=
  { sampleConfig with managementURL := "mgmt.example:443", signalURL := "signal.example:443" }

/-- Its gateway and servers, and the calls that fail. -/
def exitEnv (fails : Nat → Bool) : Env where
  order := []
  defaultGateway := some (0xC0A80101, "eth0")
  resolveHost addr := if addr = "mgmt.example:443" then some 0xCB007101 else some 0xCB007102
  routeFails := fails

/-- With no failure the exit node is fully active. -/
theorem exitEnv_all_or_nothing :
    AllOrNothing exitConfig (exitEnv fun _ => false)
      (Engine.activateExitNode exitConfig (exitEnv fun _ => false) {}) := by
  refine (exit_node_all_or_nothing_iff _ _ {} rfl).mpr
    ⟨fun h => by simp [exitEnv] at h, fun gw _ => ?_⟩
  refine ⟨fun addr _ => ?_, fun ip hip => ?_, fun x hx => ?_⟩
  · simp only [exitEnv]
    split <;> simp
  · obtain ⟨i, hi⟩ := List.mem_iff_getElem?.mp hip
    exact .inr ⟨i, hi, rfl⟩
  · obtain ⟨cidr, hcidr, hparse⟩ := List.mem_filterMap.mp hx
    obtain ⟨i, hi⟩ := List.mem_iff_getElem?.mp hcidr
    exact .inr ⟨i, cidr, hi, hparse, rfl⟩

/-- The route for the upper half, call 3, fails: the exit node is active nevertheless, and half
    of the traffic goes past it. -/
theorem half_split_not_all_or_nothing :
    (({} : Engine).exitNode = none) ∧
    ¬ AllOrNothing exitConfig (exitEnv (· == 3))
      (Engine.activateExitNode exitConfig (exitEnv (· == 3)) {}) := by
  refine ⟨rfl, ?_⟩
  rintro (h | ⟨h, -⟩)
  · exact h.split ⟨.v4 0x80000000, 1, by decide⟩ (by decide +kernel) (by decide +kernel)
  · exact absurd h (by simp [Engine.activateExitNode, exitEnv])

end Blinex.Spec
