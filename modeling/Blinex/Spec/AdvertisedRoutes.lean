import Blinex.Go.Networks
import Blinex.Native.Engine
import Blinex.Spec.IpamPool
import Mathlib.Order.CompletePartialOrder

/-!
# Advertised routes and the mesh

`setPeerRoutes` compares a route with the mesh by two containments of base addresses. For
networks that is exact (`conflictsWithMesh_iff`): it refuses a route if and only if an IPv4
address is in both. The mesh it compares with is fixed, while the IPAM hands out the addresses
of whatever network it is configured with.

The two default routes are let through by their spelling, and the agent leaves them to the exit
node by the same two spellings. Every other spelling of 0.0.0.0/0 contains the mesh and is
refused; other spellings of ::/0 are not.
-/

namespace Blinex.Spec

open Blinex.Go Blinex.Native
open Management (conflictsWithMesh validateRoute)

/-! ## The overlap check -/

/-- 100.64.0.0/10. -/
def meshNet : Prefix := ⟨.v4 0x64400000#32, 10, by decide⟩

/-- The mesh network is the text of the source. -/
theorem parseCIDR_mesh : Net.parseCIDR "100.64.0.0/10" = some meshNet := by decide +kernel

private theorem to4_mesh : Net.to4 meshNet.addr.as16 = some 0x64400000#32 := by decide +kernel

/-- The addresses of the mesh are a block. -/
theorem v4Addrs_mesh : Net.v4Addrs meshNet = Block 22 0x64400000#32 :=
  Net.v4Addrs_of_to4 to4_mesh

/-- The check finds a conflict exactly if some address is in both networks. -/
theorem conflictsWithMesh_iff (n : Prefix) :
    conflictsWithMesh n = true ↔ ∃ x, x ∈ Net.v4Addrs meshNet ∧ x ∈ Net.v4Addrs n := by
  rw [Net.v4Addrs_meet_iff to4_mesh, conflictsWithMesh, parseCIDR_mesh]

/-- A route is accepted when it is one of the two default texts or misses the mesh. -/
theorem validateRoute_eq_none_iff (r : String) :
    validateRoute r = none ↔ (r = "0.0.0.0/0" ∨ r = "::/0") ∨
      ∃ n, Net.parseCIDR r = some n ∧ Disjoint (Net.v4Addrs meshNet) (Net.v4Addrs n) := by
  unfold validateRoute
  -- the default texts are let through before anything is parsed
  split
  · rename_i hdefault
    exact iff_of_true rfl (.inl hdefault)
  · rename_i hother
    split
    · rename_i hnone
      refine iff_of_false (by simp) ?_
      rintro (hdefault | ⟨n, hn, -⟩)
      · exact hother hdefault
      · rw [hnone] at hn
        cases hn
    · rename_i n hn
      have hconf := conflictsWithMesh_iff n
      rw [← Set.not_disjoint_iff] at hconf
      split
      · rename_i hc
        refine iff_of_false (by simp) ?_
        rintro (hdefault | ⟨n', hn', hdisj⟩)
        · exact hother hdefault
        · obtain rfl := Option.some.inj (hn.symm.trans hn')
          exact hconf.mp hc hdisj
      · rename_i hc
        exact iff_of_true rfl (.inr ⟨n, hn, not_not.mp fun hnot => hc (hconf.mpr hnot)⟩)

/-- `a.b.c.d/len`, as it is usually written. -/
def cidrText (a : BitVec 32) (len : Nat) : String := hostToIP a ++ "/" ++ toString len

/-- A route written as address and length is parsed. -/
theorem parseCIDR_cidrText (a : BitVec 32) {len : Nat} (h : len ≤ 32) :
    Net.parseCIDR (cidrText a len) = some (Prefix.masked ⟨.v4 a, len, h⟩) := by
  have ht : Netip.CIDRText (cidrText a len) (.v4 a) len :=
    { addr := hostToIP a
      mask := len.repr.toList
      text := by simp [cidrText, toString]
      parse := parseAddr_hostToIP a
      zone := rfl
      number := Netip.decNumber_repr len
      bits_le := h }
  exact ht.parseCIDR

/-- A route of an operator: a default route, or an IPv4 CIDR as it is usually written. -/
inductive PlainRoute where
  | default4
  | default6
  | cidr (a : BitVec 32) (len : Fin 33)

namespace PlainRoute

/-- The text of a route as it is sent. -/
def text : PlainRoute → String
  | default4 => "0.0.0.0/0"
  | default6 => "::/0"
  | cidr a len => cidrText a len

/-- The IPv4 addresses of the CIDR. -/
def addrs : PlainRoute → Set (BitVec 32)
  | default4 => Set.univ
  | default6 => ∅
  | cidr a len => Block (32 - len) a

end PlainRoute

/-- **The overlap check is exact.** Of default routes and IPv4 CIDRs, `setPeerRoutes` accepts a
    list exactly if every entry is spelled as one of the default routes or has no address in
    common with 100.64.0.0/10. -/
theorem mesh_overlap_exact (routes : List PlainRoute) :
    (routes.map PlainRoute.text).findSome? validateRoute = none ↔
      ∀ r ∈ routes, (r.text = "0.0.0.0/0" ∨ r.text = "::/0") ∨
        Disjoint (Block 22 0x64400000#32) r.addrs := by
  simp only [List.findSome?_eq_none_iff, List.forall_mem_map]
  refine forall₂_congr fun r _ => ?_
  rw [validateRoute_eq_none_iff, v4Addrs_mesh]
  cases r with
  | default4 => simp [PlainRoute.text]
  | default6 => simp [PlainRoute.text]
  -- only here the addresses are compared
  | cidr a len =>
    have hlen : len.val ≤ 32 := Nat.le_of_lt_succ len.isLt
    refine or_congr Iff.rfl ?_
    simp only [PlainRoute.text, PlainRoute.addrs, parseCIDR_cidrText a hlen, Option.some.injEq,
      exists_eq_left', Net.v4Addrs_masked a len.val hlen]

example : ([.default4, .cidr 0xc0a80a05#32 24].map PlainRoute.text).findSome? validateRoute =
    none := by decide +kernel

/-! ## Default routes -/

/-- ::/0. -/
def default6 : Prefix := ⟨.v6 0 "", 0, Nat.zero_le _⟩

/-- No route of the table covers a whole address family. -/
def NoDefault (n : Netlink) : Prop := ∀ x, n.routes x ≠ none → x.bits ≠ 0

/-- Default routes are left to the exit node: the agent recognises every route that covers an
    address family, and `applyOSRoutes` installs none. -/
structure LeavesDefaults (routes : List String) : Prop where
  recognised : ∀ r ∈ routes, ∀ n, Net.parseCIDR r = some n → n.bits = 0 → isDefaultRoute r = true
  installs : ∀ cfg env key old e, NoDefault e.net →
    NoDefault (Engine.applyOSRoutes cfg env key old routes e).net

/-- The engine recognises a default route by its text. -/
private theorem isDefaultRoute_iff (r : String) :
    isDefaultRoute r = true ↔ r = "0.0.0.0/0" ∨ r = "::/0" := by
  simp only [isDefaultRoute, Bool.or_eq_true, beq_iff_eq]

/-- A network without leading bits is one of the two default routes. -/
private theorem eq_default_of_bits {r : String} {n : Prefix} (h : Net.parseCIDR r = some n)
    (hbits : n.bits = 0) : n = Prefix.default4 ∨ n = default6 := by
  obtain ⟨ip, bits, t, rfl⟩ := Netip.exists_cidrText h
  obtain rfl : bits = 0 := hbits
  -- a network of length zero is masked to the zero address of its family
  cases ip with
  | invalid => exact absurd rfl (Netip.ne_invalid_of_parseAddr t.parse)
  | v4 a => exact .inl (Prefix.around_zero a)
  | v6 b zone =>
    right
    obtain rfl : zone = "" := t.zone
    have hzero : b >>> (128 - 0) <<< (128 - 0) = 0#128 := by
      rw [BitVec.ushiftRight_eq_zero (Nat.le_refl _), BitVec.zero_shiftLeft]
    simp only [Prefix.masked, Prefix.maskAddr, hzero]
    rfl

/-- Of the accepted routes only "0.0.0.0/0" itself covers all of IPv4: any other contains the
    mesh. -/
private theorem eq_of_default4 {r : String} (hok : validateRoute r = none)
    (h : Net.parseCIDR r = some Prefix.default4) : r = "0.0.0.0/0" ∨ r = "::/0" := by
  rcases (validateRoute_eq_none_iff r).mp hok with hdefault | ⟨n, hn, hdisj⟩
  · exact hdefault
  · exfalso
    obtain rfl := Option.some.inj (h.symm.trans hn)
    rw [v4Addrs_mesh] at hdisj
    refine Set.disjoint_left.mp hdisj Block.mem_self ?_
    show Net.contains Prefix.default4 ((0xffff#96) ++ 0x64400000#32) = true
    decide +kernel

section Installed

variable {n : Netlink} {fails : Nat → Bool} {cidr iface : String}

/-- Removing a route brings no default route. -/
private theorem NoDefault.removeRoute (h : NoDefault n) :
    NoDefault (n.removeRoute fails cidr iface) := by
  unfold Netlink.removeRoute
  dsimp only
  split
  · exact h
  · split
    · exact h
    · -- what is left was there before
      intro x hx
      obtain ⟨hop, hhop⟩ := Option.ne_none_iff_exists'.mp hx
      have hold : n.routes x = some hop := (Option.filter_eq_some_iff.mp hhop).1
      exact h x (by rw [hold]; exact Option.some_ne_none hop)

/-- Adding a route of a positive length brings no default route. -/
private theorem NoDefault.addRoute (h : NoDefault n)
    (hcidr : ∀ x, Net.parseCIDR cidr = some x → x.bits ≠ 0) :
    NoDefault (n.addRoute fails cidr iface).2 := by
  unfold Netlink.addRoute
  dsimp only
  split
  · exact h
  · -- only a destination that parses is written
    split
    · exact h
    · rename_i dst hdst
      intro x hx
      obtain ⟨u, hu⟩ := Option.ne_none_iff_exists'.mp hx
      rcases PMap.set_eq_some _ hu with ⟨rfl, -⟩ | ⟨-, hold⟩
      · exact hcidr _ hdst
      · exact h x (by rw [hold]; exact Option.some_ne_none u)

end Installed

/-- `applyOSRoutes` installs what it does not recognise as a default route. -/
private theorem applyOSRoutes_noDefault {routes : List String} (cfg : Config) (env : Env)
    (key : String)
    (old : List String) (e : Engine) (h : NoDefault e.net)
    (hroutes : ∀ r ∈ routes, isDefaultRoute r = false → ∀ n, Net.parseCIDR r = some n →
      n.bits ≠ 0) :
    NoDefault (e.applyOSRoutes cfg env key old routes).net := by
  simp only [Engine.applyOSRoutes]
  -- the old routes go first, then the new ones come
  refine List.foldlRecOn _ _ (List.foldlRecOn _ _ h ?_) ?_
  · intro n hn cidr _
    split
    · exact hn
    · exact hn.removeRoute
  · intro n hn cidr hcidr
    split
    · exact hn
    · rename_i hnot
      exact hn.addRoute (hroutes cidr (List.mem_filter.mp hcidr).1 (Bool.eq_false_iff.mpr hnot))

/-- **Default routes are left to the exit node** by every list of accepted routes exactly when
    the list has no other spelling of ::/0 than "::/0". -/
theorem defaults_left_to_exit_node_iff (routes : List String)
    (haccepted : ∀ r ∈ routes, validateRoute r = none) :
    LeavesDefaults routes ↔ ∀ r ∈ routes, Net.parseCIDR r = some default6 → r = "::/0" := by
  constructor
  · -- one direction: a text of the IPv6 default must be the one that is recognised
    intro h r hr hparse
    rcases (isDefaultRoute_iff r).mp (h.recognised r hr default6 hparse rfl) with rfl | heq
    · exact absurd hparse (by decide +kernel)
    · exact heq
  · intro h
    -- the other one: every text of length zero is recognised, so none is installed
    have hrec : ∀ r ∈ routes, ∀ n, Net.parseCIDR r = some n → n.bits = 0 →
        isDefaultRoute r = true := by
      intro r hr n hn hbits
      rw [isDefaultRoute_iff]
      rcases eq_default_of_bits hn hbits with rfl | rfl
      · exact eq_of_default4 (haccepted r hr) hn
      · exact .inr (h r hr hn)
    refine ⟨hrec, fun cfg env key old e hnone => ?_⟩
    apply applyOSRoutes_noDefault cfg env key old e hnone
    intro r hr hnot n hn hbits
    rw [hrec r hr n hn hbits] at hnot
    cases hnot

/-- An exit node of both families that also routes a subnet. -/
theorem exitGateway_leaves_defaults : LeavesDefaults ["0.0.0.0/0", "::/0", "192.168.0.0/16"] :=
  (defaults_left_to_exit_node_iff _ (by decide +kernel)).mpr (by decide +kernel)

/-- "0::/0" is accepted, is ::/0 to the kernel and not a default route to the agent, which
    installs it. -/
theorem padded_default6_installed :
    validateRoute "0::/0" = none ∧ Net.parseCIDR "0::/0" = some default6 ∧
    isDefaultRoute "0::/0" = false ∧
    ((Engine.applyOSRoutes { publicKey := [] } { order := [] } "gw" [] ["0::/0"]
      {}).net.routes default6).isSome = true ∧
    ¬ LeavesDefaults ["0::/0"] := by
  refine ⟨by decide +kernel, by decide +kernel, by decide, by decide +kernel, fun h => ?_⟩
  have hrec := h.recognised "0::/0" List.mem_cons_self default6 (by decide +kernel) rfl
  exact absurd hrec (by decide)

end Blinex.Spec
