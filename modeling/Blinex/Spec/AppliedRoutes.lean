import Blinex.Spec.OSRoutes

/-!
# What `appliedRoutes` remembers

`applyOSRoutes` records the routes of a gateway for the next sync to compare with. It does not
run for a peer that the diff leaves out, and for a gateway without an enabled route it leaves the
old record in place. `applied_routes_exact_iff` is the exact condition under which the record of
every listed peer is that of the last response.
-/

namespace Blinex.Spec

open Blinex.Go Blinex.Native
open Commonv1 (Peer Route)
open Managementv1 (SyncResponse)

/-- The network of an enabled route of the response through this gateway. -/
def EnabledVia (resp : SyncResponse) (gateway cidr : String) : Prop :=
  ∃ r ∈ resp.routes, r.enabled = true ∧ r.gateway = gateway ∧ r.network = cidr

/-- The record of the gateway has exactly its enabled routes. -/
def RecordExact (resp : SyncResponse) (e : Engine) (gateway : String) : Prop :=
  ∀ cidr, cidr ∈ (e.appliedRoutes gateway).getD [] ↔ EnabledVia resp gateway cidr

/-- The record of each other device of the response is exact. -/
def BooksExact (cfg : Config) (resp : SyncResponse) (e : Engine) : Prop :=
  ∀ p ∈ resp.peers, p.wgPubKey ≠ cfg.selfKey → RecordExact resp e p.wgPubKey

/-- The sync writes the record of this peer: the diff reports the peer, and it has an enabled
    route. -/
def Rebooked (cfg : Config) (e : Engine) (s : Sync) (key : String) : Prop :=
  (∃ p, Reported cfg e.peers s.resp p ∧ p.wgPubKey = key) ∧ ∃ cidr, EnabledVia s.resp key cidr

/-- Each other device of the response has its record written, or already had the right one. -/
def BooksSettle (cfg : Config) (e : Engine) (s : Sync) : Prop :=
  ∀ p ∈ s.resp.peers, p.wgPubKey ≠ cfg.selfKey →
    Rebooked cfg e s p.wgPubKey ∨ RecordExact s.resp e p.wgPubKey

/-! ## One sync -/

variable {cfg : Config} {e : Engine} {s : Sync} {key : String}

/-- What a turn writes under a key: the routes of the peer it brings in, if there are any. -/
private theorem bookEdit_write_iff {resp : SyncResponse} {op : PeerOp} {routes : List String} :
    (bookEdit resp op).write key = some routes ↔
      (∃ p, op.incoming? = some p ∧ p.wgPubKey = key) ∧ gatewayRoutes resp key ≠ [] ∧
        gatewayRoutes resp key = routes := by
  -- an added or updated peer is recorded with the routes that go through it
  have hrecord (p : Peer) : (recordEdit resp p.wgPubKey).write key = some routes ↔
      (∃ q, some p = some q ∧ q.wgPubKey = key) ∧ gatewayRoutes resp key ≠ [] ∧
        gatewayRoutes resp key = routes := by
    by_cases hk : key = p.wgPubKey
    · subst hk
      simp [recordEdit]
    · simp [recordEdit, hk, Ne.symm hk]
  cases op with
  | add p => exact hrecord p
  | update u => exact hrecord u.new
  | remove p => simp [bookEdit, forgetEdit, PeerOp.incoming?]

/-- The record of a listed peer is not dropped: only a peer that is not listed is removed. -/
private theorem bookEdit_erase (hkeyed : Keyed e) (hlisted : ∃ p ∈ s.resp.peers, p.wgPubKey = key)
    {op : PeerOp} (hop : op ∈ syncOps cfg e.peers s.env.order s.resp) (routes : List String) :
    (bookEdit s.resp op).erase key routes = false := by
  cases op with
  | add p => rfl
  | update u => rfl
  | remove p =>
    -- a peer that is removed is no longer listed
    refine decide_eq_false fun hk => ?_
    have hrem : p ∈ diffRemovedPeers e.peers s.env.order s.resp.peers := by
      simpa [diffOps] using (mem_syncOps.mp hop).1
    obtain ⟨k, _, hgone⟩ := List.mem_filterMap.mp hrem
    split at hgone
    · cases hgone
    · rename_i hnone
      obtain ⟨q, hq, hqk⟩ := hlisted
      have hkey : p.wgPubKey = k := hkeyed k p hgone
      exact (PMap.index_eq_none_iff _ _ _).mp hnone q hq (hqk.trans (hk.trans hkey))

/-- A gateway has routes when some route is enabled through it. -/
private theorem exists_enabledVia_iff {resp : SyncResponse} :
    (∃ cidr, EnabledVia resp key cidr) ↔ gatewayRoutes resp key ≠ [] := by
  constructor
  · rintro ⟨cidr, h⟩
    exact List.ne_nil_of_mem (mem_gatewayRoutes.mpr h)
  · intro h
    obtain ⟨cidr, hmem⟩ := List.exists_mem_of_ne_nil _ h
    exact ⟨cidr, mem_gatewayRoutes.mp hmem⟩

/-- A sync writes the record of a listed peer or leaves it as it was. -/
private theorem step_appliedRoutes (hkernel : cfg.netstackMode = false) (hkeyed : Keyed e)
    (hlisted : ∃ p ∈ s.resp.peers, p.wgPubKey = key) :
    (Rebooked cfg e s key → (e.step cfg s).appliedRoutes key = some (gatewayRoutes s.resp key)) ∧
      (¬Rebooked cfg e s key → (e.step cfg s).appliedRoutes key = e.appliedRoutes key) := by
  have hstep : (e.step cfg s).appliedRoutes = PMap.Edit.applyAll
      ((syncOps cfg e.peers s.env.order s.resp).map (bookEdit s.resp)) e.appliedRoutes :=
    applySync_proj Engine.appliedRoutes (bookEdit s.resp) cfg s.env s.resp e
      (fun e op hself => (applyOp_osRoutes hkernel s.env s.resp e hself).2)
      (fun _ _ _ _ _ _ _ => rfl)
  rw [hstep]
  constructor
  · rintro ⟨⟨p, hp, hpk⟩, hroutes⟩
    rw [exists_enabledVia_iff] at hroutes
    obtain ⟨op, hop, hin⟩ := (reported_iff s.env.order).mp hp
    refine PMap.Edit.applyAll_of_write _ (List.forall_mem_map.mpr fun op' hop' => ?_)
      ⟨_, List.mem_map_of_mem hop, bookEdit_write_iff.mpr ⟨⟨p, hin, hpk⟩, hroutes, rfl⟩⟩
    -- any other turn of the peer writes the same routes
    cases hwrite : (bookEdit s.resp op').write key with
    | none => exact .inr ⟨rfl, bookEdit_erase hkeyed hlisted hop'⟩
    | some routes => exact .inl (by rw [(bookEdit_write_iff.mp hwrite).2.2])
  · intro hno
    refine PMap.Edit.applyAll_of_keep _ (List.forall_mem_map.mpr fun op hop => ?_)
    refine ⟨?_, bookEdit_erase hkeyed hlisted hop⟩
    cases hwrite : (bookEdit s.resp op).write key with
    | none => rfl
    | some routes =>
      obtain ⟨⟨p, hin, hpk⟩, hroutes, _⟩ := bookEdit_write_iff.mp hwrite
      exact absurd ⟨⟨p, (reported_iff s.env.order).mpr ⟨op, hop, hin⟩, hpk⟩,
        exists_enabledVia_iff.mpr hroutes⟩ hno

/-- The books are exact after a sync if and only if they settle in it. -/
private theorem booksExact_step_iff (hkernel : cfg.netstackMode = false) (hkeyed : Keyed e) :
    BooksExact cfg s.resp (e.step cfg s) ↔ BooksSettle cfg e s := by
  refine forall₃_congr fun p hp _ => ?_
  obtain ⟨hwritten, hkept⟩ := step_appliedRoutes hkernel hkeyed ⟨p, hp, rfl⟩
  by_cases hre : Rebooked cfg e s p.wgPubKey
  · refine iff_of_true (fun cidr => ?_) (.inl hre)
    rw [hwritten hre]
    exact mem_gatewayRoutes
  · rw [or_iff_right hre, RecordExact, hkept hre]
    rfl

/-! ## Runs -/

/-- **When the remembered routes are exact.** In kernel mode, from an engine whose peers are filed
    under their keys, the record of every other device of a response has exactly its enabled
    routes after each sync of a run if and only if in each sync every such record is written or
    was right before. -/
theorem applied_routes_exact_iff (cfg : Config) (hkernel : cfg.netstackMode = false) (e : Engine)
    (hkeyed : Keyed e) (syncs : List Sync) :
    Along (Engine.step cfg) (fun e s => BooksExact cfg s.resp (e.step cfg s)) e syncs ↔
      Along (Engine.step cfg) (BooksSettle cfg) e syncs := by
  have hany : Along (Engine.step cfg) (fun _ _ => True) e syncs :=
    along_iff_forall.mpr fun _ _ _ _ => trivial
  exact Along.congr (fun e s _ _ _ => keyed_step cfg e s)
    (fun _ _ hkeyed _ => booksExact_step_iff hkernel hkeyed) hkeyed hany

/-- A gateway that is new and advertises a subnet is recorded with it. -/
theorem applied_routes_exact_first :
    Along (Engine.step sampleConfig)
      (fun e s => BooksExact sampleConfig s.resp (e.step sampleConfig s)) {}
      (readvertiseRun.take 1) := by
  refine (applied_routes_exact_iff sampleConfig rfl {} (fun _ _ h => nomatch h) _).mpr
    ⟨fun p hp hself => .inl ⟨⟨p, ⟨hp, hself, fun _ h => nomatch h⟩, rfl⟩, ?_⟩, trivial⟩
  obtain rfl := List.mem_singleton.mp hp
  exact ⟨"10.0.0.0/24", _, List.mem_singleton_self _, rfl, rfl, rfl⟩

/-- The gateway withdraws its only subnet, and the record keeps it. -/
theorem withdrawn_route_remembered :
    ¬Along (Engine.step sampleConfig)
      (fun e s => BooksExact sampleConfig s.resp (e.step sampleConfig s)) {}
      (readvertiseRun.take 2) := by
  rintro ⟨_, hsecond, _⟩
  have hself : sampleKey 1 ≠ sampleConfig.selfKey := by decide +kernel
  have hexact := hsecond _ (List.mem_singleton_self _) hself "10.0.0.0/24"
  obtain ⟨r, hr, _⟩ := hexact.mp (by decide +kernel)
  exact absurd hr List.not_mem_nil

end Blinex.Spec
