import Blinex.ForStd.Run
import Blinex.Spec.SyncOps

/-!
# The data path of every known peer

The engine keeps three tables about the relay plumbing of a peer, and the bind a
fourth one by endpoint. `ensureRelayLink` fills all four, the loop over the removed
peers empties three, and whatever WireGuard answers in between is passed over. The
relay state therefore evolves on its own (`applyOp_relay`), and `Plumbed` is what it
keeps as long as the endpoints, which show 16 bits of a counter, do not repeat.
-/

namespace Blinex.Spec

open Blinex.Native
open Commonv1 (Peer)
open Managementv1 (SyncResponse)

/-! ## The relay state on its own -/

/-- `ensureRelayLink` finds everything in place. -/
def hasLink (r : Relay) (k : String) : Bool := (r.endpts k).isSome && (r.links k).isSome

/-- What `ensureRelayLink` does to the relay state. -/
def ensureLink (k : String) (r : Relay) : Relay :=
  if hasLink r k then r
  else
    let n := r.counter + 1
    { counter := n
      conns := r.conns.set k n
      endpts := r.endpts.set k (Engine.relayEndpoint n)
      links := r.links.set k n
      bind := r.bind.set (Engine.relayEndpoint n) n }

/-- What the loop over the removed peers does to it. -/
def dropLink (k : String) (r : Relay) : Relay :=
  { r with links := r.links.delete k, endpts := r.endpts.delete k, conns := r.conns.delete k }

/-- What one turn of the loops does to it. -/
def relayOp (r : Relay) : PeerOp → Relay
  | .add p => ensureLink p.wgPubKey r
  | .update u => ensureLink u.new.wgPubKey r
  | .remove p => dropLink p.wgPubKey r

/-- The turn creates a connection. -/
def isBuild (r : Relay) (op : PeerOp) : Bool := op.incoming?.isSome && !hasLink r op.key

/-- How many connections the turns create. -/
def builds : Relay → List PeerOp → Nat
  | _, [] => 0
  | r, op :: ops => (isBuild r op).toNat + builds (relayOp r op) ops

private theorem ensureRelayLink_relay (cfg : Config) (k : String) (e : Engine) :
    (e.ensureRelayLink cfg k).relay = ensureLink k e.relay := by
  unfold Engine.ensureRelayLink ensureLink hasLink
  split <;> rfl

/-- The device, the routes and the names have no say in it. -/
theorem applyOp_relay {cfg : Config} {env : Env} {resp : SyncResponse} {e : Engine} {op : PeerOp}
    (hself : op.key ≠ cfg.selfKey) :
    (applyOp cfg env resp e op).relay = relayOp e.relay op := by
  cases op with
  | add p =>
    have hne : p.wgPubKey ≠ cfg.selfKey := hself
    simp only [applyOp, Engine.addPeer, if_neg hne, ensureRelayLink_relay, relayOp]
    -- with or without the kernel's routes
    split <;> rfl
  | update u =>
    have hne : u.new.wgPubKey ≠ cfg.selfKey := hself
    simp only [applyOp, Engine.updatePeer, if_neg hne, ensureRelayLink_relay, relayOp]
    split <;> split <;> rfl
  | remove p =>
    have hne : p.wgPubKey ≠ cfg.selfKey := hself
    simp only [applyOp, Engine.removePeer, if_neg hne, relayOp, dropLink]
    split <;> rfl

/-- So do the loops over the changes. -/
private theorem foldl_applyOp_relay (cfg : Config) (env : Env) (resp : SyncResponse)
    (ops : List PeerOp)
    (hself : ∀ op ∈ ops, op.key ≠ cfg.selfKey) (e : Engine) :
    (ops.foldl (applyOp cfg env resp) e).relay = ops.foldl relayOp e.relay := by
  induction ops generalizing e with
  | nil => rfl
  | cons op ops ih =>
    have hop : op.key ≠ cfg.selfKey := hself op List.mem_cons_self
    rw [List.foldl_cons, List.foldl_cons, ih (fun o ho => hself o (List.mem_cons_of_mem _ ho)),
      applyOp_relay hop]

/-- A sync, as the relay state sees it. -/
theorem step_relay (cfg : Config) (e : Engine) (s : Sync) :
    (e.step cfg s).relay =
      (syncOps cfg e.peers s.env.order s.resp).foldl relayOp e.relay := by
  -- what comes before the loops does not touch the relay
  have hbefore : (beforeLoops cfg s.env s.resp e).relay = e.relay :=
    beforeLoops_frame Engine.relay (fun _ _ _ _ _ _ => rfl) cfg s.env s.resp e
  have hloops := foldl_applyOp_relay cfg s.env s.resp
    (syncOps cfg e.peers s.env.order s.resp) (fun op hop => (mem_syncOps.mp hop).2)
    (beforeLoops cfg s.env s.resp e)
  rw [hbefore] at hloops
  rw [Engine.step, applySync_eq, ← hloops]
  dsimp only
  split
  · rfl
  · exact applyACL_frame Engine.relay (fun _ _ => rfl) cfg s.env s.resp _

/-! ## Data paths -/

/-- The plumbing of one peer. A link is named by the connection it was built over, and
    `peerlink.New` got the endpoint of that connection. -/
def HasPath (r : Relay) (k : String) (n : BitVec 32) : Prop :=
  r.conns k = some n ∧ r.endpts k = some (Engine.relayEndpoint n) ∧ r.links k = some n ∧
    r.bind (Engine.relayEndpoint n) = some n

/-- No table has anything about the peer. -/
def NoPath (r : Relay) (k : String) : Prop :=
  r.conns k = none ∧ r.endpts k = none ∧ r.links k = none

/-- The known peers have their plumbing, nobody else has any, and no endpoint is shared. -/
structure Plumbed (known : String → Prop) (r : Relay) : Prop where
  present : ∀ k, known k → ∃ n, HasPath r k n ∧ n.toNat ≤ r.counter.toNat
  absent : ∀ k, ¬known k → NoPath r k
  distinct : ∀ k k' ep, r.endpts k = some ep → r.endpts k' = some ep → k = k'

/-- The endpoint of a connection shows the low 16 bits of its number. -/
private theorem relayEndpoint_addr_toNat (n : BitVec 32) :
    (Engine.relayEndpoint n).addr.toNat = 127 * 2 ^ 24 + 127 * 2 ^ 16 + n.toNat % 65536 := by
  simp only [Engine.relayEndpoint, BitVec.toNat_append, BitVec.toNat_setWidth,
    BitVec.toNat_ushiftRight, BitVec.toNat_ofNat]
  -- every byte fits below the shifted ones, so that the disjunctions are sums
  rw [← Nat.shiftLeft_add_eq_or_of_lt (by omega), ← Nat.shiftLeft_add_eq_or_of_lt (by omega),
    ← Nat.shiftLeft_add_eq_or_of_lt (by omega)]
  simp only [Nat.shiftLeft_eq, Nat.shiftRight_eq_div_pow]
  omega

/-- Two endpoints are one if the counters agree in their low sixteen bits. -/
theorem relayEndpoint_eq_iff {m n : BitVec 32} :
    Engine.relayEndpoint m = Engine.relayEndpoint n ↔ m.toNat % 65536 = n.toNat % 65536 := by
  have hm := relayEndpoint_addr_toNat m
  have hn := relayEndpoint_addr_toNat n
  constructor
  · intro h
    rw [h] at hm
    omega
  · intro h
    have haddr : (Engine.relayEndpoint m).addr = (Engine.relayEndpoint n).addr :=
      BitVec.eq_of_toNat_eq (by omega)
    calc Engine.relayEndpoint m = ⟨(Engine.relayEndpoint m).addr, 1⟩ := rfl
      _ = Engine.relayEndpoint n := by rw [haddr]; rfl

/-- Who is known after a turn. -/
def knownOp (known : String → Prop) (op : PeerOp) (k : String) : Prop :=
  if k = op.key then op.incoming?.isSome = true else known k

/-- The tables of the engine are in order; nothing is said about the bind. -/
structure Wired (known : String → Prop) (r : Relay) : Prop where
  present : ∀ k, known k → ∃ n, r.conns k = some n ∧
    r.endpts k = some (Engine.relayEndpoint n) ∧ r.links k = some n
  absent : ∀ k, ¬known k → NoPath r k

theorem ensureLink_of_hasLink {r : Relay} {k : String} (h : hasLink r k = true) :
    ensureLink k r = r := by
  simp only [ensureLink, h, if_true]

/-- A new link gets the next number, and an endpoint made from it. -/
theorem ensureLink_of_not {r : Relay} {k : String} (h : hasLink r k = false) :
    ensureLink k r =
      { counter := r.counter + 1
        conns := r.conns.set k (r.counter + 1)
        endpts := r.endpts.set k (Engine.relayEndpoint (r.counter + 1))
        links := r.links.set k (r.counter + 1)
        bind := r.bind.set (Engine.relayEndpoint (r.counter + 1)) (r.counter + 1) } := by
  simp only [ensureLink, h, Bool.false_eq_true, if_false]

/-- A turn is about one peer. -/
theorem relayOp_of_ne {r : Relay} {op : PeerOp} {k : String} (hk : k ≠ op.key) :
    (relayOp r op).conns k = r.conns k ∧ (relayOp r op).endpts k = r.endpts k ∧
      (relayOp r op).links k = r.links k := by
  have hensure : ∀ k', k ≠ k' → (ensureLink k' r).conns k = r.conns k ∧
      (ensureLink k' r).endpts k = r.endpts k ∧ (ensureLink k' r).links k = r.links k := by
    intro k' hne
    cases hlink : hasLink r k' with
    | true => simp only [ensureLink_of_hasLink hlink, and_self]
    | false => simp only [ensureLink_of_not hlink, PMap.set_ne _ _ hne, and_self]
  cases op with
  | add p => exact hensure p.wgPubKey hk
  | update u => exact hensure u.new.wgPubKey hk
  | remove p => exact ⟨PMap.delete_ne _ hk, PMap.delete_ne _ hk, PMap.delete_ne _ hk⟩

section Turns

variable {known : String → Prop} {r : Relay}

/-- The known peers are those with a link. -/
theorem Wired.hasLink_iff (h : Wired known r) (k : String) : hasLink r k = true ↔ known k := by
  by_cases hk : known k
  · obtain ⟨n, _, hep, hlink⟩ := h.present k hk
    simp [hasLink, hep, hlink, hk]
  · obtain ⟨_, hep, _⟩ := h.absent k hk
    simp [hasLink, hep, hk]

/-- A peer that is not known has none. -/
theorem Wired.hasLink_eq_false (h : Wired known r) {k : String} (hk : ¬known k) :
    hasLink r k = false := by
  rw [← Bool.not_eq_true, h.hasLink_iff]
  exact hk

/-- After `ensureRelayLink` the peer has a connection. -/
private theorem Wired.ensure (h : Wired known r) (k : String) :
    ∃ n, (ensureLink k r).conns k = some n ∧
      (ensureLink k r).endpts k = some (Engine.relayEndpoint n) ∧
      (ensureLink k r).links k = some n := by
  by_cases hk : known k
  · rw [ensureLink_of_hasLink ((h.hasLink_iff k).mpr hk)]
    exact h.present k hk
  · rw [ensureLink_of_not (h.hasLink_eq_false hk)]
    exact ⟨r.counter + 1, PMap.set_self _ _ _, PMap.set_self _ _ _, PMap.set_self _ _ _⟩

/-- One turn keeps the tables in order, whatever the counter shows. -/
theorem Wired.turn (h : Wired known r) (op : PeerOp) :
    Wired (knownOp known op) (relayOp r op) := by
  refine ⟨fun k hk => ?_, fun k hk => ?_⟩
  · -- the peer of this turn, or another one
    unfold knownOp at hk
    split at hk
    · rename_i hkey
      subst hkey
      cases op with
      | add p => exact h.ensure p.wgPubKey
      | update u => exact h.ensure u.new.wgPubKey
      | remove p => cases hk
    · rename_i hne
      obtain ⟨hconn, hep, hlink⟩ := relayOp_of_ne (r := r) hne
      rw [hconn, hep, hlink]
      exact h.present k hk
  · unfold knownOp at hk
    split at hk
    · rename_i hkey
      subst hkey
      cases op with
      | add p => exact absurd rfl hk
      | update u => exact absurd rfl hk
      | remove p => exact ⟨PMap.delete_self _ _, PMap.delete_self _ _, PMap.delete_self _ _⟩
    · rename_i hne
      obtain ⟨hconn, hep, hlink⟩ := relayOp_of_ne (r := r) hne
      rw [NoPath, hconn, hep, hlink]
      exact h.absent k hk

private theorem Plumbed.wired (h : Plumbed known r) : Wired known r := by
  refine ⟨fun k hk => ?_, h.absent⟩
  obtain ⟨n, ⟨hconn, hep, hlink, _⟩, _⟩ := h.present k hk
  exact ⟨n, hconn, hep, hlink⟩

private theorem toNat_counter_succ {c : BitVec 32} (hc : c.toNat + 1 < 65536) :
    (c + 1).toNat = c.toNat + 1 := by
  have hone : (1 : BitVec 32).toNat = 1 := rfl
  rw [BitVec.toNat_add, hone]
  omega

/-- The endpoint of the next connection differs from the earlier ones. -/
private theorem relayEndpoint_ne_next {c n : BitVec 32} (hc : c.toNat + 1 < 65536)
    (hn : n.toNat ≤ c.toNat) : Engine.relayEndpoint n ≠ Engine.relayEndpoint (c + 1) := by
  have hsucc := toNat_counter_succ hc
  intro heq
  rw [relayEndpoint_eq_iff] at heq
  omega

/-- The next endpoint is not in use. -/
private theorem Plumbed.endpoint_ne_next (h : Plumbed known r) (hc : r.counter.toNat + 1 < 65536)
    {k : String} {ep : AddrPort} (hep : r.endpts k = some ep) :
    ep ≠ Engine.relayEndpoint (r.counter + 1) := by
  by_cases hk : known k
  · obtain ⟨n, ⟨_, hep', _, _⟩, hn⟩ := h.present k hk
    rw [hep'] at hep
    rw [← Option.some.inj hep]
    exact relayEndpoint_ne_next hc hn
  · rw [(h.absent k hk).2.1] at hep
    cases hep

/-- A new path leaves the paths of the others as they are. -/
private theorem Plumbed.build (h : Plumbed known r) {k : String} (hnew : ¬known k)
    (hc : r.counter.toNat + 1 < 65536) :
    Plumbed (fun x => x = k ∨ known x) (ensureLink k r) ∧
      (ensureLink k r).counter.toNat = r.counter.toNat + 1 := by
  have hsucc := toNat_counter_succ hc
  rw [ensureLink_of_not (h.wired.hasLink_eq_false hnew)]
  refine ⟨⟨fun x hx => ?_, fun x hx => ?_, fun x y ep hxe hye => ?_⟩, hsucc⟩
  · by_cases hxk : x = k
    · subst hxk
      exact ⟨r.counter + 1, by simp only [HasPath, PMap.set_self, and_self], le_rfl⟩
    · obtain ⟨n, ⟨hconn, hep, hlink, hbind⟩, hn⟩ := h.present x (hx.resolve_left hxk)
      have hne := relayEndpoint_ne_next hc hn
      refine ⟨n, ?_, by show n.toNat ≤ (r.counter + 1).toNat; omega⟩
      simp only [HasPath, PMap.set_ne _ _ hxk, PMap.set_ne _ _ hne, hconn, hep, hlink, hbind,
        and_self]
  · have hxk : x ≠ k := fun hxk => hx (.inl hxk)
    have habs := h.absent x (fun hk => hx (.inr hk))
    simpa only [NoPath, PMap.set_ne _ _ hxk] using habs
  · -- two old endpoints differ by hypothesis, an old one and the new one by freshness
    rcases PMap.set_eq_some _ hxe with ⟨hxk, hxep⟩ | ⟨_, hxold⟩ <;>
      rcases PMap.set_eq_some _ hye with ⟨hyk, hyep⟩ | ⟨_, hyold⟩
    · rw [hxk, hyk]
    · exact absurd hxep.symm (h.endpoint_ne_next hc hyold)
    · exact absurd hyep.symm (h.endpoint_ne_next hc hxold)
    · exact h.distinct x y ep hxold hyold

/-- Dropping a link keeps the others. -/
theorem Plumbed.drop (h : Plumbed known r) (k : String) :
    Plumbed (fun x => x ≠ k ∧ known x) (dropLink k r) := by
  refine ⟨fun x hx => ?_, fun x hx => ?_, fun x y ep hxe hye => ?_⟩
  · obtain ⟨n, ⟨hconn, hep, hlink, hbind⟩, hn⟩ := h.present x hx.2
    refine ⟨n, ?_, hn⟩
    simp only [HasPath, dropLink, PMap.delete_ne _ hx.1, hconn, hep, hlink, hbind, and_self]
  · -- the dropped peer, or one that was absent before
    by_cases hxk : x = k
    · subst hxk
      simp only [NoPath, dropLink, PMap.delete_self, and_self]
    · have habs := h.absent x (fun hk => hx ⟨hxk, hk⟩)
      simpa only [NoPath, dropLink, PMap.delete_ne _ hxk] using habs
  · obtain ⟨_, hxold⟩ := PMap.delete_eq_some _ hxe
    obtain ⟨_, hyold⟩ := PMap.delete_eq_some _ hye
    exact h.distinct x y ep hxold hyold

/-- Only the extension of the set of known peers matters. -/
theorem Plumbed.congr {known' : String → Prop} (h : Plumbed known r)
    (hiff : ∀ k, known k ↔ known' k) : Plumbed known' r := by
  have heq : known = known' := funext fun k => propext (hiff k)
  rwa [← heq]

/-- `ensureRelayLink`, whether or not there is something to build. -/
private theorem Plumbed.ensure (h : Plumbed known r) (k : String)
    (hc : r.counter.toNat + (!hasLink r k).toNat < 65536) :
    Plumbed (fun x => x = k ∨ known x) (ensureLink k r) ∧
      (ensureLink k r).counter.toNat = r.counter.toNat + (!hasLink r k).toNat := by
  by_cases hk : known k
  · have hlink : hasLink r k = true := (h.wired.hasLink_iff k).mpr hk
    rw [ensureLink_of_hasLink hlink, hlink]
    refine ⟨h.congr fun x => ⟨.inr, ?_⟩, rfl⟩
    rintro (rfl | hx)
    · exact hk
    · exact hx
  · rw [h.wired.hasLink_eq_false hk] at hc ⊢
    exact h.build hk hc

/-- A peer that comes in is known afterwards. -/
private theorem knownOp_incoming (op : PeerOp) (hin : op.incoming?.isSome = true) (k : String) :
    k = op.key ∨ known k ↔ knownOp known op k := by
  unfold knownOp
  split <;> simp_all

/-- A peer that is removed is not. -/
private theorem knownOp_removed (op : PeerOp) (hin : op.incoming?.isSome = false) (k : String) :
    k ≠ op.key ∧ known k ↔ knownOp known op k := by
  unfold knownOp
  split <;> simp_all

/-- One turn. -/
theorem Plumbed.turn (h : Plumbed known r) (op : PeerOp)
    (hc : r.counter.toNat + (isBuild r op).toNat < 65536) :
    Plumbed (knownOp known op) (relayOp r op) ∧
      (relayOp r op).counter.toNat = r.counter.toNat + (isBuild r op).toNat := by
  cases op with
  | add p =>
    obtain ⟨hplumbed, hcount⟩ := h.ensure p.wgPubKey hc
    exact ⟨hplumbed.congr (knownOp_incoming (.add p) rfl), hcount⟩
  | update u =>
    obtain ⟨hplumbed, hcount⟩ := h.ensure u.new.wgPubKey hc
    exact ⟨hplumbed.congr (knownOp_incoming (.update u) rfl), hcount⟩
  | remove p =>
    exact ⟨(h.drop p.wgPubKey).congr (knownOp_removed (.remove p) rfl), rfl⟩

/-- All the turns of a sync. -/
theorem Plumbed.turns (ops : List PeerOp) (h : Plumbed known r)
    (hc : r.counter.toNat + builds r ops < 65536) :
    Plumbed (ops.foldl knownOp known) (ops.foldl relayOp r) ∧
      (ops.foldl relayOp r).counter.toNat = r.counter.toNat + builds r ops := by
  induction ops generalizing known r with
  | nil => exact ⟨h, rfl⟩
  | cons op ops ih =>
    rw [builds] at hc
    obtain ⟨hturn, hcount⟩ := h.turn op (by omega)
    obtain ⟨hrest, hcount'⟩ := ih hturn (by omega)
    refine ⟨hrest, ?_⟩
    rw [List.foldl_cons, hcount', hcount, builds]
    omega

end Turns

/-- Who is known after all turns, each peer having at most one. -/
private theorem foldl_knownOp_iff (ops : List PeerOp) (hnd : (ops.map PeerOp.key).Nodup)
    (known : String → Prop) (k : String) :
    ops.foldl knownOp known k ↔
      (∃ op ∈ ops, op.key = k ∧ op.incoming?.isSome = true) ∨
        (known k ∧ ∀ op ∈ ops, op.key ≠ k) := by
  induction ops generalizing known with
  | nil => simp
  | cons op ops ih =>
    rw [List.map_cons, List.nodup_cons] at hnd
    rw [List.foldl_cons, ih hnd.2, knownOp]
    by_cases hk : k = op.key
    · -- this turn decides, the later ones are about other peers
      have hlater : ∀ o ∈ ops, o.key ≠ k := by
        intro o ho hok
        exact hnd.1 (List.mem_map.mpr ⟨o, ho, hok.trans hk⟩)
      have hnone : ¬∃ o ∈ ops, o.key = k ∧ o.incoming?.isSome = true := by
        rintro ⟨o, ho, hok, _⟩
        exact hlater o ho hok
      simp only [hk, if_true, List.mem_cons, exists_eq_or_imp, forall_eq_or_imp, ne_eq,
        not_true_eq_false, false_and, and_false, or_false, true_and]
      rw [hk] at hlater hnone
      simp only [hnone, false_or, or_false]
      exact ⟨fun hin => hin.1, fun hin => ⟨hin, hlater⟩⟩
    · have hk' : op.key ≠ k := fun h => hk h.symm
      simp only [hk, if_false, List.mem_cons, exists_eq_or_imp, forall_eq_or_imp, ne_eq, hk',
        not_false_eq_true, false_and, false_or, true_and]

/-! ## Runs of syncs -/

/-- The peers of the last response, the device itself apart. -/
def Known (cfg : Config) (e : Engine) (k : String) : Prop :=
  k ≠ cfg.selfKey ∧ e.peers k ≠ none

/-- After a sync, the known peers are those of the response. -/
theorem known_step_iff (cfg : Config) (e : Engine) (s : Sync) (k : String) :
    Known cfg (e.step cfg s) k ↔
      k ≠ cfg.selfKey ∧ ∃ p ∈ s.resp.peers, p.wgPubKey = k := by
  simp only [Known, step_peers, incomingMap, ne_eq, PMap.index_eq_none_iff, not_forall, not_not,
    exists_prop]

/-- An operation with a peer of the response. -/
theorem incoming_mem_syncOps {cfg : Config} {peers : PMap String Peer} {order : List String}
    {resp : SyncResponse} {op : PeerOp} (hop : op ∈ syncOps cfg peers order resp)
    (hin : op.incoming?.isSome = true) : ∃ p ∈ resp.peers, p.wgPubKey = op.key := by
  cases op with
  | add p => exact ⟨p, (add_mem_syncOps.mp hop).1, rfl⟩
  | update u => exact ⟨u.new, (update_mem_syncOps.mp hop).1, rfl⟩
  | remove p => cases hin

/-- A peer is removed when the response does not have it any more. -/
theorem remove_mem_syncOps {cfg : Config} {peers : PMap String Peer} {order : List String}
    {resp : SyncResponse} (horder : PMap.RangeOrder peers order)
    (hkeyed : ∀ k p, peers k = some p → p.wgPubKey = k) {p : Peer} :
    .remove p ∈ syncOps cfg peers order resp ↔
      peers p.wgPubKey = some p ∧ (∀ q ∈ resp.peers, q.wgPubKey ≠ p.wgPubKey) ∧
        p.wgPubKey ≠ cfg.selfKey := by
  have hmem : .remove p ∈ syncOps cfg peers order resp ↔
      p ∈ diffRemovedPeers peers order resp.peers ∧ p.wgPubKey ≠ cfg.selfKey := by
    simp [mem_syncOps, diffOps, PeerOp.key]
  -- the map has every peer under its own key
  rw [hmem, mem_diffRemovedPeers horder]
  constructor
  · rintro ⟨⟨k, hk, hnot⟩, hself⟩
    obtain rfl := hkeyed k p hk
    exact ⟨hk, hnot, hself⟩
  · rintro ⟨hk, hnot, hself⟩
    exact ⟨⟨p.wgPubKey, hk, hnot⟩, hself⟩

/-- The turns of a sync make the peers of the response the known ones. -/
theorem foldl_knownOp_syncOps (cfg : Config) {e : Engine} {s : Sync} (hkeyed : Keyed e)
    (hvalid : ValidSync e s) (k : String) :
    (syncOps cfg e.peers s.env.order s.resp).foldl knownOp (Known cfg e) k ↔
      Known cfg (e.step cfg s) k := by
  rw [foldl_knownOp_iff _ (syncOps_keys_nodup cfg hkeyed hvalid), known_step_iff]
  constructor
  · rintro (⟨op, hop, rfl, hin⟩ | ⟨⟨hself, hk⟩, hnone⟩)
    · exact ⟨(mem_syncOps.mp hop).2, incoming_mem_syncOps hop hin⟩
    · -- a known peer without a turn is in the response, or it would be removed
      obtain ⟨p, hp⟩ := Option.ne_none_iff_exists'.mp hk
      have hpk : p.wgPubKey = k := hkeyed k p hp
      refine ⟨hself, ?_⟩
      by_contra hgone
      refine hnone (.remove p) ((remove_mem_syncOps hvalid.order hkeyed).mpr ?_) hpk
      rw [hpk]
      exact ⟨hp, fun q hq hqk => hgone ⟨q, hq, hqk⟩, hself⟩
  · rintro ⟨hself, p, hp, rfl⟩
    by_cases hturn : ∃ op ∈ syncOps cfg e.peers s.env.order s.resp, op.key = p.wgPubKey
    · -- a peer of the response is not removed
      left
      obtain ⟨op, hop, hkey⟩ := hturn
      refine ⟨op, hop, hkey, ?_⟩
      cases op with
      | add q => rfl
      | update u => rfl
      | remove q =>
        have hgone := ((remove_mem_syncOps hvalid.order hkeyed).mp hop).2.1
        exact absurd hkey.symm (hgone p hp)
    · right
      have hnone : ∀ op ∈ syncOps cfg e.peers s.env.order s.resp, op.key ≠ p.wgPubKey :=
        fun op hop hkey => hturn ⟨op, hop, hkey⟩
      refine ⟨⟨hself, fun hnew => ?_⟩, hnone⟩
      exact hnone (.add p) (add_mem_syncOps.mpr ⟨hp, hnew, hself⟩) rfl

/-- How many relay connections the syncs create. -/
def created (cfg : Config) : Engine → List Sync → Nat
  | _, [] => 0
  | e, s :: ss =>
    builds e.relay (syncOps cfg e.peers s.env.order s.resp) + created cfg (e.step cfg s) ss

/-- A sync keeps the peers plumbed while the counter does not wrap. -/
private theorem plumbed_step {cfg : Config} {e : Engine} {s : Sync} (hkeyed : Keyed e)
    (hvalid : ValidSync e s) (h : Plumbed (Known cfg e) e.relay)
    (hc : e.relay.counter.toNat + builds e.relay (syncOps cfg e.peers s.env.order s.resp)
      < 65536) :
    Plumbed (Known cfg (e.step cfg s)) (e.step cfg s).relay ∧
      (e.step cfg s).relay.counter.toNat =
        e.relay.counter.toNat + builds e.relay (syncOps cfg e.peers s.env.order s.resp) := by
  obtain ⟨hturns, hcount⟩ := h.turns _ hc
  rw [step_relay]
  exact ⟨hturns.congr (foldl_knownOp_syncOps cfg hkeyed hvalid), hcount⟩

/-- Every peer of the response has a complete data path: the three tables have exactly
    the keys of the other devices in it, the bind maps an endpoint to the link that was
    built over the peer's connection with that endpoint, and no endpoint is shared. -/
structure DataPathComplete (cfg : Config) (resp : SyncResponse) (r : Relay) : Prop where
  endpts : ∀ k, r.endpts k ≠ none ↔ k ≠ cfg.selfKey ∧ ∃ p ∈ resp.peers, p.wgPubKey = k
  links : ∀ k, r.links k ≠ none ↔ k ≠ cfg.selfKey ∧ ∃ p ∈ resp.peers, p.wgPubKey = k
  conns : ∀ k, r.conns k ≠ none ↔ k ≠ cfg.selfKey ∧ ∃ p ∈ resp.peers, p.wgPubKey = k
  bound : ∀ k ep, r.endpts k = some ep → ∃ n, r.links k = some n ∧ r.conns k = some n ∧
    ep = Engine.relayEndpoint n ∧ r.bind ep = some n
  distinct : ∀ k k' ep, r.endpts k = some ep → r.endpts k' = some ep → k = k'

/-- Plumbed peers have a complete data path. -/
private theorem Plumbed.dataPathComplete {cfg : Config} {e : Engine} {s : Sync}
    (h : Plumbed (Known cfg (e.step cfg s)) (e.step cfg s).relay) :
    DataPathComplete cfg s.resp (e.step cfg s).relay := by
  have hkeys (k : String) := known_step_iff cfg e s k
  refine ⟨fun k => ?_, fun k => ?_, fun k => ?_, fun k ep hep => ?_, h.distinct⟩
  -- connection, endpoint and link: the known peers have all of them, the others none
  iterate 3
    rw [← hkeys k]
    by_cases hk : Known cfg (e.step cfg s) k
    · obtain ⟨n, ⟨hconn, hep, hlink, _⟩, _⟩ := h.present k hk
      simp [hconn, hep, hlink, hk]
    · obtain ⟨hconn, hep, hlink⟩ := h.absent k hk
      simp [hconn, hep, hlink, hk]
  · by_cases hk : Known cfg (e.step cfg s) k
    · obtain ⟨n, ⟨hconn, hep', hlink, hbind⟩, _⟩ := h.present k hk
      rw [hep'] at hep
      rw [← Option.some.inj hep]
      exact ⟨n, hlink, hconn, rfl, hbind⟩
    · rw [(h.absent k hk).2.1] at hep
      cases hep

/-- **Complete data paths.** An engine starts without peers and without plumbing, in a
    process that creates fewer than 65536 relay connections. Then after every sync, and
    whatever the device makes of its calls, the peers of the response and only they have
    a complete data path. -/
theorem data_path_complete (cfg : Config) (e : Engine) (hpeers : e.peers = PMap.empty)
    (hrelay : ∀ k, NoPath e.relay k) (syncs : List Sync)
    (hvalid : Along (Engine.step cfg) ValidSync e syncs)
    (hcount : e.relay.counter.toNat + created cfg e syncs < 65536) :
    Along (Engine.step cfg)
      (fun e s => DataPathComplete cfg s.resp (e.step cfg s).relay) e syncs := by
  have hkeyed : Keyed e := by
    intro k p hp
    rw [hpeers] at hp
    cases hp
  have hplumbed : Plumbed (Known cfg e) e.relay := by
    refine ⟨fun k hk => ?_, fun k _ => hrelay k, fun k _ ep hk _ => ?_⟩
    · rw [Known, hpeers] at hk
      exact absurd rfl hk.2
    · rw [(hrelay k).2.1] at hk
      cases hk
  clear hpeers hrelay
  -- what is known at each sync is what the one before it has plumbed
  induction syncs generalizing e with
  | nil => trivial
  | cons s syncs ih =>
    obtain ⟨hs, hrest⟩ := hvalid
    rw [created] at hcount
    obtain ⟨hstep, hcount'⟩ := plumbed_step hkeyed hs hplumbed (by omega)
    exact ⟨hstep.dataPathComplete,
      ih (e.step cfg s) hrest (by omega) (keyed_step cfg e s) hstep⟩

/-- A peer comes back after the other one has left. Every call to the device fails: the
    keys are not base64. -/
def returnRun : List Sync :=
  [{ env := { order := [] }, resp := { peers := [{ wgPubKey := "A" }, { wgPubKey := "B" }] } },
   { env := { order := ["A", "B"] }, resp := { peers := [{ wgPubKey := "B" }] } },
   { env := { order := ["B"] }, resp := { peers := [{ wgPubKey := "A" }] } }]

/-- Three connections are created, and the last one is the path of the peer that is back. -/
theorem returnRun_data_path_complete :
    created sampleConfig {} returnRun = 3 ∧
    Along (Engine.step sampleConfig) (fun e s =>
      DataPathComplete sampleConfig s.resp (e.step sampleConfig s).relay) {} returnRun := by
  have hcount : created sampleConfig {} returnRun = 3 := by decide +kernel
  refine ⟨hcount, data_path_complete sampleConfig {} rfl (fun k => ⟨rfl, rfl, rfl⟩) returnRun
    ⟨⟨PMap.RangeOrder.empty, by decide⟩, ⟨?_, by decide⟩, ⟨?_, by decide⟩, trivial⟩ ?_⟩
  · rw [step_peers]
    exact PMap.RangeOrder.index Peer.wgPubKey (by decide)
  · rw [step_peers]
    exact PMap.RangeOrder.index Peer.wgPubKey (by decide)
  · rw [hcount]
    decide

end Blinex.Spec
