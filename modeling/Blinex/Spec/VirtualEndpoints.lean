import Blinex.Spec.RelayLinks

/-!
# Virtual endpoints

A peer is told apart from the others by the endpoint of its relay connection, which shows 16
bits of a counter that every new connection of the process raises. A peer that stays keeps its
endpoint, so after 65536 more connections the counter shows it again, and the next connection
takes over its place in the bind.

The loops of a sync add before they remove: a connection may share its endpoint with that of a
peer which the same sync removes, and no harm is left behind.
-/

namespace Blinex.Spec

open Blinex.Native
open Commonv1 (Peer)
open Managementv1 (SyncResponse)

/-- The peers `S` have different endpoints, and the bind sends what goes to the endpoint of
    each over its own link. -/
structure ApartOn (S : String → Prop) (r : Relay) : Prop where
  distinct : ∀ k k' ep, S k → S k' → r.endpts k = some ep → r.endpts k' = some ep → k = k'
  bound : ∀ k ep n, S k → r.endpts k = some ep → r.links k = some n → r.bind ep = some n

/-- None of the next `n` connections gets the endpoint of a peer of `S`. -/
def NextFree (S : String → Prop) (r : Relay) (n : Nat) : Prop :=
  ∀ i < n, ∀ k, S k →
    r.endpts k ≠ some (Engine.relayEndpoint (r.counter + 1 + BitVec.ofNat 32 i))

section Turns

variable {known S : String → Prop} {r : Relay}

/-- Turns that leave the peers of `S` alone. -/
theorem ApartOn.congr {r' : Relay} (h : ApartOn S r) (hbind : r'.bind = r.bind)
    (hsame : ∀ k, S k → r'.endpts k = r.endpts k ∧ r'.links k = r.links k) : ApartOn S r' := by
  refine ⟨fun k k' ep hk hk' he he' => ?_, fun k ep n hk he hl => ?_⟩
  · rw [(hsame k hk).1] at he
    rw [(hsame k' hk').1] at he'
    exact h.distinct k k' ep hk hk' he he'
  · rw [(hsame k hk).1] at he
    rw [(hsame k hk).2] at hl
    rw [hbind]
    exact h.bound k ep n hk he hl

/-- The endpoint of the next connection is free. -/
private theorem nextFree_one : NextFree S r 1 ↔
    ∀ k, S k → r.endpts k ≠ some (Engine.relayEndpoint (r.counter + 1)) := by
  constructor
  · intro h k hk
    have hfree := h 0 Nat.one_pos k hk
    rwa [show r.counter + 1 + BitVec.ofNat 32 0 = r.counter + 1 from BitVec.add_zero _] at hfree
  · intro h i hi k hk
    obtain rfl := Nat.lt_one_iff.mp hi
    rw [show r.counter + 1 + BitVec.ofNat 32 0 = r.counter + 1 from BitVec.add_zero _]
    exact h k hk

/-- A new connection for a peer of `S` keeps them apart exactly if its endpoint is free. -/
private theorem apartOn_build_iff (h : Wired known r) {k : String} (hk : S k) (hnew : ¬known k) :
    ApartOn S (ensureLink k r) ↔ ApartOn S r ∧ NextFree S r 1 := by
  -- whoever has an endpoint already is somebody else
  have hne : ∀ k' ep, r.endpts k' = some ep → k' ≠ k := by
    rintro k' ep hep rfl
    rw [(h.absent k' hnew).2.1] at hep
    cases hep
  rw [ensureLink_of_not (h.hasLink_eq_false hnew), nextFree_one]
  constructor
  · rintro ⟨hdistinct, hbound⟩
    have hfree : ∀ k', S k' → r.endpts k' ≠ some (Engine.relayEndpoint (r.counter + 1)) := by
      intro k' hk' hep
      have hkne := hne k' _ hep
      exact hkne (hdistinct k' k _ hk' hk ((PMap.set_ne _ _ hkne).trans hep) (PMap.set_self _ _ _))
    refine ⟨⟨fun k₁ k₂ ep h₁ h₂ he₁ he₂ => ?_, fun k' ep n hk' he hl => ?_⟩, hfree⟩
    · exact hdistinct k₁ k₂ ep h₁ h₂ ((PMap.set_ne _ _ (hne k₁ ep he₁)).trans he₁)
        ((PMap.set_ne _ _ (hne k₂ ep he₂)).trans he₂)
    · have hb := hbound k' ep n hk' ((PMap.set_ne _ _ (hne k' ep he)).trans he)
        ((PMap.set_ne _ _ (hne k' ep he)).trans hl)
      have hepne : ep ≠ Engine.relayEndpoint (r.counter + 1) := by
        rintro rfl
        exact hfree k' hk' he
      exact (PMap.set_ne _ _ hepne).symm.trans hb
  · rintro ⟨⟨hdistinct, hbound⟩, hfree⟩
    -- two endpoints: both old, or one of them the new one, which is free
    refine ⟨fun k₁ k₂ ep h₁ h₂ he₁ he₂ => ?_, fun k' ep n hk' he hl => ?_⟩
    · rcases PMap.set_eq_some _ he₁ with ⟨rfl, hep⟩ | ⟨_, hold₁⟩ <;>
        rcases PMap.set_eq_some _ he₂ with ⟨rfl, hep'⟩ | ⟨_, hold₂⟩
      · rfl
      · exact absurd (hold₂.trans (congrArg some hep.symm)) (hfree k₂ h₂)
      · exact absurd (hold₁.trans (congrArg some hep'.symm)) (hfree k₁ h₁)
      · exact hdistinct k₁ k₂ ep h₁ h₂ hold₁ hold₂
    · rcases PMap.set_eq_some _ he with ⟨rfl, rfl⟩ | ⟨hkne, hold⟩
      · rw [← hl]
        exact (PMap.set_self _ _ _).trans (PMap.set_self _ _ _).symm
      · have hepne : ep ≠ Engine.relayEndpoint (r.counter + 1) := by
          rintro rfl
          exact hfree k' hk' hold
        exact (PMap.set_ne _ _ hepne).trans
          (hbound k' ep n hk' hold ((PMap.set_ne _ _ hkne).symm.trans hl))

/-- The endpoints of fewer than 65536 connections in a row are different. -/
private theorem relayEndpoint_ne_later {c : BitVec 32} {i : Nat} (hi : i + 1 < 65536) :
    Engine.relayEndpoint c ≠ Engine.relayEndpoint (c + 1 + BitVec.ofNat 32 i) := by
  intro heq
  rw [relayEndpoint_eq_iff] at heq
  have hsum : (c + 1 + BitVec.ofNat 32 i).toNat = (c.toNat + 1 + i) % 4294967296 := by
    rw [BitVec.toNat_add, BitVec.toNat_add, BitVec.toNat_ofNat,
      show (1 : BitVec 32).toNat = 1 from rfl]
    omega
  rw [hsum] at heq
  omega

/-- The next connection takes its endpoint, and then the rest must be free. -/
private theorem nextFree_succ (h : Wired known r) {k : String} (hnew : ¬known k) {n : Nat}
    (hn : n + 1 < 65536) :
    NextFree S r 1 ∧ NextFree S (ensureLink k r) n ↔ NextFree S r (n + 1) := by
  have hshift : ∀ i, r.counter + 1 + 1 + BitVec.ofNat 32 i =
      r.counter + 1 + BitVec.ofNat 32 (i + 1) := by
    intro i
    rw [BitVec.ofNat_add, BitVec.add_assoc (r.counter + 1), BitVec.add_comm (BitVec.ofNat 32 i)]
    rfl
  rw [ensureLink_of_not (h.hasLink_eq_false hnew)]
  constructor
  · -- the first connection, then those after it
    rintro ⟨hone, hrest⟩ i hi k' hk' hep
    cases i with
    | zero => exact hone 0 Nat.one_pos k' hk' hep
    | succ i =>
      have hkne : k' ≠ k := by
        rintro rfl
        rw [(h.absent k' hnew).2.1] at hep
        cases hep
      refine hrest i (Nat.lt_of_succ_lt_succ hi) k' hk' ((PMap.set_ne _ _ hkne).trans ?_)
      rw [hep]
      exact congrArg (fun c => some (Engine.relayEndpoint c)) (hshift i).symm
  · intro hall
    refine ⟨fun i hi => hall i (Nat.lt_of_lt_of_le hi (Nat.le_add_left 1 n)), ?_⟩
    intro i hi k' hk' hep
    rcases PMap.set_eq_some _ hep with ⟨_, heq⟩ | ⟨_, hold⟩
    · exact relayEndpoint_ne_later (show i + 1 < 65536 by omega) heq
    · refine hall (i + 1) (Nat.succ_lt_succ hi) k' hk' (hold.trans ?_)
      exact congrArg (fun c => some (Engine.relayEndpoint c)) (hshift i)

/-- A peer that comes in has its link ensured. -/
private theorem relayOp_incoming (r : Relay) {op : PeerOp} (hin : op.incoming?.isSome = true) :
    relayOp r op = ensureLink op.key r := by
  cases op with
  | add p => rfl
  | update u => rfl
  | remove p => cases hin

/-- Removing a peer that is not in `S` changes nothing for `S`. -/
private theorem removed_turn_iff {op : PeerOp} (hin : op.incoming?.isSome = false)
    (hkey : ∀ k, S k → k ≠ op.key) (n : Nat) :
    ApartOn S (relayOp r op) ∧ NextFree S (relayOp r op) n ↔ ApartOn S r ∧ NextFree S r n := by
  have hsame : ∀ k, S k → (relayOp r op).endpts k = r.endpts k ∧
      (relayOp r op).links k = r.links k := fun k hk => (relayOp_of_ne (hkey k hk)).2
  obtain ⟨hbind, hcounter⟩ : (relayOp r op).bind = r.bind ∧
      (relayOp r op).counter = r.counter := by
    -- only a removal brings nobody in
    cases op with
    | add p => cases hin
    | update u => cases hin
    | remove p => exact ⟨rfl, rfl⟩
  refine and_congr ⟨fun h => h.congr hbind.symm ?_, fun h => h.congr hbind hsame⟩ ?_
  · exact fun k hk => ⟨(hsame k hk).1.symm, (hsame k hk).2.symm⟩
  · unfold NextFree
    rw [hcounter]
    exact forall_congr' fun i => forall_congr' fun _ => forall_congr' fun k =>
      forall_congr' fun hk => by rw [(hsame k hk).1]

/-- All the turns of a sync, for the peers `S` of its response. -/
private theorem apartOn_turns_iff (ops : List PeerOp) (h : Wired known r)
    (hin : ∀ op ∈ ops, op.incoming?.isSome = true ↔ S op.key) (hb : builds r ops < 65536) :
    ApartOn S (ops.foldl relayOp r) ↔ ApartOn S r ∧ NextFree S r (builds r ops) := by
  induction ops generalizing known r with
  | nil =>
    refine ⟨fun hapart => ⟨hapart, ?_⟩, fun hboth => hboth.1⟩
    intro i hi
    exact absurd hi (Nat.not_lt_zero i)
  | cons op ops ih =>
    rw [builds] at hb ⊢
    have hop := hin op List.mem_cons_self
    have hrest := ih (h.turn op) (fun o ho => hin o (List.mem_cons_of_mem _ ho)) (by omega)
    rw [List.foldl_cons, hrest]
    cases hinc : op.incoming?.isSome with
    | false =>
      -- a removed peer is not in `S`
      have hkey : ∀ k, S k → k ≠ op.key := by
        rintro k hk rfl
        rw [hop.mpr hk] at hinc
        cases hinc
      have hbuild : (isBuild r op).toNat = 0 := by
        simp only [isBuild, hinc, Bool.false_and, Bool.toNat_false]
      rw [removed_turn_iff hinc hkey, hbuild, Nat.zero_add]
    | true =>
      rw [relayOp_incoming r hinc] at hb ⊢
      by_cases hk : known op.key
      · -- a known peer keeps its connection
        have hlink := (h.hasLink_iff op.key).mpr hk
        simp only [isBuild, hlink, ensureLink_of_hasLink hlink, Bool.not_true, Bool.and_false,
          Bool.toNat_false, Nat.zero_add]
      · -- an unknown one uses up the next endpoint
        have hlink := h.hasLink_eq_false hk
        have hbuild : (isBuild r op).toNat = 1 := by
          simp only [isBuild, hinc, hlink, Bool.not_false, Bool.and_self, Bool.toNat_true]
        rw [hbuild] at hb ⊢
        rw [apartOn_build_iff h (hop.mp hinc) hk, and_assoc, nextFree_succ h hk (by omega),
          Nat.add_comm 1]

end Turns

/-! ## Runs of syncs -/

/-- The peers of a response, without the device itself. -/
def InResponse (cfg : Config) (resp : SyncResponse) (k : String) : Prop :=
  k ≠ cfg.selfKey ∧ ∃ p ∈ resp.peers, p.wgPubKey = k

/-- No two present peers have the same endpoint. The bind sends what goes to the endpoint of a
    peer over the link of that peer, which tags what it receives with that endpoint. -/
structure EndpointsApart (e : Engine) : Prop where
  distinct : ∀ k k' ep, e.relay.endpts k = some ep → e.relay.endpts k' = some ep → k = k'
  bound : ∀ k ep, e.relay.endpts k = some ep → ∃ n, e.relay.links k = some n ∧
    ep = Engine.relayEndpoint n ∧ e.relay.bind ep = some n

/-- If all endpoints are apart, those of `S` are. -/
private theorem EndpointsApart.apartOn {e : Engine} (h : EndpointsApart e) (S : String → Prop) :
    ApartOn S e.relay := by
  refine ⟨fun k k' ep _ _ => h.distinct k k' ep, fun k ep n _ he hl => ?_⟩
  obtain ⟨m, hm, _, hbind⟩ := h.bound k ep he
  rw [hm] at hl
  rw [hbind, hl]

/-- Whether a peer that stays has an endpoint that a new connection of this sync will get. -/
def NewEndpointsFree (cfg : Config) (e : Engine) (s : Sync) : Prop :=
  NextFree (InResponse cfg s.resp) e.relay
    (builds e.relay (syncOps cfg e.peers s.env.order s.resp))

/-- Only a peer that comes in makes a connection. -/
private theorem builds_le (r : Relay) (ops : List PeerOp) :
    builds r ops ≤ (ops.filter fun op => op.incoming?.isSome).length := by
  induction ops generalizing r with
  | nil => exact Nat.le_refl _
  | cons op ops ih =>
    have hrest := ih (relayOp r op)
    rw [builds, List.filter_cons]
    cases hin : op.incoming?.isSome with
    | false =>
      simp only [isBuild, hin, Bool.false_and, Bool.toNat_false, Bool.false_eq_true, ↓reduceIte]
      omega
    | true =>
      have hone := Bool.toNat_le (isBuild r op)
      simp only [↓reduceIte, List.length_cons]
      omega

/-- A sync creates at most one connection for each peer of the response. -/
private theorem builds_syncOps_le (cfg : Config) {e : Engine} {s : Sync} (hkeyed : Keyed e)
    (hvalid : ValidSync e s) :
    builds e.relay (syncOps cfg e.peers s.env.order s.resp) ≤
      (s.resp.peers.filter fun p => p.wgPubKey != cfg.selfKey).length := by
  refine Nat.le_trans (builds_le _ _) ?_
  -- every peer has one turn, so the keys that come in are at most those of the response
  have hnodup := (syncOps_keys_nodup cfg hkeyed hvalid).sublist
    ((List.filter_sublist (p := fun op => op.incoming?.isSome)).map PeerOp.key)
  have hsubset : ((syncOps cfg e.peers s.env.order s.resp).filter fun op =>
      op.incoming?.isSome).map PeerOp.key ⊆
        (s.resp.peers.filter fun p => p.wgPubKey != cfg.selfKey).map Peer.wgPubKey := by
    intro k hk
    obtain ⟨op, hop, rfl⟩ := List.mem_map.mp hk
    obtain ⟨hmem, hin⟩ := List.mem_filter.mp hop
    obtain ⟨p, hp, hkey⟩ := incoming_mem_syncOps hmem hin
    refine List.mem_map.mpr ⟨p, List.mem_filter.mpr ⟨hp, ?_⟩, hkey⟩
    rw [bne_iff_ne, hkey]
    exact (mem_syncOps.mp hmem).2
  have hlen := (hnodup.subperm hsubset).length_le
  rwa [List.length_map, List.length_map] at hlen

/-- The known peers may be described in another way. -/
theorem Wired.congr {known known' : String → Prop} {r : Relay} (h : Wired known r)
    (hiff : ∀ k, known k ↔ known' k) : Wired known' r := by
  have heq : known = known' := funext fun k => propext (hiff k)
  rwa [← heq]

/-- The links follow the known peers through all turns. -/
theorem Wired.turns {known : String → Prop} {r : Relay} (h : Wired known r)
    (ops : List PeerOp) : Wired (ops.foldl knownOp known) (ops.foldl relayOp r) := by
  induction ops generalizing known r with
  | nil => exact h
  | cons op ops ih => exact ih (h.turn op)

/-- The tables are in order after every sync. -/
private theorem wired_step (cfg : Config) {e : Engine} {s : Sync} (hkeyed : Keyed e)
    (hvalid : ValidSync e s) (h : Wired (Known cfg e) e.relay) :
    Wired (Known cfg (e.step cfg s)) (e.step cfg s).relay := by
  rw [step_relay]
  exact (h.turns _).congr (foldl_knownOp_syncOps cfg hkeyed hvalid)

/-- The incoming operations of a sync are those on peers of the response. -/
private theorem incoming_iff_inResponse (cfg : Config) {e : Engine} {s : Sync} (hkeyed : Keyed e)
    (hvalid : ValidSync e s) {op : PeerOp} (hop : op ∈ syncOps cfg e.peers s.env.order s.resp) :
    op.incoming?.isSome = true ↔ InResponse cfg s.resp op.key := by
  constructor
  · exact fun hin => ⟨(mem_syncOps.mp hop).2, incoming_mem_syncOps hop hin⟩
  · rintro ⟨_, p, hp, hkey⟩
    cases op with
    | add q => rfl
    | update u => rfl
    | remove q =>
      have hgone := ((remove_mem_syncOps hvalid.order hkeyed).mp hop).2.1
      exact absurd hkey (hgone p hp)

/-- Whoever has an endpoint after a sync is in the response. -/
private theorem apartOn_inResponse_iff (cfg : Config) {e : Engine} {s : Sync}
    (h : Wired (Known cfg (e.step cfg s)) (e.step cfg s).relay) :
    ApartOn (InResponse cfg s.resp) (e.step cfg s).relay ↔ EndpointsApart (e.step cfg s) := by
  -- whoever has an endpoint is in the response
  have hin : ∀ k ep, (e.step cfg s).relay.endpts k = some ep → InResponse cfg s.resp k := by
    intro k ep hep
    by_contra hnot
    rw [(h.absent k fun hk => hnot ((known_step_iff cfg e s k).mp hk)).2.1] at hep
    cases hep
  refine ⟨fun hapart => ⟨fun k k' ep he he' => ?_, fun k ep he => ?_⟩, fun h => h.apartOn _⟩
  · exact hapart.distinct k k' ep (hin k ep he) (hin k' ep he') he he'
  · obtain ⟨n, _, hep, hl⟩ := h.present k ((known_step_iff cfg e s k).mpr (hin k ep he))
    refine ⟨n, hl, ?_, hapart.bound k ep n (hin k ep he) he hl⟩
    rw [hep] at he
    exact (Option.some.inj he).symm

/-- One sync, from a state in which the endpoints are apart. -/
private theorem endpointsApart_step_iff (cfg : Config) {e : Engine} {s : Sync} (hkeyed : Keyed e)
    (hvalid : ValidSync e s)
    (hcount : (s.resp.peers.filter fun p => p.wgPubKey != cfg.selfKey).length ≤ 65535)
    (hwired : Wired (Known cfg e) e.relay) (hapart : EndpointsApart e) :
    EndpointsApart (e.step cfg s) ↔ NewEndpointsFree cfg e s := by
  have hbuilds := builds_syncOps_le cfg hkeyed hvalid
  have hturns := apartOn_turns_iff (syncOps cfg e.peers s.env.order s.resp) hwired
    (fun op hop => incoming_iff_inResponse cfg hkeyed hvalid hop) (by omega)
  rw [← apartOn_inResponse_iff cfg (wired_step cfg hkeyed hvalid hwired), step_relay, hturns]
  exact and_iff_right (hapart.apartOn _)

/-- An engine starts without peers and without plumbing, in a process that has created any
    number of connections, and no response has more than 65535 other devices in it. Then the
    endpoints are apart after every sync exactly if no sync creates a connection whose endpoint
    a peer has that stays. -/
theorem endpoints_apart_iff (cfg : Config) (e : Engine) (hpeers : e.peers = PMap.empty)
    (hrelay : ∀ k, NoPath e.relay k) (syncs : List Sync)
    (hvalid : Along (Engine.step cfg) (fun e s => ValidSync e s ∧
      (s.resp.peers.filter fun p => p.wgPubKey != cfg.selfKey).length ≤ 65535) e syncs) :
    Along (Engine.step cfg) (fun e s => EndpointsApart (e.step cfg s)) e syncs ↔
      Along (Engine.step cfg) (NewEndpointsFree cfg) e syncs := by
  -- as long as the endpoints are apart, the rest of the invariant holds
  have hinv : ∀ e s, (Keyed e ∧ Wired (Known cfg e) e.relay ∧ EndpointsApart e) →
      (ValidSync e s ∧
        (s.resp.peers.filter fun p => p.wgPubKey != cfg.selfKey).length ≤ 65535) →
      EndpointsApart (e.step cfg s) →
      Keyed (e.step cfg s) ∧ Wired (Known cfg (e.step cfg s)) (e.step cfg s).relay ∧
        EndpointsApart (e.step cfg s) :=
    fun e s h hs hapart => ⟨keyed_step cfg e s, wired_step cfg h.1 hs.1 h.2.1, hapart⟩
  have hnone : ∀ k ep, e.relay.endpts k ≠ some ep := by
    intro k ep he
    rw [(hrelay k).2.1] at he
    cases he
  refine Along.congr hinv (fun e s h hs => ?_) ⟨?_, ?_, ?_⟩ hvalid
  · exact endpointsApart_step_iff cfg h.1 hs.1 hs.2 h.2.1 h.2.2
  · intro k p hp
    rw [hpeers] at hp
    cases hp
  · refine ⟨fun k hk => ?_, fun k _ => hrelay k⟩
    rw [Known, hpeers] at hk
    exact absurd rfl hk.2
  · exact ⟨fun k _ ep he _ => absurd he (hnone k ep), fun k ep he => absurd he (hnone k ep)⟩

/-- The run of a peer that comes back creates connections with endpoints that are free. -/
theorem returnRun_endpoints_apart :
    Along (Engine.step sampleConfig) (fun e s => EndpointsApart (e.step sampleConfig s)) {}
      returnRun := by
  refine (endpoints_apart_iff sampleConfig {} rfl (fun k => ⟨rfl, rfl, rfl⟩) returnRun
    ⟨⟨⟨PMap.RangeOrder.empty, by decide⟩, by decide +kernel⟩,
      ⟨⟨?_, by decide⟩, by decide +kernel⟩, ⟨⟨?_, by decide⟩, by decide +kernel⟩, trivial⟩).mpr
    ⟨?_, ?_, ?_, trivial⟩
  · rw [step_peers]
    exact PMap.RangeOrder.index Peer.wgPubKey (by decide)
  · rw [step_peers]
    exact PMap.RangeOrder.index Peer.wgPubKey (by decide)
  · -- nobody has an endpoint yet
    intro i _ k _ hk
    cases hk
  · -- `B` stays, so no connection is created
    have hbuilds : builds (Engine.step sampleConfig {} (returnRun.get ⟨0, by decide⟩)).relay
        (syncOps sampleConfig
          (Engine.step sampleConfig {} (returnRun.get ⟨0, by decide⟩)).peers ["A", "B"]
          { peers := [{ wgPubKey := "B" }] }) = 0 := by
      decide +kernel
    intro i hi
    exact absurd (hbuilds ▸ hi) (Nat.not_lt_zero i)
  · -- `A` is back and has no endpoint any more
    have hnone : (Engine.step sampleConfig
        (Engine.step sampleConfig {} (returnRun.get ⟨0, by decide⟩))
        (returnRun.get ⟨1, by decide⟩)).relay.endpts "A" = none := by
      decide +kernel
    rintro i - k ⟨-, p, hp, rfl⟩ hk
    obtain rfl := List.mem_singleton.mp hp
    exact absurd (hnone.symm.trans hk) nofun

/-! ## A peer that comes and goes -/

/-- The response with the peers of the given keys, to a device that knows those of `known`. -/
def syncTo (known keys : List String) : Sync :=
  { env := { order := known }
    resp := { peers := keys.map fun k => { wgPubKey := k } } }

/-- A stays, and B comes and goes `n` times. -/
def churn : Nat → List Sync
  | 0 => [syncTo [] ["A"]]
  | n + 1 => churn n ++ [syncTo ["A"] ["A", "B"]] ++ [syncTo ["A", "B"] ["A"]]

/-- The state after that: A has the endpoint of the first connection. -/
structure Churned (n : Nat) (e : Engine) : Prop where
  peers : e.peers = incomingMap [{ wgPubKey := "A" }]
  counter : e.relay.counter = BitVec.ofNat 32 (n + 1)
  staying : e.relay.endpts "A" = some (Engine.relayEndpoint 1)
  link : hasLink e.relay "A" = true
  gone : hasLink e.relay "B" = false

/-- B comes: one connection is created. -/
theorem Churned.add {n : Nat} {e : Engine} (h : Churned n e) :
    (e.step sampleConfig (syncTo ["A"] ["A", "B"])).relay = ensureLink "B" e.relay := by
  have hops : syncOps sampleConfig (incomingMap [{ wgPubKey := "A" }]) ["A"]
      (syncTo ["A"] ["A", "B"]).resp = [.add { wgPubKey := "B" }] := rfl
  rw [step_relay, h.peers]
  exact congrArg (List.foldl relayOp e.relay) hops

/-- B comes and goes, and only the counter shows it. -/
theorem Churned.succ {n : Nat} {e : Engine} (h : Churned n e) :
    Churned (n + 1) ((e.step sampleConfig (syncTo ["A"] ["A", "B"])).step sampleConfig
      (syncTo ["A", "B"] ["A"])) := by
  have hops : syncOps sampleConfig (incomingMap [{ wgPubKey := "A" }, { wgPubKey := "B" }])
      ["A", "B"] (syncTo ["A", "B"] ["A"]).resp = [.remove { wgPubKey := "B" }] := rfl
  have hrelay : ((e.step sampleConfig (syncTo ["A"] ["A", "B"])).step sampleConfig
      (syncTo ["A", "B"] ["A"])).relay = dropLink "B" (ensureLink "B" e.relay) := by
    rw [step_relay, step_peers, ← h.add]
    exact congrArg (List.foldl relayOp _) hops
  -- the counter moved up by one, A's entries are untouched
  refine ⟨step_peers _ _ _, ?_, ?_, ?_, ?_⟩
  · rw [hrelay, ensureLink_of_not h.gone]
    show e.relay.counter + 1 = _
    rw [h.counter]
    exact (BitVec.ofNat_add (n + 1) 1).symm
  · rw [hrelay, ensureLink_of_not h.gone]
    exact h.staying
  · rw [hrelay, ensureLink_of_not h.gone]
    exact h.link
  · rw [hrelay]
    rfl

/-- The syncs are well formed and bring at most two peers. -/
def SmallSync (e : Engine) (s : Sync) : Prop := ValidSync e s ∧ s.resp.peers.length ≤ 2

/-- A sync from one list of keys to another, both short. -/
private theorem smallSync_of_peers {e : Engine} {known keys : List String}
    (hpeers : e.peers = incomingMap (known.map fun k => { wgPubKey := k })) (hknown : known.Nodup)
    (hkeys : keys.Nodup) (hlen : keys.length ≤ 2) : SmallSync e (syncTo known keys) := by
  have hmap : ∀ l : List String,
      (l.map fun k => ({ wgPubKey := k } : Peer)).map Peer.wgPubKey = l := by
    intro l
    rw [List.map_map]
    exact List.map_id l
  refine ⟨⟨?_, ?_⟩, ?_⟩
  · -- the known peers in the order of the list
    rw [hpeers]
    have horder := PMap.RangeOrder.index Peer.wgPubKey
      (l := known.map fun k => { wgPubKey := k }) (by rw [hmap]; exact hknown)
    rwa [hmap] at horder
  · rw [syncTo, hmap]
    exact hkeys
  · rw [syncTo, List.length_map]
    exact hlen

/-- After `n` rounds the state is that of `Churned n`. -/
private theorem churn_run (n : Nat) : Along (Engine.step sampleConfig) SmallSync {} (churn n) ∧
    Churned n ((churn n).foldl (Engine.step sampleConfig) {}) := by
  induction n with
  | zero =>
    rw [churn, List.foldl_cons, List.foldl_nil]
    refine ⟨⟨?_, trivial⟩, ⟨step_peers _ _ _, ?_, ?_, ?_, ?_⟩⟩
    · exact smallSync_of_peers rfl (by decide) (by decide) (by decide)
    -- the first connection is A's
    all_goals
      rw [step_relay]
      rfl
  | succ n ih =>
    obtain ⟨hvalid, hchurned⟩ := ih
    rw [churn, List.foldl_append, List.foldl_append]
    refine ⟨?_, hchurned.succ⟩
    rw [Along.concat_iff, Along.concat_iff, List.foldl_append, List.foldl_cons, List.foldl_nil]
    -- both syncs of the round are small
    refine ⟨⟨hvalid, ?_⟩, ?_⟩
    · exact smallSync_of_peers hchurned.peers (by decide) (by decide) (by decide)
    · exact smallSync_of_peers (step_peers _ _ _) (by decide) (by decide) (by decide)

/-- B comes back for the 65536th time, and gets the endpoint of A. -/
theorem endpoints_collide : ∃ syncs,
    Along (Engine.step sampleConfig) SmallSync {} syncs ∧
    ¬ Along (Engine.step sampleConfig) (fun e s => EndpointsApart (e.step sampleConfig s)) {}
      syncs := by
  obtain ⟨n, hn⟩ : ∃ n, n = 65535 := ⟨_, rfl⟩
  obtain ⟨hvalid, hchurned⟩ := churn_run n
  refine ⟨churn n ++ [syncTo ["A"] ["A", "B"]], Along.concat_iff.mpr ⟨hvalid, ?_⟩, ?_⟩
  · exact smallSync_of_peers hchurned.peers (by decide) (by decide) (by decide)
  · intro hall
    have hlast := (Along.concat_iff.mp hall).2
    -- the counter shows the endpoint of the first connection again
    have hsame : Engine.relayEndpoint (BitVec.ofNat 32 (n + 1) + 1) = Engine.relayEndpoint 1 := by
      rw [hn]
      decide
    generalize (churn n).foldl (Engine.step sampleConfig) {} = e at hchurned hlast
    have hA : (e.step sampleConfig (syncTo ["A"] ["A", "B"])).relay.endpts "A" =
        some (Engine.relayEndpoint 1) := by
      rw [hchurned.add, ensureLink_of_not hchurned.gone]
      exact hchurned.staying
    have hB : (e.step sampleConfig (syncTo ["A"] ["A", "B"])).relay.endpts "B" =
        some (Engine.relayEndpoint 1) := by
      rw [hchurned.add, ensureLink_of_not hchurned.gone, ← hsame, ← hchurned.counter]
      exact PMap.set_self e.relay.endpts "B" _
    exact absurd (hlast.distinct "A" "B" _ hA hB) (by decide)

end Blinex.Spec
