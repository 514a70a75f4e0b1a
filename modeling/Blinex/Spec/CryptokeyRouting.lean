import Blinex.ForStd.Run
import Blinex.Spec.SyncOps

/-!
# Cryptokey routing after a sync

`UpsertPeer` adds the allowed IPs of a peer to the device and never takes one away,
and only peers the diff reports are upserted. `device_follows_iff` is the exact
condition under which the owners of the prefixes agree with the last response after
every sync of a run; `lookup_exit_node_iff` is the same for the default route of the
exit node the server selected.
-/

namespace Blinex.Spec

open Blinex.Go Blinex.Native
open Commonv1 (Peer)
open Managementv1 (SyncResponse)

/-! ## What the device makes of the manager's calls -/

/-- The key the device knows a peer under; it takes no key of the wrong length and
    ignores its own. -/
def devKey (own : RawKey) (pubKeyB64 : String) : Option RawKey :=
  match Base64.decodeString pubKeyB64 with
  | none => none
  | some raw => if raw.length ≠ 32 ∨ raw = own then none else some raw

/-- The prefixes of the lines before the first that does not parse. -/
def acceptedPrefixes : List String → List Prefix
  | [] => []
  | ip :: ips =>
    match Netip.parsePrefix ip with
    | none => []
    | some p => p.masked :: acceptedPrefixes ips

/-- The prefixes a peer lists. -/
def allowedPrefixes (p : Peer) : List Prefix :=
  (p.allowedIps.filterMap Netip.parsePrefix).map Prefix.masked

/-- What the device takes is among what the peer lists. -/
private theorem allowedPrefixes_of_accepted {p : Peer} {x : Prefix}
    (h : x ∈ acceptedPrefixes p.allowedIps) : x ∈ allowedPrefixes p := by
  unfold allowedPrefixes
  generalize p.allowedIps = ips at h
  -- the device stops at the first text that does not parse
  induction ips with
  | nil => exact h
  | cons ip ips ih =>
    cases hq : Netip.parsePrefix ip with
    | none =>
      simp only [acceptedPrefixes, hq, List.not_mem_nil] at h
    | some q =>
      simp only [acceptedPrefixes, hq, List.mem_cons] at h
      rw [List.filterMap_cons_some hq, List.map_cons, List.mem_cons]
      exact h.imp_right ih

section Device

variable (own : RawKey) (d : Device)

/-- A call about a peer the device takes. -/
private theorem setPeer_of_devKey {k : String} {key : RawKey} (h : devKey own k = some key)
    (lines : List Uapi) :
    d.setPeer own k lines = (d.modifyPeer key id).ipcLines own (.peer key) lines := by
  unfold devKey at h
  split at h
  · exact nomatch h
  · rename_i raw hraw
    split at h
    · exact nomatch h
    · rename_i hok
      obtain rfl := Option.some.inj h
      rw [not_or, not_not] at hok
      simp [Device.setPeer, hraw, Device.ipcSet, Device.ipcLines, Device.ipcLine, hok]

/-- Lines about the device's own key change nothing. -/
private theorem ipcLines_dummy (lines : List Uapi) (hl : ∀ l ∈ lines, ∀ key, l ≠ .publicKey key) :
    (d.ipcLines own .dummy lines).2 = d := by
  induction lines with
  | nil => rfl
  | cons l lines ih =>
    -- lines for an ignored key are parsed but do nothing
    have ih' := ih fun l' hl' => hl l' (List.mem_cons_of_mem _ hl')
    rw [Device.ipcLines]
    cases l with
    | publicKey key => exact absurd rfl (hl _ List.mem_cons_self key)
    | allowedIP cidr =>
      cases hp : Netip.parsePrefix cidr with
      | none => simp [Device.ipcLine, hp]
      | some p => simpa only [Device.ipcLine, hp] using ih'
    | _ => exact ih'

/-- A call about a peer the device does not take. -/
private theorem setPeer_of_devKey_none {k : String} (h : devKey own k = none) (lines : List Uapi)
    (hl : ∀ l ∈ lines, ∀ key, l ≠ .publicKey key) : (d.setPeer own k lines).2 = d := by
  unfold Device.setPeer
  cases hraw : Base64.decodeString k with
  | none => rfl
  | some raw =>
    by_cases hlen : raw.length = 32
    · -- a key of the right length is only ignored if it is the device's own
      have hown : raw = own := by
        by_contra hne
        simp [devKey, hraw, hlen, hne] at h
      subst hown
      simp [Device.ipcSet, Device.ipcLines, Device.ipcLine, hlen, ipcLines_dummy _ _ _ hl]
    · simp [Device.ipcSet, Device.ipcLines, Device.ipcLine, hlen]

/-- The allowed IPs of a selected peer become its own, up to the first that does not
    parse. -/
private theorem ipcLines_owner (key : RawKey) (ips : List String) (x : Prefix) :
    (d.ipcLines own (.peer key) (ips.map .allowedIP ++ [.persistentKeepalive 25])).2.owner x =
      if x ∈ acceptedPrefixes ips then some key else d.owner x := by
  induction ips generalizing d with
  | nil => rfl
  | cons ip ips ih =>
    rw [List.map_cons, List.cons_append, Device.ipcLines, acceptedPrefixes]
    -- a line that does not parse stops the call; what came before it stays
    cases hp : Netip.parsePrefix ip with
    | none => simp [Device.ipcLine, hp]
    | some p =>
      simp only [Device.ipcLine, hp, ih, List.mem_cons]
      by_cases hx : x = p.masked
      · subst hx
        simp
      · simp [hx, PMap.set_ne _ _ hx]

/-- After an upsert the accepted prefixes belong to the key; the others are where they were. -/
private theorem upsertPeer_owner (k : String) (ips : List String) (x : Prefix) :
    (d.upsertPeer own k ips none).2.owner x =
      match devKey own k with
      | some key => if x ∈ acceptedPrefixes ips then some key else d.owner x
      | none => d.owner x := by
  simp only [Device.upsertPeer, Option.toList_none, List.map_nil, List.append_nil]
  cases hk : devKey own k with
  | some key => rw [setPeer_of_devKey own d hk, ipcLines_owner]; rfl
  | none =>
    rw [setPeer_of_devKey_none own d hk]
    rintro l hl key rfl
    simp at hl

/-- An upsert of a peer the device takes succeeds if all its allowed IPs parse. -/
private theorem upsertPeer_ok {k : String} {key : RawKey} (hk : devKey own k = some key)
    {ips : List String} (hips : ∀ ip ∈ ips, Netip.parsePrefix ip ≠ none) :
    (d.upsertPeer own k ips none).1 = true := by
  simp only [Device.upsertPeer, Option.toList_none, List.map_nil, List.append_nil]
  rw [setPeer_of_devKey own d hk]
  generalize d.modifyPeer key id = d
  induction ips generalizing d with
  | nil => rfl
  | cons ip ips ih =>
    obtain ⟨p, hp⟩ := Option.ne_none_iff_exists'.mp (hips ip List.mem_cons_self)
    rw [List.map_cons, List.cons_append, Device.ipcLines]
    simp only [Device.ipcLine, hp]
    exact ih (fun ip' hip' => hips ip' (List.mem_cons_of_mem _ hip')) _

/-- An endpoint changes no prefix. -/
private theorem setPeerEndpoint_owner (k : String) (ep : AddrPort) :
    (d.setPeerEndpoint own k ep).2.owner = d.owner := by
  unfold Device.setPeerEndpoint
  cases hk : devKey own k with
  | some key => rw [setPeer_of_devKey own d hk]; rfl
  | none =>
    rw [setPeer_of_devKey_none own d hk]
    simp

/-- A removed key owns nothing. -/
private theorem removePeer_owner (k : String) (x : Prefix) :
    (d.removePeer own k).2.owner x =
      (d.owner x).filter fun key => !decide (devKey own k = some key) := by
  unfold Device.removePeer
  cases hk : devKey own k with
  | some key =>
    rw [setPeer_of_devKey own d hk]
    simp [Device.ipcLines, Device.ipcLine, Device.clearPrefixes, Device.modifyPeer, eq_comm]
  | none =>
    rw [setPeer_of_devKey_none own d hk _ (by simp)]
    cases d.owner x <;> simp [Option.filter]

end Device

/-! ## The edits -/

/-- What an operation does to the owners of the prefixes. -/
def ownerEdit (own : RawKey) (op : PeerOp) : PMap.Edit Prefix RawKey :=
  match op.incoming? with
  | some p =>
    { erase := fun _ _ => false
      write := fun x =>
        if x ∈ acceptedPrefixes p.allowedIps then devKey own p.wgPubKey else none }
  | none =>
    { erase := fun _ key => decide (devKey own op.key = some key)
      write := fun _ => none }

/-- The operation gives `x` to the peer the device knows as `key`. -/
def Claims (own : RawKey) (x : Prefix) (key : RawKey) (op : PeerOp) : Prop :=
  ∃ p, op.incoming? = some p ∧ x ∈ acceptedPrefixes p.allowedIps ∧
    devKey own p.wgPubKey = some key

/-- The operation removes the peer the device knows as `key`. -/
def Evicts (own : RawKey) (key : RawKey) (op : PeerOp) : Prop :=
  op.incoming? = none ∧ devKey own op.key = some key

section Edits

variable {own : RawKey}

/-- An operation writes the prefixes that it claims. -/
private theorem ownerEdit_write (op : PeerOp) (x : Prefix) (key : RawKey) :
    (ownerEdit own op).write x = some key ↔ Claims own x key op := by
  unfold ownerEdit Claims
  cases op.incoming? with
  | none => simp
  | some p =>
    by_cases hx : x ∈ acceptedPrefixes p.allowedIps <;> simp [hx]

/-- An operation erases the prefixes of the key that it evicts. -/
private theorem ownerEdit_erase (op : PeerOp) (x : Prefix) (key : RawKey) :
    (ownerEdit own op).erase x key = true ↔ Evicts own key op := by
  unfold ownerEdit Evicts
  cases op.incoming? with
  | none => simp
  | some p => simp

end Edits

/-- The relay link changes no prefix. -/
private theorem ensureRelayLink_owner (cfg : Config) (k : String) (e : Engine) :
    (e.ensureRelayLink cfg k).dev.owner = e.dev.owner := by
  unfold Engine.ensureRelayLink
  split
  · rfl
  · exact setPeerEndpoint_owner _ _ _ _

/-- An upsert edits the owners by `ownerEdit`. -/
private theorem upsert_owner_eq_apply (own : RawKey) (d : Device) {op : PeerOp} {p : Peer}
    (h : op.incoming? = some p) :
    (d.upsertPeer own p.wgPubKey p.allowedIps none).2.owner = (ownerEdit own op).apply d.owner := by
  funext x
  rw [upsertPeer_owner]
  have herase (key : RawKey) : (ownerEdit own op).erase x key = false := by
    simp only [ownerEdit, h]
  -- a key that the device refuses changes nothing; with another one its accepted prefixes move
  cases hk : devKey own p.wgPubKey with
  | none =>
    refine (PMap.Edit.apply_of_keep _ ?_ herase).symm
    simp [ownerEdit, h, hk]
  | some key =>
    by_cases hx : x ∈ acceptedPrefixes p.allowedIps
    · simp only [hx, ↓reduceIte]
      exact (PMap.Edit.apply_of_write _ ((ownerEdit_write op x key).mpr ⟨p, h, hx, hk⟩)).symm
    · simp only [hx, ↓reduceIte]
      refine (PMap.Edit.apply_of_keep _ ?_ herase).symm
      simp [ownerEdit, h, hx]

/-- Of adding a peer the device sees the upsert. -/
private theorem addPeer_owner {cfg : Config} {p : Peer} (h : p.wgPubKey ≠ cfg.selfKey) (env : Env)
    (resp : SyncResponse) (e : Engine) :
    (e.addPeer cfg env resp p).dev.owner =
      (e.dev.upsertPeer cfg.publicKey p.wgPubKey p.allowedIps none).2.owner := by
  rw [Engine.addPeer, if_neg h, ensureRelayLink_owner]
  split <;> rfl

/-- Of updating a peer the device sees the upsert. -/
private theorem updatePeer_owner {cfg : Config} {u : Update} (h : u.new.wgPubKey ≠ cfg.selfKey)
    (env : Env) (resp : SyncResponse) (e : Engine) :
    (e.updatePeer cfg env resp u).dev.owner =
      (e.dev.upsertPeer cfg.publicKey u.new.wgPubKey u.new.allowedIps none).2.owner := by
  rw [Engine.updatePeer, if_neg h, ensureRelayLink_owner]
  dsimp only
  split <;> split <;> rfl

/-- Of removing a peer the device sees the removal. -/
private theorem removePeer_owner_eq {cfg : Config} {p : Peer} (h : p.wgPubKey ≠ cfg.selfKey)
    (env : Env)
    (e : Engine) :
    (e.removePeer cfg env p).dev.owner =
      (e.dev.removePeer cfg.publicKey p.wgPubKey).2.owner := by
  rw [Engine.removePeer, if_neg h]
  split <;> rfl

/-- An operation edits the owners by `ownerEdit`. -/
private theorem applyOp_owner (cfg : Config) (env : Env) (resp : SyncResponse) (e : Engine)
    (op : PeerOp)
    (hself : op.key ≠ cfg.selfKey) :
    (applyOp cfg env resp e op).dev.owner = (ownerEdit cfg.publicKey op).apply e.dev.owner := by
  cases op with
  | add p =>
    rw [applyOp, addPeer_owner hself]
    exact upsert_owner_eq_apply cfg.publicKey e.dev rfl
  | update u =>
    rw [applyOp, updatePeer_owner hself]
    exact upsert_owner_eq_apply cfg.publicKey e.dev rfl
  | remove p =>
    -- the removal looks at all owners at once
    funext x
    rw [applyOp, removePeer_owner_eq hself, removePeer_owner]
    rfl

/-- The owners of the prefixes after a sync. -/
private theorem applySync_owner (cfg : Config) (env : Env) (resp : SyncResponse) (e : Engine) :
    (e.applySync cfg env resp).dev.owner =
      PMap.Edit.applyAll ((syncOps cfg e.peers env.order resp).map (ownerEdit cfg.publicKey))
        e.dev.owner := by
  exact applySync_proj (fun e => e.dev.owner) (ownerEdit cfg.publicKey) cfg env resp e
    (fun e op hself => applyOp_owner cfg env resp e op hself) (fun _ _ _ _ _ _ _ => rfl)

/-! ## Following the last response -/

/-- The peer the device knows as `key` lists `x` in the response. -/
def ListedBy (cfg : Config) (resp : SyncResponse) (x : Prefix) (key : RawKey) : Prop :=
  ∃ p ∈ resp.peers, p.wgPubKey ≠ cfg.selfKey ∧ x ∈ allowedPrefixes p ∧
    devKey cfg.publicKey p.wgPubKey = some key

/-- Some other device lists `x`. -/
def Listed (cfg : Config) (resp : SyncResponse) (x : Prefix) : Prop :=
  ∃ p ∈ resp.peers, p.wgPubKey ≠ cfg.selfKey ∧ x ∈ allowedPrefixes p

/-- The owners of the prefixes agree with a response. -/
structure DeviceFollows (cfg : Config) (resp : SyncResponse) (d : Device) : Prop where
  owned : ∀ x key, d.owner x = some key → ListedBy cfg resp x key
  listed : ∀ x, Listed cfg resp x → ∃ key, d.owner x = some key ∧ ListedBy cfg resp x key

/-- The last operation that claims `x` gives it to `key`, and none after it removes that
    peer. -/
def Takes (cfg : Config) (e : Engine) (s : Sync) (x : Prefix) (key : RawKey) : Prop :=
  ∃ l₁ op l₂, syncOps cfg e.peers s.env.order s.resp = l₁ ++ op :: l₂ ∧
    Claims cfg.publicKey x key op ∧
    ∀ op' ∈ l₂, (∀ key', ¬ Claims cfg.publicKey x key' op') ∧ ¬ Evicts cfg.publicKey key op'

/-- `x` belongs to `key` before the sync; no operation claims it or removes that peer. -/
def Retains (cfg : Config) (e : Engine) (s : Sync) (x : Prefix) (key : RawKey) : Prop :=
  e.dev.owner x = some key ∧
    ∀ op ∈ syncOps cfg e.peers s.env.order s.resp,
      (∀ key', ¬ Claims cfg.publicKey x key' op) ∧ ¬ Evicts cfg.publicKey key op

/-- What makes the owner of `x` come out right: somebody takes it for good, or it stays
    with a peer that still lists it, or nobody lists it and its owner, if it has one, is
    removed. -/
def PrefixSettles (cfg : Config) (e : Engine) (s : Sync) (x : Prefix) : Prop :=
  (∃ key, Takes cfg e s x key) ∨
  (∃ key, Retains cfg e s x key ∧ ListedBy cfg s.resp x key) ∨
  (¬ Listed cfg s.resp x ∧ ∀ key, e.dev.owner x = some key →
    ∃ op ∈ syncOps cfg e.peers s.env.order s.resp, Evicts cfg.publicKey key op)

section Step

variable {cfg : Config} {e : Engine} {s : Sync} {x : Prefix} {key : RawKey}

/-- An operation keeps a prefix with its key when nobody claims it and the key stays. -/
private theorem ownerEdit_keeps {own : RawKey} (op : PeerOp) (x : Prefix) (key : RawKey) :
    (ownerEdit own op).Keeps x key ↔ (∀ key', ¬ Claims own x key' op) ∧ ¬ Evicts own key op := by
  unfold PMap.Edit.Keeps
  rw [Option.eq_none_iff_forall_ne_some, ← ownerEdit_erase op x key, Bool.not_eq_true]
  simp only [ne_eq, ownerEdit_write]

/-- How a prefix got the owner it has after a sync. -/
private theorem step_owner_eq_some :
    (e.step cfg s).dev.owner x = some key ↔ Takes cfg e s x key ∨ Retains cfg e s x key := by
  rw [Engine.step, applySync_owner, PMap.Edit.applyAll_map_eq_some_iff]
  simp only [ownerEdit_write, ownerEdit_keeps]
  exact Iff.rfl

/-- Whoever claims a prefix lists it. -/
private theorem Claims.listedBy {op : PeerOp} (h : Claims cfg.publicKey x key op)
    (hop : op ∈ syncOps cfg e.peers s.env.order s.resp) : ListedBy cfg s.resp x key := by
  obtain ⟨p, hin, hx, hkey⟩ := h
  have hrep := (reported_iff _).mpr ⟨op, hop, hin⟩
  exact ⟨p, hrep.1, hrep.2.1, allowedPrefixes_of_accepted hx, hkey⟩

/-- A prefix that is taken is claimed by one of the operations. -/
private theorem Takes.exists_claims (h : Takes cfg e s x key) :
    ∃ op ∈ syncOps cfg e.peers s.env.order s.resp, Claims cfg.publicKey x key op := by
  obtain ⟨l₁, op, l₂, hops, hclaim, _⟩ := h
  exact ⟨op, hops ▸ List.mem_append_cons_self, hclaim⟩

/-- A prefix that is taken is listed by a peer with that key. -/
private theorem Takes.listedBy (h : Takes cfg e s x key) : ListedBy cfg s.resp x key := by
  obtain ⟨op, hop, hclaim⟩ := h.exists_claims
  exact hclaim.listedBy hop

/-- A prefix that is listed with a key is listed. -/
private theorem ListedBy.listed {resp : SyncResponse} (h : ListedBy cfg resp x key) :
    Listed cfg resp x := by
  obtain ⟨p, hp, hself, hx, _⟩ := h
  exact ⟨p, hp, hself, hx⟩

/-- If the device follows the response after a sync, every prefix settled. -/
private theorem DeviceFollows.settles (h : DeviceFollows cfg s.resp (e.step cfg s).dev)
    (x : Prefix) :
    PrefixSettles cfg e s x := by
  cases howner : (e.step cfg s).dev.owner x with
  | some key =>
    rcases step_owner_eq_some.mp howner with htakes | hretains
    · exact .inl ⟨key, htakes⟩
    · exact .inr (.inl ⟨key, hretains, h.owned x key howner⟩)
  | none =>
    have hnot : ¬ Listed cfg s.resp x := by
      intro hx
      obtain ⟨key, hkey, _⟩ := h.listed x hx
      exact nomatch howner.symm.trans hkey
    refine .inr (.inr ⟨hnot, fun key hold => ?_⟩)
    -- an owner that nobody removed would still be there
    by_contra hstay
    push Not at hstay
    have hretains : Retains cfg e s x key :=
      ⟨hold, fun op hop => ⟨fun key' hclaim => hnot (hclaim.listedBy hop).listed, hstay op hop⟩⟩
    exact nomatch howner.symm.trans (step_owner_eq_some.mpr (.inr hretains))

/-- If every prefix settles, the device follows the response after a sync. -/
private theorem DeviceFollows.of_settles (h : ∀ x, PrefixSettles cfg e s x) :
    DeviceFollows cfg s.resp (e.step cfg s).dev := by
  constructor
  · intro x key howner
    rcases step_owner_eq_some.mp howner with htakes | ⟨hold, hno⟩
    · exact htakes.listedBy
    · -- nothing touched `x`, so of the three ways to settle only the second is left
      rcases h x with ⟨key', htakes⟩ | ⟨key', hretains, hlist⟩ | ⟨_, hgone⟩
      · obtain ⟨op, hop, hclaim⟩ := htakes.exists_claims
        exact absurd hclaim ((hno op hop).1 key')
      · obtain rfl := Option.some.inj (hold.symm.trans hretains.1)
        exact hlist
      · obtain ⟨op, hop, hevict⟩ := hgone key hold
        exact absurd hevict (hno op hop).2
  · intro x hx
    rcases h x with ⟨key, htakes⟩ | ⟨key, hretains, hlist⟩ | ⟨hnot, _⟩
    · exact ⟨key, step_owner_eq_some.mpr (.inl htakes), htakes.listedBy⟩
    · exact ⟨key, step_owner_eq_some.mpr (.inr hretains), hlist⟩
    · exact absurd hx hnot

end Step

/-- **When cryptokey routing follows the syncs.** From any engine, the owners of the
    prefixes agree with the last response after every sync of a run exactly when every
    prefix settles in every one of them. -/
theorem device_follows_iff (cfg : Config) (e : Engine) (syncs : List Sync) :
    Along (Engine.step cfg) (fun e s => DeviceFollows cfg s.resp (e.step cfg s).dev) e syncs ↔
      Along (Engine.step cfg) (fun e s => ∀ x, PrefixSettles cfg e s x) e syncs := by
  have hstep : (fun e s => DeviceFollows cfg s.resp (e.step cfg s).dev) =
      fun e s => ∀ x, PrefixSettles cfg e s x := by
    funext e s
    exact propext ⟨DeviceFollows.settles, DeviceFollows.of_settles⟩
  rw [hstep]

/-- A gateway that withdraws its subnet. -/
def withdrawRun : List Sync :=
  [{ env := { order := [] }
     resp := { peers :=
       [{ wgPubKey := sampleKey 1, allowedIps := ["100.64.0.1/32", "10.0.0.0/24"] }] } },
   { env := { order := [sampleKey 1] }
     resp := { peers := [{ wgPubKey := sampleKey 1, allowedIps := ["100.64.0.1/32"] }] } }]

/-- The device takes every line of every upsert, yet the withdrawn subnet is still the
    gateway's after the second sync. -/
theorem withdrawRun_not_follows :
    Along (Engine.step sampleConfig) ValidSync {} withdrawRun ∧
    (∀ s ∈ withdrawRun, ∀ p ∈ s.resp.peers, ∀ d : Device,
      (d.upsertPeer sampleConfig.publicKey p.wgPubKey p.allowedIps none).1 = true) ∧
    ¬ Along (Engine.step sampleConfig)
      (fun e s => DeviceFollows sampleConfig s.resp (e.step sampleConfig s).dev) {}
      withdrawRun := by
  refine ⟨?_, ?_, ?_⟩
  · -- both responses come with a range order
    refine ⟨⟨PMap.RangeOrder.empty, by decide⟩, ⟨?_, by decide⟩, trivial⟩
    rw [step_peers]
    exact PMap.RangeOrder.index Peer.wgPubKey (by decide)
  · -- every upsert succeeds: the key is a good one and the prefixes parse
    intro s hs p hp d
    have hkey : p.wgPubKey = sampleKey 1 ∧ ∀ ip ∈ p.allowedIps, Netip.parsePrefix ip ≠ none := by
      revert s hs p hp
      decide +kernel
    have hdev : devKey sampleConfig.publicKey (sampleKey 1) = some (List.replicate 32 1) := by
      decide +kernel
    rw [hkey.1]
    exact upsertPeer_ok _ d hdev hkey.2
  · intro h
    obtain ⟨_, ⟨howned, _⟩, _⟩ := h
    -- the prefix that was withdrawn still belongs to the peer
    have hstale := howned ⟨.v4 0x0A000000, 24, by decide⟩ (List.replicate 32 1) (by decide +kernel)
    obtain ⟨p, hp, _, hx, _⟩ := hstale
    obtain rfl := List.mem_singleton.mp hp
    exact absurd hx (by decide +kernel)

/-! ## The exit node -/

/-- A destination that no longer prefix covers is looked up in `0.0.0.0/0`. -/
private theorem lookup_of_uncovered (d : Device) (dst : BitVec 32)
    (h : ∀ n (hn : n ≤ 32), 0 < n → d.owner (Prefix.around n hn dst) = none) :
    d.lookup dst = d.owner Prefix.default4 := by
  have hfrom (n : Nat) (hn : n ≤ 32) : d.lookupFrom dst n hn = d.owner Prefix.default4 := by
    induction n with
    | zero => rw [Device.lookupFrom, Prefix.around_zero]
    | succ n ih =>
      rw [Device.lookupFrom, h (n + 1) hn (Nat.succ_pos n)]
      exact ih (Nat.le_of_succ_le hn)
  exact hfrom 32 (Nat.le_refl _)

/-- **When traffic uses the selected exit node.** Whatever the engine went through before
    and whatever the account: a destination that no longer prefix covers goes to the peer
    the server selected exactly when that peer is the last the sync gives `0.0.0.0/0` to,
    or the sync gives it to nobody and that peer had it before. -/
theorem lookup_exit_node_iff (cfg : Config) (e : Engine) (env : Env) (network : String) (now : Int)
    (peers : List Domain.Peer) (rules : List Domain.Rule) (dst : BitVec 32)
    (huncovered : ∀ n (hn : n ≤ 32), 0 < n →
      (e.step cfg (accountSync cfg env network now peers rules)).dev.owner
        (Prefix.around n hn dst) = none) :
    (∃ key, devKey cfg.publicKey (resolveExitNode peers cfg.selfKey) = some key ∧
      (e.step cfg (accountSync cfg env network now peers rules)).dev.lookup dst = some key) ↔
    ∃ key, devKey cfg.publicKey (resolveExitNode peers cfg.selfKey) = some key ∧
      (Takes cfg e (accountSync cfg env network now peers rules) Prefix.default4 key ∨
        Retains cfg e (accountSync cfg env network now peers rules) Prefix.default4 key) := by
  rw [lookup_of_uncovered _ _ huncovered]
  exact exists_congr fun key => and_congr_right fun _ => step_owner_eq_some

/-- An account whose first device has selected the first of the exit nodes. -/
def exitPeers (offers : List UInt8) : List Domain.Peer :=
  { wgPubKey := sampleConfig.selfKey, ip := "100.64.0.1", allowedIPs := ["100.64.0.1/32"],
    exitNode := sampleKey 1 } ::
  offers.map fun b =>
    { wgPubKey := sampleKey b, ip := "100.64.1." ++ toString b.toNat,
      allowedIPs := ["100.64.1." ++ toString b.toNat ++ "/32"], advertisedRoutes := ["0.0.0.0/0"] }

/-- 8.8.8.8. -/
def publicDst : BitVec 32 := 0x08080808

/-- With a single exit node its traffic goes there. -/
theorem lookup_exit_node_single :
    resolveExitNode (exitPeers [1]) sampleConfig.selfKey = sampleKey 1 ∧
    ∃ key, devKey sampleConfig.publicKey (sampleKey 1) = some key ∧
      (Takes sampleConfig {} (accountSync sampleConfig { order := [] } "" 0 (exitPeers [1]) [])
          Prefix.default4 key ∨
        Retains sampleConfig {} (accountSync sampleConfig { order := [] } "" 0 (exitPeers [1]) [])
          Prefix.default4 key) := by
  have hsel : resolveExitNode (exitPeers [1]) sampleConfig.selfKey = sampleKey 1 := by
    decide +kernel
  have h := lookup_exit_node_iff sampleConfig {} { order := [] } "" 0 (exitPeers [1]) [] publicDst
    (by decide +kernel)
  rw [hsel] at h
  exact ⟨hsel, h.mp ⟨List.replicate 32 1, by decide +kernel, by decide +kernel⟩⟩

/-- The first sync of a device that has selected the first of two exit nodes: its
    traffic goes to the second, whose `0.0.0.0/0` is added last. -/
theorem lookup_other_exit_node :
    resolveExitNode (exitPeers [1, 2]) sampleConfig.selfKey = sampleKey 1 ∧
    devKey sampleConfig.publicKey (sampleKey 1) = some (List.replicate 32 1) ∧
    (∀ n (hn : n ≤ 32), 0 < n →
      (Engine.step sampleConfig {}
        (accountSync sampleConfig { order := [] } "" 0 (exitPeers [1, 2]) [])).dev.owner
          (Prefix.around n hn publicDst) = none) ∧
    (Engine.step sampleConfig {}
      (accountSync sampleConfig { order := [] } "" 0 (exitPeers [1, 2]) [])).dev.lookup publicDst =
        some (List.replicate 32 2) := by
  decide +kernel

end Blinex.Spec
