import Blinex.ForStd.Run
import Blinex.Spec.SyncOps

/-!
# Magic DNS after a sync

`Converged` is what the resolver should hold after a sync: the record of every
uniquely named peer, and no record for a name nobody has. The loops edit the
records one peer at a time, so a name that moves between peers can be removed
after it was written, and a peer the diff does not report is never touched.
`dns_converged_iff` is the exact condition under which a run of syncs ends up
right after each of them.
-/

namespace Blinex.Spec

open Blinex.Go Blinex.Native
open Commonv1 (Peer)
open Managementv1 (SyncResponse)

/-! ## The edits -/

/-- What an operation does to the records. -/
def dnsEdit (suffix : String) : PeerOp → PMap.Edit String (Option (BitVec 128))
  | .add p =>
    { erase := fun _ _ => false
      write := fun k => if k = fqdn suffix p.dnsLabel then some (Net.parseIP p.ip) else none }
  | .update u =>
    { erase := fun k _ => decide (u.old.dnsLabel ≠ u.new.dnsLabel ∧ k = fqdn suffix u.old.dnsLabel)
      write := fun k =>
        if k = fqdn suffix u.new.dnsLabel then some (Net.parseIP u.new.ip) else none }
  | .remove p =>
    { erase := fun k _ => decide (k = fqdn suffix p.dnsLabel)
      write := fun _ => none }

/-- The operation releases a name: its peer is removed or goes by another name now. -/
def Releases (suffix name : String) : PeerOp → Prop
  | .add _ => False
  | .update u => u.old.dnsLabel ≠ u.new.dnsLabel ∧ name = fqdn suffix u.old.dnsLabel
  | .remove p => name = fqdn suffix p.dnsLabel

section Edits

variable {suffix : String}

/-- An operation erases the names that it releases. -/
private theorem dnsEdit_erase (op : PeerOp) (k : String) (v : Option (BitVec 128)) :
    (dnsEdit suffix op).erase k v = true ↔ Releases suffix k op := by
  cases op with
  | add p => simp [dnsEdit, Releases]
  | update u => simp [dnsEdit, Releases]
  | remove p => simp [dnsEdit, Releases]

/-- An operation writes the name of the peer that it brings in. -/
private theorem dnsEdit_write (op : PeerOp) (k : String) (v : Option (BitVec 128)) :
    (dnsEdit suffix op).write k = some v ↔
      ∃ p, op.incoming? = some p ∧ k = fqdn suffix p.dnsLabel ∧ v = Net.parseIP p.ip := by
  cases op with
  | add p => simp [dnsEdit, PeerOp.incoming?, eq_comm]
  | update u => simp [dnsEdit, PeerOp.incoming?, eq_comm]
  | remove p => simp [dnsEdit, PeerOp.incoming?]

/-- The operation of a reported peer writes its record. -/
private theorem dnsEdit_write_own {op : PeerOp} {p : Peer} (h : op.incoming? = some p) :
    (dnsEdit suffix op).write (fqdn suffix p.dnsLabel) = some (Net.parseIP p.ip) :=
  (dnsEdit_write op _ _).mpr ⟨p, h, rfl, rfl⟩

end Edits

private theorem addPeer_dns {cfg : Config} {p : Peer} (h : p.wgPubKey ≠ cfg.selfKey) (env : Env)
    (resp : SyncResponse) (e : Engine) :
    (e.addPeer cfg env resp p).dns = e.dns.upsert cfg.dnsSuffix p.dnsLabel p.ip := by
  rw [Engine.addPeer, if_neg h, ensureRelayLink_frame Engine.dns fun _ _ _ => rfl]
  split <;> rfl

/-- `updatePeer` removes the old name if it changed, and writes the new one. -/
private theorem updatePeer_dns {cfg : Config} {u : Update} (h : u.new.wgPubKey ≠ cfg.selfKey)
    (env : Env)
    (resp : SyncResponse) (e : Engine) :
    (e.updatePeer cfg env resp u).dns =
      Records.upsert cfg.dnsSuffix u.new.dnsLabel u.new.ip
        (if u.old.dnsLabel ≠ u.new.dnsLabel then e.dns.remove cfg.dnsSuffix u.old.dnsLabel
          else e.dns) := by
  rw [Engine.updatePeer, if_neg h, ensureRelayLink_frame Engine.dns fun _ _ _ => rfl]
  dsimp only
  split <;> split <;> rfl

private theorem removePeer_dns {cfg : Config} {p : Peer} (h : p.wgPubKey ≠ cfg.selfKey) (env : Env)
    (e : Engine) :
    (e.removePeer cfg env p).dns = e.dns.remove cfg.dnsSuffix p.dnsLabel := by
  rw [Engine.removePeer, if_neg h]
  split <;> rfl

/-- An operation edits the records by `dnsEdit`. -/
private theorem applyOp_dns (cfg : Config) (env : Env) (resp : SyncResponse) (e : Engine)
    (op : PeerOp)
    (hself : op.key ≠ cfg.selfKey) :
    (applyOp cfg env resp e op).dns = (dnsEdit cfg.dnsSuffix op).apply e.dns := by
  funext k
  cases op with
  | add p =>
    rw [applyOp, addPeer_dns hself, Records.upsert]
    by_cases hk : k = fqdn cfg.dnsSuffix p.dnsLabel
    · rw [hk, PMap.set_self, PMap.Edit.apply_of_write _ (if_pos rfl)]
    · rw [PMap.set_ne _ _ hk, PMap.Edit.apply_of_keep _ (if_neg hk) fun _ => rfl]
  | update u =>
    rw [applyOp, updatePeer_dns hself, Records.upsert]
    -- the new name is written last; the old one is released only if it differs
    by_cases hk : k = fqdn cfg.dnsSuffix u.new.dnsLabel
    · rw [hk, PMap.set_self, PMap.Edit.apply_of_write _ (if_pos rfl)]
    · rw [PMap.set_ne _ _ hk]
      by_cases hrel : u.old.dnsLabel ≠ u.new.dnsLabel ∧ k = fqdn cfg.dnsSuffix u.old.dnsLabel
      · rw [PMap.Edit.apply_of_erase _ (if_neg hk) fun _ => decide_eq_true hrel, if_pos hrel.1,
          hrel.2, Records.remove, PMap.delete_self]
      · rw [PMap.Edit.apply_of_keep _ (if_neg hk) fun _ => decide_eq_false hrel]
        split
        · rename_i hold
          exact PMap.delete_ne _ fun hk' => hrel ⟨hold, hk'⟩
        · rfl
  | remove p =>
    rw [applyOp, removePeer_dns hself, Records.remove]
    by_cases hk : k = fqdn cfg.dnsSuffix p.dnsLabel
    · rw [hk, PMap.delete_self, PMap.Edit.apply_of_erase _ rfl fun _ => decide_eq_true rfl]
    · rw [PMap.delete_ne _ hk, PMap.Edit.apply_of_keep _ rfl fun _ => decide_eq_false hk]

/-- The records after a sync. -/
private theorem applySync_dns (cfg : Config) (env : Env) (resp : SyncResponse) (e : Engine) :
    (e.applySync cfg env resp).dns =
      PMap.Edit.applyAll ((syncOps cfg e.peers env.order resp).map (dnsEdit cfg.dnsSuffix))
        e.dns := by
  exact applySync_proj Engine.dns (dnsEdit cfg.dnsSuffix) cfg env resp e
    (fun e op hself => applyOp_dns cfg env resp e op hself) (fun _ _ _ _ _ _ _ => rfl)

/-! ## Convergence -/

/-- `p` is another device, and no third device shares its name. -/
structure UniquelyNamed (cfg : Config) (resp : SyncResponse) (p : Peer) : Prop where
  mem : p ∈ resp.peers
  other : p.wgPubKey ≠ cfg.selfKey
  unique : ∀ q ∈ resp.peers, q.wgPubKey ≠ cfg.selfKey →
    Strings.toLower q.dnsLabel = Strings.toLower p.dnsLabel → q = p

/-- Some other device of the response has this name. -/
def Named (cfg : Config) (resp : SyncResponse) (name : String) : Prop :=
  ∃ p ∈ resp.peers, p.wgPubKey ≠ cfg.selfKey ∧ name = fqdn cfg.dnsSuffix p.dnsLabel

/-- The records agree with a response. -/
structure Converged (cfg : Config) (resp : SyncResponse) (records : Records) : Prop where
  resolves : ∀ p, UniquelyNamed cfg resp p →
    records (fqdn cfg.dnsSuffix p.dnsLabel) = some (Net.parseIP p.ip)
  current : ∀ name v, records name = some v → Named cfg resp name

/-- What makes the loops of one sync end with the right records. A uniquely named
    peer that is reported must not have its name released by an operation after its
    own; one that is not reported must have its record already, and nobody may
    release it. A record for a name no device has must be released by somebody. -/
structure NamesSettle (cfg : Config) (e : Engine) (s : Sync) : Prop where
  reported : ∀ p, UniquelyNamed cfg s.resp p → Reported cfg e.peers s.resp p →
    ∃ l₁ op l₂, syncOps cfg e.peers s.env.order s.resp = l₁ ++ op :: l₂ ∧
      op.incoming? = some p ∧
      ∀ op' ∈ l₂, ¬ Releases cfg.dnsSuffix (fqdn cfg.dnsSuffix p.dnsLabel) op'
  unreported : ∀ p, UniquelyNamed cfg s.resp p → ¬ Reported cfg e.peers s.resp p →
    e.dns (fqdn cfg.dnsSuffix p.dnsLabel) = some (Net.parseIP p.ip) ∧
      ∀ op ∈ syncOps cfg e.peers s.env.order s.resp,
        ¬ Releases cfg.dnsSuffix (fqdn cfg.dnsSuffix p.dnsLabel) op
  stale : ∀ name v, e.dns name = some v → ¬ Named cfg s.resp name →
    ∃ op ∈ syncOps cfg e.peers s.env.order s.resp, Releases cfg.dnsSuffix name op

section Step

variable {cfg : Config} {e : Engine} {s : Sync}

/-- A name is only ever written for a reported peer that has it. -/
private theorem reported_of_write {op : PeerOp} (hop : op ∈ syncOps cfg e.peers s.env.order s.resp)
    {name : String} {v : Option (BitVec 128)}
    (hw : (dnsEdit cfg.dnsSuffix op).write name = some v) :
    ∃ p, op.incoming? = some p ∧ Reported cfg e.peers s.resp p ∧
      name = fqdn cfg.dnsSuffix p.dnsLabel ∧ v = Net.parseIP p.ip := by
  obtain ⟨p, hin, hname, hv⟩ := (dnsEdit_write op name v).mp hw
  exact ⟨p, hin, (reported_iff _).mpr ⟨op, hop, hin⟩, hname, hv⟩

/-- The holder of a unique name is the only peer that writes it. -/
private theorem UniquelyNamed.eq_of_write {p : Peer} (hp : UniquelyNamed cfg s.resp p) {op : PeerOp}
    (hop : op ∈ syncOps cfg e.peers s.env.order s.resp) {v : Option (BitVec 128)}
    (hw : (dnsEdit cfg.dnsSuffix op).write (fqdn cfg.dnsSuffix p.dnsLabel) = some v) :
    op.incoming? = some p ∧ v = Net.parseIP p.ip := by
  obtain ⟨q, hin, hrep, hname, hv⟩ := reported_of_write hop hw
  obtain rfl := hp.unique q hrep.1 hrep.2.1 ((fqdn_eq_iff _ _ _).mp hname.symm)
  exact ⟨hin, hv⟩

/-- A record nobody writes and nobody releases stays. -/
private theorem applySync_dns_of_untouched {name : String} {v : Option (BitVec 128)}
    (hm : e.dns name = some v)
    (hrel : ∀ op ∈ syncOps cfg e.peers s.env.order s.resp, ¬ Releases cfg.dnsSuffix name op)
    (hwrite : ∀ op ∈ syncOps cfg e.peers s.env.order s.resp, ∀ w,
      (dnsEdit cfg.dnsSuffix op).write name = some w → w = v) :
    (e.step cfg s).dns name = some v := by
  rw [Engine.step, applySync_dns]
  refine PMap.Edit.applyAll_preserves (fun ed hed => ?_) hm
  obtain ⟨op, hop, rfl⟩ := List.mem_map.mp hed
  refine ⟨Bool.eq_false_iff.mpr fun herase => ?_, hwrite op hop⟩
  exact hrel op hop ((dnsEdit_erase op name v).mp herase)

/-- How a name got its record in this sync: the last operation that touches it
    writes it, or nothing touches it. -/
private theorem step_dns_eq_some {name : String} {v : Option (BitVec 128)}
    (h : (e.step cfg s).dns name = some v) :
    (∃ l₁ op l₂, syncOps cfg e.peers s.env.order s.resp = l₁ ++ op :: l₂ ∧
      (dnsEdit cfg.dnsSuffix op).write name = some v ∧
      ∀ op' ∈ l₂, ¬ Releases cfg.dnsSuffix name op') ∨
    (e.dns name = some v ∧ ∀ op ∈ syncOps cfg e.peers s.env.order s.resp,
      (dnsEdit cfg.dnsSuffix op).write name = none ∧ ¬ Releases cfg.dnsSuffix name op) := by
  -- an edit that keeps the record does not release the name
  have hkeeps (op : PeerOp) (hk : (dnsEdit cfg.dnsSuffix op).Keeps name v) :
      ¬ Releases cfg.dnsSuffix name op := by
    intro hrel
    have herase := (dnsEdit_erase op name v).mpr hrel
    exact nomatch hk.2.symm.trans herase
  rw [Engine.step, applySync_dns, PMap.Edit.applyAll_map_eq_some_iff] at h
  refine h.imp ?_ ?_
  · rintro ⟨l₁, op, l₂, hops, hw, hkeep⟩
    exact ⟨l₁, op, l₂, hops, hw, fun op' hop' => hkeeps op' (hkeep op' hop')⟩
  · rintro ⟨hm, hkeep⟩
    exact ⟨hm, fun op hop => ⟨(hkeep op hop).1, hkeeps op (hkeep op hop)⟩⟩

/-- If the records are right after a sync, its names settled. -/
private theorem NamesSettle.of_converged (h : Converged cfg s.resp (e.step cfg s).dns) :
    NamesSettle cfg e s := by
  constructor
  · intro p hp hrep
    rcases step_dns_eq_some (h.resolves p hp) with ⟨l₁, op, l₂, hops, hw, hlater⟩ | ⟨_, hno⟩
    · have hop : op ∈ syncOps cfg e.peers s.env.order s.resp :=
        hops ▸ List.mem_append_cons_self
      exact ⟨l₁, op, l₂, hops, (hp.eq_of_write hop hw).1, hlater⟩
    · -- the peer's own operation writes the name
      obtain ⟨op, hop, hin⟩ := (reported_iff s.env.order).mp hrep
      exact nomatch (hno op hop).1.symm.trans (dnsEdit_write_own hin)
  · intro p hp hrep
    rcases step_dns_eq_some (h.resolves p hp) with ⟨l₁, op, l₂, hops, hw, _⟩ | ⟨hm, hno⟩
    · have hop : op ∈ syncOps cfg e.peers s.env.order s.resp :=
        hops ▸ List.mem_append_cons_self
      exact absurd ((reported_iff _).mpr ⟨op, hop, (hp.eq_of_write hop hw).1⟩) hrep
    · exact ⟨hm, fun op hop => (hno op hop).2⟩
  · intro name v hm hnot
    -- a stale record that nobody released would still be there
    by_contra hrel
    push Not at hrel
    have hwrite : ∀ op ∈ syncOps cfg e.peers s.env.order s.resp, ∀ w,
        (dnsEdit cfg.dnsSuffix op).write name = some w → w = v := by
      intro op hop w hw
      obtain ⟨p, _, hrep, hname, _⟩ := reported_of_write hop hw
      exact absurd ⟨p, hrep.1, hrep.2.1, hname⟩ hnot
    have hstill : (e.step cfg s).dns name = some v := applySync_dns_of_untouched hm hrel hwrite
    exact hnot (h.current name v hstill)

/-- If its names settle, the records are right after a sync. -/
private theorem NamesSettle.converged (h : NamesSettle cfg e s) :
    Converged cfg s.resp (e.step cfg s).dns := by
  constructor
  · intro p hp
    by_cases hrep : Reported cfg e.peers s.resp p
    · obtain ⟨l₁, op, l₂, hops, hin, hlater⟩ := h.reported p hp hrep
      rw [Engine.step, applySync_dns, hops, List.map_append, List.map_cons,
        PMap.Edit.applyAll_append, PMap.Edit.applyAll_cons]
      -- after the peer's own operation the record is there, and it is not touched again
      refine PMap.Edit.applyAll_preserves (fun ed hed => ?_)
        (PMap.Edit.apply_of_write _ (dnsEdit_write_own hin))
      obtain ⟨op', hop', rfl⟩ := List.mem_map.mp hed
      have hmem : op' ∈ syncOps cfg e.peers s.env.order s.resp := by
        rw [hops]
        exact List.mem_append_right _ (List.mem_cons_of_mem _ hop')
      refine ⟨Bool.eq_false_iff.mpr fun herase => ?_, fun w hw' => (hp.eq_of_write hmem hw').2⟩
      exact hlater op' hop' ((dnsEdit_erase op' _ _).mp herase)
    · -- nobody else may write the name of a peer that is not reported
      obtain ⟨hm, hrel⟩ := h.unreported p hp hrep
      exact applySync_dns_of_untouched hm hrel fun op hop w hw => (hp.eq_of_write hop hw).2
  · intro name v hv
    rcases step_dns_eq_some hv with ⟨l₁, op, l₂, hops, hw, _⟩ | ⟨hm, hno⟩
    · have hop : op ∈ syncOps cfg e.peers s.env.order s.resp :=
        hops ▸ List.mem_append_cons_self
      obtain ⟨p, _, hrep, hname, _⟩ := reported_of_write hop hw
      exact ⟨p, hrep.1, hrep.2.1, hname⟩
    · by_contra hnot
      obtain ⟨op, hop, hrel⟩ := h.stale name v hm hnot
      exact (hno op hop).2 hrel

end Step

/-- **When Magic DNS follows the syncs.** From any engine, the records agree with
    the last response after every sync of a run exactly when the names settle in
    every one of them. -/
theorem dns_converged_iff (cfg : Config) (e : Engine) (syncs : List Sync) :
    Along (Engine.step cfg) (fun e s => Converged cfg s.resp (e.step cfg s).dns) e syncs ↔
      Along (Engine.step cfg) (NamesSettle cfg) e syncs := by
  have hstep : (fun e s => Converged cfg s.resp (e.step cfg s).dns) = NamesSettle cfg := by
    funext e s
    exact propext ⟨NamesSettle.of_converged, NamesSettle.converged⟩
  rw [hstep]

/-- Two peers, then the same two with their names swapped. -/
def swapRun : List Sync :=
  [{ env := { order := [] }
     resp := { peers :=
       [{ wgPubKey := "A", ip := "100.64.0.1", hostname := "a", dnsLabel := "a" },
        { wgPubKey := "B", ip := "100.64.0.2", hostname := "b", dnsLabel := "b" }] } },
   { env := { order := ["A", "B"] }
     resp := { peers :=
       [{ wgPubKey := "A", ip := "100.64.0.1", hostname := "b", dnsLabel := "b" },
        { wgPubKey := "B", ip := "100.64.0.2", hostname := "a", dnsLabel := "a" }] } }]

/-- After the swap nobody is called `b`: B's update removes the record that A's
    update has just written. -/
theorem swapRun_not_converged :
    Along (Engine.step sampleConfig) ValidSync {} swapRun ∧
    ¬ Along (Engine.step sampleConfig)
      (fun e s => Converged sampleConfig s.resp (e.step sampleConfig s).dns) {} swapRun := by
  constructor
  · refine ⟨⟨PMap.RangeOrder.empty, by decide⟩, ⟨?_, by decide⟩, trivial⟩
    rw [step_peers]
    exact PMap.RangeOrder.index Peer.wgPubKey (by decide)
  · rintro ⟨_, ⟨hresolves, _⟩, _⟩
    have hb := hresolves
      { wgPubKey := "A", ip := "100.64.0.1", hostname := "b", dnsLabel := "b" }
      ⟨by decide, by decide, by decide⟩
    exact absurd hb (by decide +kernel)

end Blinex.Spec
