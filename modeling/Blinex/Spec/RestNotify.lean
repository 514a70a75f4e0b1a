import Blinex.Spec.HandlerContracts

/-!
# Pushing what the REST API changes

Agents learn of a change through `notifyAll`. `view_change_notified_iff`: a successful
REST request that changes what some peer of the account would be sent notifies the
account after the write, exactly when the request is not `DELETE /peers/:key`.
-/

namespace Blinex.Native.Management

variable {network accountID : String} {env : Env} {claims : Claims} {s : Server}

/-! ## What a device may be sent -/

/-- A response, serial aside, that a device may be sent from this store; it depends on
    the orders of the two `range` loops. -/
def View (network : String) (st : Store) (accountID selfKey : String)
    (resp : Managementv1.SyncResponse) : Prop :=
  ∃ order order', PMap.RangeOrder st.peers.rows order ∧ PMap.RangeOrder st.rules.rows order' ∧
    resp = { buildSyncResponse network 0 (st.getPeersByAccount accountID order)
      (getRulesByAccount st.rules.rows accountID order') selfKey with serial := "" }

/-- The key is that of a peer of the account. -/
def HasPeer (st : Store) (accountID key : String) : Prop :=
  ∃ p, st.peers.rows key = some p ∧ p.accountID = accountID

/-- Some peer of the account, before or after, would be sent something else. -/
def ViewChanged (network accountID : String) (st st' : Store) : Prop :=
  ∃ key, (HasPeer st accountID key ∨ HasPeer st' accountID key) ∧
    ¬ ∀ resp, View network st accountID key resp ↔ View network st' accountID key resp

/-- Between the two states `notifyAll` was called for the account, and the store has
    not changed since. -/
def NotifiedAfter (accountID : String) (s s' : Server) : Prop :=
  ∃ calls, s'.notified = calls ++ s.notified ∧ (accountID, s'.store) ∈ calls

/-! ## Programs that notify -/

/-- If the program answers with success, it has notified the account after its last
    write. -/
def Announces (accountID : String) (p : M Response) : Prop :=
  ∀ s, (p.run Server.exec s).1.success = true →
    NotifiedAfter accountID s (p.run Server.exec s).2

theorem Announces.fail {r : Response} (h : r.success = false) : Announces accountID (.ret r) := by
  intro s hok
  rw [Prog.run_ret, h] at hok
  exact absurd hok Bool.false_ne_true

/-- An operation that notifies nobody. -/
theorem Announces.op {o : Op} {next : o.Res → M Response}
    (hquiet : ∀ s, (Server.exec o s).2.notified = s.notified)
    (hnext : ∀ r, Announces accountID (next r)) : Announces accountID (.op o next) := by
  intro s hok
  obtain ⟨calls, hcalls, hmem⟩ := hnext _ _ hok
  exact ⟨calls, hcalls.trans (by rw [hquiet]), hmem⟩

/-- The notification itself, of the store as it is then. -/
theorem Announces.notifyAll (r : Response) :
    Announces accountID (.op (.notifyAll accountID) fun _ => .ret r) := by
  intro s _
  exact ⟨[(accountID, s.store)], rfl, List.mem_singleton_self _⟩

private theorem write_notified (err : Option String) (store : Store) :
    (s.write err store).2.notified = s.notified := by
  cases err <;> rfl

private theorem change_notified (err : Option String) (r : Except String Unit × Store) :
    (s.change err r).2.notified = s.notified := by
  cases err <;> rfl

/-- A read changes nothing, also if it fails. -/
theorem read_state {α : Type} (err : Option String) (a : α) : (s.read err a).2 = s := by
  cases err <;> rfl

theorem invalidGroup_success {groups : List String} {r : Response}
    (h : invalidGroup groups = some r) : r.success = false := by
  obtain ⟨g, _, rfl⟩ := Option.map_eq_some_iff.mp h
  rfl

/-! ## Checks first, then one write -/

/-- A 4xx status. -/
def Response.rejected (r : Response) : Bool := 400 ≤ r.status && r.status < 500

/-- The program does not answer with a 4xx status. -/
def NeverRejects (p : M Response) : Prop := ∀ s, (p.run Server.exec s).1.rejected = false

theorem NeverRejects.ret {r : Response} (h : r.rejected = false) : NeverRejects (.ret r) :=
  fun _ => h

theorem NeverRejects.op {o : Op} {next : o.Res → M Response} (h : ∀ r, NeverRejects (next r)) :
    NeverRejects (.op o next) := fun s => h _ (Server.exec o s).2

/-- The program reads, and may refuse the request; whatever it does beyond that is done by a
    program in `E`. -/
inductive ChecksFirst (E : M Response → Prop) : M Response → Prop
  | refuse {r : Response} (h : r.success = false) : ChecksFirst E (.ret r)
  | read {o : Op} {next : o.Res → M Response} (hquiet : ∀ s, (Server.exec o s).2 = s)
    (h : ∀ r, ChecksFirst E (next r)) : ChecksFirst E (.op o next)
  | last {p : M Response} (h : E p) : ChecksFirst E p

/-- What is checked first announces what its last part announces. -/
private theorem ChecksFirst.announces {E : M Response → Prop} {p : M Response} (h : ChecksFirst E p)
    (hE : ∀ p, E p → Announces accountID p) : Announces accountID p := by
  induction h with
  | refuse h => exact .fail h
  | read hquiet _ ih => exact .op (fun s => congrArg Server.notified (hquiet s)) ih
  | last h => exact hE _ h

/-- The end of a handler that has accepted the request: it fails with a 500, or it notifies the
    account and answers with success. -/
structure Finishes (accountID : String) (p : M Response) : Prop where
  announces : Announces accountID p
  neverRejects : NeverRejects p

theorem Finishes.error : Finishes accountID (.ret internalError) := ⟨.fail rfl, .ret rfl⟩

theorem Finishes.notifyAll {r : Response} (h : r.rejected = false) :
    Finishes accountID (.op (.notifyAll accountID) fun _ => .ret r) :=
  ⟨.notifyAll r, .op fun _ => .ret h⟩

theorem Finishes.op {o : Op} {next : o.Res → M Response}
    (hquiet : ∀ s, (Server.exec o s).2.notified = s.notified)
    (hnext : ∀ r, Finishes accountID (next r)) : Finishes accountID (.op o next) :=
  ⟨.op hquiet fun r => (hnext r).announces, .op fun r => (hnext r).neverRejects⟩

/-! ## The handlers that notify -/

/-- The end of `updatePeer` saves and notifies. -/
theorem finishUpdatePeer_finishes (peer : Domain.Peer) :
    Finishes claims.accountID (finishUpdatePeer env claims peer) := by
  simp only [finishUpdatePeer, Call.savePeer, Call.notifyAll, Prog.op_bind, Prog.ret_bind]
  refine .op (fun s => write_notified ..) fun r => ?_
  cases r with
  | error e => exact .error
  | ok _ => exact .notifyAll rfl

/-- The end that `setPeerRoutes` and `setPeerExitNode` share. -/
private theorem saveAndNotify_finishes {peer : Domain.Peer} (h : peer.accountID = accountID) :
    Finishes accountID (saveAndNotify env peer) := by
  simp only [saveAndNotify, Call.savePeer, Call.notifyAll, Prog.op_bind, Prog.ret_bind]
  refine .op (fun s => write_notified ..) fun r => ?_
  cases r with
  | error e => exact .error
  | ok _ =>
    rw [h]
    exact .notifyAll rfl

/-- `setPeerExitNode` checks the peer and the gateway before it saves. -/
theorem setPeerExitNode_checksFirst (key : String) (body : Except String String) :
    ChecksFirst (Finishes claims.accountID) (setPeerExitNode env claims key body) := by
  cases body with
  | error e => exact .refuse rfl
  | ok exitNode =>
    simp only [setPeerExitNode, Call.getPeer, Prog.op_bind, Prog.ret_bind]
    refine .read (fun s => rfl) fun r => ?_
    cases r with
    | error e => exact .refuse rfl
    | ok peer =>
      dsimp only
      split
      · exact .refuse rfl
      · rename_i hacc
        have hacc : peer.accountID = claims.accountID := not_not.mp hacc
        -- the peer itself, no gateway at all, or a gateway that is read first
        split
        · exact .refuse rfl
        · split
          · exact .last (saveAndNotify_finishes hacc)
          · refine .read (fun s => rfl) fun r => ?_
            cases r with
            | error e => exact .refuse rfl
            | ok gw =>
              dsimp only
              split
              · exact .refuse rfl
              · split
                · exact .refuse rfl
                · exact .last (saveAndNotify_finishes hacc)

/-- `setPeerRoutes` checks the routes and the peer before it saves. -/
theorem setPeerRoutes_checksFirst (key : String) (body : Except String (List String)) :
    ChecksFirst (Finishes claims.accountID) (setPeerRoutes env claims key body) := by
  cases body with
  | error e => exact .refuse rfl
  | ok routes =>
    simp only [setPeerRoutes, Call.getPeer, Prog.op_bind, Prog.ret_bind]
    split
    · exact .refuse rfl
    · refine .read (fun s => rfl) fun r => ?_
      cases r with
      | error e => exact .refuse rfl
      | ok peer =>
        dsimp only
        -- a peer of another account is refused
        split
        · exact .refuse rfl
        · exact .last (saveAndNotify_finishes (not_not.mp ‹_›))

/-- `createRule` checks the rule before it saves. -/
theorem createRule_checksFirst (body : Except String CreateRuleRequest) :
    ChecksFirst (Finishes claims.accountID) (createRule env claims body) := by
  simp only [createRule, Call.saveRule, Call.notifyAll, Prog.op_bind, Prog.ret_bind]
  split
  · exact .refuse rfl
  · split
    · exact .refuse rfl
    · split
      · exact .refuse rfl
      · refine .last (.op (fun s => write_notified ..) fun r => ?_)
        cases r with
        | error e => exact .error
        | ok _ => exact .notifyAll rfl

/-- `updateRule` looks for the rule and checks the new one before it saves. -/
theorem updateRule_checksFirst (id : String) (body : Except String UpdateRuleRequest) :
    ChecksFirst (Finishes claims.accountID) (updateRule env claims id body) := by
  simp only [updateRule, Call.getRulesByAccount, Call.saveRule, Call.notifyAll, Prog.op_bind,
    Prog.ret_bind]
  refine .read (fun s => read_state ..) fun r => ?_
  cases r with
  | error e => exact .refuse rfl
  | ok rules =>
    dsimp only
    -- no such rule
    split
    · exact .refuse rfl
    · cases body with
      | error e => exact .refuse rfl
      | ok req =>
        dsimp only
        split
        · exact .refuse rfl
        · split
          · exact .refuse rfl
          · refine .last (.op (fun s => write_notified ..) fun r => ?_)
            cases r with
            | error e => exact .error
            | ok _ => exact .notifyAll rfl

/-- `updatePeer` announces what it saves. -/
private theorem updatePeer_announces (key : String) (body : Except String UpdatePeerRequest) :
    Announces claims.accountID (updatePeer env claims key body) := by
  simp only [updatePeer, Call.getPeer, Call.assignPeer, Prog.op_bind, Prog.ret_bind]
  refine .op (fun s => rfl) fun r => ?_
  cases r with
  | error e => exact .fail rfl
  | ok peer =>
    dsimp only
    split
    · exact .fail rfl
    · cases body with
      | error e => exact .fail rfl
      | ok req =>
        dsimp only
        split
        · exact .fail (invalidGroup_success ‹_›)
        · -- the assignment of the groups is announced with the rest, if it gets there
          refine .op (fun s => rfl) fun _ => ?_
          split
          · exact (finishUpdatePeer_finishes _).announces
          · split
            · exact .fail rfl
            · exact (finishUpdatePeer_finishes _).announces

/-- `deleteRule` announces what it deletes. -/
private theorem deleteRule_announces (id : String) :
    Announces claims.accountID (deleteRule env claims id) := by
  simp only [deleteRule, Call.deleteRule, Call.notifyAll, Prog.op_bind, Prog.ret_bind]
  refine .op (fun s => change_notified ..) fun r => ?_
  cases r with
  | error e => exact .fail rfl
  | ok _ => exact .notifyAll _

/-! ## The handlers that leave the peers and the rules alone -/

/-- The operations that write one of the tables a view is built from. -/
def Op.writesView : Op → Bool
  | .assignPeer _ | .savePeer .. | .deletePeer .. | .saveRule .. | .deleteRule .. => true
  | _ => false

/-- Only other operations are performed. -/
def viewAside : Contract Op.Res where
  rely := Assumes.rely {}
  guar o := o.writesView = false

/-- Operations aside of the view keep the peers and the rules. -/
private theorem viewAside_keeps (peers : Table Domain.Peer.wgPubKey)
    (rules : Table Domain.Rule.id) :
    viewAside.Keeps Server.exec fun s => s.store.peers = peers ∧ s.store.rules = rules := by
  intro o s hs hguar
  refine ⟨?_, exec_rely (Assumes.holds_nothing _) o⟩
  rcases exec_store o s with heq | hstep
  · rw [heq]
    exact hs
  · generalize (Server.exec o s).2.store = st at hstep ⊢
    cases hstep with
    | assignPeer | savePeer | deletePeer | saveRule | deleteRule => exact absurd hguar nofun
    | createSetupKey | deleteSetupKey | incrementSetupKeyUsage | createGroup | deleteGroup =>
      exact hs

/-- The requests that never write a peer or a rule. -/
def RestRequest.viewAside : RestRequest → Bool
  | .listPeers | .listGroups | .createGroup _ | .deleteGroup _ | .listSetupKeys
  | .createSetupKey _ | .deleteSetupKey _ | .listRules => true
  | _ => false

/-- The requests aside of the view use such operations only. -/
private theorem May.viewAside {as : Assumes} {req : RestRequest} {o : Op} (h : req.viewAside = true)
    (hmay : req.May env accountID as o) : o.writesView = false := by
  cases req with
  | updatePeer | deletePeer | setPeerRoutes | setPeerExitNode | createRule | updateRule
  | deleteRule => exact absurd h Bool.false_ne_true
  | listPeers | listGroups | createGroup | deleteGroup | listSetupKeys | createSetupKey
  | deleteSetupKey | listRules =>
    cases o <;> first | rfl | exact False.elim hmay

/-- Such a request leaves the two tables as they are. -/
private theorem serveREST_viewAside (env : Env) (claims : Claims) {req : RestRequest}
    (h : req.viewAside = true) (s : Server) :
    ((serveREST env claims req).run Server.exec s).2.store.peers = s.store.peers ∧
      ((serveREST env claims req).run Server.exec s).2.store.rules = s.store.rules := by
  have hcontract : (serveREST env claims req).Meets (req.contract env claims.accountID {})
      fun _ => True :=
    serveREST_meets req
  have hmeets : (serveREST env claims req).Meets Management.viewAside fun _ => True :=
    hcontract.weaken (fun _ _ h => h) fun _ => May.viewAside h
  exact (hmeets.run (viewAside_keeps _ _) ⟨rfl, rfl⟩).1

/-- With the same peers and rules every device is sent the same. -/
private theorem not_viewChanged {st st' : Store} (hpeers : st'.peers = st.peers)
    (hrules : st'.rules = st.rules) : ¬ ViewChanged network accountID st st' := by
  rintro ⟨key, _, hdiff⟩
  apply hdiff
  intro resp
  simp only [View, Store.getPeersByAccount, hpeers, hrules]

/-! ## `deletePeer` -/

/-- A successful `deletePeer` has removed a peer of the account and told nobody. -/
private theorem deletePeer_success {key : String}
    (hok : ((deletePeer env claims key).run Server.exec s).1.success = true) :
    HasPeer s.store claims.accountID key ∧
      ((deletePeer env claims key).run Server.exec s).2.store = s.store.deletePeer key ∧
      ((deletePeer env claims key).run Server.exec s).2.notified = s.notified := by
  simp only [deletePeer, Call.getPeer, Call.deletePeer, Call.revokeByWGKey, Call.releaseIP,
    Prog.op_bind, Prog.ret_bind, Prog.run_op, Server.exec] at hok ⊢
  cases hp : s.store.getPeer key with
  | error e =>
    rw [hp] at hok
    exact absurd hok Bool.false_ne_true
  | ok peer =>
    simp only [hp] at hok ⊢
    -- a peer of another account
    split at hok
    · exact absurd hok Bool.false_ne_true
    · rename_i hacc
      rw [if_neg hacc]
      -- the store may fail
      cases hf : env.fails 0 with
      | some e =>
        simp only [Prog.run_op, Server.exec, hf, Server.write] at hok
        exact absurd hok Bool.false_ne_true
      | none =>
        have hpeer : HasPeer s.store claims.accountID key :=
          ⟨peer, Store.getPeer_eq_ok hp, not_not.mp hacc⟩
        exact ⟨hpeer, rfl, rfl⟩

/-- Whoever is sent the peers of the account no longer finds the deleted one. -/
private theorem deletePeer_viewChanged (network : String) {st : Store} {key : String}
    (h : HasPeer st accountID key) :
    ViewChanged network accountID st (st.deletePeer key) := by
  refine ⟨key, .inl h, fun hsame => ?_⟩
  obtain ⟨p, hp, hacc⟩ := h
  obtain ⟨order, horder⟩ := st.peers.finite
  obtain ⟨order', horder'⟩ := st.rules.finite
  obtain ⟨o, _, ho, _, heq⟩ := (hsame _).mp ⟨order, order', horder, horder', rfl⟩
  -- the peer is in the first list, under its key
  have hmem : p ∈ st.getPeersByAccount accountID order :=
    (PMap.mem_select horder p).mpr ⟨⟨key, hp⟩, beq_iff_eq.mpr hacc⟩
  have hpb : pbPeer p ∈ (st.getPeersByAccount accountID order).map pbPeer :=
    List.mem_map_of_mem hmem
  have hpeers := congrArg Managementv1.SyncResponse.peers heq
  simp only [buildSyncResponse] at hpeers
  rw [hpeers] at hpb
  obtain ⟨q, hq, hqp⟩ := List.mem_map.mp hpb
  obtain ⟨⟨k, hk⟩, _⟩ := (PMap.mem_select ho q).mp hq
  -- whoever is in the second list is filed under another key
  have hkeep := PMap.delete_eq_some _ hk
  have hkey : q.wgPubKey = p.wgPubKey := congrArg Commonv1.Peer.wgPubKey hqp
  rw [st.peers.keyed key p hp, st.peers.keyed k q hkeep.2] at hkey
  exact hkeep.1 hkey

/-! ## All requests -/

/-- `DELETE /peers/:key`. -/
def RestRequest.isDeletePeer : RestRequest → Bool
  | .deletePeer _ => true
  | _ => false

/-- Every other request but `deletePeer` announces. -/
private theorem route_announces {req : RestRequest} (hview : req.viewAside = false)
    (hdelete : req.isDeletePeer = false) :
    Announces claims.accountID (route env claims req) := by
  cases req with
  | updatePeer key body => exact updatePeer_announces key body
  | setPeerRoutes key body =>
    exact (setPeerRoutes_checksFirst key body).announces fun _ h => h.announces
  | setPeerExitNode key body =>
    exact (setPeerExitNode_checksFirst key body).announces fun _ h => h.announces
  | createRule body => exact (createRule_checksFirst body).announces fun _ h => h.announces
  | updateRule id body => exact (updateRule_checksFirst id body).announces fun _ h => h.announces
  | deleteRule id => exact deleteRule_announces id
  -- the two kinds of request that are left out
  | deletePeer => exact absurd hdelete.symm Bool.false_ne_true
  | listPeers | listGroups | createGroup | deleteGroup | listSetupKeys | createSetupKey
  | deleteSetupKey | listRules => exact absurd hview.symm Bool.false_ne_true

/-- A request that answers with success has passed `adminOnly`. -/
private theorem serveREST_eq_route {req : RestRequest}
    (hok : ((serveREST env claims req).run Server.exec s).1.success = true) :
    serveREST env claims req = route env claims req := by
  unfold serveREST at hok ⊢
  split
  · rename_i hrole
    rw [if_pos hrole] at hok
    exact absurd hok Bool.false_ne_true
  · rfl

/-- A successful REST request that changes what some peer of the account would be sent
    notifies the account after the write, if and only if it is not a `deletePeer`. -/
theorem view_change_notified_iff (network : String) (req : RestRequest)
    (hok : ((serveREST env claims req).run Server.exec s).1.success = true) :
    (ViewChanged network claims.accountID s.store
        ((serveREST env claims req).run Server.exec s).2.store →
      NotifiedAfter claims.accountID s ((serveREST env claims req).run Server.exec s).2) ↔
      req.isDeletePeer = false := by
  cases hview : req.viewAside with
  | true =>
    obtain ⟨hpeers, hrules⟩ := serveREST_viewAside env claims hview s
    refine iff_of_true (fun h => absurd h (not_viewChanged hpeers hrules)) ?_
    cases req <;> first | rfl | exact absurd hview Bool.false_ne_true
  | false =>
    have hroute := serveREST_eq_route hok
    rw [hroute] at hok ⊢
    cases hdelete : req.isDeletePeer with
    | false =>
      exact iff_of_true (fun _ => route_announces hview hdelete s hok) rfl
    -- `deletePeer` changes what the other devices are sent, and notifies nobody
    | true =>
      refine iff_of_false (fun h => ?_) nofun
      obtain ⟨key, rfl⟩ : ∃ key, req = .deletePeer key := by
        cases req <;> first | exact ⟨_, rfl⟩ | exact absurd hdelete Bool.false_ne_true
      obtain ⟨hpeer, hstore, hnotified⟩ := deletePeer_success hok
      have hchanged := deletePeer_viewChanged network hpeer
      obtain ⟨calls, hcalls, hmem⟩ := h (by rw [route, hstore]; exact hchanged)
      rw [route, hnotified] at hcalls
      have hnil : calls = [] := List.append_left_eq_self.mp hcalls.symm
      rw [hnil] at hmem
      exact absurd hmem List.not_mem_nil

/-- Two peers of one account. -/
def twoPeers : Server where
  store := Store.savePeer (Store.savePeer {} { wgPubKey := "K", accountID := "acme" })
    { wgPubKey := "L", accountID := "acme" }
  ipam := { network := 0x64400000, mask := 0xffc00000, next := 1 }

/-- Their administrator. -/
def acmeAdmin : Claims := { accountID := "acme", role := "admin" }

/-- The first route that a peer of the account advertises changes what is sent. -/
private theorem viewChanged_of_routes (network : String) {st st' : Store} {key : String}
    {p : Domain.Peer}
    (hbefore : ∀ k q, st.peers.rows k = some q → q.advertisedRoutes = [])
    (hp : st'.peers.rows key = some p) (hacc : p.accountID = accountID)
    (hroutes : p.advertisedRoutes ≠ []) : ViewChanged network accountID st st' := by
  refine ⟨key, .inr ⟨p, hp, hacc⟩, fun hsame => ?_⟩
  obtain ⟨order, horder⟩ := st'.peers.finite
  obtain ⟨order', horder'⟩ := st'.rules.finite
  obtain ⟨o, _, ho, _, heq⟩ := (hsame _).mpr ⟨order, order', horder, horder', rfl⟩
  have hmem : p ∈ st'.getPeersByAccount accountID order :=
    (PMap.mem_select horder p).mpr ⟨⟨key, hp⟩, beq_iff_eq.mpr hacc⟩
  -- no route was sent before
  have hnone : (st.getPeersByAccount accountID o).flatMap pbRoutes = [] := by
    refine List.flatMap_eq_nil_iff.mpr fun q hq => ?_
    obtain ⟨⟨k, hk⟩, _⟩ := (PMap.mem_select ho q).mp hq
    rw [pbRoutes, hbefore k q hk]
    rfl
  have hsent := congrArg Managementv1.SyncResponse.routes heq
  simp only [buildSyncResponse] at hsent
  have hpb : pbRoutes p = [] := List.flatMap_eq_nil_iff.mp (hsent.trans hnone) p hmem
  simp only [pbRoutes, List.map_eq_nil_iff, List.zipIdx_eq_nil_iff] at hpb
  exact hroutes hpb

/-- `K` gets a route: the account sees it and is notified. -/
theorem view_change_notified_routes :
    ViewChanged "100.64.0.0/10" "acme" twoPeers.store
        ((serveREST { uuid := fun _ => "" } acmeAdmin (.setPeerRoutes "K" (.ok ["10.0.0.0/8"]))).run
          Server.exec twoPeers).2.store ∧
      NotifiedAfter "acme" twoPeers
        ((serveREST { uuid := fun _ => "" } acmeAdmin (.setPeerRoutes "K" (.ok ["10.0.0.0/8"]))).run
          Server.exec twoPeers).2 := by
  have hok : ((serveREST { uuid := fun _ => "" } acmeAdmin
      (.setPeerRoutes "K" (.ok ["10.0.0.0/8"]))).run Server.exec twoPeers).1.success = true := by
    decide +kernel
  -- the route is stored, and nobody had one before
  have hrow : ((((serveREST { uuid := fun _ => "" } acmeAdmin
      (.setPeerRoutes "K" (.ok ["10.0.0.0/8"]))).run Server.exec twoPeers).2.store.peers.rows
        "K").map fun p => (p.accountID, p.advertisedRoutes)) = some ("acme", ["10.0.0.0/8"]) := by
    decide +kernel
  obtain ⟨p, hp, hfields⟩ := Option.map_eq_some_iff.mp hrow
  obtain ⟨hacc, hroutes⟩ := Prod.mk.inj hfields
  have hbefore : ∀ k q, twoPeers.store.peers.rows k = some q → q.advertisedRoutes = [] := by
    intro k q hq
    rcases PMap.set_eq_some _ hq with ⟨_, rfl⟩ | ⟨_, hq⟩
    · rfl
    · rcases PMap.set_eq_some _ hq with ⟨_, rfl⟩ | ⟨_, hq⟩
      · rfl
      · exact absurd hq nofun
  have hchanged := viewChanged_of_routes "100.64.0.0/10" hbefore hp hacc (hroutes ▸ nofun)
  exact ⟨hchanged, (view_change_notified_iff "100.64.0.0/10" _ hok).mpr rfl hchanged⟩

/-- `K` is deleted and `L` is not told. -/
theorem deletePeer_unnoticed :
    ((serveREST { uuid := fun _ => "" } acmeAdmin (.deletePeer "K")).run Server.exec
        twoPeers).1 = ⟨204, .none⟩ ∧
      ViewChanged "100.64.0.0/10" "acme" twoPeers.store
        ((serveREST { uuid := fun _ => "" } acmeAdmin (.deletePeer "K")).run Server.exec
          twoPeers).2.store ∧
      ((serveREST { uuid := fun _ => "" } acmeAdmin (.deletePeer "K")).run Server.exec
        twoPeers).2.notified = [] := by
  have hok : ((serveREST { uuid := fun _ => "" } acmeAdmin (.deletePeer "K")).run Server.exec
      twoPeers).1 = ⟨204, .none⟩ := by
    decide +kernel
  -- an administrator gets to the handler
  have hsuccess : ((deletePeer { uuid := fun _ => "" } acmeAdmin "K").run Server.exec
      twoPeers).1.success = true := congrArg Response.success hok
  obtain ⟨hpeer, hstore, hnotified⟩ := deletePeer_success hsuccess
  have hchanged := deletePeer_viewChanged "100.64.0.0/10" hpeer
  rw [← hstore] at hchanged
  exact ⟨hok, hchanged, hnotified⟩

end Blinex.Native.Management
