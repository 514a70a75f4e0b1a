import Blinex.Native.HttpServer
import Blinex.Native.PostgresStore

/-!
# What the management handlers may do

For every handler, the operations it may perform, as a table (`RestRequest.May`,
`LoginMay`, `AgentMay`), with what it needs to know about the records the store
answers with (`Assumes`). Every handler meets its contract whatever is assumed, so one
table serves arguments about tenants, about single peers and about interleavings.

`StoreStep` is the other half: what an operation does to the store.
-/

namespace Blinex.Native.Management

open Blinex.Go

/-! ## What an operation does to the store -/

/-- The writes that change the store. -/
inductive StoreStep (st : Store) : Op → Store → Prop where
  | createSetupKey (sk : Domain.SetupKey) :
    StoreStep st (.createSetupKey sk none) (st.createSetupKey sk)
  | deleteSetupKey {accountID id : String} {order : List String} {sk : Domain.SetupKey}
      (hrow : st.setupKeys.rows sk.key = some sk) (hid : sk.id = id)
      (hacc : sk.accountID = accountID) :
    StoreStep st (.deleteSetupKey accountID id order none)
      { st with setupKeys := st.setupKeys.delete sk.key }
  | incrementSetupKeyUsage {keyID : String} {order : List String} {sk : Domain.SetupKey}
      (hrow : st.setupKeys.rows sk.key = some sk) (hid : sk.id = keyID) :
    StoreStep st (.incrementSetupKeyUsage keyID order none)
      { st with setupKeys := st.setupKeys.save { sk with usedCount := sk.usedCount + 1 } }
  | createGroup (g : Domain.Group) : StoreStep st (.createGroup g none) (st.createGroup g)
  | deleteGroup {accountID id : String} {g : Domain.Group} (hrow : st.groups.rows id = some g)
      (hacc : g.accountID = accountID) :
    StoreStep st (.deleteGroup accountID id none) { st with groups := st.groups.delete id }
  | assignPeer (p : Domain.Peer) (hlive : st.live = true)
      (hrow : (st.peers.rows p.wgPubKey).isSome) :
    StoreStep st (.assignPeer p) (st.savePeer p)
  | savePeer (p : Domain.Peer) : StoreStep st (.savePeer p none) (st.savePeer p)
  | deletePeer (key : String) : StoreStep st (.deletePeer key none) (st.deletePeer key)
  | saveRule (r : Domain.Rule) : StoreStep st (.saveRule r none) (st.saveRule r)
  | deleteRule {accountID id : String} {r : Domain.Rule} (hrow : st.rules.rows id = some r)
      (hacc : r.accountID = accountID) :
    StoreStep st (.deleteRule accountID id none) { st with rules := st.rules.delete id }

/-- A key that a `range` over the setup keys finds is in the table. -/
theorem setupKey_of_find {st : Store} {order : List String} {p : Domain.SetupKey → Bool}
    {sk : Domain.SetupKey} (h : (order.filterMap st.setupKeys.rows).find? p = some sk) :
    st.setupKeys.rows sk.key = some sk ∧ p sk = true := by
  obtain ⟨key, _, hrow⟩ := List.mem_filterMap.mp (List.mem_of_find?_eq_some h)
  have hkey := st.setupKeys.keyed key sk hrow
  exact ⟨by rw [hkey]; exact hrow, List.find?_some h⟩

/-- An operation leaves the store alone or takes one of the steps. -/
theorem exec_store (o : Op) (s : Server) :
    (Server.exec o s).2.store = s.store ∨ StoreStep s.store o (Server.exec o s).2.store := by
  cases o with
  | getSetupKey | getPeer | allocate | releaseIP | revokeByWGKey | registerSub | unregisterSub
  | connectedKeys | notifyAll | lookupCountry => exact .inl rfl
  | getSetupKeysByAccount _ _ err | getGroupsByAccount _ _ err | getPeersByAccount _ _ err
  | getRulesByAccount _ _ err => cases err <;> exact .inl rfl
  -- a write with an error does nothing
  | createSetupKey sk err =>
    cases err with
    | some e => exact .inl rfl
    | none => exact .inr (.createSetupKey sk)
  | createGroup g err =>
    cases err with
    | some e => exact .inl rfl
    | none => exact .inr (.createGroup g)
  | savePeer p err =>
    cases err with
    | some e => exact .inl rfl
    | none => exact .inr (.savePeer p)
  | deletePeer key err =>
    cases err with
    | some e => exact .inl rfl
    | none => exact .inr (.deletePeer key)
  | saveRule r err =>
    cases err with
    | some e => exact .inl rfl
    | none => exact .inr (.saveRule r)
  | assignPeer p =>
    simp only [Server.exec, Store.assignPeer]
    split
    · rename_i h
      obtain ⟨hlive, hrow⟩ := Bool.and_eq_true_iff.mp h
      exact .inr (.assignPeer p hlive hrow)
    · exact .inl rfl
  -- the deletions look the record up and compare its account first
  | deleteSetupKey accountID id order err =>
    cases err with
    | some e => exact .inl rfl
    | none =>
      simp only [Server.exec, Server.change, Store.deleteSetupKey]
      split
      · rename_i sk hfind
        obtain ⟨hrow, hp⟩ := setupKey_of_find hfind
        simp only [Bool.and_eq_true, beq_iff_eq] at hp
        exact .inr (.deleteSetupKey hrow hp.1 hp.2)
      · exact .inl rfl
  | incrementSetupKeyUsage keyID order err =>
    cases err with
    | some e => exact .inl rfl
    | none =>
      simp only [Server.exec, Server.change, Store.incrementSetupKeyUsage]
      split
      · rename_i sk hfind
        obtain ⟨hrow, hp⟩ := setupKey_of_find hfind
        exact .inr (.incrementSetupKeyUsage hrow (beq_iff_eq.mp hp))
      · exact .inl rfl
  | deleteGroup accountID id err =>
    cases err with
    | some e => exact .inl rfl
    | none =>
      simp only [Server.exec, Server.change, Store.deleteGroup]
      split
      · exact .inl rfl
      · split
        · exact .inl rfl
        · exact .inr (.deleteGroup ‹_› (not_not.mp ‹_›))
  | deleteRule accountID id err =>
    cases err with
    | some e => exact .inl rfl
    | none =>
      simp only [Server.exec, Server.change, Store.deleteRule]
      split
      · exact .inl rfl
      · split
        · exact .inl rfl
        · exact .inr (.deleteRule ‹_› (not_not.mp ‹_›))

/-! ## What an operation answers -/

/-- What is known of the records in a store. -/
structure Assumes where
  peer : String → Domain.Peer → Prop := fun _ _ => True
  noPeer : String → Prop := fun _ => True
  rule : Domain.Rule → Prop := fun _ => True
  setupKey : Domain.SetupKey → Prop := fun _ => True

/-- The store is as assumed. -/
structure Assumes.Holds (as : Assumes) (st : Store) : Prop where
  peer : ∀ key p, st.peers.rows key = some p → as.peer key p
  noPeer : ∀ key, st.peers.rows key = none → as.noPeer key
  rule : ∀ id r, st.rules.rows id = some r → as.rule r
  setupKey : ∀ key sk, st.setupKeys.rows key = some sk → as.setupKey sk

theorem Assumes.holds_nothing (st : Store) : Assumes.Holds {} st :=
  ⟨fun _ _ _ => trivial, fun _ _ => trivial, fun _ _ _ => trivial, fun _ _ _ => trivial⟩

/-- What the answers of such a store tell a program. A save reports the error it ran
    into. -/
def Assumes.rely (as : Assumes) : (o : Op) → o.Res → Prop
  | .getPeer key, .ok p => p.wgPubKey = key ∧ as.peer key p
  | .getPeer key, .error _ => as.noPeer key
  | .getSetupKey key _, .ok sk => sk.key = key ∧ as.setupKey sk
  | .getRulesByAccount accountID _ _, .ok rules =>
    ∀ r ∈ rules, r.accountID = accountID ∧ as.rule r
  | .savePeer _ (some _), .ok _ => False
  | .deletePeer _ (some _), .ok _ => False
  | _, _ => True

/-- What an operation answers satisfies what is assumed of the records. -/
theorem exec_rely {as : Assumes} {s : Server} (h : as.Holds s.store) (o : Op) :
    as.rely o (Server.exec o s).1 := by
  cases o with
  -- only the reads promise anything: what they find is a record of the store
  | getPeer key =>
    simp only [Server.exec, Store.getPeer]
    cases hp : s.store.peers.rows key with
    | none => exact h.noPeer key hp
    | some p => exact ⟨s.store.peers.keyed key p hp, h.peer key p hp⟩
  | getSetupKey key now =>
    simp only [Server.exec, Store.getSetupKey]
    cases hsk : s.store.setupKeys.rows key with
    | none => trivial
    | some sk =>
      dsimp only
      split
      · trivial
      · exact ⟨s.store.setupKeys.keyed key sk hsk, h.setupKey key sk hsk⟩
  | getRulesByAccount accountID order err =>
    cases err with
    | some e => trivial
    | none =>
      intro r hr
      have hmem := (List.mergeSort_perm _ _).mem_iff.mp hr
      simp only [collectRules, List.mem_filter, List.mem_filterMap, beq_iff_eq] at hmem
      obtain ⟨⟨id, _, hrow⟩, hacc⟩ := hmem
      exact ⟨hacc, h.rule id r hrow⟩
  | savePeer p err => cases err <;> trivial
  | deletePeer key err => cases err <;> trivial
  | getSetupKeysByAccount | createSetupKey | deleteSetupKey | incrementSetupKeyUsage
  | getGroupsByAccount | createGroup | deleteGroup | assignPeer | getPeersByAccount | saveRule
  | deleteRule | allocate | releaseIP | revokeByWGKey | registerSub | unregisterSub
  | connectedKeys | notifyAll | lookupCountry => trivial

/-- The Postgres store answers the same. -/
theorem pgExec_rely {as : Assumes} {s : Server} (h : as.Holds s.store) (o : Op) :
    as.rely o (pgExec o s).1 := by
  have hexec := exec_rely h o
  cases o with
  | savePeer p err => cases err <;> trivial
  | createSetupKey sk err => trivial
  | _ => exact hexec

/-! ## The REST API -/

/-- The record that `updatePeer` saves. -/
def UpdatePeerRequest.apply (uuid : String) (req : UpdatePeerRequest) (p : Domain.Peer) :
    Domain.Peer :=
  let p := { p with groups := ensureDefaultGroup req.groups }
  match req.hostname with
  | none => p
  | some hostname =>
    { p with
      hostname := Strings.trimSpace hostname
      dnsLabel := Domain.toDNSLabel uuid (Strings.trimSpace hostname) }

theorem apply_accountID (uuid : String) (req : UpdatePeerRequest) (p : Domain.Peer) :
    (req.apply uuid p).accountID = p.accountID := by
  unfold UpdatePeerRequest.apply
  split <;> rfl

theorem apply_wgPubKey (uuid : String) (req : UpdatePeerRequest) (p : Domain.Peer) :
    (req.apply uuid p).wgPubKey = p.wgPubKey := by
  unfold UpdatePeerRequest.apply
  split <;> rfl

/-- The saved record `p` is an edit of a record of the account that was read under
    `key`. -/
def Assumes.Edited (as : Assumes) (accountID key : String) (f : Domain.Peer → Domain.Peer)
    (p : Domain.Peer) : Prop :=
  ∃ p₀, p₀.wgPubKey = key ∧ as.peer key p₀ ∧ p₀.accountID = accountID ∧ p = f p₀

/-- The operations a request with claims of the account may perform. -/
def RestRequest.May (env : Env) (accountID : String) (as : Assumes) : RestRequest → Op → Prop
  | .listPeers => fun
    | .getPeersByAccount acc .. => acc = accountID
    | .connectedKeys => True
    | _ => False
  | .updatePeer key body => fun
    | .getPeer k => k = key
    | .assignPeer p => ∃ req, body = .ok req ∧
      as.Edited accountID key (fun p => { p with groups := ensureDefaultGroup req.groups }) p
    | .savePeer p _ => ∃ req, body = .ok req ∧ as.Edited accountID key (req.apply (env.uuid 0)) p
    | .notifyAll acc => acc = accountID
    | _ => False
  | .deletePeer key => fun
    -- the deletion notifies nobody
    | .getPeer k | .revokeByWGKey k _ | .releaseIP k => k = key
    | .deletePeer k _ => k = key ∧ ∃ p, as.Edited accountID key id p
    | _ => False
  | .setPeerRoutes key body => fun
    | .getPeer k => k = key
    | .savePeer p _ => ∃ routes, body = .ok routes ∧
      as.Edited accountID key (fun p => { p with advertisedRoutes := routes }) p
    | .notifyAll acc => acc = accountID
    | _ => False
  | .setPeerExitNode key body => fun
    | .getPeer k => k = key ∨ body = .ok k
    | .savePeer p _ => ∃ exitNode, body = .ok exitNode ∧
      as.Edited accountID key (fun p => { p with exitNode }) p
    | .notifyAll acc => acc = accountID
    | _ => False
  | .listGroups => fun
    | .getGroupsByAccount acc .. | .getPeersByAccount acc .. => acc = accountID
    | _ => False
  | .createGroup _ => fun
    | .getGroupsByAccount acc .. => acc = accountID
    | .createGroup g _ => g.accountID = accountID ∧ g.id = env.uuid 0
    | _ => False
  | .deleteGroup id => fun
    | .getGroupsByAccount acc .. => acc = accountID
    | .deleteGroup acc i _ => acc = accountID ∧ i = id
    | _ => False
  | .listSetupKeys => fun
    | .getSetupKeysByAccount acc .. => acc = accountID
    | _ => False
  | .createSetupKey _ => fun
    | .createSetupKey sk _ => sk.accountID = accountID ∧ sk.id = env.uuid 0 ∧ sk.key = env.uuid 1
    | _ => False
  | .deleteSetupKey id => fun
    | .deleteSetupKey acc i .. => acc = accountID ∧ i = id
    | _ => False
  | .listRules => fun
    | .getRulesByAccount acc .. => acc = accountID
    | _ => False
  | .createRule _ => fun
    | .saveRule r _ => r.accountID = accountID ∧ r.id = env.uuid 0
    | .notifyAll acc => acc = accountID
    | _ => False
  | .updateRule id _ => fun
    | .getRulesByAccount acc .. => acc = accountID
    | .saveRule r _ => r.accountID = accountID ∧ r.id = id ∧ ∃ r₀, r₀.id = id ∧ as.rule r₀ ∧
      r₀.accountID = accountID
    | .notifyAll acc => acc = accountID
    | _ => False
  | .deleteRule id => fun
    | .deleteRule acc i _ => acc = accountID ∧ i = id
    | .notifyAll acc => acc = accountID
    | _ => False

/-- The contract of a REST request. -/
def RestRequest.contract (env : Env) (accountID : String) (as : Assumes) (req : RestRequest) :
    Contract Op.Res where
  rely := as.rely
  guar := req.May env accountID as

section Rest

variable {env : Env} {claims : Claims} {as : Assumes}

/-- The end of `updatePeer` saves the edited peer and notifies its account. -/
private theorem finishUpdatePeer_meets {key : String} {req : UpdatePeerRequest} {p : Domain.Peer}
    (hp : as.Edited claims.accountID key (req.apply (env.uuid 0)) p) :
    (finishUpdatePeer env claims p).Meets
      ((RestRequest.updatePeer key (.ok req)).contract env claims.accountID as) fun _ => True := by
  simp only [finishUpdatePeer, Call.savePeer, Call.notifyAll, Prog.op_bind, Prog.ret_bind]
  refine ⟨⟨req, rfl, hp⟩, fun r _ => ?_⟩
  cases r with
  | error e => trivial
  | ok _ => exact ⟨rfl, fun _ _ => trivial⟩

/-- `updatePeer` edits the peer that it read, if it is of the account. -/
private theorem updatePeer_meets (key : String) (body : Except String UpdatePeerRequest) :
    (updatePeer env claims key body).Meets
      ((RestRequest.updatePeer key body).contract env claims.accountID as) fun _ => True := by
  simp only [updatePeer, Call.getPeer, Call.assignPeer, Prog.op_bind, Prog.ret_bind]
  refine ⟨rfl, fun r hr => ?_⟩
  cases r with
  | error e => trivial
  | ok peer =>
    obtain ⟨hkey, hpeer⟩ := hr
    dsimp only
    split
    · trivial
    · rename_i hacc
      have hacc : peer.accountID = claims.accountID := not_not.mp hacc
      cases body with
      | error e => trivial
      | ok req =>
        dsimp only
        split
        · trivial
        · -- the groups are assigned before the hostname is looked at
          refine ⟨⟨req, rfl, peer, hkey, hpeer, hacc, rfl⟩, fun _ _ => ?_⟩
          split
          · rename_i hhost
            apply finishUpdatePeer_meets
            exact ⟨peer, hkey, hpeer, hacc, by simp only [UpdatePeerRequest.apply, hhost]⟩
          · rename_i hostname hhost
            -- a variable, so that the test on the name is not evaluated
            generalize hname : Strings.trimSpace hostname = name
            split
            · trivial
            · subst hname
              apply finishUpdatePeer_meets
              exact ⟨peer, hkey, hpeer, hacc, by simp only [UpdatePeerRequest.apply, hhost]⟩

/-- `deletePeer` deletes the peer that it read, if it is of the account. -/
private theorem deletePeer_meets (key : String) :
    (deletePeer env claims key).Meets
      ((RestRequest.deletePeer key).contract env claims.accountID as) fun _ => True := by
  simp only [deletePeer, Call.getPeer, Call.deletePeer, Call.revokeByWGKey, Call.releaseIP,
    Prog.op_bind, Prog.ret_bind]
  refine ⟨rfl, fun r hr => ?_⟩
  cases r with
  | error e => trivial
  | ok peer =>
    obtain ⟨hkey, hpeer⟩ := hr
    dsimp only
    -- a peer of another account is not touched
    split
    · trivial
    · refine ⟨⟨rfl, peer, peer, hkey, hpeer, not_not.mp ‹_›, rfl⟩, fun r _ => ?_⟩
      cases r with
      | error e => trivial
      | ok _ => exact ⟨rfl, fun _ _ => ⟨rfl, fun _ _ => trivial⟩⟩

/-- `saveAndNotify` in a request whose contract permits it. -/
private theorem saveAndNotify_meets {c : Contract Op.Res} {p : Domain.Peer}
    (hsave : c.guar (.savePeer p (env.fails 0))) (hnotify : c.guar (.notifyAll p.accountID)) :
    (saveAndNotify env p).Meets c fun _ => True := by
  simp only [saveAndNotify, Call.savePeer, Call.notifyAll, Prog.op_bind, Prog.ret_bind]
  refine ⟨hsave, fun r _ => ?_⟩
  cases r with
  | error e => trivial
  | ok _ => exact ⟨hnotify, fun _ _ => trivial⟩

/-- `setPeerExitNode` changes that field of the peer that it read. -/
private theorem setPeerExitNode_meets (key : String) (body : Except String String) :
    (setPeerExitNode env claims key body).Meets
      ((RestRequest.setPeerExitNode key body).contract env claims.accountID as)
      fun _ => True := by
  cases body with
  | error e => trivial
  | ok exitNode =>
    simp only [setPeerExitNode, Call.getPeer, Prog.op_bind, Prog.ret_bind]
    refine ⟨.inl rfl, fun r hr => ?_⟩
    cases r with
    | error e => trivial
    | ok peer =>
      obtain ⟨hkey, hpeer⟩ := hr
      dsimp only
      split
      · trivial
      · rename_i hacc
        have hacc : peer.accountID = claims.accountID := not_not.mp hacc
        have hsave : (saveAndNotify env { peer with exitNode }).Meets
            ((RestRequest.setPeerExitNode key (.ok exitNode)).contract env claims.accountID as)
            fun _ => True :=
          saveAndNotify_meets ⟨exitNode, rfl, peer, hkey, hpeer, hacc, rfl⟩ hacc
        split
        · trivial
        · split
          · exact hsave
          · -- the gateway is only read
            refine ⟨.inr rfl, fun r _ => ?_⟩
            cases r with
            | error e => trivial
            | ok gw =>
              dsimp only
              split
              · trivial
              · split
                · trivial
                · exact hsave

/-- `setPeerRoutes` changes that field of the peer that it read. -/
private theorem setPeerRoutes_meets (key : String) (body : Except String (List String)) :
    (setPeerRoutes env claims key body).Meets
      ((RestRequest.setPeerRoutes key body).contract env claims.accountID as)
      fun _ => True := by
  cases body with
  | error e => trivial
  | ok routes =>
    simp only [setPeerRoutes, Call.getPeer, Prog.op_bind, Prog.ret_bind]
    split
    · trivial
    · refine ⟨rfl, fun r hr => ?_⟩
      cases r with
      | error e => trivial
      | ok peer =>
        obtain ⟨hkey, hpeer⟩ := hr
        dsimp only
        -- a peer of another account is not touched
        split
        · trivial
        · rename_i hacc
          have hacc : peer.accountID = claims.accountID := not_not.mp hacc
          exact saveAndNotify_meets ⟨routes, rfl, peer, hkey, hpeer, hacc, rfl⟩ hacc

/-- `createRule` saves a new rule of the account. -/
private theorem createRule_meets (body : Except String CreateRuleRequest) :
    (createRule env claims body).Meets
      ((RestRequest.createRule body).contract env claims.accountID as) fun _ => True := by
  simp only [createRule, Call.saveRule, Call.notifyAll, Prog.op_bind, Prog.ret_bind]
  -- the body, its action and its fields
  split
  · trivial
  · split
    · trivial
    · split
      · trivial
      · refine ⟨⟨rfl, rfl⟩, fun r _ => ?_⟩
        cases r with
        | error e => trivial
        | ok _ => exact ⟨rfl, fun _ _ => trivial⟩

/-- `updateRule` saves a rule that it found in the account. -/
private theorem updateRule_meets (id : String) (body : Except String UpdateRuleRequest) :
    (updateRule env claims id body).Meets
      ((RestRequest.updateRule id body).contract env claims.accountID as) fun _ => True := by
  simp only [updateRule, Call.getRulesByAccount, Call.saveRule, Call.notifyAll, Prog.op_bind,
    Prog.ret_bind]
  refine ⟨rfl, fun r hr => ?_⟩
  cases r with
  | error e => trivial
  | ok rules =>
    dsimp only
    split
    · trivial
    · rename_i existing hfind
      -- the rule that is saved keeps the ID and the account of one that was listed
      obtain ⟨hacc, hrule⟩ := hr existing (List.mem_of_find?_eq_some hfind)
      have hfound := List.find?_some hfind
      have hid : existing.id = id := beq_iff_eq.mp hfound
      cases body with
      | error e => trivial
      | ok req =>
        dsimp only
        split
        · trivial
        · split
          · trivial
          · refine ⟨⟨hacc, hid, existing, hid, hrule, hacc⟩, fun r _ => ?_⟩
            cases r with
            | error e => trivial
            | ok _ => exact ⟨rfl, fun _ _ => trivial⟩

/-- Every REST request keeps to its contract. -/
private theorem route_meets (req : RestRequest) :
    (route env claims req).Meets (req.contract env claims.accountID as) fun _ => True := by
  cases req with
  | updatePeer key body => exact updatePeer_meets key body
  | deletePeer key => exact deletePeer_meets key
  | setPeerRoutes key body => exact setPeerRoutes_meets key body
  | setPeerExitNode key body => exact setPeerExitNode_meets key body
  | createRule body => exact createRule_meets body
  | updateRule id body => exact updateRule_meets id body
  | deleteRule id =>
    simp only [route, deleteRule, Call.deleteRule, Call.notifyAll, Prog.op_bind, Prog.ret_bind]
    refine ⟨⟨rfl, rfl⟩, fun r _ => ?_⟩
    cases r with
    | error e => trivial
    | ok _ => exact ⟨rfl, fun _ _ => trivial⟩
  -- these read or write within the account, and notify nobody
  | listPeers =>
    simp only [route, listPeers, Call.getPeersByAccount, Call.connectedKeys, Prog.op_bind,
      Prog.ret_bind]
    refine ⟨rfl, fun r _ => ?_⟩
    cases r with
    | error e => trivial
    | ok peers => exact ⟨trivial, fun _ _ => trivial⟩
  | listGroups =>
    simp only [route, listGroups, Call.getGroupsByAccount, Call.getPeersByAccount, Prog.op_bind,
      Prog.ret_bind]
    refine ⟨rfl, fun r _ => ?_⟩
    cases r with
    | error e => trivial
    | ok groups =>
      refine ⟨rfl, fun r _ => ?_⟩
      cases r <;> trivial
  | createGroup body =>
    simp only [route, createGroup, Call.getGroupsByAccount, Call.createGroup, Prog.op_bind,
      Prog.ret_bind]
    split
    · trivial
    · split
      · trivial
      · refine ⟨rfl, fun r _ => ?_⟩
        cases r with
        | error e => trivial
        | ok existing =>
          dsimp only
          split
          · trivial
          · refine ⟨⟨rfl, rfl⟩, fun r _ => ?_⟩
            cases r <;> trivial
  | deleteGroup id =>
    simp only [route, deleteGroup, Call.getGroupsByAccount, Call.deleteGroup, Prog.op_bind,
      Prog.ret_bind]
    refine ⟨rfl, fun r _ => ?_⟩
    cases r with
    | error e => trivial
    | ok groups =>
      dsimp only
      split
      · trivial
      · refine ⟨⟨rfl, rfl⟩, fun r _ => ?_⟩
        cases r <;> trivial
  | listSetupKeys =>
    simp only [route, listSetupKeys, Call.getSetupKeysByAccount, Prog.op_bind, Prog.ret_bind]
    refine ⟨rfl, fun r _ => ?_⟩
    cases r <;> trivial
  | createSetupKey body =>
    simp only [route, createSetupKey, Call.createSetupKey, Prog.op_bind, Prog.ret_bind]
    split
    · trivial
    · split
      · trivial
      · refine ⟨⟨rfl, rfl, rfl⟩, fun r _ => ?_⟩
        cases r <;> trivial
  | deleteSetupKey id =>
    simp only [route, deleteSetupKey, Call.deleteSetupKey, Prog.op_bind, Prog.ret_bind]
    refine ⟨⟨rfl, rfl⟩, fun r _ => ?_⟩
    cases r <;> trivial
  | listRules =>
    simp only [route, listRules, Call.getRulesByAccount, Prog.op_bind, Prog.ret_bind]
    refine ⟨rfl, fun r _ => ?_⟩
    cases r <;> trivial

/-- Every request of the REST interface keeps to its contract. -/
theorem serveREST_meets (req : RestRequest) :
    (serveREST env claims req).Meets (req.contract env claims.accountID as) fun _ => True := by
  unfold serveREST
  split
  · trivial
  · exact route_meets req

end Rest

/-! ## The agents' calls -/

/-- The operations of a call on behalf of the peer `key` that saves its record with
    some edit. -/
def AgentMay (key : String) (edit : Domain.Peer → Domain.Peer → Prop) (as : Assumes) : Op → Prop
  | .getPeer k | .registerSub k _ | .unregisterSub k | .lookupCountry k _ => k = key
  | .savePeer p _ => ∃ p₀, p₀.wgPubKey = key ∧ as.peer key p₀ ∧ edit p₀ p
  | .notifyAll _ => True
  | _ => False

/-- The contract of such a call. -/
def agentContract (key : String) (edit : Domain.Peer → Domain.Peer → Prop) (as : Assumes) :
    Contract Op.Res where
  rely := as.rely
  guar := AgentMay key edit as

/-- What `Sync` and a country lookup change of a record. -/
def ConnectionEdit (p₀ p : Domain.Peer) : Prop :=
  ∃ lastSeen publicIP country, p = { p₀ with lastSeen, publicIP, country }

/-- What `UpdatePeerMeta` changes of a record. -/
def MetaEdit (peerMeta : Option Commonv1.PeerMeta) (p₀ p : Domain.Peer) : Prop :=
  ∃ uuid lastSeen, p = { applyMeta uuid p₀ peerMeta with lastSeen }

/-- An edit about the connection keeps the key. -/
theorem ConnectionEdit.wgPubKey {p₀ p : Domain.Peer} (h : ConnectionEdit p₀ p) :
    p.wgPubKey = p₀.wgPubKey := by
  obtain ⟨_, _, _, rfl⟩ := h
  rfl

/-- An edit of the metadata keeps the key. -/
theorem MetaEdit.wgPubKey {peerMeta : Option Commonv1.PeerMeta} {p₀ p : Domain.Peer}
    (h : MetaEdit peerMeta p₀ p) : p.wgPubKey = p₀.wgPubKey := by
  obtain ⟨uuid, _, rfl⟩ := h
  cases peerMeta <;> rfl

section Agent

variable {env : Env} {ctx : Ctx} {as : Assumes} {key ip : String} {err : Option String}

/-- `touchLastSeen` edits the peer about its connection. -/
theorem touchLastSeen_meets (now : Int) :
    (touchLastSeen now err key).Meets (agentContract key ConnectionEdit as) fun _ => True := by
  simp only [touchLastSeen, Call.getPeer, Call.savePeer, Prog.op_bind, Prog.ret_bind]
  refine ⟨rfl, fun r hr => ?_⟩
  cases r with
  | error e => trivial
  | ok fresh =>
    obtain ⟨hkey, hpeer⟩ := hr
    exact ⟨⟨fresh, hkey, hpeer, now, fresh.publicIP, fresh.country, rfl⟩, fun _ _ => trivial⟩

/-- Starting the lookup of a country is one operation at most. -/
theorem resolveCountryAsync_meets {c : Contract Op.Res} (h : c.guar (.lookupCountry key ip)) :
    (resolveCountryAsync key ip).Meets c fun _ => True := by
  unfold resolveCountryAsync
  split
  · trivial
  · split
    · trivial
    · exact ⟨h, fun _ _ => trivial⟩

/-- What the lookup found is saved with the peer as it is then. -/
theorem resolveCountry_meets (country : Except String String) :
    (resolveCountry key ip country err).Meets (agentContract key ConnectionEdit as)
      fun _ => True := by
  cases country with
  | error e => trivial
  | ok country =>
    simp only [resolveCountry, Call.getPeer, Call.savePeer, Prog.op_bind, Prog.ret_bind]
    refine ⟨rfl, fun r hr => ?_⟩
    cases r with
    | error e => trivial
    | ok peer =>
      obtain ⟨hkey, hpeer⟩ := hr
      dsimp only
      -- a peer that has moved on keeps what it has
      split
      · trivial
      · exact ⟨⟨peer, hkey, hpeer, peer.lastSeen, peer.publicIP, country, rfl⟩,
          fun _ _ => trivial⟩

/-- Opening a stream edits the peer about its connection. -/
theorem syncOpen_meets (stream : Nat) :
    (syncOpen env ctx stream key).Meets (agentContract key ConnectionEdit as)
      fun _ => True := by
  unfold syncOpen
  split
  · trivial
  · split
    · trivial
    · simp only [Call.getPeer, Call.registerSub, Call.savePeer, Prog.op_bind, Prog.ret_bind]
      refine ⟨rfl, fun r hr => ?_⟩
      cases r with
      | error e => trivial
      | ok peer =>
        obtain ⟨hkey, hpeer⟩ := hr
        refine ⟨rfl, fun _ _ => ?_⟩
        have htouch : (touchLastSeen (env.now 0) (env.fails 0) peer.wgPubKey).Meets
            (agentContract key ConnectionEdit as) fun _ => True := by
          rw [hkey]
          exact touchLastSeen_meets _
        refine htouch.bind fun _ _ => ?_
        split
        · -- the peer that is saved was read before `touchLastSeen` saved its own
          refine ⟨⟨peer, hkey, hpeer, peer.lastSeen, ctx.sourceIP, peer.country, rfl⟩,
            fun r _ => ?_⟩
          cases r with
          | error e => trivial
          | ok _ => exact (resolveCountryAsync_meets hkey).bind fun _ _ => trivial
        · trivial

/-- Closing a stream edits the peer about its connection. -/
theorem syncClose_meets (accountID : String) :
    (syncClose env key accountID).Meets (agentContract key ConnectionEdit as)
      fun _ => True := by
  simp only [syncClose, Call.unregisterSub, Call.notifyAll, Prog.op_bind, Prog.ret_bind]
  refine ⟨rfl, fun _ _ => ?_⟩
  exact (touchLastSeen_meets _).bind fun _ _ => ⟨trivial, fun _ _ => trivial⟩

/-- `UpdatePeerMeta` edits the metadata of the peer. -/
theorem updatePeerMeta_meets (peerMeta : Option Commonv1.PeerMeta) :
    (updatePeerMeta env ctx key peerMeta).Meets (agentContract key (MetaEdit peerMeta) as)
      fun _ => True := by
  unfold updatePeerMeta
  -- the key has to be given, and to be that of the token
  split
  · trivial
  · split
    · trivial
    · simp only [Call.getPeer, Call.savePeer, Prog.op_bind, Prog.ret_bind]
      refine ⟨rfl, fun r hr => ?_⟩
      cases r with
      | error e => trivial
      | ok peer =>
        obtain ⟨hkey, hpeer⟩ := hr
        refine ⟨⟨peer, hkey, hpeer, _, _, rfl⟩, fun r _ => ?_⟩
        cases r <;> trivial

/-! ## `Login` -/

/-- The operations of a `Login`: it saves a record of the setup key's account, under a
    public key that nobody or a peer of that account has. -/
def LoginMay (req : LoginRequest) (as : Assumes) : Op → Prop
  | .getSetupKey k _ => k = req.setupKey
  | .allocate k | .getPeer k | .lookupCountry k _ => k = req.wgPubKey
  | .savePeer p _ => p.wgPubKey = req.wgPubKey ∧
    ∃ sk, sk.key = req.setupKey ∧ as.setupKey sk ∧ p.accountID = sk.accountID ∧
      (as.noPeer req.wgPubKey ∨ ∃ p₀, as.peer req.wgPubKey p₀ ∧ p₀.accountID = sk.accountID)
  | .incrementSetupKeyUsage id .. => ∃ sk, sk.key = req.setupKey ∧ as.setupKey sk ∧ sk.id = id
  | .notifyAll _ => True
  | _ => False

/-- The contract of a `Login`. -/
def loginContract (req : LoginRequest) (as : Assumes) : Contract Op.Res where
  rely := as.rely
  guar := LoginMay req as

/-- A `Login` that succeeds returns a token for the key of the request, issued at its end. -/
def TokenFor (env : Env) (req : LoginRequest) : Except Status LoginResponse → Prop
  | .error _ => True
  | .ok resp => ∃ id account, resp.token = issueToken (env.now 3) id req.wgPubKey account

/-- What a contract has to permit for a `Login` to meet it. -/
structure LoginPermits (env : Env) (ctx : Ctx) (req : LoginRequest) (as : Assumes)
    (c : Contract Op.Res) : Prop where
  rely : ∀ o r, c.rely o r → as.rely o r
  getSetupKey : ∀ now, c.guar (.getSetupKey req.setupKey now)
  allocate : c.guar (.allocate req.wgPubKey)
  getPeer : c.guar (.getPeer req.wgPubKey)
  create : ∀ sk ip, sk.key = req.setupKey → as.setupKey sk → as.noPeer req.wgPubKey →
    c.guar (.savePeer (newPeer env ctx req sk ip) (env.fails 0))
  renew : ∀ sk ip existing, sk.key = req.setupKey → as.setupKey sk →
    as.peer req.wgPubKey existing → existing.accountID = sk.accountID →
    c.guar (.savePeer (reenroll (newPeer env ctx req sk ip) existing) (env.fails 0))
  increment : ∀ sk, sk.key = req.setupKey → as.setupKey sk →
    c.guar (.incrementSetupKeyUsage sk.id env.orders.setupKeys (env.fails 1))
  lookupCountry : ∀ ip, c.guar (.lookupCountry req.wgPubKey ip)
  notifyAll : ∀ accountID, c.guar (.notifyAll accountID)

section Permitted

variable {req : LoginRequest} {c : Contract Op.Res}

/-- The end of `Login`: the save, the count, the lookup, the notification and the token. -/
theorem LoginPermits.enroll (h : LoginPermits env ctx req as c) (network : String)
    {sk : Domain.SetupKey} {p : Domain.Peer} (hsk : sk.key = req.setupKey) (has : as.setupKey sk)
    (hkey : p.wgPubKey = req.wgPubKey) (hsave : c.guar (.savePeer p (env.fails 0))) :
    (enroll network env sk ip p).Meets c (TokenFor env req) := by
  simp only [Management.enroll, Call.savePeer, Call.incrementSetupKeyUsage, Call.notifyAll,
    Prog.op_bind, Prog.ret_bind]
  refine ⟨hsave, fun r _ => ?_⟩
  cases r with
  | error e => trivial
  | ok _ =>
    refine ⟨h.increment sk hsk has, fun _ _ => ?_⟩
    have hlookup : c.guar (.lookupCountry p.wgPubKey p.publicIP) := by
      rw [hkey]
      exact h.lookupCountry p.publicIP
    -- the token carries the key of the request
    have htoken : TokenFor env req (.ok
        { peerId := p.id
          token := issueToken (env.now 3) p.id p.wgPubKey p.accountID
          networkConfig :=
            { address := ip ++ "/32", network, serial := toString (env.now 4) } }) :=
      ⟨p.id, p.accountID, by rw [hkey]⟩
    exact (resolveCountryAsync_meets hlookup).bind fun _ _ =>
      ⟨h.notifyAll p.accountID, fun _ _ => htoken⟩

/-- A `Login` does what is listed and nothing else. -/
theorem LoginPermits.login (h : LoginPermits env ctx req as c) (network : String)
    (allowed : Bool) : (login network env ctx allowed req).Meets c (TokenFor env req) := by
  unfold Management.login
  split
  · trivial
  · split
    · trivial
    · -- the operations of the handler, in its order: the key, the address, the peer
      simp only [Call.getSetupKey, Call.allocate, Call.getPeer, Prog.op_bind, Prog.ret_bind]
      refine ⟨h.getSetupKey _, fun r hr => ?_⟩
      have hrely := h.rely _ r hr
      cases r with
      | error e => trivial
      | ok sk =>
        obtain ⟨hkey, hsk⟩ := hrely
        dsimp only
        split
        · trivial
        · refine ⟨h.allocate, fun r _ => ?_⟩
          cases r with
          | error e => trivial
          | ok ip =>
            refine ⟨h.getPeer, fun r hr => ?_⟩
            have hrely := h.rely _ r hr
            cases r with
            | error e => exact h.enroll network hkey hsk rfl (h.create sk ip hkey hsk hrely)
            | ok existing =>
              dsimp only
              split
              · trivial
              · rename_i hacc
                exact h.enroll network hkey hsk rfl
                  (h.renew sk ip existing hkey hsk hrely.2 (not_not.mp hacc))

end Permitted

/-- `Login` keeps to its contract. -/
theorem login_meets (network : String) (allowed : Bool) (req : LoginRequest) :
    (login network env ctx allowed req).Meets (loginContract req as) (TokenFor env req) := by
  have hpermits : LoginPermits env ctx req as (loginContract req as) :=
    { rely := fun _ _ h => h
      getSetupKey := fun _ => rfl
      allocate := rfl
      getPeer := rfl
      create := fun sk _ hkey hsk hno => ⟨rfl, sk, hkey, hsk, rfl, .inl hno⟩
      renew := fun sk _ existing hkey hsk hex hacc =>
        ⟨rfl, sk, hkey, hsk, rfl, .inr ⟨existing, hex, hacc⟩⟩
      increment := fun sk hkey hsk => ⟨sk, hkey, hsk, rfl⟩
      lookupCountry := fun _ => rfl
      notifyAll := fun _ => trivial }
  exact hpermits.login network allowed

end Agent

end Blinex.Native.Management
