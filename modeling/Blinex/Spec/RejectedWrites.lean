import Blinex.Spec.RestNotify

/-!
# Rejected requests

A REST request that is answered with a 4xx status should leave the store as it was. In the
in-memory store `GetPeer` hands out the record itself, and `updatePeer` assigns the groups before
it checks the hostname; no other handler writes anything before its last check.
-/

namespace Blinex.Native.Management

open Blinex.Go

variable {env : Env} {claims : Claims}

/-- If the program answers with a 4xx status, it has not changed the store. -/
def KeepsIfRejected (p : M Response) (s : Server) : Prop :=
  (p.run Server.exec s).1.rejected = true → (p.run Server.exec s).2.store = s.store

/-! ## Programs that check before they write -/

theorem NeverRejects.absurd {p : M Response} (h : NeverRejects p) {s : Server}
    (hrej : (p.run Server.exec s).1.rejected = true) : False :=
  Bool.false_ne_true ((h s).symm.trans hrej)

/-- A program that never rejects has nothing to keep. -/
theorem NeverRejects.keeps {p : M Response} (h : NeverRejects p) (s : Server) :
    KeepsIfRejected p s := fun hrej => (h.absurd hrej).elim

theorem KeepsIfRejected.ret (r : Response) (s : Server) : KeepsIfRejected (.ret r) s := fun _ => rfl

/-- An operation that changes the store only if no check follows. -/
theorem KeepsIfRejected.op {o : Op} {next : o.Res → M Response} {s : Server}
    (hop : (Server.exec o s).2.store = s.store ∨ NeverRejects (next (Server.exec o s).1))
    (hnext : ∀ r s', KeepsIfRejected (next r) s') : KeepsIfRejected (.op o next) s := by
  intro hrej
  rcases hop with hsame | hnever
  · exact (hnext _ _ hrej).trans hsame
  · exact (hnever.absurd hrej).elim

/-- What only writes once it does not reject any more. -/
theorem ChecksFirst.keeps {E : M Response → Prop} {p : M Response} (h : ChecksFirst E p)
    (hE : ∀ p, E p → NeverRejects p) (s : Server) : KeepsIfRejected p s := by
  induction h generalizing s with
  | refuse _ => exact .ret _ _
  | read hquiet _ ih => exact .op (.inl (congrArg Server.store (hquiet s))) fun r s => ih r s
  | last h => exact (hE _ h).keeps s

/-- `createGroup` writes last. -/
private theorem createGroup_checksFirst (body : Except String String) :
    ChecksFirst NeverRejects (createGroup env claims body) := by
  simp only [createGroup, Call.getGroupsByAccount, Call.createGroup, Prog.op_bind, Prog.ret_bind]
  split
  · exact .refuse rfl
  · split
    · exact .refuse rfl
    · refine .read (fun s => read_state ..) fun r => ?_
      cases r with
      | error e => exact .refuse rfl
      | ok existing =>
        dsimp only
        split
        · exact .refuse rfl
        · -- all checks are behind, the write is the last operation
          refine .last (.op fun r => ?_)
          cases r <;> exact .ret rfl

/-- `createSetupKey` writes last. -/
private theorem createSetupKey_checksFirst (body : Except String CreateSetupKeyRequest) :
    ChecksFirst NeverRejects (createSetupKey env claims body) := by
  simp only [createSetupKey, Call.createSetupKey, Prog.op_bind, Prog.ret_bind]
  split
  · exact .refuse rfl
  · split
    · exact .refuse (invalidGroup_success ‹_›)
    · refine .last (.op fun r => ?_)
      cases r <;> exact .ret rfl

/-- `deletePeer` checks the account before it deletes. -/
private theorem deletePeer_checksFirst (key : String) :
    ChecksFirst NeverRejects (deletePeer env claims key) := by
  simp only [deletePeer, Call.getPeer, Call.deletePeer, Call.revokeByWGKey, Call.releaseIP,
    Prog.op_bind, Prog.ret_bind]
  refine .read (fun s => rfl) fun r => ?_
  cases r with
  | error e => exact .refuse rfl
  | ok peer =>
    dsimp only
    split
    · exact .refuse rfl
    · -- what follows the deletion cannot be refused any more
      refine .last (.op fun r => ?_)
      cases r with
      | error e => exact .ret rfl
      | ok _ => exact .op fun _ => .op fun _ => .ret rfl

/-! ## Deleting -/

section Delete

variable {st : Store} {accountID id e : String}

/-- A key that is not found is not deleted. -/
private theorem deleteSetupKey_error {order : List String} :
    (st.deleteSetupKey accountID id order).1 = .error e →
      (st.deleteSetupKey accountID id order).2 = st := by
  unfold Store.deleteSetupKey
  split
  · intro h
    cases h
  · exact fun _ => rfl

/-- A group that is not found, or of another account, is not deleted. -/
private theorem deleteGroup_error :
    (st.deleteGroup accountID id).1 = .error e → (st.deleteGroup accountID id).2 = st := by
  unfold Store.deleteGroup
  split
  · exact fun _ => rfl
  · split
    · exact fun _ => rfl
    · intro h
      cases h

/-- The same of a rule. -/
private theorem deleteRule_error :
    (st.deleteRule accountID id).1 = .error e → (st.deleteRule accountID id).2 = st := by
  unfold Store.deleteRule
  split
  · exact fun _ => rfl
  · split
    · exact fun _ => rfl
    · intro h
      cases h

end Delete

/-- A deletion that does not succeed changes nothing. -/
private theorem change_store {s : Server} (err : Option String) {r : Except String Unit × Store}
    (hr : ∀ e, r.1 = .error e → r.2 = s.store) :
    (s.change err r).2.store = s.store ∨ (s.change err r).1 = .ok () := by
  cases err with
  | some e => exact .inl rfl
  | none =>
    obtain ⟨res, store⟩ := r
    cases res with
    | error e => exact .inl (hr e rfl)
    | ok _ => exact .inr rfl

/-- `deleteGroup` rejects the default group, and what the store does not find. -/
private theorem deleteGroup_keeps (id : String) (s : Server) :
    KeepsIfRejected (deleteGroup env claims id) s := by
  simp only [deleteGroup, Call.getGroupsByAccount, Call.deleteGroup, Prog.op_bind, Prog.ret_bind]
  refine .op (.inl (congrArg Server.store (read_state ..))) fun r s => ?_
  cases r with
  | error e => exact .ret _ _
  | ok groups =>
    dsimp only
    split
    · exact .ret _ _
    · -- the store looks for the group; where it refuses, it has changed nothing
      refine .op ((change_store _ fun e => deleteGroup_error).imp_right fun hok => ?_) fun r s => ?_
      · simp only [Server.exec, hok]
        exact .ret rfl
      · cases r <;> exact .ret _ _

/-- `deleteSetupKey` leaves the check to the store. -/
private theorem deleteSetupKey_keeps (id : String) (s : Server) :
    KeepsIfRejected (deleteSetupKey env claims id) s := by
  simp only [deleteSetupKey, Call.deleteSetupKey, Prog.op_bind, Prog.ret_bind]
  refine .op ((change_store _ fun e => deleteSetupKey_error).imp_right fun hok => ?_) fun r s => ?_
  · simp only [Server.exec, hok]
    exact .ret rfl
  · cases r <;> exact .ret _ _

/-- `deleteRule` leaves it to the store as well. -/
private theorem deleteRule_keeps (id : String) (s : Server) :
    KeepsIfRejected (deleteRule env claims id) s := by
  simp only [deleteRule, Call.deleteRule, Call.notifyAll, Prog.op_bind, Prog.ret_bind]
  refine .op ((change_store _ fun e => deleteRule_error).imp_right fun hok => ?_) fun r s => ?_
  · simp only [Server.exec, hok]
    exact .op fun _ => .ret rfl
  · cases r with
    | error e => exact .ret _ _
    | ok _ => exact .op (.inl rfl) fun _ s => .ret _ _

/-! ## Listing -/

/-- Listing the peers fails or succeeds, but does not reject. -/
private theorem listPeers_neverRejects : NeverRejects (listPeers env claims) := by
  simp only [listPeers, Call.getPeersByAccount, Call.connectedKeys, Prog.op_bind, Prog.ret_bind]
  refine .op fun r => ?_
  cases r with
  | error e => exact .ret rfl
  | ok peers => exact .op fun _ => .ret rfl

/-- The same of the groups. -/
private theorem listGroups_neverRejects : NeverRejects (listGroups env claims) := by
  simp only [listGroups, Call.getGroupsByAccount, Call.getPeersByAccount, Prog.op_bind,
    Prog.ret_bind]
  refine .op fun r => ?_
  cases r with
  | error e => exact .ret rfl
  | ok groups =>
    refine .op fun r => ?_
    cases r <;> exact .ret rfl

private theorem listSetupKeys_neverRejects : NeverRejects (listSetupKeys env claims) := by
  simp only [listSetupKeys, Call.getSetupKeysByAccount, Prog.op_bind, Prog.ret_bind]
  refine .op fun r => ?_
  cases r <;> exact .ret rfl

private theorem listRules_neverRejects : NeverRejects (listRules env claims) := by
  simp only [listRules, Call.getRulesByAccount, Prog.op_bind, Prog.ret_bind]
  refine .op fun r => ?_
  cases r <;> exact .ret rfl

/-! ## Updating a peer -/

theorem KeepsIfRejected.getPeer {s : Server} {key : String}
    {next : Except String Domain.Peer → M Response}
    (h : KeepsIfRejected (next (s.store.getPeer key)) s) :
    KeepsIfRejected (.op (.getPeer key) next) s := h

/-- The hostname that `updatePeer` rejects. -/
def badHostname (hostname : String) : Bool :=
  Strings.trimSpace hostname = "" || 63 < Strings.byteLen (Strings.trimSpace hostname)

/-- An admin updates a peer of the account, with valid groups that are not the peer's and a
    hostname that is not valid. -/
structure HalfValid (st : Store) (claims : Claims) (key : String) (req : UpdatePeerRequest) :
    Prop where
  row : ∃ peer, st.peers.rows key = some peer ∧ peer.accountID = claims.accountID ∧
    ensureDefaultGroup req.groups ≠ peer.groups
  groups : ∀ g ∈ req.groups, isValidGroupName g = true
  hostname : ∃ hostname, req.hostname = some hostname ∧ badHostname hostname = true

/-- No group is invalid if every one is valid. -/
private theorem invalidGroup_eq_none_iff {groups : List String} :
    invalidGroup groups = none ↔ ∀ g ∈ groups, isValidGroupName g = true := by
  simp [invalidGroup]

/-- Assigning the groups that the peer has changes nothing. -/
private theorem assignPeer_self {st : Store} {key : String} {peer : Domain.Peer}
    (hrow : st.peers.rows key = some peer) : st.assignPeer peer = st := by
  have hkey : peer.wgPubKey = key := st.peers.keyed key peer hrow
  have hsave : st.peers.save peer = st.peers := Table.save_eq_self (by rw [hkey, hrow])
  unfold Store.assignPeer
  split
  · rw [hsave]
  · rfl

/-- Assigning other groups changes the store. -/
private theorem assignPeer_ne {st : Store} (hlive : st.live = true) {key : String}
    {peer : Domain.Peer}
    (hrow : st.peers.rows key = some peer) {groups : List String} (hne : groups ≠ peer.groups) :
    st.assignPeer { peer with groups } ≠ st := by
  have hkey : peer.wgPubKey = key := st.peers.keyed key peer hrow
  have hassign : (st.assignPeer { peer with groups }).peers.rows key =
      some { peer with groups } := by
    simp [Store.assignPeer, hlive, hkey, hrow]
  intro heq
  rw [heq, hrow] at hassign
  exact hne (congrArg Domain.Peer.groups (Option.some.inj hassign)).symm

section UpdatePeer

variable {s : Server} {key : String} {peer : Domain.Peer} {req : UpdatePeerRequest}

/-- For a peer of the account and with valid groups: the groups are assigned, and then the
    hostname is checked. -/
private theorem run_updatePeer (hrow : s.store.peers.rows key = some peer)
    (hacc : peer.accountID = claims.accountID) (hgroups : invalidGroup req.groups = none)
    {hostname : String} (hhost : req.hostname = some hostname)
    (hbad : badHostname hostname = true) :
    (updatePeer env claims key (.ok req)).run Server.exec s =
      (fail 400 "hostname must be 1-63 characters", { s with
        store := s.store.assignPeer { peer with groups := ensureDefaultGroup req.groups } }) := by
  have hget : s.store.getPeer key = .ok peer := by
    rw [Store.getPeer, hrow]
  have hbad' : Strings.trimSpace hostname = "" ∨
      63 < Strings.byteLen (Strings.trimSpace hostname) := by
    simpa [badHostname] using hbad
  simp [updatePeer, Call.getPeer, Call.assignPeer, Server.exec, hget, hacc, hgroups, hhost, hbad']

/-- Whatever else `updatePeer` rejects, it rejects before it assigns anything. -/
private theorem updatePeer_keeps {body : Except String UpdatePeerRequest}
    (h : ∀ req, body = .ok req → ¬ HalfValid s.store claims key req) :
    KeepsIfRejected (updatePeer env claims key body) s := by
  simp only [updatePeer, Call.getPeer, Call.assignPeer, Prog.op_bind, Prog.ret_bind]
  refine .getPeer ?_
  cases hget : s.store.getPeer key with
  | error e => exact .ret _ _
  | ok peer =>
    have hrow := Store.getPeer_eq_ok hget
    dsimp only
    split
    · exact .ret _ _
    · rename_i hacc
      have hacc : peer.accountID = claims.accountID := not_not.mp hacc
      cases body with
      | error e => exact .ret _ _
      | ok req =>
        dsimp only
        split
        · exact .ret _ _
        · rename_i hgroups
          have hgroups : ∀ g ∈ req.groups, isValidGroupName g = true :=
            invalidGroup_eq_none_iff.mp (Option.eq_none_iff_forall_ne_some.mpr hgroups)
          -- from the assignment on only the hostname is checked
          cases hhost : req.hostname with
          | none =>
            exact NeverRejects.keeps (.op fun _ => (finishUpdatePeer_finishes _).neverRejects) s
          | some hostname =>
            -- a bad hostname is refused after the groups are assigned
            by_cases hbad : Strings.trimSpace hostname = "" ∨
                63 < Strings.byteLen (Strings.trimSpace hostname)
            · simp only [hbad, ↓reduceIte]
              have hsame : ensureDefaultGroup req.groups = peer.groups := by
                by_contra hne
                exact h req rfl ⟨⟨peer, hrow, hacc, hne⟩, hgroups, hostname, hhost,
                  by simpa [badHostname] using hbad⟩
              rw [hsame]
              exact .op (.inl (assignPeer_self hrow)) fun _ s => .ret _ s
            · simp only [hbad, ↓reduceIte]
              exact NeverRejects.keeps (.op fun _ => (finishUpdatePeer_finishes _).neverRejects) s

end UpdatePeer

/-! ## Every request -/

/-- The request is one to update a peer, and is half valid. -/
def AssignsBeforeRejecting (st : Store) (claims : Claims) : RestRequest → Prop
  | .updatePeer key (.ok req) => claims.role = "admin" ∧ HalfValid st claims key req
  | _ => False

/-- Where a handler rejects, it keeps the store, `updatePeer` unless its request is half valid. -/
private theorem route_keeps {s : Server} {req : RestRequest}
    (h : ∀ key body, req = .updatePeer key (.ok body) → ¬ HalfValid s.store claims key body) :
    KeepsIfRejected (route env claims req) s := by
  cases req with
  | listPeers => exact listPeers_neverRejects.keeps s
  -- the handler that writes before its last check
  | updatePeer key body =>
    exact updatePeer_keeps fun req hbody => h key req (by rw [hbody])
  | deletePeer key => exact (deletePeer_checksFirst key).keeps (fun _ h => h) s
  | setPeerRoutes key body =>
    exact (setPeerRoutes_checksFirst key body).keeps (fun _ h => h.neverRejects) s
  | setPeerExitNode key body =>
    exact (setPeerExitNode_checksFirst key body).keeps (fun _ h => h.neverRejects) s
  | listGroups => exact listGroups_neverRejects.keeps s
  | createGroup body => exact (createGroup_checksFirst body).keeps (fun _ h => h) s
  | deleteGroup id => exact deleteGroup_keeps id s
  | listSetupKeys => exact listSetupKeys_neverRejects.keeps s
  | createSetupKey body => exact (createSetupKey_checksFirst body).keeps (fun _ h => h) s
  | deleteSetupKey id => exact deleteSetupKey_keeps id s
  | listRules => exact listRules_neverRejects.keeps s
  | createRule body => exact (createRule_checksFirst body).keeps (fun _ h => h.neverRejects) s
  | updateRule id body => exact (updateRule_checksFirst id body).keeps (fun _ h => h.neverRejects) s
  | deleteRule id => exact deleteRule_keeps id s

/-- In the in-memory store: a REST request that is answered with a 4xx status leaves the store as
    it was, exactly if it is not an update of a peer with valid new groups and a hostname that is
    not valid. -/
theorem rejected_unchanged_iff (env : Env) (claims : Claims) (req : RestRequest) (s : Server)
    (hlive : s.store.live = true) :
    KeepsIfRejected (serveREST env claims req) s ↔
      ¬ AssignsBeforeRejecting s.store claims req := by
  constructor
  · intro hkeeps hreq
    -- only an update of a peer is such a request
    unfold AssignsBeforeRejecting at hreq
    split at hreq
    · rename_i key body
      obtain ⟨hadmin, ⟨peer, hrow, hacc, hne⟩, hgroups, hostname, hhost, hbad⟩ := hreq
      have hserve : serveREST env claims (.updatePeer key (.ok body)) =
          updatePeer env claims key (.ok body) := by
        simp [serveREST, RestRequest.forAll, hadmin, route]
      have hrun : (updatePeer env claims key (.ok body)).run Server.exec s = _ :=
        run_updatePeer hrow hacc (invalidGroup_eq_none_iff.mpr hgroups) hhost hbad
      rw [hserve, KeepsIfRejected, hrun] at hkeeps
      exact assignPeer_ne hlive hrow hne (hkeeps rfl)
    · exact hreq
  · intro h
    unfold serveREST
    split
    · exact .ret _ _
    · rename_i hguard
      refine route_keeps ?_
      rintro key body rfl hhalf
      have hadmin : claims.role = "admin" := by
        simpa [RestRequest.forAll] using hguard
      exact h ⟨hadmin, hhalf⟩

/-- `twoPeers` in the in-memory store. -/
def twoPeersLive : Server := { twoPeers with store := { twoPeers.store with live := true } }

/-- A route that is not a network is refused, and nothing changes. -/
theorem bad_route_unchanged :
    twoPeersLive.store.live = true ∧
    ((serveREST { uuid := fun _ => "" } acmeAdmin (.setPeerRoutes "K" (.ok ["10.0.0.0"]))).run
      Server.exec twoPeersLive).1 = fail 400 "invalid CIDR: 10.0.0.0" ∧
    ((serveREST { uuid := fun _ => "" } acmeAdmin (.setPeerRoutes "K" (.ok ["10.0.0.0"]))).run
      Server.exec twoPeersLive).2.store = twoPeersLive.store := by
  have hanswer : ((serveREST { uuid := fun _ => "" } acmeAdmin
      (.setPeerRoutes "K" (.ok ["10.0.0.0"]))).run Server.exec twoPeersLive).1 =
        fail 400 "invalid CIDR: 10.0.0.0" := by
    decide +kernel
  have hrejected := congrArg Response.rejected hanswer
  exact ⟨rfl, hanswer, (rejected_unchanged_iff _ _ _ twoPeersLive rfl).mpr id hrejected⟩

/-- A blank hostname is refused, and the new groups have been stored. -/
theorem bad_hostname_changes_groups :
    twoPeersLive.store.live = true ∧
    ((serveREST { uuid := fun _ => "" } acmeAdmin
      (.updatePeer "K" (.ok { groups := ["ops"], hostname := some " " }))).run
        Server.exec twoPeersLive).1 = fail 400 "hostname must be 1-63 characters" ∧
    ((serveREST { uuid := fun _ => "" } acmeAdmin
      (.updatePeer "K" (.ok { groups := ["ops"], hostname := some " " }))).run
        Server.exec twoPeersLive).2.store ≠ twoPeersLive.store := by
  refine ⟨rfl, by decide +kernel, fun heq => ?_⟩
  have hgroups := congrArg (fun st : Store => (st.peers.rows "K").map Domain.Peer.groups) heq
  exact absurd hgroups (by decide +kernel)

end Blinex.Native.Management
