import Blinex.Spec.HandlerContracts

/-!
# Tenant isolation

One store holds the records of all accounts. `tenant_isolation` has two halves. Writes:
in any sequence of requests, those with REST claims or a setup key of an account leave
every record of the other accounts alone, and a call with a peer token changes at most
the record of the peer in the token. Reads: what a REST request or a `Sync` stream of an
account is answered is a function of the account's own records, up to the order in which
the store lists them, and of whether the public key in the path belongs to somebody else.
-/

namespace Blinex.Native.Management

/-! ## The records of the other accounts -/

/-- The two stores have the same records outside the account. -/
structure SameElsewhere (accountID : String) (st st' : Store) : Prop where
  setupKeys : PMap.AgreeOn (fun sk => sk.accountID ≠ accountID) st.setupKeys.rows
    st'.setupKeys.rows
  groups : PMap.AgreeOn (fun g => g.accountID ≠ accountID) st.groups.rows st'.groups.rows
  peers : PMap.AgreeOn (fun p => p.accountID ≠ accountID) st.peers.rows st'.peers.rows
  rules : PMap.AgreeOn (fun r => r.accountID ≠ accountID) st.rules.rows st'.rules.rows

theorem SameElsewhere.refl (accountID : String) (st : Store) : SameElsewhere accountID st st :=
  ⟨.refl _ _, .refl _ _, .refl _ _, .refl _ _⟩

/-- A setup key's ID names one key. -/
def DistinctIDs (st : Store) : Prop :=
  ∀ key key' sk sk', st.setupKeys.rows key = some sk → st.setupKeys.rows key' = some sk' →
    sk.id = sk'.id → key = key'

/-- Nobody outside the account has a row under this key. -/
def Free {V : Type} (account : V → String) (accountID : String) (m : PMap String V)
    (key : String) : Prop :=
  ∀ v, m key = some v → ¬ account v ≠ accountID

/-- The operations that stay within the account, in terms of the store `st` at the
    beginning of the request. `fresh` are the keys and IDs of new setup keys. -/
def TenantMay (accountID : String) (st : Store) (fresh : String → String → Prop) : Op → Prop
  | .createSetupKey sk _ => sk.accountID = accountID ∧
    Free Domain.SetupKey.accountID accountID st.setupKeys.rows sk.key ∧ fresh sk.key sk.id
  | .deleteSetupKey acc .. | .deleteGroup acc .. | .deleteRule acc .. => acc = accountID
  | .incrementSetupKeyUsage id .. =>
    ∀ key sk, st.setupKeys.rows key = some sk → sk.id = id → sk.accountID = accountID
  | .createGroup g _ =>
    g.accountID = accountID ∧ Free Domain.Group.accountID accountID st.groups.rows g.id
  | .assignPeer p | .savePeer p _ =>
    p.accountID = accountID ∧ Free Domain.Peer.accountID accountID st.peers.rows p.wgPubKey
  | .deletePeer key _ => Free Domain.Peer.accountID accountID st.peers.rows key
  | .saveRule r _ =>
    r.accountID = accountID ∧ Free Domain.Rule.accountID accountID st.rules.rows r.id
  | _ => True

/-- What a request of the account knows about the records it is handed. -/
def tenantAssumes (accountID : String) (st : Store) (fresh : String → String → Prop) :
    Assumes where
  peer key p := p.accountID = accountID → Free Domain.Peer.accountID accountID st.peers.rows key
  noPeer key := Free Domain.Peer.accountID accountID st.peers.rows key
  rule r := r.accountID = accountID →
    Free Domain.Rule.accountID accountID st.rules.rows r.id
  setupKey sk := fresh sk.key sk.id ∨
    ∃ sk₀, st.setupKeys.rows sk.key = some sk₀ ∧ sk₀.id = sk.id ∧ sk₀.accountID = sk.accountID

/-- A request that stays within its account. -/
def tenantContract (accountID : String) (st : Store) (fresh : String → String → Prop) :
    Contract Op.Res where
  rely := (tenantAssumes accountID st fresh).rely
  guar := TenantMay accountID st fresh

/-- The other accounts' records are those of `st`, and so are the setup keys' IDs. -/
structure WithinTenant (accountID : String) (st : Store) (fresh : String → String → Prop)
    (s : Server) : Prop where
  same : SameElsewhere accountID st s.store
  setupKey : ∀ key sk, s.store.setupKeys.rows key = some sk → fresh key sk.id ∨
    ∃ sk₀, st.setupKeys.rows key = some sk₀ ∧ sk₀.id = sk.id ∧ sk₀.accountID = sk.accountID

section Write

variable {accountID : String} {st : Store} {fresh : String → String → Prop} {s : Server}

/-- What was read within the account is as the contract says. -/
theorem WithinTenant.holds (h : WithinTenant accountID st fresh s) :
    (tenantAssumes accountID st fresh).Holds s.store where
  peer key p hp hacc := h.same.peers.not_of_some hp (not_not.mpr hacc)
  noPeer key hp := h.same.peers.not_of_none hp
  rule id r hr hacc := by
    obtain rfl := s.store.rules.keyed id r hr
    exact h.same.rules.not_of_some hr (not_not.mpr hacc)
  setupKey key sk hsk := by
    obtain rfl := s.store.setupKeys.keyed key sk hsk
    exact h.setupKey sk.key sk hsk

/-- An operation within the account leaves the others' records alone. -/
theorem WithinTenant.step {o : Op} {st' : Store} (h : WithinTenant accountID st fresh s)
    (hmay : TenantMay accountID st fresh o) (hstep : StoreStep s.store o st') :
    WithinTenant accountID st fresh { s with store := st' } := by
  cases hstep with
  | createSetupKey sk =>
    obtain ⟨hacc, hfree, hfresh⟩ := hmay
    refine ⟨{ h.same with setupKeys := h.same.setupKeys.set hfree (not_not.mpr hacc) },
      fun key sk' hsk' => ?_⟩
    -- the new key is one of `fresh`, the others stay
    rcases PMap.set_eq_some _ hsk' with ⟨rfl, rfl⟩ | ⟨_, hsk'⟩
    · exact .inl hfresh
    · exact h.setupKey key sk' hsk'
  | @deleteSetupKey _ id order sk hrow hid hacc =>
    have hfree := h.same.setupKeys.not_of_some hrow (not_not.mpr (hacc.trans hmay))
    refine ⟨{ h.same with setupKeys := h.same.setupKeys.delete hfree }, fun key sk' hsk' => ?_⟩
    exact h.setupKey key sk' (PMap.delete_eq_some _ hsk').2
  | @incrementSetupKeyUsage id order sk hrow hid =>
    -- a key of another account would be in `st` too, with an ID the account does not have
    have hown : sk.accountID = accountID := by
      by_contra hne
      exact hne (hmay _ sk ((h.same.setupKeys _ sk hne).mpr hrow) hid)
    have hfree := h.same.setupKeys.not_of_some hrow (not_not.mpr hown)
    refine ⟨{ h.same with setupKeys := h.same.setupKeys.set hfree (not_not.mpr hown) },
      fun key sk' hsk' => ?_⟩
    rcases PMap.set_eq_some _ hsk' with ⟨rfl, rfl⟩ | ⟨_, hsk'⟩
    · exact h.setupKey _ sk hrow
    · exact h.setupKey key sk' hsk'
  | createGroup g =>
    exact ⟨{ h.same with groups := h.same.groups.set hmay.2 (not_not.mpr hmay.1) }, h.setupKey⟩
  | deleteGroup hrow hacc =>
    have hfree := h.same.groups.not_of_some hrow (not_not.mpr (hacc.trans hmay))
    exact ⟨{ h.same with groups := h.same.groups.delete hfree }, h.setupKey⟩
  | assignPeer p | savePeer p =>
    exact ⟨{ h.same with peers := h.same.peers.set hmay.2 (not_not.mpr hmay.1) }, h.setupKey⟩
  | deletePeer key => exact ⟨{ h.same with peers := h.same.peers.delete hmay }, h.setupKey⟩
  | saveRule r =>
    exact ⟨{ h.same with rules := h.same.rules.set hmay.2 (not_not.mpr hmay.1) }, h.setupKey⟩
  | deleteRule hrow hacc =>
    have hfree := h.same.rules.not_of_some hrow (not_not.mpr (hacc.trans hmay))
    exact ⟨{ h.same with rules := h.same.rules.delete hfree }, h.setupKey⟩

/-- The invariant holds after every operation of such a request. -/
private theorem tenantContract_keeps :
    (tenantContract accountID st fresh).Keeps Server.exec (WithinTenant accountID st fresh) := by
  intro o s hs hmay
  refine ⟨?_, exec_rely hs.holds o⟩
  rcases exec_store o s with heq | hstep
  · exact ⟨heq ▸ hs.same, heq ▸ hs.setupKey⟩
  · have hstore := hs.step hmay hstep
    exact ⟨hstore.same, hstore.setupKey⟩

/-! ## REST and `Login` -/

/-- The UUIDs that a REST request draws are new. -/
structure FreshIDs (env : Env) (st : Store) : Prop where
  group : st.groups.rows (env.uuid 0) = none
  rule : st.rules.rows (env.uuid 0) = none
  key : st.setupKeys.rows (env.uuid 1) = none
  setupKey : ∀ key sk, st.setupKeys.rows key = some sk → sk.id ≠ env.uuid 0

/-- The key and the ID that `createSetupKey` gives. -/
def Env.newKey (env : Env) (key id : String) : Prop := key = env.uuid 1 ∧ id = env.uuid 0

private theorem free_of_none {V : Type} {account : V → String} {m : PMap String V} {key : String}
    (h : m key = none) : Free account accountID m key := by
  intro v hv
  exact absurd (h.symm.trans hv) nofun

/-- An edit of a record of the account stays in the account. -/
private theorem Edited.tenant {key : String} {f : Domain.Peer → Domain.Peer} {p : Domain.Peer}
    (h : (tenantAssumes accountID st fresh).Edited accountID key f p)
    (hacc : ∀ p, (f p).accountID = p.accountID) (hkey : ∀ p, (f p).wgPubKey = p.wgPubKey) :
    p.accountID = accountID ∧ Free Domain.Peer.accountID accountID st.peers.rows p.wgPubKey := by
  obtain ⟨p₀, rfl, hpeer, hacc₀, rfl⟩ := h
  rw [hacc, hkey]
  exact ⟨hacc₀, hpeer hacc₀⟩

/-- What a REST request may do stays in the account of its claims. -/
private theorem May.tenant {env : Env} (hfresh : FreshIDs env st) {req : RestRequest} {o : Op}
    (h : req.May env accountID (tenantAssumes accountID st env.newKey) o) :
    TenantMay accountID st env.newKey o := by
  -- for every operation, the requests that may call it
  cases o with
  | savePeer p err =>
    cases req with
    | updatePeer key body =>
      obtain ⟨req, _, hp⟩ := h
      exact Edited.tenant hp (apply_accountID _ req) (apply_wgPubKey _ req)
    | setPeerRoutes key body =>
      obtain ⟨routes, _, hp⟩ := h
      exact Edited.tenant hp (fun _ => rfl) fun _ => rfl
    | setPeerExitNode key body =>
      obtain ⟨exitNode, _, hp⟩ := h
      exact Edited.tenant hp (fun _ => rfl) fun _ => rfl
    | _ => exact False.elim h
  | assignPeer p =>
    cases req with
    | updatePeer key body =>
      obtain ⟨req, _, hp⟩ := h
      exact Edited.tenant hp (fun _ => rfl) fun _ => rfl
    | _ => exact False.elim h
  | deletePeer k err =>
    cases req with
    | deletePeer key =>
      obtain ⟨rfl, p, p₀, hkey, hpeer, hacc, _⟩ := h
      exact hpeer hacc
    | _ => exact False.elim h
  | saveRule r err =>
    cases req with
    -- the ID of a new rule is drawn from the UUIDs
    | createRule body => exact ⟨h.1, h.2 ▸ free_of_none hfresh.rule⟩
    | updateRule id body =>
      obtain ⟨hacc, hid, r₀, hid₀, hrule, hacc₀⟩ := h
      refine ⟨hacc, ?_⟩
      rw [hid, ← hid₀]
      exact hrule hacc₀
    | _ => exact False.elim h
  | deleteRule acc i err =>
    cases req with
    | deleteRule id => exact h.1
    | _ => exact False.elim h
  | createGroup g err =>
    cases req with
    | createGroup body => exact ⟨h.1, h.2 ▸ free_of_none hfresh.group⟩
    | _ => exact False.elim h
  | deleteGroup acc i err =>
    cases req with
    | deleteGroup id => exact h.1
    | _ => exact False.elim h
  | createSetupKey sk err =>
    cases req with
    | createSetupKey body =>
      obtain ⟨hacc, hid, hkey⟩ := h
      exact ⟨hacc, hkey ▸ free_of_none hfresh.key, hkey, hid⟩
    | _ => exact False.elim h
  | deleteSetupKey acc i order err =>
    cases req with
    | deleteSetupKey id => exact h.1
    | _ => exact False.elim h
  | incrementSetupKeyUsage => cases req <;> exact False.elim h
  | _ => trivial

/-- A REST request stays within the account of its claims. -/
private theorem serveREST_tenant {env : Env} {claims : Claims} {req : RestRequest}
    (hfresh : FreshIDs env s.store) :
    WithinTenant claims.accountID s.store env.newKey
      ((serveREST env claims req).run Server.exec s).2 := by
  have hcontract : (serveREST env claims req).Meets
      (req.contract env claims.accountID (tenantAssumes claims.accountID s.store env.newKey))
      fun _ => True :=
    serveREST_meets req
  -- what the handler may do stays within the account
  have hmeets : (serveREST env claims req).Meets
      (tenantContract claims.accountID s.store env.newKey) fun _ => True :=
    hcontract.weaken (fun _ _ h => h) fun _ => May.tenant hfresh
  have hstart : WithinTenant claims.accountID s.store env.newKey s :=
    ⟨.refl _ _, fun key sk hsk => .inr ⟨sk, hsk, rfl, rfl⟩⟩
  exact (hmeets.run tenantContract_keeps hstart).1

/-- A `Login` stays in the account of its setup key. -/
private theorem LoginMay.tenant {req : LoginRequest} (hids : DistinctIDs st)
    (hkey : ∀ sk, st.setupKeys.rows req.setupKey = some sk → sk.accountID = accountID) {o : Op}
    (h : LoginMay req (tenantAssumes accountID st fun _ _ => False) o) :
    TenantMay accountID st (fun _ _ => False) o := by
  -- the setup key that was read is one of `st`, with the same ID and account
  have hread (sk : Domain.SetupKey) (hsk : sk.key = req.setupKey)
      (has : (tenantAssumes accountID st fun _ _ => False).setupKey sk) :
      sk.accountID = accountID ∧ ∃ sk₀, st.setupKeys.rows req.setupKey = some sk₀ ∧
        sk₀.id = sk.id := by
    rcases has with hfalse | ⟨sk₀, hrow, hid, hacc⟩
    · exact hfalse.elim
    · rw [hsk] at hrow
      exact ⟨hacc.symm.trans (hkey sk₀ hrow), sk₀, hrow, hid⟩
  cases o with
  | savePeer p err =>
    obtain ⟨hp, sk, hsk, has, hacc, hprev⟩ := h
    have hown := (hread sk hsk has).1
    refine ⟨hacc.trans hown, ?_⟩
    rw [hp]
    rcases hprev with hnone | ⟨p₀, hp₀, hacc₀⟩
    · exact hnone
    · exact hp₀ (hacc₀.trans hown)
  | incrementSetupKeyUsage id order err =>
    obtain ⟨sk, hsk, has, rfl⟩ := h
    obtain ⟨_, sk₀, hrow₀, hid₀⟩ := hread sk hsk has
    intro key sk' hrow' hid'
    -- the ID names the presented key only
    have hsame := hids key req.setupKey sk' sk₀ hrow' hrow₀ (hid'.trans hid₀.symm)
    rw [hsame] at hrow'
    exact hkey sk' hrow'
  | createSetupKey | deleteSetupKey | createGroup | deleteGroup | assignPeer | deletePeer
  | saveRule | deleteRule => exact False.elim h
  | _ => trivial

/-- A `Login` stays within the account of its setup key. -/
private theorem login_tenant {network : String} {env : Env} {ctx : Ctx} {allowed : Bool}
    {req : LoginRequest} (hids : DistinctIDs s.store)
    (hkey : ∀ sk, s.store.setupKeys.rows req.setupKey = some sk → sk.accountID = accountID) :
    WithinTenant accountID s.store (fun _ _ => False)
      ((login network env ctx allowed req).run Server.exec s).2 := by
  have hcontract : (login network env ctx allowed req).Meets
      (loginContract req (tenantAssumes accountID s.store fun _ _ => False)) fun _ => True :=
    (login_meets network allowed req).imp fun _ _ => trivial
  -- what a login may do stays within the account of its key
  have hmeets : (login network env ctx allowed req).Meets
      (tenantContract accountID s.store fun _ _ => False) fun _ => True :=
    hcontract.weaken (fun _ _ h => h) fun _ => LoginMay.tenant hids hkey
  have hstart : WithinTenant accountID s.store (fun _ _ => False) s :=
    ⟨.refl _ _, fun key sk hsk => .inr ⟨sk, hsk, rfl, rfl⟩⟩
  exact (hmeets.run tenantContract_keeps hstart).1

end Write

/-! ## Calls with a peer token -/

/-- Only the peer record under `key` differs. -/
structure OnlyPeer (key : String) (st st' : Store) : Prop where
  setupKeys : st'.setupKeys = st.setupKeys
  groups : st'.groups = st.groups
  rules : st'.rules = st.rules
  peers : ∀ k, k ≠ key → st'.peers.rows k = st.peers.rows k

theorem OnlyPeer.refl (key : String) (st : Store) : OnlyPeer key st st :=
  ⟨rfl, rfl, rfl, fun _ _ => rfl⟩

/-- A call that edits one peer record leaves the others alone. -/
private theorem agentContract_keeps {key : String} {edit : Domain.Peer → Domain.Peer → Prop}
    (hedit : ∀ p₀ p, edit p₀ p → p.wgPubKey = p₀.wgPubKey) (st : Store) :
    (agentContract key edit {}).Keeps Server.exec fun s => OnlyPeer key st s.store := by
  intro o s hs hmay
  refine ⟨?_, exec_rely (Assumes.holds_nothing _) o⟩
  rcases exec_store o s with heq | hstep
  · rw [heq]
    exact hs
  · generalize (Server.exec o s).2.store = st' at hstep ⊢
    cases hstep with
    -- of all operations on the store only this one is allowed
    | savePeer p =>
      obtain ⟨p₀, hkey, _, hp⟩ := hmay
      have hpkey : p.wgPubKey = key := (hedit p₀ p hp).trans hkey
      refine ⟨hs.setupKeys, hs.groups, hs.rules, fun k hk => ?_⟩
      exact (PMap.set_ne _ _ (hpkey ▸ hk)).trans (hs.peers k hk)
    | _ => exact False.elim hmay

/-- What a call with a peer token runs: the handlers, `Sync` in its parts, and the
    country lookup it starts. -/
inductive PeerCall where
  | syncOpen (env : Env) (sourceIP : String) (stream : Nat) (key : String)
  | send (network : String) (env : Env) (accountID : String)
  | syncClose (env : Env) (accountID : String)
  | resolveCountry (ip : String) (country : Except String String) (err : Option String)
  | updatePeerMeta (env : Env) (sourceIP key : String) (peerMeta : Option Commonv1.PeerMeta)

/-- The parts of `Sync` after `syncOpen` are only reached with the key of the token. -/
def PeerCall.prog (token : Claims) : PeerCall → M Unit
  | .syncOpen env sourceIP stream key => do
    let _ ← Management.syncOpen env ⟨sourceIP, some token⟩ stream key
  | .send network env accountID => do
    let _ ← Management.send network env accountID token.wgPubKey
  | .syncClose env accountID => Management.syncClose env token.wgPubKey accountID
  | .resolveCountry ip country err => Management.resolveCountry token.wgPubKey ip country err
  | .updatePeerMeta env sourceIP key peerMeta => do
    let _ ← Management.updatePeerMeta env ⟨sourceIP, some token⟩ key peerMeta

/-- Building a response changes nothing. -/
private theorem send_state (network : String) (env : Env) (accountID key : String) (s : Server) :
    ((send network env accountID key).run Server.exec s).2 = s := by
  simp only [send, Call.getPeersByAccount, Call.getRulesByAccount, Prog.op_bind, Prog.ret_bind,
    Prog.run_op, Server.exec]
  cases env.fails 0 with
  | some e => rfl
  | none =>
    simp only [Server.read, Prog.run_op, Server.exec]
    cases env.fails 1 <;> rfl

/-- A call with a peer token leaves all but the peer in it alone. -/
private theorem peerCall_onlyPeer (token : Claims) (call : PeerCall) (s : Server) :
    OnlyPeer token.wgPubKey s.store ((call.prog token).run Server.exec s).2.store := by
  have hkeeps : (agentContract token.wgPubKey ConnectionEdit {}).Keeps Server.exec
      fun s' => OnlyPeer token.wgPubKey s.store s'.store :=
    agentContract_keeps (fun _ _ => ConnectionEdit.wgPubKey) s.store
  cases call with
  | syncOpen env sourceIP stream key =>
    by_cases hkey : key = token.wgPubKey
    · subst hkey
      simp only [PeerCall.prog, Prog.run_bind]
      exact ((syncOpen_meets stream).run hkeeps (.refl _ _)).1
    · -- another key than that of the token is turned away
      have hmatch : Ctx.matches ⟨sourceIP, some token⟩ key = false :=
        beq_eq_false_iff_ne.mpr (Ne.symm hkey)
      simp only [PeerCall.prog, Management.syncOpen, hmatch, Prog.run_bind]
      split <;> exact .refl _ _
  | send network env accountID =>
    simp only [PeerCall.prog, Prog.run_bind, send_state]
    exact .refl _ _
  | syncClose env accountID => exact ((syncClose_meets accountID).run hkeeps (.refl _ _)).1
  | resolveCountry ip country err =>
    exact ((resolveCountry_meets country).run hkeeps (.refl _ _)).1
  | updatePeerMeta env sourceIP key peerMeta =>
    by_cases hkey : key = token.wgPubKey
    · subst hkey
      have hkeeps' : (agentContract token.wgPubKey (MetaEdit peerMeta) {}).Keeps Server.exec
          fun s' => OnlyPeer token.wgPubKey s.store s'.store :=
        agentContract_keeps (fun _ _ => MetaEdit.wgPubKey) s.store
      simp only [PeerCall.prog, Prog.run_bind]
      exact ((updatePeerMeta_meets peerMeta).run hkeeps' (.refl _ _)).1
    · have hmatch : Ctx.matches ⟨sourceIP, some token⟩ key = false :=
        beq_eq_false_iff_ne.mpr (Ne.symm hkey)
      simp only [PeerCall.prog, Management.updatePeerMeta, hmatch, Prog.run_bind]
      split <;> exact .refl _ _

/-! ## Sequences of requests -/

/-- A request to the management server. -/
inductive Request where
  | rest (env : Env) (claims : Claims) (req : RestRequest)
  | login (network : String) (env : Env) (ctx : Ctx) (allowed : Bool) (req : LoginRequest)
  | peer (token : Claims) (call : PeerCall)

/-- The server after a request that nothing interrupts. -/
def serve (s : Server) : Request → Server
  | .rest env claims req => ((serveREST env claims req).run Server.exec s).2
  | .login network env ctx allowed req =>
    ((Management.login network env ctx allowed req).run Server.exec s).2
  | .peer token call => ((call.prog token).run Server.exec s).2

/-- The UUIDs of the request are new. -/
def DrawsFresh (s : Server) : Request → Prop
  | .rest env _ _ => FreshIDs env s.store
  | _ => True

/-- A REST request leaves the records outside the account of its claims alone, a `Login`
    those outside the account of its setup key, and a call with a peer token all but the
    peer in the token. -/
def Isolated (s : Server) (r : Request) : Prop :=
  match r with
  | .rest _ claims _ => SameElsewhere claims.accountID s.store (serve s r).store
  | .login _ _ _ _ req => ∀ accountID,
    (∀ sk, s.store.setupKeys.rows req.setupKey = some sk → sk.accountID = accountID) →
      SameElsewhere accountID s.store (serve s r).store
  | .peer token _ => OnlyPeer token.wgPubKey s.store (serve s r).store

/-- Every kind of request is isolated. -/
private theorem isolated_of_distinctIDs {s : Server} {r : Request} (hids : DistinctIDs s.store)
    (hfresh : DrawsFresh s r) : Isolated s r := by
  cases r with
  | rest env claims req => exact (serveREST_tenant hfresh).same
  | login network env ctx allowed req => exact fun _ hkey => (login_tenant hids hkey).same
  | peer token call => exact peerCall_onlyPeer token call s

/-- The IDs that were distinct stay so, with a new one added at most. -/
private theorem WithinTenant.distinctIDs {accountID : String} {st : Store}
    {fresh : String → String → Prop} {s : Server} (h : WithinTenant accountID st fresh s)
    (hids : DistinctIDs st)
    (hone : ∀ key key' id, fresh key id → fresh key' id → key = key')
    (hnew : ∀ key key' id sk, fresh key id → st.setupKeys.rows key' = some sk → sk.id ≠ id) :
    DistinctIDs s.store := by
  intro key key' sk sk' hsk hsk' hid
  -- each of the two keys is new or was there before
  rcases h.setupKey key sk hsk with hf | ⟨sk₀, hrow, hid₀, _⟩
  · rcases h.setupKey key' sk' hsk' with hf' | ⟨sk₀', hrow', hid₀', _⟩
    · exact hone key key' sk.id hf (hid ▸ hf')
    · exact absurd (hid₀'.trans hid.symm) (hnew key key' sk.id sk₀' hf hrow')
  · rcases h.setupKey key' sk' hsk' with hf' | ⟨sk₀', hrow', hid₀', _⟩
    · exact absurd (hid₀.trans hid) (hnew key' key sk'.id sk₀ hf' hrow)
    · exact hids key key' sk₀ sk₀' hrow hrow' (hid₀.trans (hid.trans hid₀'.symm))

/-- The IDs of the setup keys stay distinct. -/
private theorem distinctIDs_serve {s : Server} {r : Request} (hids : DistinctIDs s.store)
    (hfresh : DrawsFresh s r) : DistinctIDs (serve s r).store := by
  cases r with
  | rest env claims req =>
    refine (serveREST_tenant hfresh).distinctIDs hids ?_ ?_
    · rintro key key' id ⟨rfl, _⟩ ⟨rfl, _⟩
      rfl
    · rintro key key' id sk ⟨_, rfl⟩ hsk
      exact FreshIDs.setupKey hfresh key' sk hsk
  | login network env ctx allowed req =>
    -- no new setup key: any account that covers the presented one will do
    have hkey : ∃ accountID, ∀ sk, s.store.setupKeys.rows req.setupKey = some sk →
        sk.accountID = accountID := by
      cases hrow : s.store.setupKeys.rows req.setupKey with
      | none => exact ⟨"", nofun⟩
      | some sk => exact ⟨sk.accountID, fun sk' h => by rw [Option.some.inj h]⟩
    obtain ⟨accountID, hkey⟩ := hkey
    exact (login_tenant hids hkey).distinctIDs hids (fun _ _ _ h => h.elim) fun _ _ _ _ h => h.elim
  | peer token call =>
    have hsame := (peerCall_onlyPeer token call s).setupKeys
    unfold DistinctIDs
    rw [serve, hsame]
    exact hids

/-! ## What an account can see -/

/-- The two stores have the same records of the account. -/
structure SameRecords (accountID : String) (st₁ st₂ : Store) : Prop where
  setupKeys : PMap.AgreeOn (fun sk => (sk.accountID == accountID) = true) st₁.setupKeys.rows
    st₂.setupKeys.rows
  groups : PMap.AgreeOn (fun g => (g.accountID == accountID) = true) st₁.groups.rows
    st₂.groups.rows
  peers : PMap.AgreeOn (fun p => (p.accountID == accountID) = true) st₁.peers.rows
    st₂.peers.rows
  rules : PMap.AgreeOn (fun r => (r.accountID == accountID) = true) st₁.rules.rows
    st₂.rules.rows

/-- The public key is that of a peer of another account. -/
def TakenElsewhere (accountID : String) (st : Store) (key : String) : Prop :=
  ∃ p, st.peers.rows key = some p ∧ p.accountID ≠ accountID

/-- The public key in the path of a request. -/
def RestRequest.pathKey : RestRequest → Option String
  | .updatePeer key _ | .deletePeer key | .setPeerRoutes key _ | .setPeerExitNode key _ =>
    some key
  | _ => none

/-- Under these orders the two stores list the same. -/
structure SameLists (accountID : String) (st₁ st₂ : Store) (o₁ o₂ : Orders) : Prop where
  setupKeys : st₁.getSetupKeysByAccount accountID o₁.setupKeys =
    st₂.getSetupKeysByAccount accountID o₂.setupKeys
  groups : st₁.getGroupsByAccount accountID o₁.groups = st₂.getGroupsByAccount accountID o₂.groups
  peers : st₁.getPeersByAccount accountID o₁.peers = st₂.getPeersByAccount accountID o₂.peers
  rules : getRulesByAccount st₁.rules.rows accountID o₁.rules =
    getRulesByAccount st₂.rules.rows accountID o₂.rules

section Read

variable {accountID : String} {st₁ st₂ : Store}

/-- What one store may list, the other may list. -/
private theorem SameRecords.exists_orders (h : SameRecords accountID st₁ st₂) {o₁ : Orders}
    (ho : o₁.Valid st₁) : ∃ o₂ : Orders, o₂.Valid st₂ ∧ SameLists accountID st₁ st₂ o₁ o₂ := by
  obtain ⟨k, hk, hkeys⟩ := h.setupKeys.exists_order ho.setupKeys st₂.setupKeys.finite.choose_spec
  obtain ⟨g, hg, hgroups⟩ := h.groups.exists_order ho.groups st₂.groups.finite.choose_spec
  obtain ⟨p, hp, hpeers⟩ := h.peers.exists_order ho.peers st₂.peers.finite.choose_spec
  obtain ⟨r, hr, hrules⟩ := h.rules.exists_order ho.rules st₂.rules.finite.choose_spec
  refine ⟨⟨k, g, p, r⟩, ⟨hk, hg, hp, hr⟩, hkeys.symm, ?_, hpeers.symm, ?_⟩
  · exact congrArg (List.mergeSort · _) hgroups.symm
  · exact congrArg (List.mergeSort · _) hrules.symm

/-- An own record is the same in both stores; otherwise neither has one. -/
theorem SameRecords.getPeer (h : SameRecords accountID st₁ st₂) (key : String) :
    (∃ p, p.accountID = accountID ∧ st₁.getPeer key = .ok p ∧ st₂.getPeer key = .ok p) ∨
      ((∀ p, st₁.getPeer key = .ok p → p.accountID ≠ accountID) ∧
        ∀ p, st₂.getPeer key = .ok p → p.accountID ≠ accountID) := by
  by_cases hown : ∃ p, st₁.peers.rows key = some p ∧ p.accountID = accountID
  · obtain ⟨p, hp, hacc⟩ := hown
    have hp' := (h.peers key p (beq_iff_eq.mpr hacc)).mp hp
    exact .inl ⟨p, hacc, Store.getPeer_of_some hp, Store.getPeer_of_some hp'⟩
  · refine .inr ⟨fun p hp hacc => hown ⟨p, Store.getPeer_eq_ok hp, hacc⟩, fun p hp hacc => ?_⟩
    have hp' := (h.peers key p (beq_iff_eq.mpr hacc)).mpr (Store.getPeer_eq_ok hp)
    exact hown ⟨p, hp', hacc⟩

/-- If the stores also agree on whether somebody else has the key, a lookup finds the
    same record, or a foreign one in both, or none in both. -/
private theorem SameRecords.getPeer_taken (h : SameRecords accountID st₁ st₂) {key : String}
    (hkey : TakenElsewhere accountID st₁ key ↔ TakenElsewhere accountID st₂ key) :
    (∃ p, p.accountID = accountID ∧ st₁.getPeer key = .ok p ∧ st₂.getPeer key = .ok p) ∨
      (∃ p₁ p₂, p₁.accountID ≠ accountID ∧ p₂.accountID ≠ accountID ∧
        st₁.getPeer key = .ok p₁ ∧ st₂.getPeer key = .ok p₂) ∨
      (∃ e₁ e₂, st₁.getPeer key = .error e₁ ∧ st₂.getPeer key = .error e₂) := by
  rcases h.getPeer key with hown | ⟨h₁, h₂⟩
  · exact .inl hown
  · -- not a record of the account in either store
    cases hp₁ : st₁.getPeer key with
    | ok p₁ =>
      have hne := h₁ p₁ hp₁
      obtain ⟨p₂, hp₂, hne₂⟩ := hkey.mp ⟨p₁, Store.getPeer_eq_ok hp₁, hne⟩
      exact .inr (.inl ⟨p₁, p₂, hne, hne₂, rfl, Store.getPeer_of_some hp₂⟩)
    | error e₁ =>
      cases hp₂ : st₂.getPeer key with
      | error e₂ => exact .inr (.inr ⟨e₁, e₂, rfl, rfl⟩)
      | ok p₂ =>
        obtain ⟨p₁, hp₁', _⟩ := hkey.mpr ⟨p₂, Store.getPeer_eq_ok hp₂, h₂ p₂ hp₂⟩
        rw [Store.getPeer_eq_error hp₁] at hp₁'
        exact absurd hp₁' nofun

/-! ### Programs whose answer does not depend on the state -/

/-- The state has no influence on what the program returns. -/
def Blind {α : Type} (p : M α) : Prop :=
  ∀ s₁ s₂, (p.run Server.exec s₁).1 = (p.run Server.exec s₂).1

/-- A value is the same in every state. -/
theorem Blind.ret {α : Type} (a : α) : Blind (.ret a : M α) := fun _ _ => rfl

/-- An operation with the same result in every state may come first. -/
theorem Blind.op {α : Type} {o : Op} {next : o.Res → M α}
    (ho : ∀ s₁ s₂, (Server.exec o s₁).1 = (Server.exec o s₂).1) (hnext : ∀ r, Blind (next r)) :
    Blind (.op o next) := by
  intro s₁ s₂
  simp only [Prog.run_op]
  rw [ho s₁ s₂]
  exact hnext _ _ _

/-- What a write answers does not depend on the store. -/
private theorem write_answer (err : Option String) (s₁ s₂ : Server) (st₁ st₂ : Store) :
    (s₁.write err st₁).1 = (s₂.write err st₂).1 := by
  cases err <;> rfl

/-- Saving a peer and notifying is answered the same in every state. -/
private theorem saveAndNotify_blind (env : Env) (p : Domain.Peer) :
    Blind (saveAndNotify env p) := by
  simp only [saveAndNotify, Call.savePeer, Call.notifyAll, Prog.op_bind, Prog.ret_bind]
  refine .op (fun _ _ => write_answer ..) fun r => ?_
  cases r with
  | error e => exact .ret _
  | ok _ => exact .op (fun _ _ => rfl) fun _ => .ret _

/-- So is the end of `updatePeer`. -/
private theorem finishUpdatePeer_blind (env : Env) (claims : Claims) (p : Domain.Peer) :
    Blind (finishUpdatePeer env claims p) := by
  simp only [finishUpdatePeer, Call.savePeer, Call.notifyAll, Prog.op_bind, Prog.ret_bind]
  refine .op (fun _ _ => write_answer ..) fun r => ?_
  cases r with
  | error e => exact .ret _
  | ok _ => exact .op (fun _ _ => rfl) fun _ => .ret _

/-- A change is answered by the store, or by its failure. -/
private theorem change_answer (err : Option String) (s₁ s₂ : Server)
    {r₁ r₂ : Except String Unit × Store} (h : r₁.1 = r₂.1) :
    (s₁.change err r₁).1 = (s₂.change err r₂).1 := by
  cases err with
  | some e => rfl
  | none => exact h

/-- The answer of a deletion that found a row of the account or none. -/
def deletion (text : String) (found : Bool) : Except String Unit :=
  if found then .ok () else .error text

/-- Deleting a group looks for a row of the account. -/
private theorem deleteGroup_answer (st : Store) (accountID id : String) :
    (st.deleteGroup accountID id).1 = deletion "group not found"
      ((st.groups.rows id).filter (·.accountID == accountID)).isSome := by
  unfold Store.deleteGroup
  cases st.groups.rows id with
  | none => rfl
  | some g => by_cases hg : g.accountID = accountID <;> simp [hg, deletion, Option.filter]

/-- Deleting a rule looks for a row of the account. -/
private theorem deleteRule_answer (st : Store) (accountID id : String) :
    (st.deleteRule accountID id).1 = deletion "rule not found"
      ((st.rules.rows id).filter (·.accountID == accountID)).isSome := by
  unfold Store.deleteRule
  cases st.rules.rows id with
  | none => rfl
  | some r => by_cases hr : r.accountID = accountID <;> simp [hr, deletion, Option.filter]

/-- Deleting a setup key looks in the list of the account. -/
private theorem deleteSetupKey_answer (st : Store) (accountID id : String) (order : List String) :
    (st.deleteSetupKey accountID id order).1 = deletion "setup key not found"
      ((st.getSetupKeysByAccount accountID order).find? (·.id == id)).isSome := by
  have hpred : (fun sk : Domain.SetupKey => sk.id == id && sk.accountID == accountID) =
      fun sk => decide ((sk.accountID == accountID) = true ∧ (sk.id == id) = true) := by
    funext sk
    rw [Bool.decide_and, Bool.decide_eq_true, Bool.decide_eq_true, Bool.and_comm]
  unfold Store.deleteSetupKey Store.getSetupKeysByAccount PMap.select
  rw [List.find?_filter, hpred]
  split <;> rename_i hfind <;> rw [hfind] <;> rfl

/-! ### The REST handlers -/

variable {env : Env} {claims : Claims} {s₁ s₂ : Server}

/-- A handler that starts with `GetPeer` on the key in its path: with an own record it
    may not look at the state again, and a foreign or missing one ends it. -/
private theorem getPeer_answer {key : String} {next : Except String Domain.Peer → M Response}
    (h : SameRecords accountID s₁.store s₂.store)
    (hkey : TakenElsewhere accountID s₁.store key ↔ TakenElsewhere accountID s₂.store key)
    (hown : ∀ p, p.accountID = accountID → s₁.store.getPeer key = .ok p →
      ((next (.ok p)).run Server.exec s₁).1 = ((next (.ok p)).run Server.exec s₂).1)
    (hforeign : ∀ p s, p.accountID ≠ accountID →
      ((next (.ok p)).run Server.exec s).1 = fail 403 "forbidden")
    (hnone : ∀ e s, ((next (.error e)).run Server.exec s).1 = fail 404 "peer not found") :
    (Prog.run Server.exec (.op (.getPeer key) next) s₁).1 =
      (Prog.run Server.exec (.op (.getPeer key) next) s₂).1 := by
  simp only [Prog.run_op, Server.exec]
  rcases h.getPeer_taken hkey with ⟨p, hacc, hp₁, hp₂⟩ | ⟨p₁, p₂, hne₁, hne₂, hp₁, hp₂⟩ |
    ⟨e₁, e₂, he₁, he₂⟩
  · -- own, somebody else's, or nobody's
    rw [hp₁, hp₂]
    exact hown p hacc hp₁
  · rw [hp₁, hp₂, hforeign p₁ s₁ hne₁, hforeign p₂ s₂ hne₂]
  · rw [he₁, he₂, hnone, hnone]

/-- A lookup that treats a foreign record like a missing one. -/
private theorem getPeer_own_answer {key : String} {next : Except String Domain.Peer → M Response}
    {refused : Response} (h : SameRecords accountID s₁.store s₂.store)
    (hown : ∀ p, p.accountID = accountID → Blind (next (.ok p)))
    (hforeign : ∀ p s, p.accountID ≠ accountID →
      ((next (.ok p)).run Server.exec s).1 = refused)
    (hnone : ∀ e s, ((next (.error e)).run Server.exec s).1 = refused) :
    (Prog.run Server.exec (.op (.getPeer key) next) s₁).1 =
      (Prog.run Server.exec (.op (.getPeer key) next) s₂).1 := by
  -- foreign or missing, the answer is the same
  have hrefused (s : Server)
      (hs : ∀ p, s.store.getPeer key = .ok p → p.accountID ≠ accountID) :
      (Prog.run Server.exec (.op (.getPeer key) next) s).1 = refused := by
    simp only [Prog.run_op, Server.exec]
    cases hp : s.store.getPeer key with
    | error e => exact hnone e s
    | ok p => exact hforeign p s (hs p hp)
  rcases h.getPeer key with ⟨p, hacc, hp₁, hp₂⟩ | ⟨hs₁, hs₂⟩
  · simp only [Prog.run_op, Server.exec, hp₁, hp₂]
    exact hown p hacc s₁ s₂
  · rw [hrefused s₁ hs₁, hrefused s₂ hs₂]

/-- `updatePeer` answers from the account's records. -/
private theorem updatePeer_answer (h : SameRecords claims.accountID s₁.store s₂.store)
    {key : String}
    (hkey : TakenElsewhere claims.accountID s₁.store key ↔
      TakenElsewhere claims.accountID s₂.store key) (body : Except String UpdatePeerRequest) :
    ((updatePeer env claims key body).run Server.exec s₁).1 =
      ((updatePeer env claims key body).run Server.exec s₂).1 := by
  simp only [updatePeer, Call.getPeer, Call.assignPeer, Prog.op_bind, Prog.ret_bind]
  refine getPeer_answer h hkey (fun p hacc _ => ?_) (fun p s hne => ?_) fun e s => rfl
  · simp only [hacc, ne_eq, not_true_eq_false, ↓reduceIte]
    cases body with
    | error e => rfl
    | ok req =>
      dsimp only
      split
      · rfl
      · -- the record was read: nothing after it depends on the state
        refine Blind.op (fun _ _ => rfl) (fun _ => ?_) s₁ s₂
        split
        · exact finishUpdatePeer_blind _ _ _
        · split
          · exact .ret _
          · exact finishUpdatePeer_blind _ _ _
  · dsimp only
    rw [if_pos hne]
    rfl

/-- So does `deletePeer`. -/
private theorem deletePeer_answer (h : SameRecords claims.accountID s₁.store s₂.store)
    {key : String}
    (hkey : TakenElsewhere claims.accountID s₁.store key ↔
      TakenElsewhere claims.accountID s₂.store key) :
    ((deletePeer env claims key).run Server.exec s₁).1 =
      ((deletePeer env claims key).run Server.exec s₂).1 := by
  simp only [deletePeer, Call.getPeer, Call.deletePeer, Call.revokeByWGKey, Call.releaseIP,
    Prog.op_bind, Prog.ret_bind]
  refine getPeer_answer h hkey (fun p hacc _ => ?_) (fun p s hne => ?_) fun e s => rfl
  · simp only [hacc, ne_eq, not_true_eq_false, ↓reduceIte]
    -- from here on nothing depends on the store
    refine Blind.op (o := .deletePeer key (env.fails 0)) (fun _ _ => write_answer ..)
      (fun r => ?_) s₁ s₂
    cases r with
    | error e => exact .ret _
    | ok _ => exact .op (fun _ _ => rfl) fun _ => .op (fun _ _ => rfl) fun _ => .ret _
  · dsimp only
    rw [if_pos hne]
    rfl

/-- So does `setPeerRoutes`. -/
private theorem setPeerRoutes_answer (h : SameRecords claims.accountID s₁.store s₂.store)
    {key : String}
    (hkey : TakenElsewhere claims.accountID s₁.store key ↔
      TakenElsewhere claims.accountID s₂.store key) (body : Except String (List String)) :
    ((setPeerRoutes env claims key body).run Server.exec s₁).1 =
      ((setPeerRoutes env claims key body).run Server.exec s₂).1 := by
  cases body with
  | error e => rfl
  | ok routes =>
    simp only [setPeerRoutes, Call.getPeer, Prog.op_bind, Prog.ret_bind]
    split
    · rfl
    · refine getPeer_answer h hkey (fun p hacc _ => ?_) (fun p s hne => ?_) fun e s => rfl
      · simp only [hacc, ne_eq, not_true_eq_false, ↓reduceIte]
        exact saveAndNotify_blind env _ s₁ s₂
      · dsimp only
        rw [if_pos hne]
        rfl

/-- So does `setPeerExitNode`, which reads the gateway as well. -/
private theorem setPeerExitNode_answer (h : SameRecords claims.accountID s₁.store s₂.store)
    {key : String} (hkey : TakenElsewhere claims.accountID s₁.store key ↔
      TakenElsewhere claims.accountID s₂.store key) (body : Except String String) :
    ((setPeerExitNode env claims key body).run Server.exec s₁).1 =
      ((setPeerExitNode env claims key body).run Server.exec s₂).1 := by
  cases body with
  | error e => rfl
  | ok exitNode =>
    simp only [setPeerExitNode, Call.getPeer, Prog.op_bind, Prog.ret_bind]
    refine getPeer_answer h hkey (fun p hacc _ => ?_) (fun p s hne => ?_) fun e s => rfl
    · simp only [hacc, ne_eq, not_true_eq_false, ↓reduceIte]
      split
      · rfl
      · split
        · exact saveAndNotify_blind env _ s₁ s₂
        · -- a gateway of another account is answered as one that does not exist
          refine getPeer_own_answer h (fun gw hgw => ?_) (fun gw s hne => ?_) fun e s => rfl
          · dsimp only
            split
            · exact .ret _
            · split
              · exact .ret _
              · exact saveAndNotify_blind _ _
          · dsimp only
            rw [if_pos hne]
            rfl
    · dsimp only
      rw [if_pos hne]
      rfl

/-- The listings are read before anything is written, so the orders of the second run
    can be chosen for the store it starts with. -/
private theorem route_answer {o : Orders} (h : SameRecords claims.accountID s₁.store s₂.store)
    (hlists : SameLists claims.accountID s₁.store s₂.store env.orders o)
    (hsubs : s₁.subs = s₂.subs) (req : RestRequest)
    (hkey : ∀ key, req.pathKey = some key → (TakenElsewhere claims.accountID s₁.store key ↔
      TakenElsewhere claims.accountID s₂.store key)) :
    ((route env claims req).run Server.exec s₁).1 =
      ((route { env with orders := o } claims req).run Server.exec s₂).1 := by
  cases req with
  | updatePeer key body => exact updatePeer_answer h (hkey key rfl) body
  | deletePeer key => exact deletePeer_answer h (hkey key rfl)
  | setPeerRoutes key body => exact setPeerRoutes_answer h (hkey key rfl) body
  | setPeerExitNode key body => exact setPeerExitNode_answer h (hkey key rfl) body
  | listPeers =>
    simp only [route, listPeers, Call.getPeersByAccount, Call.connectedKeys, Prog.op_bind,
      Prog.ret_bind, Prog.run_op, Server.exec, hlists.peers]
    cases env.fails 0 with
    | some e => rfl
    | none => simp only [Server.read, Prog.run_op, Server.exec, hsubs, Prog.run_pure]
  | listGroups =>
    simp only [route, listGroups, Call.getGroupsByAccount, Call.getPeersByAccount, Prog.op_bind,
      Prog.ret_bind, Prog.run_op, Server.exec, hlists.groups]
    cases env.fails 0 with
    | some e => rfl
    | none =>
      simp only [Server.read, Prog.run_op, Server.exec, hlists.peers]
      cases env.fails 1 <;> rfl
  | createGroup body =>
    simp only [route, createGroup, Call.getGroupsByAccount, Call.createGroup, Prog.op_bind,
      Prog.ret_bind]
    split
    · rfl
    · split
      · rfl
      · simp only [Prog.run_op, Server.exec, hlists.groups]
        cases env.fails 0 with
        | some e => rfl
        | none =>
          -- the list is the same, so the name is taken in both or in none
          simp only [Server.read]
          split
          · rfl
          · simp only [Prog.run_op, Server.exec]
            cases env.fails 1 <;> rfl
  | deleteGroup id =>
    simp only [route, deleteGroup, Call.getGroupsByAccount, Call.deleteGroup, Prog.op_bind,
      Prog.ret_bind, Prog.run_op, Server.exec, hlists.groups]
    cases env.fails 0 with
    | some e => rfl
    | none =>
      simp only [Server.read]
      split
      · rfl
      · simp only [Prog.run_op, Server.exec]
        -- the row is looked up by ID, and has to be of the account
        have hanswer : (s₁.store.deleteGroup claims.accountID id).1 =
            (s₂.store.deleteGroup claims.accountID id).1 := by
          rw [deleteGroup_answer, deleteGroup_answer, h.groups.filter_bool_eq id]
        rw [change_answer (env.fails 1) s₁ s₂ hanswer]
        cases (s₂.change (env.fails 1) (s₂.store.deleteGroup claims.accountID id)).1 <;> rfl
  | listSetupKeys =>
    simp only [route, listSetupKeys, Call.getSetupKeysByAccount, Prog.op_bind, Prog.ret_bind,
      Prog.run_op, Server.exec, hlists.setupKeys]
    cases env.fails 0 <;> rfl
  | createSetupKey body =>
    simp only [route, createSetupKey, Call.createSetupKey, Prog.op_bind, Prog.ret_bind]
    split
    · rfl
    · split
      · rfl
      · simp only [Prog.run_op, Server.exec, newSetupKey]
        cases env.fails 0 <;> rfl
  | deleteSetupKey id =>
    simp only [route, deleteSetupKey, Call.deleteSetupKey, Prog.op_bind, Prog.ret_bind,
      Prog.run_op, Server.exec]
    have hanswer : (s₁.store.deleteSetupKey claims.accountID id env.orders.setupKeys).1 =
        (s₂.store.deleteSetupKey claims.accountID id o.setupKeys).1 := by
      rw [deleteSetupKey_answer, deleteSetupKey_answer, hlists.setupKeys]
    rw [change_answer (env.fails 0) s₁ s₂ hanswer]
    cases (s₂.change (env.fails 0)
      (s₂.store.deleteSetupKey claims.accountID id o.setupKeys)).1 <;> rfl
  | listRules =>
    simp only [route, listRules, Call.getRulesByAccount, Prog.op_bind, Prog.ret_bind,
      Prog.run_op, Server.exec, hlists.rules]
    cases env.fails 0 <;> rfl
  | createRule body =>
    simp only [route, createRule, Call.saveRule, Call.notifyAll, Prog.op_bind, Prog.ret_bind]
    split
    · rfl
    · split
      · rfl
      · split
        · rfl
        · simp only [Prog.run_op, Server.exec, newRule]
          cases env.fails 0 <;> rfl
  | updateRule id body =>
    simp only [route, updateRule, Call.getRulesByAccount, Call.saveRule, Call.notifyAll,
      Prog.op_bind, Prog.ret_bind, Prog.run_op, Server.exec, hlists.rules]
    cases env.fails 0 with
    | some e => rfl
    | none =>
      simp only [Server.read]
      split
      · rfl
      · cases body with
        | error e => rfl
        | ok req =>
          dsimp only
          split
          · rfl
          · split
            · rfl
            · simp only [Prog.run_op, Server.exec]
              cases env.fails 1 <;> rfl
  | deleteRule id =>
    simp only [route, deleteRule, Call.deleteRule, Call.notifyAll, Prog.op_bind, Prog.ret_bind,
      Prog.run_op, Server.exec]
    have hanswer : (s₁.store.deleteRule claims.accountID id).1 =
        (s₂.store.deleteRule claims.accountID id).1 := by
      rw [deleteRule_answer, deleteRule_answer, h.rules.filter_bool_eq id]
    rw [change_answer (env.fails 0) s₁ s₂ hanswer]
    cases (s₂.change (env.fails 0) (s₂.store.deleteRule claims.accountID id)).1 <;> rfl

/-- Every REST request answers from the account's records. -/
private theorem serveREST_answer {o : Orders} (h : SameRecords claims.accountID s₁.store s₂.store)
    (hlists : SameLists claims.accountID s₁.store s₂.store env.orders o)
    (hsubs : s₁.subs = s₂.subs) (req : RestRequest)
    (hkey : ∀ key, req.pathKey = some key → (TakenElsewhere claims.accountID s₁.store key ↔
      TakenElsewhere claims.accountID s₂.store key)) :
    ((serveREST env claims req).run Server.exec s₁).1 =
      ((serveREST { env with orders := o } claims req).run Server.exec s₂).1 := by
  unfold serveREST
  split
  · rfl
  · exact route_answer h hlists hsubs req hkey

/-- One response of a `Sync` stream. -/
private theorem send_answer {o : Orders} (network key : String)
    (hlists : SameLists accountID s₁.store s₂.store env.orders o) :
    ((send network env accountID key).run Server.exec s₁).1 =
      ((send network { env with orders := o } accountID key).run Server.exec s₂).1 := by
  simp only [send, Call.getPeersByAccount, Call.getRulesByAccount, Prog.op_bind, Prog.ret_bind,
    Prog.run_op, Server.exec, hlists.peers]
  cases env.fails 0 with
  | some e => rfl
  | none =>
    simp only [Server.read, Prog.run_op, Server.exec, hlists.rules]
    cases env.fails 1 <;> rfl

end Read

/-! ## The whole -/

/-- Along any sequence of requests that draw fresh UUIDs, REST and `Login` requests leave
    the other accounts' records alone and peer calls change at most their own record. And
    from two stores with the same records of an account, a REST request of the account is
    answered the same (if the stores also agree on whether the key in its path is taken
    elsewhere), and so is a `Sync` stream: for every order in which the one store lists
    its records there is one of the other. -/
theorem tenant_isolation (s : Server) (hids : DistinctIDs s.store) :
    (∀ rs, Along serve DrawsFresh s rs → Along serve Isolated s rs) ∧
    (∀ (env : Env) (claims : Claims) (req : RestRequest) (st : Store),
      env.orders.Valid s.store → SameRecords claims.accountID s.store st →
      (∀ key, req.pathKey = some key → (TakenElsewhere claims.accountID s.store key ↔
        TakenElsewhere claims.accountID st key)) →
      ∃ o : Orders, o.Valid st ∧
        ((serveREST env claims req).run Server.exec s).1 =
          ((serveREST { env with orders := o } claims req).run Server.exec
            { s with store := st }).1) ∧
    ∀ (network accountID key : String) (env : Env) (st : Store),
      env.orders.Valid s.store → SameRecords accountID s.store st →
      ∃ o : Orders, o.Valid st ∧
        ((send network env accountID key).run Server.exec s).1 =
          ((send network { env with orders := o } accountID key).run Server.exec
            { s with store := st }).1 := by
  refine ⟨fun rs hfresh => ?_, fun env claims req st hvalid hsame hkey => ?_,
    fun network accountID key env st hvalid hsame => ?_⟩
  · -- the IDs stay distinct along the run
    exact hfresh.of_inv (fun _ _ => distinctIDs_serve) (fun _ _ => isolated_of_distinctIDs) hids
  · obtain ⟨o, ho, hlists⟩ := hsame.exists_orders hvalid
    refine ⟨o, ho, serveREST_answer hsame hlists ?_ req hkey⟩
    rfl
  · obtain ⟨o, ho, hlists⟩ := hsame.exists_orders hvalid
    exact ⟨o, ho, send_answer network key hlists⟩

/-- A setup key of one account and a peer of another, in a given operating system. -/
def twoTenants (os : String) : Store :=
  Store.savePeer (Store.createSetupKey {} { key := "SK", id := "sk", accountID := "acme" })
    { wgPubKey := "L", accountID := "globex", os }

private theorem valid_twoTenants (os : String) :
    Orders.Valid { setupKeys := ["SK"], peers := ["L"] } (twoTenants os) :=
  ⟨.singleton .., .empty, .singleton .., .empty⟩

/-- There is one setup key. -/
private theorem distinctIDs_twoTenants (os : String) : DistinctIDs (twoTenants os) := by
  intro key key' sk sk' hsk hsk' _
  rcases PMap.set_eq_some _ hsk with ⟨rfl, _⟩ | ⟨_, h⟩
  · rcases PMap.set_eq_some _ hsk' with ⟨rfl, _⟩ | ⟨_, h⟩
    · rfl
    · exact absurd h nofun
  · exact absurd h nofun

/-- The operating system of the other account's peer is not a record of the account. -/
private theorem sameRecords_twoTenants (os os' : String) :
    SameRecords "acme" (twoTenants os) (twoTenants os') := by
  refine ⟨.refl _ _, .refl _ _, fun key p hp => ?_, .refl _ _⟩
  -- the only peer is not one of the account
  have hnone (os : String) : (twoTenants os).peers.rows key ≠ some p := by
    intro h
    rcases PMap.set_eq_some _ h with ⟨_, rfl⟩ | ⟨_, h⟩
    · have heq : "globex" = "acme" := beq_iff_eq.mp hp
      exact absurd heq (by decide)
    · exact absurd h nofun
  exact iff_of_false (hnone os) (hnone os')

/-- The public key belongs to the other account. -/
private theorem takenElsewhere_twoTenants (os : String) :
    TakenElsewhere "acme" (twoTenants os) "L" := by
  refine ⟨{ wgPubKey := "L", accountID := "globex", os }, ?_, fun h => ?_⟩
  · simp only [twoTenants, Store.savePeer, Table.save_rows, PMap.set_self]
  · have heq : "globex" = "acme" := h
    exact absurd heq (by decide)

/-- A server with both accounts. -/
def tenantServer : Server where
  store := twoTenants "linux"
  ipam := { network := 0x64400000, mask := 0xffc00000, next := 1 }

/-- New UUIDs, and the orders of the one record in each table. -/
def tenantEnv : Env where
  uuid n := if n = 0 then "u0" else "u1"
  orders := { setupKeys := ["SK"], peers := ["L"] }

/-- The administrator of the one account. -/
def tenantAdmin : Claims := { accountID := "acme", role := "admin" }

/-- The administrator creates a group, a device of the account enrolls, and the other
    account's peer disconnects; and a request for that peer is answered alike whatever is
    in its record. -/
theorem tenant_isolation_twoTenants :
    Along serve Isolated tenantServer
      [.rest tenantEnv tenantAdmin (.createGroup (.ok "ops")),
        .login "100.64.0.0/10" tenantEnv {} true { setupKey := "SK", wgPubKey := "K" },
        .peer { wgPubKey := "L" } (.syncClose tenantEnv "globex")] ∧
    (∃ o : Orders, o.Valid (twoTenants "windows") ∧
      ((serveREST tenantEnv tenantAdmin (.deletePeer "L")).run Server.exec tenantServer).1 =
        ((serveREST { tenantEnv with orders := o } tenantAdmin (.deletePeer "L")).run Server.exec
          { tenantServer with store := twoTenants "windows" }).1) ∧
    ∃ o : Orders, o.Valid (twoTenants "windows") ∧
      ((send "100.64.0.0/10" tenantEnv "acme" "K").run Server.exec tenantServer).1 =
        ((send "100.64.0.0/10" { tenantEnv with orders := o } "acme" "K").run Server.exec
          { tenantServer with store := twoTenants "windows" }).1 := by
  obtain ⟨hwrites, hrest, hsync⟩ := tenant_isolation tenantServer (distinctIDs_twoTenants "linux")
  -- the UUIDs of the environment are not in use
  have hfresh : FreshIDs tenantEnv tenantServer.store := by
    refine ⟨rfl, rfl, rfl, fun key sk hsk => ?_⟩
    rcases PMap.set_eq_some _ hsk with ⟨_, rfl⟩ | ⟨_, h⟩
    · decide
    · exact absurd h nofun
  refine ⟨hwrites _ ⟨hfresh, trivial, trivial, trivial⟩, ?_, ?_⟩
  · refine hrest tenantEnv tenantAdmin _ _ (valid_twoTenants _) (sameRecords_twoTenants _ _)
      fun key hkey => ?_
    obtain rfl := Option.some.inj hkey
    exact iff_of_true (takenElsewhere_twoTenants _) (takenElsewhere_twoTenants _)
  · exact hsync _ _ _ tenantEnv _ (valid_twoTenants _) (sameRecords_twoTenants _ _)

end Blinex.Native.Management
