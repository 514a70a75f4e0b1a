import Blinex.Spec.HandlerContracts

/-!
# Operator-managed settings

What an operator sets on a peer, or a first enrollment fixes, against everything that the
agent causes: repeated logins, `Sync` streams coming and going, country lookups.
`settings_survive_iff`: after any sequence of these the settings are what they were,
exactly when no exit node was selected or no `Login` took place. `Login` rebuilds the
record and does not take the exit node over.
-/

namespace Blinex.Native.Management

/-- The fields of a peer that an agent has no say in after its first enrollment. -/
structure Settings where
  id : String
  accountID : String
  createdAt : Int
  groups : List String
  advertisedRoutes : List String
  exitNode : String
  hostname : String
  dnsLabel : String
deriving DecidableEq

/-- The settings in a record. -/
def settings (p : Domain.Peer) : Settings where
  id := p.id
  accountID := p.accountID
  createdAt := p.createdAt
  groups := p.groups
  advertisedRoutes := p.advertisedRoutes
  exitNode := p.exitNode
  hostname := p.hostname
  dnsLabel := p.dnsLabel

/-- What the agent with a given key causes. -/
inductive AgentEvent where
  | login (network : String) (env : Env) (ctx : Ctx) (allowed : Bool) (setupKey : String)
      (peerMeta : Option Commonv1.PeerMeta)
  | syncOpen (env : Env) (ctx : Ctx) (stream : Nat)
  | syncClose (env : Env) (accountID : String)
  | resolveCountry (ip : String) (country : Except String String) (err : Option String)

/-- Whether the event is a login. -/
def AgentEvent.isLogin : AgentEvent → Bool
  | .login .. => true
  | _ => false

/-- The server after an event that nothing interrupts. -/
def agentStep (key : String) (s : Server) : AgentEvent → Server
  | .login network env ctx allowed setupKey peerMeta =>
    ((login network env ctx allowed { setupKey, wgPubKey := key, peerMeta }).run Server.exec s).2
  | .syncOpen env ctx stream => ((syncOpen env ctx stream key).run Server.exec s).2
  | .syncClose env accountID => ((syncClose env key accountID).run Server.exec s).2
  | .resolveCountry ip country err => ((resolveCountry key ip country err).run Server.exec s).2

/-- The logins succeed. -/
def LogsIn (key : String) (s : Server) : AgentEvent → Prop
  | .login network env ctx allowed setupKey peerMeta =>
    ((login network env ctx allowed { setupKey, wgPubKey := key, peerMeta }).run
      Server.exec s).1.isOk = true
  | _ => True

/-- The peer is stored with these settings. -/
def HasSettings (key : String) (σ : Settings) (s : Server) : Prop :=
  ∃ p, s.store.peers.rows key = some p ∧ settings p = σ

/-! ## `Sync` and country lookups -/

section Connection

variable {key : String} {σ : Settings}

/-- A record under the key has the settings. -/
def settingsAssumed (key : String) (σ : Settings) : Assumes where
  peer k p := k = key → settings p = σ

/-- An edit about the connection changes no setting. -/
private theorem ConnectionEdit.settings {p₀ p : Domain.Peer} (h : ConnectionEdit p₀ p) :
    settings p = Management.settings p₀ := by
  obtain ⟨_, _, _, rfl⟩ := h
  rfl

/-- Under the contract of the agents' calls, the settings stay. -/
private theorem connection_keeps :
    (agentContract key ConnectionEdit (settingsAssumed key σ)).Keeps Server.exec
      (HasSettings key σ) := by
  intro o s hs hmay
  obtain ⟨p, hp, hσ⟩ := hs
  have hholds : (settingsAssumed key σ).Holds s.store := by
    refine ⟨fun k q hq hk => ?_, fun _ _ => trivial, fun _ _ _ => trivial, fun _ _ _ => trivial⟩
    rw [hk, hp] at hq
    exact Option.some.inj hq ▸ hσ
  refine ⟨?_, exec_rely hholds o⟩
  unfold HasSettings
  rcases exec_store o s with heq | hstep
  · rw [heq]
    exact ⟨p, hp, hσ⟩
  · generalize (Server.exec o s).2.store = st at hstep ⊢
    cases hstep with
    | savePeer q =>
      -- the peer that is saved is an edit of one that had the settings
      obtain ⟨p₀, hkey, hp₀, hedit⟩ := hmay
      obtain ⟨_, _, _, rfl⟩ := id hedit
      refine ⟨_, ?_, hedit.settings.trans (hp₀ rfl)⟩
      rw [← hkey]
      exact PMap.set_self ..
    | _ => exact False.elim hmay

end Connection

/-! ## `Login` -/

/-- Starting the lookup of a country changes no record. -/
private theorem resolveCountryAsync_store (key ip : String) (s : Server) :
    ((resolveCountryAsync key ip).run Server.exec s).2.store = s.store := by
  unfold resolveCountryAsync
  split
  · rfl
  · split <;> rfl

/-- Counting the use of a key changes no peer. -/
private theorem incrementSetupKeyUsage_peers (id : String) (order : List String)
    (err : Option String)
    (s : Server) :
    (Server.exec (.incrementSetupKeyUsage id order err) s).2.store.peers = s.store.peers := by
  rcases exec_store (.incrementSetupKeyUsage id order err) s with heq | hstep
  · rw [heq]
  · generalize (Server.exec (.incrementSetupKeyUsage id order err) s).2.store = st at hstep ⊢
    cases hstep
    rfl

/-- Once `Login` has the record it saves it, and nothing after that touches the peers. -/
private theorem enroll_success {network : String} {env : Env} {sk : Domain.SetupKey} {ip : String}
    {p : Domain.Peer} {s : Server}
    (h : ((enroll network env sk ip p).run Server.exec s).1.isOk = true) :
    ((enroll network env sk ip p).run Server.exec s).2.store.peers = s.store.peers.save p := by
  simp only [enroll, Call.savePeer, Call.incrementSetupKeyUsage, Call.notifyAll, Prog.op_bind,
    Prog.ret_bind, Prog.run_op] at h ⊢
  -- a failed save is no success
  cases hf : env.fails 0 with
  | some e =>
    rw [hf] at h
    exact absurd h Bool.false_ne_true
  | none =>
    simp only [Server.exec, Server.write, Prog.run_op, Prog.run_bind, Prog.run_pure,
      resolveCountryAsync_store]
    exact incrementSetupKeyUsage_peers ..

/-- A successful `Login` with the key of a stored peer replaces its record. -/
private theorem login_success {network : String} {env : Env} {ctx : Ctx} {allowed : Bool}
    {req : LoginRequest} {s : Server} {existing : Domain.Peer}
    (hp : s.store.peers.rows req.wgPubKey = some existing)
    (h : ((login network env ctx allowed req).run Server.exec s).1.isOk = true) :
    ∃ sk ip, existing.accountID = sk.accountID ∧
      ((login network env ctx allowed req).run Server.exec s).2.store.peers =
        s.store.peers.save (reenroll (newPeer env ctx req sk ip) existing) := by
  unfold login at h ⊢
  -- every way to refuse the login contradicts its success
  split at h
  · exact absurd h Bool.false_ne_true
  · rename_i hallowed
    rw [if_neg hallowed]
    split at h
    · exact absurd h Bool.false_ne_true
    · rename_i hreq
      rw [if_neg hreq]
      simp only [Call.getSetupKey, Call.allocate, Call.getPeer, Prog.op_bind, Prog.ret_bind,
        Prog.run_op, Server.exec] at h ⊢
      cases hsk : s.store.getSetupKey (env.now 0) req.setupKey with
      | error e =>
        rw [hsk] at h
        exact absurd h Bool.false_ne_true
      | ok sk =>
        simp only [hsk] at h ⊢
        split at h
        · exact absurd h Bool.false_ne_true
        · rename_i hused
          rw [if_neg hused]
          simp only [Prog.run_op, Server.exec] at h ⊢
          cases hip : (s.ipam.allocate req.wgPubKey).1 with
          | error e =>
            rw [hip] at h
            exact absurd h Bool.false_ne_true
          | ok ip =>
            simp only [hip, Prog.run_op, Server.exec, Store.getPeer_of_some hp] at h ⊢
            -- the record belongs to the account of the key
            split at h
            · exact absurd h Bool.false_ne_true
            · rename_i hacc
              rw [if_neg hacc]
              exact ⟨sk, ip, not_not.mp hacc, enroll_success h⟩

/-! ## Sequences -/

/-- What an event makes of the settings. -/
def Settings.after (σ : Settings) (e : AgentEvent) : Settings :=
  if e.isLogin then { σ with exitNode := "" } else σ

/-- One event: a login forgets the exit node, the others keep every setting. -/
theorem HasSettings.step {key : String} {σ : Settings} {s : Server} {e : AgentEvent}
    (h : HasSettings key σ s) (hlogin : LogsIn key s e) :
    HasSettings key (σ.after e) (agentStep key s e) := by
  cases e with
  | login network env ctx allowed setupKey peerMeta =>
    obtain ⟨p, hp, rfl⟩ := h
    obtain ⟨sk, ip, hacc, hpeers⟩ := login_success hp hlogin
    refine ⟨reenroll (newPeer env ctx { setupKey, wgPubKey := key, peerMeta } sk ip) p, ?_, ?_⟩
    · rw [agentStep, hpeers]
      exact PMap.set_self ..
    · -- of the settings only the exit node is not taken over
      simp only [settings, reenroll, newPeer, Settings.after, AgentEvent.isLogin, ↓reduceIte, hacc]
  | syncOpen env ctx stream => exact ((syncOpen_meets stream).run connection_keeps h).1
  | syncClose env accountID => exact ((syncClose_meets accountID).run connection_keeps h).1
  | resolveCountry ip country err =>
    exact ((resolveCountry_meets country).run connection_keeps h).1

/-- The settings after a run. -/
theorem HasSettings.run {key : String} {σ : Settings} {s : Server} {es : List AgentEvent}
    (h : HasSettings key σ s) (hlogins : Along (agentStep key) (LogsIn key) s es) :
    HasSettings key (es.foldl Settings.after σ) (es.foldl (agentStep key) s) := by
  induction es generalizing σ s with
  | nil => exact h
  | cons e es ih => exact ih (h.step hlogins.1) hlogins.2

/-- A run forgets the exit node if there is a login in it. -/
theorem foldl_after (σ : Settings) (es : List AgentEvent) :
    es.foldl Settings.after σ =
      if es.any AgentEvent.isLogin then { σ with exitNode := "" } else σ := by
  induction es generalizing σ with
  | nil => rfl
  | cons e es ih =>
    rw [List.foldl_cons, ih, List.any_cons]
    cases he : e.isLogin with
    | true => simp only [Settings.after, he, ↓reduceIte, ite_self, Bool.true_or]
    | false => simp only [Settings.after, he, Bool.false_eq_true, ↓reduceIte, Bool.false_or]

/-- After any sequence of agent events with successful logins the settings of the peer
    are what they were, if and only if it had no exit node or there was no login. -/
theorem settings_survive_iff {key : String} {s : Server} {p : Domain.Peer} {es : List AgentEvent}
    (hp : s.store.peers.rows key = some p)
    (hlogins : Along (agentStep key) (LogsIn key) s es) :
    HasSettings key (settings p) (es.foldl (agentStep key) s) ↔
      p.exitNode = "" ∨ ∀ e ∈ es, e.isLogin = false := by
  have hstart : HasSettings key (settings p) s := ⟨p, hp, rfl⟩
  obtain ⟨q, hq, hσ⟩ := hstart.run hlogins
  have hsame : HasSettings key (settings p) (es.foldl (agentStep key) s) ↔
      settings q = settings p := by
    constructor
    · rintro ⟨q', hq', hσ'⟩
      rw [hq] at hq'
      exact Option.some.inj hq' ▸ hσ'
    · exact fun h => ⟨q, hq, h⟩
  rw [hsame, hσ, foldl_after]
  -- a login forgets an exit node that was set
  cases hany : es.any AgentEvent.isLogin with
  | false =>
    have hnone : ∀ e ∈ es, e.isLogin = false := by
      simpa only [List.any_eq_false, Bool.not_eq_true] using hany
    exact iff_of_true rfl (.inr hnone)
  | true =>
    obtain ⟨e, he, hlogin⟩ := List.any_eq_true.mp hany
    constructor
    · intro h
      exact .inl (congrArg Settings.exitNode h).symm
    · rintro (hexit | hnone)
      · have hσp : (settings p).exitNode = "" := hexit
        simp only [↓reduceIte, ← hσp]
      · exact absurd (hlogin.symm.trans (hnone e he)) nofun

/-- A peer that uses another one as its exit node, and the setup key of its account. -/
def exitNodeServer : Server where
  store := Store.savePeer (Store.createSetupKey {} { key := "SK", id := "sk", accountID := "acme" })
    { id := "p", wgPubKey := "K", accountID := "acme", exitNode := "GW" }
  ipam := { network := 0x64400000, mask := 0xffc00000, next := 1 }

/-- Its agent reconnects from another address, which is looked up, and disconnects. -/
def reconnect : List AgentEvent :=
  [.syncOpen { uuid := fun _ => "" } { sourceIP := "192.0.2.1" } 1,
    .resolveCountry "192.0.2.1" (.ok "NL") none, .syncClose { uuid := fun _ => "" } "acme"]

/-- An agent that reconnects its stream keeps its exit node. -/
theorem settings_survive_reconnect :
    HasSettings "K" (settings { id := "p", wgPubKey := "K", accountID := "acme", exitNode := "GW" })
      (reconnect.foldl (agentStep "K") exitNodeServer) := by
  have hp : exitNodeServer.store.peers.rows "K" =
      some { id := "p", wgPubKey := "K", accountID := "acme", exitNode := "GW" } := by
    decide +kernel
  have hlogins : Along (agentStep "K") (LogsIn "K") exitNodeServer reconnect :=
    ⟨trivial, trivial, trivial, trivial⟩
  exact (settings_survive_iff hp hlogins).mpr (.inr (by decide))

/-- Its agent logs in again with the account's setup key. -/
def loginAgain : AgentEvent :=
  .login "100.64.0.0/10" { uuid := fun _ => "" } {} true "SK" none

/-- An agent that logs in again loses it. -/
theorem loginAgain_clears_exitNode :
    LogsIn "K" exitNodeServer loginAgain ∧
      (exitNodeServer.store.peers.rows "K").map (·.exitNode) = some "GW" ∧
      ((agentStep "K" exitNodeServer loginAgain).store.peers.rows "K").map (·.exitNode) =
        some "" := by
  refine ⟨?_, by decide +kernel, by decide +kernel⟩
  have hok : ((login "100.64.0.0/10" { uuid := fun _ => "" } {} true
      { setupKey := "SK", wgPubKey := "K" }).run Server.exec exitNodeServer).1.isOk = true := by
    decide +kernel
  exact hok

end Blinex.Native.Management
