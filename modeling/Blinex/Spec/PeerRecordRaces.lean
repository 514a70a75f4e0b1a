import Blinex.ForStd.Fence
import Blinex.Spec.HandlerContracts

/-!
# Races on a peer record

Operator requests, `touchLastSeen`, `Sync` streams and country lookups all read a whole
peer record and save a whole record, with nothing to keep the others out in between.
`operator_update_kept` and `deleted_stays_deleted` say when what an operator did to a
peer survives every interleaving: when the record is written (or deleted), nobody else
at work has a copy of it from before.

For updates the store has to hand out copies, as the Postgres store does.
-/

namespace Blinex.Native.Management

open Blinex.Go

/-! ## The row of one peer -/

section Row

variable (k : String) (Q : Option Domain.Peer → Prop)

/-- The row under `k` satisfies `Q`. -/
def rowAssumes : Assumes where
  peer key p := key = k → Q (some p)
  noPeer key := key = k → Q none

/-- The operations that keep it so. -/
def RowMay : Op → Prop
  | .savePeer p _ => p.wgPubKey = k → Q (some p)
  | .deletePeer key _ => key = k → Q none
  | _ => True

/-- The contract of a program that works on the row of one peer. -/
def rowContract : Contract Op.Res where
  rely := (rowAssumes k Q).rely
  guar := RowMay k Q

/-- The operations that make it so. -/
def RowCommit : Op → Prop
  | .savePeer p none => p.wgPubKey = k ∧ Q (some p)
  | .deletePeer key none => key = k ∧ Q none
  | _ => False

end Row

section Row

variable {k : String} {Q : Option Domain.Peer → Prop}

/-- What is assumed of the row holds where `Q` does. -/
private theorem rowAssumes_holds {st : Store} (h : Q (st.peers.rows k)) :
    (rowAssumes k Q).Holds st where
  peer key p hp hkey := by
    rw [← hkey, hp] at h
    exact h
  noPeer key hp hkey := by
    rw [← hkey, hp] at h
    exact h
  rule _ _ _ := trivial
  setupKey _ _ _ := trivial

/-- No operation changes what kind of store it is. -/
private theorem exec_live (o : Op) (s : Server) :
    (Server.exec o s).2.store.live = s.store.live := by
  rcases exec_store o s with heq | hstep
  · rw [heq]
  · generalize (Server.exec o s).2.store = st at hstep ⊢
    cases hstep <;> rfl

/-- The store hands out copies, unless `Q` says that there is no record. -/
def HandsOutCopies (Q : Option Domain.Peer → Prop) (s : Server) : Prop :=
  s.store.live = true → ∀ p, ¬ Q (some p)

/-- Handing out copies is a property of the store, which no operation changes. -/
theorem HandsOutCopies.exec {s : Server} (hs : HandsOutCopies Q s) (o : Op) :
    HandsOutCopies Q (Server.exec o s).2 :=
  fun hlive => hs ((exec_live o s).symm.trans hlive)

/-- An operation under the contract keeps `Q` of the row. -/
private theorem rowContract_keeps :
    (rowContract k Q).Keeps Server.exec
      fun s => HandsOutCopies Q s ∧ Q (s.store.peers.rows k) := by
  intro o s hs hmay
  obtain ⟨hcopies, hrow⟩ := hs
  refine ⟨⟨hcopies.exec o, ?_⟩, exec_rely (rowAssumes_holds hrow) o⟩
  rcases exec_store o s with heq | hstep
  · rw [heq]
    exact hrow
  · generalize (Server.exec o s).2.store = st at hstep ⊢
    cases hstep with
    | assignPeer p hlive hsome =>
      -- assignments through a shared record insert nothing
      obtain ⟨q, hq⟩ := Option.isSome_iff_exists.mp hsome
      have hk : p.wgPubKey ≠ k := by
        rintro rfl
        exact hcopies hlive q (hq ▸ hrow)
      have hset : (s.store.savePeer p).peers.rows k = s.store.peers.rows k :=
        PMap.set_ne _ _ (Ne.symm hk)
      rw [hset]
      exact hrow
    | savePeer p =>
      by_cases hk : p.wgPubKey = k
      · have hset : (s.store.savePeer p).peers.rows k = some p := by
          rw [← hk]
          exact PMap.set_self ..
        rw [hset]
        exact hmay hk
      · have hset : (s.store.savePeer p).peers.rows k = s.store.peers.rows k :=
          PMap.set_ne _ _ (Ne.symm hk)
        rw [hset]
        exact hrow
    | deletePeer key =>
      by_cases hk : key = k
      · have hdel : (s.store.deletePeer key).peers.rows k = none := by
          rw [← hk]
          exact PMap.delete_self ..
        rw [hdel]
        exact hmay hk
      · have hdel : (s.store.deletePeer key).peers.rows k = s.store.peers.rows k :=
          PMap.delete_ne _ (Ne.symm hk)
        rw [hdel]
        exact hrow
    | createSetupKey | deleteSetupKey | incrementSetupKeyUsage | createGroup | deleteGroup
    | saveRule | deleteRule => exact hrow

/-- An operation that commits establishes `Q`, whatever the row was. -/
private theorem rowCommit_goal {o : Op} (h : RowCommit k Q o) (s : Server) :
    Q ((Server.exec o s).2.store.peers.rows k) := by
  cases o with
  | savePeer p err =>
    -- a failed write does not commit
    cases err with
    | some e => exact False.elim h
    | none =>
      obtain ⟨rfl, hQ⟩ := h
      have hset : (Server.exec (.savePeer p none) s).2.store.peers.rows p.wgPubKey = some p :=
        PMap.set_self ..
      rw [hset]
      exact hQ
  | deletePeer key err =>
    cases err with
    | some e => exact False.elim h
    | none =>
      obtain ⟨rfl, hQ⟩ := h
      have hdel : (Server.exec (.deletePeer key none) s).2.store.peers.rows key = none :=
        PMap.delete_self ..
      rw [hdel]
      exact hQ
  | _ => exact False.elim h

/-- Only the answers to `GetPeer k` depend on `Q`. -/
private theorem row_rely_of_base {o : Op} {r : o.Res} (hread : o ≠ .getPeer k)
    (h : Assumes.rely {} o r) : (rowAssumes k Q).rely o r := by
  cases o with
  | getPeer key =>
    have hne : key ≠ k := fun heq => hread (heq ▸ rfl)
    cases r with
    | ok p => exact ⟨h.1, fun heq => absurd heq hne⟩
    | error e => exact fun heq => absurd heq hne
  | getSetupKey | getRulesByAccount => cases r <;> exact h
  | savePeer _ err | deletePeer _ err => cases err <;> cases r <;> exact h
  | _ => trivial

/-- Writing the row of a peer, among programs that read and write it. -/
def rowFencing (k : String) (Q : Option Domain.Peer → Prop) : Fencing Server.exec where
  always := HandsOutCopies Q
  goal s := Q (s.store.peers.rows k)
  base := Assumes.rely {}
  commit := RowCommit k Q
  reads o := o = .getPeer k
  contract := rowContract k Q
  always_exec o _ hs := ⟨hs.exec o, exec_rely (Assumes.holds_nothing _) o⟩
  commit_goal _ s _ h := rowCommit_goal h s
  keeps := rowContract_keeps
  rely_of_base _ _ := row_rely_of_base

end Row

/-! ## Who works on peer records -/

/-- The programs that run at the same time. -/
inductive Job where
  | rest (env : Env) (claims : Claims) (req : RestRequest)
  | touchLastSeen (now : Int) (err : Option String) (key : String)
  | syncOpen (env : Env) (ctx : Ctx) (stream : Nat) (key : String)
  | syncClose (env : Env) (key accountID : String)
  | resolveCountry (key ip : String) (country : Except String String) (err : Option String)
  | updatePeerMeta (env : Env) (ctx : Ctx) (key : String) (peerMeta : Option Commonv1.PeerMeta)
  | login (network : String) (env : Env) (ctx : Ctx) (allowed : Bool) (req : LoginRequest)

/-- What they run; only REST requests have an answer of interest. -/
def Job.prog : Job → M (Option Response)
  | .rest env claims req => do return some (← serveREST env claims req)
  | .touchLastSeen now err key => do
    Management.touchLastSeen now err key
    return none
  | .syncOpen env ctx stream key => do
    let _ ← Management.syncOpen env ctx stream key
    return none
  | .syncClose env key accountID => do
    Management.syncClose env key accountID
    return none
  | .resolveCountry key ip country err => do
    Management.resolveCountry key ip country err
    return none
  | .updatePeerMeta env ctx key peerMeta => do
    let _ ← Management.updatePeerMeta env ctx key peerMeta
    return none
  | .login network env ctx allowed req => do
    let _ ← Management.login network env ctx allowed req
    return none

/-- The server with jobs at work. -/
abbrev Jobs := Pool Op.Res (Option Response) Server

/-- One event of an interleaving. -/
abbrev jobStep : Jobs → PoolEvent Job → Option Jobs := Pool.step Server.exec Job.prog

/-- The edits a REST request makes to the peer `k` preserve `Q`. -/
def RestRequest.Respects (env : Env) (k : String) (Q : Option Domain.Peer → Prop) :
    RestRequest → Prop
  | .updatePeer key (.ok req) => key = k → ∀ p, Q (some p) → Q (some (req.apply (env.uuid 0) p))
  | .setPeerRoutes key (.ok routes) => key = k →
    ∀ p, Q (some p) → Q (some { p with advertisedRoutes := routes })
  | .setPeerExitNode key (.ok exitNode) => key = k →
    ∀ p, Q (some p) → Q (some { p with exitNode })
  | .deletePeer key => key = k → Q none
  | _ => True

/-- What a job does to the peer `k` preserves `Q`, edits of the connection apart. -/
def Job.Respects (k : String) (Q : Option Domain.Peer → Prop) : Job → Prop
  | .rest env _ req => req.Respects env k Q
  | .updatePeerMeta _ _ key peerMeta => key = k →
    ∀ p₀ p, MetaEdit peerMeta p₀ p → Q (some p₀) → Q (some p)
  | .login _ _ _ _ req => req.wgPubKey ≠ k
  | _ => True

section Meets

variable {k : String} {Q : Option Domain.Peer → Prop}

/-- An edit of a record that was read under `k`. -/
theorem Edited.row {accountID key : String} {f : Domain.Peer → Domain.Peer} {p : Domain.Peer}
    (h : (rowAssumes k Q).Edited accountID key f p) (hkey : ∀ p, (f p).wgPubKey = p.wgPubKey)
    (hf : key = k → ∀ p, Q (some p) → Q (some (f p))) : p.wgPubKey = k → Q (some p) := by
  obtain ⟨p₀, rfl, hp₀, _, rfl⟩ := h
  intro hk
  have hk₀ : p₀.wgPubKey = k := (hkey p₀).symm.trans hk
  exact hf hk₀ p₀ (hp₀ hk₀)

/-- What a request may do is under the contract of the row. -/
theorem May.row {env : Env} {accountID : String} {req : RestRequest} {o : Op}
    (hreq : req.Respects env k Q) (h : req.May env accountID (rowAssumes k Q) o) :
    RowMay k Q o := by
  -- of the requests three save a peer, and one deletes it
  cases o with
  | savePeer p err =>
    cases req with
    | updatePeer key body =>
      obtain ⟨req, rfl, hp⟩ := h
      exact Edited.row hp (apply_wgPubKey _ req) hreq
    | setPeerRoutes key body =>
      obtain ⟨routes, rfl, hp⟩ := h
      exact Edited.row hp (fun _ => rfl) hreq
    | setPeerExitNode key body =>
      obtain ⟨exitNode, rfl, hp⟩ := h
      exact Edited.row hp (fun _ => rfl) hreq
    | _ => exact False.elim h
  | deletePeer key err =>
    cases req with
    | deletePeer key' =>
      obtain ⟨rfl, _⟩ := h
      exact hreq
    | _ => exact False.elim h
  | _ => trivial

/-- A request that respects `Q` keeps to the contract of the row. -/
private theorem serveREST_row {env : Env} {claims : Claims} {req : RestRequest}
    (hreq : req.Respects env k Q) :
    (serveREST env claims req).Meets (rowContract k Q) fun _ => True := by
  have hcontract : (serveREST env claims req).Meets
      (req.contract env claims.accountID (rowAssumes k Q)) fun _ => True :=
    serveREST_meets req
  exact hcontract.weaken (fun _ _ h => h) fun _ => May.row hreq

/-- What a call of an agent does to its record preserves `Q`. -/
private theorem agent_row {key : String} {edit : Domain.Peer → Domain.Peer → Prop} {α : Type}
    {q : M α}
    (hkey : ∀ p₀ p, edit p₀ p → p.wgPubKey = p₀.wgPubKey)
    (hQ : key = k → ∀ p₀ p, edit p₀ p → Q (some p₀) → Q (some p))
    (h : q.Meets (agentContract key edit (rowAssumes k Q)) fun _ => True) :
    q.Meets (rowContract k Q) fun _ => True := by
  refine h.weaken (fun _ _ h => h) fun o hmay => ?_
  cases o with
  | savePeer p err =>
    -- the edit starts from the record that was read
    obtain ⟨p₀, rfl, hp₀, hedit⟩ := hmay
    intro hk
    have hk₀ : p₀.wgPubKey = k := (hkey p₀ p hedit).symm.trans hk
    exact hQ hk₀ p₀ p hedit (hp₀ hk₀)
  | deletePeer => exact False.elim hmay
  | _ => trivial

/-- A `Login` writes the record of its own key only. -/
private theorem login_row {network : String} {env : Env} {ctx : Ctx} {allowed : Bool}
    {req : LoginRequest}
    (hne : req.wgPubKey ≠ k) :
    (login network env ctx allowed req).Meets (rowContract k Q) fun _ => True := by
  have hcontract : (login network env ctx allowed req).Meets
      (loginContract req (rowAssumes k Q)) fun _ => True :=
    (login_meets network allowed req).imp fun _ _ => trivial
  refine hcontract.weaken (fun _ _ h => h) fun o hmay => ?_
  cases o with
  | savePeer p err => exact fun hk => absurd (hmay.1.symm.trans hk) hne
  | deletePeer => exact False.elim hmay
  | _ => trivial

/-- Every job preserves `Q` of the row, given that its edits do. -/
theorem Job.meets {job : Job} (hQ : ∀ p₀ p, ConnectionEdit p₀ p → Q (some p₀) → Q (some p))
    (h : job.Respects k Q) : job.prog.Meets (rowContract k Q) fun _ => True := by
  have hconn : ∀ p₀ p, ConnectionEdit p₀ p → p.wgPubKey = p₀.wgPubKey :=
    fun _ _ => ConnectionEdit.wgPubKey
  cases job with
  | rest env claims req => exact (serveREST_row h).bind fun _ _ => trivial
  | touchLastSeen now err key =>
    exact (agent_row hconn (fun _ => hQ) (touchLastSeen_meets now)).bind fun _ _ => trivial
  | syncOpen env ctx stream key =>
    exact (agent_row hconn (fun _ => hQ) (syncOpen_meets stream)).bind fun _ _ => trivial
  | syncClose env key accountID =>
    exact (agent_row hconn (fun _ => hQ) (syncClose_meets accountID)).bind fun _ _ => trivial
  | resolveCountry key ip country err =>
    exact (agent_row hconn (fun _ => hQ) (resolveCountry_meets country)).bind fun _ _ => trivial
  -- the one job with an edit of its own
  | updatePeerMeta env ctx key peerMeta =>
    exact (agent_row (fun _ _ => MetaEdit.wgPubKey) h (updatePeerMeta_meets peerMeta)).bind
      fun _ _ => trivial
  | login network env ctx allowed req => exact (login_row h).bind fun _ _ => trivial

end Meets

/-! ## The requests that commit -/

section Commits

variable {k : String} {Q : Option Domain.Peer → Prop} {env : Env} {claims : Claims}

/-- The program fails, or writes a row with `Q`. -/
abbrev WritesRow (k : String) (Q : Option Domain.Peer → Prop) (q : M Response) : Prop :=
  q.Commits (Assumes.rely {}) (RowCommit k Q) (rowContract k Q) fun r => r.success = false

/-- The save of a record with `Q`: the request fails with it, or has written the row. -/
private theorem save_writesRow {p : Domain.Peer} {err : Option String}
    {next : Except String Unit → M Response} (hkey : p.wgPubKey = k) (hQ : Q (some p))
    (hfail : ∀ e, WritesRow k Q (next (.error e)))
    (hnext : ∀ r, (next r).Meets (rowContract k Q) fun _ => True) :
    WritesRow k Q (.op (.savePeer p err) next) := by
  cases err with
  | none => exact .inl ⟨⟨hkey, hQ⟩, fun r _ => hnext r⟩
  | some e =>
    refine .inr fun r hr => ?_
    cases r with
    | error e => exact hfail e
    | ok _ => exact False.elim hr

/-- Saving commits; what follows changes no row. -/
private theorem saveAndNotify_writesRow {p : Domain.Peer} (hkey : p.wgPubKey = k)
    (hQ : Q (some p)) :
    WritesRow k Q (saveAndNotify env p) := by
  simp only [saveAndNotify, Call.savePeer, Call.notifyAll, Prog.op_bind, Prog.ret_bind]
  refine save_writesRow hkey hQ (fun _ => rfl) fun r => ?_
  cases r with
  | error e => trivial
  | ok _ => exact ⟨trivial, fun _ _ => trivial⟩

/-- The same at the end of `updatePeer`. -/
private theorem finishUpdatePeer_writesRow {p : Domain.Peer} (hkey : p.wgPubKey = k)
    (hQ : Q (some p)) :
    WritesRow k Q (finishUpdatePeer env claims p) := by
  simp only [finishUpdatePeer, Call.savePeer, Call.notifyAll, Prog.op_bind, Prog.ret_bind]
  refine save_writesRow hkey hQ (fun _ => rfl) fun r => ?_
  cases r with
  | error e => trivial
  | ok _ => exact ⟨trivial, fun _ _ => trivial⟩

/-- `setPeerRoutes` fails or commits the routes. -/
private theorem setPeerRoutes_writesRow {routes : List String}
    (hQ : ∀ p : Domain.Peer, Q (some { p with advertisedRoutes := routes })) :
    WritesRow k Q (setPeerRoutes env claims k (.ok routes)) := by
  simp only [setPeerRoutes, Call.getPeer, Prog.op_bind, Prog.ret_bind]
  -- routes that are refused
  split
  · rfl
  · refine .inr fun r hr => ?_
    cases r with
    | error e => rfl
    | ok peer =>
      dsimp only
      split
      · rfl
      · exact saveAndNotify_writesRow hr.1 (hQ peer)

/-- `setPeerExitNode` fails or commits the exit node. -/
private theorem setPeerExitNode_writesRow {exitNode : String}
    (hQ : ∀ p : Domain.Peer, Q (some { p with exitNode })) :
    WritesRow k Q (setPeerExitNode env claims k (.ok exitNode)) := by
  simp only [setPeerExitNode, Call.getPeer, Prog.op_bind, Prog.ret_bind]
  refine .inr fun r hr => ?_
  cases r with
  | error e => rfl
  | ok peer =>
    dsimp only
    split
    · rfl
    · split
      · rfl
      · split
        · exact saveAndNotify_writesRow hr.1 (hQ peer)
        · -- the gateway is read as well, but only the peer is saved
          refine .inr fun r _ => ?_
          cases r with
          | error e => rfl
          | ok gw =>
            dsimp only
            split
            · rfl
            · split
              · rfl
              · exact saveAndNotify_writesRow hr.1 (hQ peer)

/-- `updatePeer` fails or commits the groups and the name. -/
private theorem updatePeer_writesRow {req : UpdatePeerRequest}
    (hQ : ∀ p, Q (some (req.apply (env.uuid 0) p))) :
    WritesRow k Q (updatePeer env claims k (.ok req)) := by
  simp only [updatePeer, Call.getPeer, Call.assignPeer, Prog.op_bind, Prog.ret_bind]
  refine .inr fun r hr => ?_
  cases r with
  | error e => rfl
  | ok peer =>
    have hpeer := hQ peer
    dsimp only
    split
    · rfl
    · split
      · rename_i hgroup
        obtain ⟨g, _, rfl⟩ := Option.map_eq_some_iff.mp hgroup
        rfl
      · -- the groups are assigned to the copy that was read, which is no commit yet
        refine .inr fun _ _ => ?_
        split
        · rename_i hhost
          simp only [UpdatePeerRequest.apply, hhost] at hpeer
          exact finishUpdatePeer_writesRow hr.1 hpeer
        · rename_i hostname hhost
          simp only [UpdatePeerRequest.apply, hhost] at hpeer
          generalize Strings.trimSpace hostname = name at hpeer ⊢
          split
          · rfl
          · exact finishUpdatePeer_writesRow hr.1 hpeer

/-- `deletePeer` fails or commits the deletion. -/
private theorem deletePeer_writesRow (hQ : Q none) : WritesRow k Q (deletePeer env claims k) := by
  simp only [deletePeer, Call.getPeer, Call.deletePeer, Call.revokeByWGKey, Call.releaseIP,
    Prog.op_bind, Prog.ret_bind]
  refine .inr fun r _ => ?_
  cases r with
  | error e => rfl
  | ok peer =>
    dsimp only
    split
    · rfl
    · -- a deletion that the store reports as failed commits nothing
      cases env.fails 0 with
      | none =>
        refine .inl ⟨⟨rfl, hQ⟩, fun r _ => ?_⟩
        cases r with
        | error e => trivial
        | ok _ => exact ⟨trivial, fun _ _ => ⟨trivial, fun _ _ => trivial⟩⟩
      | some e =>
        refine .inr fun r hr => ?_
        cases r with
        | error e => rfl
        | ok _ => exact False.elim hr

/-- A request that was answered was refused or failed. -/
def Failed (r : Option Response) : Prop := ∀ resp, r = some resp → resp.success = false

/-- The same of the whole request. -/
private theorem serveREST_writesRow {req : RestRequest} (h : WritesRow k Q (route env claims req)) :
    (Job.rest env claims req).prog.Commits (Assumes.rely {}) (RowCommit k Q) (rowContract k Q)
      Failed := by
  have hserve : WritesRow k Q (serveREST env claims req) := by
    unfold serveREST
    split
    · rfl
    · exact h
  refine hserve.map fun r hr resp heq => ?_
  exact Option.some.inj heq ▸ hr

end Commits

/-! ## Runs -/

/-- The operation writes the record of `k`. -/
def Op.writesPeer (k : String) : Op → Bool
  | .savePeer p _ => p.wgPubKey == k
  | .deletePeer key _ => key == k
  | _ => false

/-- When the job `pid₀` writes the record of `k`, every other job that has read it is
    done. -/
def Unshared (k : String) (pid₀ : Nat) (p : Jobs) : PoolEvent Job → Prop
  | .start _ _ => True
  | .act pid => pid = pid₀ → ∀ o ∈ p.nextOp pid₀, o.writesPeer k →
    ∀ e ∈ p.log, e.2 = .getPeer k → e.1 ≠ pid₀ → p.nextOp e.1 = none

instance (k : String) (pid₀ : Nat) (p : Jobs) : ∀ ev, Decidable (Unshared k pid₀ p ev)
  | .start _ _ => inferInstanceAs (Decidable True)
  | .act pid => inferInstanceAs (Decidable (pid = pid₀ → ∀ o ∈ p.nextOp pid₀, o.writesPeer k →
      ∀ e ∈ p.log, e.2 = .getPeer k → e.1 ≠ pid₀ → p.nextOp e.1 = none))

/-- The job `pid₀` is `job₀`, the others are among `Others`. -/
def Starts (pid₀ : Nat) (job₀ : Job) (Others : Job → Prop) : PoolEvent Job → Prop
  | .start pid job => if pid = pid₀ then job = job₀ else Others job
  | .act _ => True

section Runs

variable {k : String} {Q : Option Domain.Peer → Prop} {pid₀ : Nat} {s₀ : Server} {p : Jobs}
  {es : List (PoolEvent Job)}

/-- An operation that commits writes the peer. -/
private theorem RowCommit.writesPeer {o : Op} (h : RowCommit k Q o) : o.writesPeer k = true := by
  cases o with
  | savePeer p err =>
    cases err with
    | none => exact beq_iff_eq.mpr h.1
    | some e => exact False.elim h
  | deletePeer key err =>
    cases err with
    | none => exact beq_iff_eq.mpr h.1
    | some e => exact False.elim h
  | _ => exact False.elim h

/-- Where nobody else writes the peer, the fence is clear. -/
theorem Unshared.clear {ev : PoolEvent Job} (h : Unshared k pid₀ p ev) :
    (rowFencing k Q).Clear pid₀ p ev := by
  cases ev with
  | start pid job => trivial
  | act pid => exact fun hpid o ho hcommit => h hpid o ho hcommit.writesPeer

/-- What a request writes to the row of `k` stays there. -/
private theorem row_established {env : Env} {claims : Claims} {req : RestRequest}
    {Others : Job → Prop}
    (hedit : ∀ p₀ p, ConnectionEdit p₀ p → Q (some p₀) → Q (some p))
    (hreq : WritesRow k Q (route env claims req))
    (hothers : ∀ job, Others job → job.Respects k Q) (hcopies : HandsOutCopies Q s₀)
    (hjobs : ∀ ev ∈ es, Starts pid₀ (.rest env claims req) Others ev)
    (hunshared : ExecAlong jobStep (Unshared k pid₀) { state := s₀ } es)
    (h : exec jobStep { state := s₀ } es = some p) {resp : Response}
    (hresp : p.result pid₀ = some (some resp)) (hok : resp.success = true) :
    Q (p.state.store.peers.rows k) := by
  have hstart : ∀ ev ∈ es, (rowFencing k Q).Starts pid₀ Failed Job.prog ev := by
    intro ev hev
    have hjob := hjobs ev hev
    -- the request itself, or another job
    cases ev with
    | act pid => trivial
    | start pid job =>
      constructor
      · intro hpid
        rw [Starts, if_pos hpid] at hjob
        rw [hjob]
        exact serveREST_writesRow hreq
      · intro hpid
        rw [Starts, if_neg hpid] at hjob
        exact Job.meets hedit (hothers job hjob)
  have hclear : ExecAlong jobStep ((rowFencing k Q).Clear pid₀) { state := s₀ } es :=
    hunshared.imp fun _ _ => Unshared.clear
  -- a success is not a failure
  have hgood : ¬ Failed (some resp) :=
    fun hfailed => absurd (hok.symm.trans (hfailed resp rfl)) nofun
  exact (rowFencing k Q).established pid₀ hcopies hstart hclear h hresp hgood

end Runs

/-! ## Operator updates -/

/-- What an operator sets on a peer. -/
inductive OperatorUpdate where
  | routes (routes : List String)
  | exitNode (exitNode : String)
  | names (req : UpdatePeerRequest)

namespace OperatorUpdate

/-- The request for it. -/
def request (k : String) : OperatorUpdate → RestRequest
  | routes rs => .setPeerRoutes k (.ok rs)
  | exitNode e => .setPeerExitNode k (.ok e)
  | names req => .updatePeer k (.ok req)

/-- The fields hold what was set. -/
def Holds (env : Env) (p : Domain.Peer) : OperatorUpdate → Prop
  | routes rs => p.advertisedRoutes = rs
  | exitNode e => p.exitNode = e
  | names req => p.groups = ensureDefaultGroup req.groups ∧
    ∀ hostname ∈ req.hostname, p.hostname = Strings.trimSpace hostname ∧
      p.dnsLabel = Domain.toDNSLabel (env.uuid 0) (Strings.trimSpace hostname)

/-- The jobs that are not about these fields of `k`. -/
def SparedBy (k : String) : OperatorUpdate → Job → Prop
  | _, .rest _ _ (.deletePeer key) => key ≠ k
  | routes _, .rest _ _ (.setPeerRoutes key _) => key ≠ k
  | exitNode _, .rest _ _ (.setPeerExitNode key _) => key ≠ k
  | names _, .rest _ _ (.updatePeer key _) => key ≠ k
  | names _, .updatePeerMeta _ _ key _ => key ≠ k
  | _, .login _ _ _ _ req => req.wgPubKey ≠ k
  | _, _ => True

/-- The record of `k` is there, with what was set. -/
def Kept (env : Env) (u : OperatorUpdate) : Option Domain.Peer → Prop
  | some p => u.Holds env p
  | none => False

variable {k : String} {env : Env} {u : OperatorUpdate}

/-- An update of the names keeps the routes. -/
private theorem apply_advertisedRoutes (uuid : String) (req : UpdatePeerRequest) (p : Domain.Peer) :
    (req.apply uuid p).advertisedRoutes = p.advertisedRoutes := by
  unfold UpdatePeerRequest.apply
  split <;> rfl

/-- It keeps the exit node. -/
private theorem apply_exitNode (uuid : String) (req : UpdatePeerRequest) (p : Domain.Peer) :
    (req.apply uuid p).exitNode = p.exitNode := by
  unfold UpdatePeerRequest.apply
  split <;> rfl

/-- It sets the groups, and the name if there is one. -/
private theorem holds_apply (req : UpdatePeerRequest) (p : Domain.Peer) :
    (names req).Holds env (req.apply (env.uuid 0) p) := by
  obtain ⟨groups, hostname⟩ := req
  cases hostname with
  | none => exact ⟨rfl, fun hostname hmem => absurd hmem (Option.not_mem_none hostname)⟩
  | some hostname =>
    refine ⟨rfl, fun hostname' hmem => ?_⟩
    obtain rfl := Option.some.inj hmem
    simp only [UpdatePeerRequest.apply, and_self]

/-- An edit about the connection keeps an operator's update. -/
private theorem Kept.connectionEdit {p₀ p : Domain.Peer} (hedit : ConnectionEdit p₀ p)
    (h : u.Kept env (some p₀)) : u.Kept env (some p) := by
  obtain ⟨_, _, _, rfl⟩ := hedit
  cases u <;> exact h

/-- The request leaves the fields in place. -/
private theorem request_respects {env' : Env} {claims : Claims} {req : RestRequest}
    (h : u.SparedBy k (.rest env' claims req)) : req.Respects env' k (u.Kept env) := by
  -- the requests about another field keep the update, the one about the same is excluded
  cases req with
  | updatePeer key body =>
    cases body with
    | error e => trivial
    | ok req =>
      intro hk p hp
      cases u with
      | routes rs => exact (apply_advertisedRoutes _ req p).trans hp
      | exitNode e => exact (apply_exitNode _ req p).trans hp
      | names req => exact absurd hk h
  | setPeerRoutes key body =>
    cases body with
    | error e => trivial
    | ok rs =>
      intro hk p hp
      cases u with
      | routes rs => exact absurd hk h
      | exitNode e => exact hp
      | names req => exact hp
  | setPeerExitNode key body =>
    cases body with
    | error e => trivial
    | ok exitNode =>
      intro hk p hp
      cases u with
      | routes rs => exact hp
      | exitNode e => exact absurd hk h
      | names req => exact hp
  | deletePeer key => cases u <;> exact fun hk => absurd hk h
  | _ => trivial

/-- The jobs that spare an update keep it. -/
private theorem SparedBy.respects {job : Job} (h : u.SparedBy k job) :
    job.Respects k (u.Kept env) := by
  cases job with
  | rest env' claims req => exact request_respects h
  | updatePeerMeta env' ctx key peerMeta =>
    rintro hk p₀ p ⟨uuid, lastSeen, rfl⟩ hp
    cases u with
    | routes rs => cases peerMeta <;> exact hp
    | exitNode e => cases peerMeta <;> exact hp
    | names req => exact absurd hk h
  | login network env' ctx allowed req => cases u <;> exact h
  | _ => trivial

/-- The request of an update fails or commits it. -/
private theorem request_writesRow (claims : Claims) :
    WritesRow k (u.Kept env) (route env claims (u.request k)) := by
  cases u with
  | routes rs => exact setPeerRoutes_writesRow fun _ => rfl
  | exitNode e => exact setPeerExitNode_writesRow fun _ => rfl
  | names req => exact updatePeer_writesRow fun p => holds_apply req p

end OperatorUpdate

/-- What an operator has set on the peer `k` is kept in every interleaving in which nobody
    else at work has the record when it is saved. -/
theorem operator_update_kept {k : String} {env : Env} {claims : Claims} {u : OperatorUpdate}
    {s₀ : Server} (hcopies : s₀.store.live = false) {pid₀ : Nat} {es : List (PoolEvent Job)}
    (hjobs : ∀ ev ∈ es, Starts pid₀ (.rest env claims (u.request k)) (u.SparedBy k) ev)
    (hunshared : ExecAlong jobStep (Unshared k pid₀) { state := s₀ } es) {p : Jobs}
    (h : exec jobStep { state := s₀ } es = some p) {resp : Response}
    (hresp : p.result pid₀ = some (some resp)) (hok : resp.success = true) :
    ∃ peer, p.state.store.peers.rows k = some peer ∧ u.Holds env peer := by
  have hlive : HandsOutCopies (u.Kept env) s₀ :=
    fun hlive => absurd (hcopies.symm.trans hlive) nofun
  have hkept : u.Kept env (p.state.store.peers.rows k) :=
    row_established (fun _ _ => OperatorUpdate.Kept.connectionEdit)
      (OperatorUpdate.request_writesRow claims) (fun _ => OperatorUpdate.SparedBy.respects) hlive
      hjobs hunshared h hresp hok
  -- the peer cannot have been deleted, since then nothing would hold of it
  cases hrow : p.state.store.peers.rows k with
  | none =>
    rw [hrow] at hkept
    exact False.elim hkept
  | some peer =>
    rw [hrow] at hkept
    exact ⟨peer, rfl, hkept⟩

/-- One peer, in a store that hands out copies. -/
def onePeer : Server where
  store := Store.savePeer {} { wgPubKey := "K", accountID := "acme" }
  ipam := { network := 0x64400000, mask := 0xffc00000, next := 1 }

/-- An administrator sets the routes of `K`. -/
def setRoutes : Job :=
  .rest { uuid := fun _ => "" } { accountID := "acme", role := "admin" }
    ((OperatorUpdate.routes ["10.0.0.0/8"]).request "K")

/-- The routes are saved before `touchLastSeen` reads the record. -/
def setThenTouch : List (PoolEvent Job) :=
  [.start 0 setRoutes, .act 0, .act 0, .start 1 (.touchLastSeen 7 none "K"), .act 1, .act 0, .act 1]

/-- Routes that are set before the record is touched stay. -/
theorem operator_update_kept_touched :
    ∃ p resp, exec jobStep { state := onePeer } setThenTouch = some p ∧
      p.result 0 = some (some resp) ∧ p.nextOp 1 = none ∧
      ∃ peer, p.state.store.peers.rows "K" = some peer ∧
        peer.advertisedRoutes = ["10.0.0.0/8"] := by
  have hrun : (exec jobStep { state := onePeer } setThenTouch).map
      (fun p => ((p.result 0).map (·.map (·.success)), p.nextOp 1)) =
      some (some (some true), none) := by
    decide +kernel
  obtain ⟨p, hp, hdone⟩ := Option.map_eq_some_iff.mp hrun
  obtain ⟨hresult, htouched⟩ := Prod.mk.inj hdone
  obtain ⟨answer, hanswer, hsome⟩ := Option.map_eq_some_iff.mp hresult
  obtain ⟨resp, rfl, hok⟩ := Option.map_eq_some_iff.mp hsome
  -- what the theorem asks of the run
  have hjobs : ∀ ev ∈ setThenTouch,
      Starts 0 setRoutes (OperatorUpdate.SparedBy "K" (.routes ["10.0.0.0/8"])) ev := by
    simp [setThenTouch, Starts, OperatorUpdate.SparedBy]
  have hunshared : ExecAlong jobStep (Unshared "K" 0) { state := onePeer } setThenTouch := by
    decide +kernel
  exact ⟨p, resp, hp, hanswer, htouched,
    operator_update_kept rfl hjobs hunshared hp hanswer hok⟩

/-- `touchLastSeen` has read the record when the routes are saved. -/
def touchAround : List (PoolEvent Job) :=
  [.start 0 setRoutes, .start 1 (.touchLastSeen 7 none "K"), .act 1, .act 0, .act 0, .act 0, .act 1]

/-- The request succeeds and both are done, but the routes are gone. -/
theorem touchAround_loses_routes :
    (exec jobStep { state := onePeer } touchAround).map (fun p =>
        ((p.result 0).map (·.map (·.success)), p.nextOp 1,
          (p.state.store.peers.rows "K").map (·.advertisedRoutes))) =
      some (some (some true), none, some []) := by
  decide +kernel

/-! ## Deletions -/

/-- The jobs that do not enroll `k`. -/
def NoLogin (k : String) : Job → Prop
  | .login _ _ _ _ req => req.wgPubKey ≠ k
  | _ => True

/-- Apart from `Login` no job makes a peer. -/
private theorem NoLogin.respects {k : String} {job : Job} (h : NoLogin k job) :
    job.Respects k (· = none) := by
  cases job with
  | rest env claims req =>
    cases req with
    | updatePeer key body | setPeerRoutes key body | setPeerExitNode key body =>
      -- an edit needs a record to start from
      cases body with
      | error e => trivial
      | ok => exact fun _ p hp => absurd hp (Option.some_ne_none p)
    | deletePeer key => exact fun _ => rfl
    | _ => trivial
  | updatePeerMeta env ctx key peerMeta =>
    exact fun _ p₀ _ _ hp => absurd hp (Option.some_ne_none p₀)
  | login network env ctx allowed req => exact h
  | _ => trivial

/-- Nobody puts back the peer `k` after its deletion in an interleaving in which no other
    job at work has its record when it is deleted. -/
theorem deleted_stays_deleted {k : String} {env : Env} {claims : Claims} {s₀ : Server}
    {pid₀ : Nat} {es : List (PoolEvent Job)}
    (hjobs : ∀ ev ∈ es, Starts pid₀ (.rest env claims (.deletePeer k)) (NoLogin k) ev)
    (hunshared : ExecAlong jobStep (Unshared k pid₀) { state := s₀ } es) {p : Jobs}
    (h : exec jobStep { state := s₀ } es = some p) {resp : Response}
    (hresp : p.result pid₀ = some (some resp)) (hok : resp.success = true) :
    p.state.store.peers.rows k = none := by
  have hcopies : HandsOutCopies (· = none) s₀ := fun _ p => Option.some_ne_none p
  exact row_established (fun p₀ _ _ hp₀ => absurd hp₀ (Option.some_ne_none p₀))
    (deletePeer_writesRow (Q := (· = none)) rfl) (fun _ => NoLogin.respects) hcopies hjobs
    hunshared h hresp hok

/-- An administrator deletes `K`. -/
def deleteK : Job :=
  .rest { uuid := fun _ => "" } { accountID := "acme", role := "admin" } (.deletePeer "K")

/-- `touchLastSeen` finds no record any more. -/
def deleteThenTouch : List (PoolEvent Job) :=
  [.start 0 deleteK, .act 0, .start 1 (.touchLastSeen 7 none "K"), .act 0, .act 1, .act 0, .act 0]

/-- A peer that is deleted before its record is touched stays deleted. -/
theorem deleted_stays_deleted_touched :
    ∃ p resp, exec jobStep { state := onePeer } deleteThenTouch = some p ∧
      p.result 0 = some (some resp) ∧ p.nextOp 1 = none ∧
      p.state.store.peers.rows "K" = none := by
  have hrun : (exec jobStep { state := onePeer } deleteThenTouch).map
      (fun p => ((p.result 0).map (·.map (·.success)), p.nextOp 1)) =
      some (some (some true), none) := by
    decide +kernel
  obtain ⟨p, hp, hdone⟩ := Option.map_eq_some_iff.mp hrun
  obtain ⟨hresult, htouched⟩ := Prod.mk.inj hdone
  obtain ⟨answer, hanswer, hsome⟩ := Option.map_eq_some_iff.mp hresult
  obtain ⟨resp, rfl, hok⟩ := Option.map_eq_some_iff.mp hsome
  -- what the theorem asks of the run
  have hjobs : ∀ ev ∈ deleteThenTouch, Starts 0 deleteK (NoLogin "K") ev := by
    simp [deleteThenTouch, Starts, NoLogin]
  have hunshared : ExecAlong jobStep (Unshared "K" 0) { state := onePeer } deleteThenTouch := by
    decide +kernel
  exact ⟨p, resp, hp, hanswer, htouched,
    deleted_stays_deleted hjobs hunshared hp hanswer hok⟩

/-- `touchLastSeen` has read the record when it is deleted. -/
def touchAroundDelete : List (PoolEvent Job) :=
  [.start 0 deleteK, .start 1 (.touchLastSeen 7 none "K"), .act 1, .act 0, .act 0, .act 0, .act 0,
    .act 1]

/-- The deletion is answered with 204 and both are done, but `K` is back. -/
theorem touchAroundDelete_restores :
    (exec jobStep { state := onePeer } touchAroundDelete).map (fun p =>
        ((p.result 0).map (·.map (·.status)), p.nextOp 1,
          (p.state.store.peers.rows "K").map (·.accountID))) =
      some (some (some 204), none, some "acme") := by
  decide +kernel

end Blinex.Native.Management
