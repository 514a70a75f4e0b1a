import Blinex.Native.PostgresStore
import Blinex.Spec.TenantIsolation

/-!
# Every peer is in Default

The groups of a stored peer come from an enrolment, which starts its list with Default,
from an operator, whose list goes through `ensureDefaultGroup`, or from a record that was
read. So the invariant is a contract about saved and read records, and every handler
meets it.

In the Postgres store the list is a column of text. What is read back is the list with
every name split at its commas and the empty names dropped (`splitIPs_joinIPs`), which
Default survives.
-/

namespace Blinex.Native.Management

open Blinex.Go

/-! ## Lists as text -/

/-- The loop starts again behind a comma. -/
private theorem splitIPsLoop_comma (field a b : List Char) :
    splitIPsLoop field (a ++ ',' :: b) = splitIPsLoop field a ++ splitIPsLoop [] b := by
  induction a generalizing field with
  | nil => simp only [List.nil_append, splitIPsLoop, if_true]
  | cons c a ih =>
    simp only [List.cons_append, splitIPsLoop, ih]
    split
    · rw [List.append_assoc]
    · rfl

/-- Texts that are joined with a comma split into their pieces. -/
private theorem splitIPs_append_comma (s t : String) :
    splitIPs (s ++ "," ++ t) = splitIPs s ++ splitIPs t := by
  have htext : (s ++ "," ++ t).toList = s.toList ++ ',' :: t.toList := by
    simp only [String.toList_append, List.append_assoc]
    rfl
  rw [splitIPs, htext, splitIPsLoop_comma]
  rfl

/-- Joining and splitting splits every name. -/
theorem splitIPs_joinIPs (ips : List String) : splitIPs (joinIPs ips) = ips.flatMap splitIPs := by
  cases ips with
  | nil => rfl
  | cons ip ips =>
    -- the accumulator of the loop stands for the names before
    have hloop (ips : List String) (out : String) :
        splitIPs (ips.foldl (fun out ip => out ++ "," ++ ip) out) =
          splitIPs out ++ ips.flatMap splitIPs := by
      induction ips generalizing out with
      | nil => simp only [List.foldl_nil, List.flatMap_nil, List.append_nil]
      | cons ip ips ih =>
        rw [List.foldl_cons, ih, splitIPs_append_comma, List.flatMap_cons, List.append_assoc]
    exact hloop ips ip

/-- A name without commas is one piece. -/
theorem splitIPsLoop_of_no_comma {field s : List Char} (h : ',' ∉ s) (hne : field ++ s ≠ []) :
    splitIPsLoop field s = [String.ofList (field ++ s)] := by
  induction s generalizing field with
  | nil =>
    rw [List.append_nil] at hne ⊢
    simp only [splitIPsLoop, hne, if_false]
  | cons c s ih =>
    have hc : c ≠ ',' := fun heq => h (heq ▸ List.mem_cons_self)
    simp only [splitIPsLoop, hc, if_false]
    rw [ih (fun hs => h (List.mem_cons_of_mem _ hs)) (by simp), List.append_assoc]
    rfl

/-- What splitting returns are such names. -/
private theorem splitIPsLoop_pieces {field s : List Char} (hfield : ',' ∉ field) :
    ∀ ip ∈ splitIPsLoop field s, splitIPs ip = [ip] := by
  -- a field without a comma is one piece, and an empty one is none
  have hpiece (field : List Char) (hfield : ',' ∉ field) :
      ∀ ip ∈ (if field = [] then [] else [String.ofList field]), splitIPs ip = [ip] := by
    intro ip hip
    split at hip
    · cases hip
    · rename_i hne
      obtain rfl := List.mem_singleton.mp hip
      rw [splitIPs, String.toList_ofList]
      exact splitIPsLoop_of_no_comma hfield hne
  induction s generalizing field with
  | nil => exact hpiece field hfield
  | cons c s ih =>
    intro ip hip
    simp only [splitIPsLoop] at hip
    split at hip
    · rcases List.mem_append.mp hip with hip | hip
      · exact hpiece field hfield ip hip
      · exact ih List.not_mem_nil ip hip
    · rename_i hc
      refine ih ?_ ip hip
      rw [List.mem_append, List.mem_singleton]
      rintro (hmem | heq)
      · exact hfield hmem
      · exact hc heq.symm

/-- What was read from a column goes back unchanged. -/
theorem splitIPs_joinIPs_splitIPs (s : String) : splitIPs (joinIPs (splitIPs s)) = splitIPs s := by
  have hpieces : ∀ ip ∈ splitIPs s, splitIPs ip = [ip] := splitIPsLoop_pieces List.not_mem_nil
  rw [splitIPs_joinIPs, List.flatMap_congr hpieces]
  simp

/-! ## The backfill -/

/-- The name of the default group is one piece. -/
private theorem splitIPs_default :
    splitIPs Domain.defaultGroupName = [Domain.defaultGroupName] := by
  decide

/-- The groups of a row after the backfill. -/
private theorem splitIPs_backfillRow (p : PeerRow) :
    splitIPs (backfillRow p).groups = ensureDefaultGroup (splitIPs p.groups) := by
  unfold backfillRow ensureDefaultGroup
  split
  · rfl
  · have hsame := splitIPs_joinIPs_splitIPs p.groups
    rw [splitIPs_joinIPs] at hsame
    rw [splitIPs_joinIPs, List.flatMap_cons, hsame, splitIPs_default]
    rfl

/-- The default group is in the list afterwards. -/
private theorem default_mem_ensureDefaultGroup (groups : List String) :
    Domain.defaultGroupName ∈ ensureDefaultGroup groups := by
  unfold ensureDefaultGroup
  split
  · assumption
  · exact List.mem_cons_self

/-- The other groups stay, in their order. -/
private theorem filter_ensureDefaultGroup (groups : List String) :
    (ensureDefaultGroup groups).filter (· ≠ Domain.defaultGroupName) =
      groups.filter (· ≠ Domain.defaultGroupName) := by
  unfold ensureDefaultGroup
  split
  · rfl
  · rw [List.filter_cons_of_neg (by simp)]

/-- A row that has the default group is left alone. -/
private theorem backfillRow_of_mem {p : PeerRow} (h : Domain.defaultGroupName ∈ splitIPs p.groups) :
    backfillRow p = p := by
  rw [backfillRow, if_pos h]

/-- The backfill of a later start changes nothing more. -/
private theorem backfillRow_idem (p : PeerRow) : backfillRow (backfillRow p) = backfillRow p := by
  apply backfillRow_of_mem
  rw [splitIPs_backfillRow]
  exact default_mem_ensureDefaultGroup _

/-! ## A contract about records -/

/-- The peer is in Default. -/
def InDefault (p : Domain.Peer) : Prop := Domain.defaultGroupName ∈ p.groups

/-- Every stored peer is. -/
def AllInDefault (st : Store) : Prop := ∀ k p, st.peers.rows k = some p → InDefault p

/-- Every peer that is read is in the default group. -/
def defaultAssumes : Assumes where
  peer := fun _ p => InDefault p

/-- Records that are read are in Default, and records that are written have to be. -/
def defaultContract : Contract Op.Res where
  rely := defaultAssumes.rely
  guar
    | .savePeer p _ | .assignPeer p => InDefault p
    | _ => True

/-- The assumptions hold of a store whose peers are all in the default group. -/
theorem AllInDefault.holds {st : Store} (h : AllInDefault st) : defaultAssumes.Holds st :=
  ⟨h, fun _ _ => trivial, fun _ _ _ => trivial, fun _ _ _ => trivial⟩

/-- Saving a peer of the default group keeps them so. -/
theorem AllInDefault.save {st : Store} (h : AllInDefault st) {p : Domain.Peer} (hp : InDefault p) :
    AllInDefault (st.savePeer p) := by
  intro k q hq
  rcases PMap.set_eq_some _ hq with ⟨_, rfl⟩ | ⟨_, hold⟩
  · exact hp
  · exact h k q hold

/-- Both stores keep the invariant. -/
private theorem defaultContract_keeps :
    defaultContract.Keeps Server.exec fun s => AllInDefault s.store := by
  intro o s hs hguar
  refine ⟨?_, exec_rely hs.holds o⟩
  -- only three of the steps touch a peer
  rcases exec_store o s with hsame | hstep
  · rw [hsame]
    exact hs
  · revert hstep
    generalize (Server.exec o s).2.store = st'
    intro hstep
    cases hstep with
    | savePeer p => exact hs.save hguar
    | assignPeer p _ _ => exact hs.save hguar
    | deletePeer key => exact fun k p hp => hs k p (PMap.delete_eq_some _ hp).2
    | createSetupKey | deleteSetupKey | incrementSetupKeyUsage | createGroup | deleteGroup
    | saveRule | deleteRule => exact hs

/-- A peer of the default group is in it after it went through its row. -/
private theorem inDefault_stored {p : Domain.Peer} (h : InDefault p) :
    InDefault (toDomainPeer (peerRow p)) := by
  show Domain.defaultGroupName ∈ splitIPs (joinIPs p.groups)
  rw [splitIPs_joinIPs, List.mem_flatMap]
  exact ⟨_, h, by rw [splitIPs_default]; exact List.mem_singleton_self _⟩

/-- The contract with PostgreSQL, where the lists go through their texts. -/
private theorem defaultContract_pg_keeps :
    defaultContract.Keeps pgExec fun s => AllInDefault s.store := by
  intro o s hs hguar
  have hexec := defaultContract_keeps o s hs
  refine ⟨?_, pgExec_rely hs.holds o⟩
  cases o with
  | savePeer p err =>
    exact (defaultContract_keeps (.savePeer (toDomainPeer (peerRow p)) err) s hs
      (inDefault_stored hguar)).1
  | createSetupKey sk err =>
    exact (defaultContract_keeps (.createSetupKey (toDomainSetupKey (setupKeyRow sk)) err) s hs
      trivial).1
  | _ => exact (hexec hguar).1

/-! ## The handlers -/

/-- An update puts the peer into the default group, whatever groups it asks for. -/
private theorem inDefault_apply (uuid : String) (req : UpdatePeerRequest) (p : Domain.Peer) :
    InDefault (req.apply uuid p) := by
  unfold UpdatePeerRequest.apply
  split <;> exact default_mem_ensureDefaultGroup req.groups

/-- What the REST API saves is in Default. -/
private theorem RestRequest.May.inDefault {env : Env} {accountID : String} {req : RestRequest}
    {o : Op}
    (h : req.May env accountID defaultAssumes o) : defaultContract.guar o := by
  cases o with
  | savePeer p err =>
    -- the two handlers that keep the groups save a peer that was read
    cases req with
    | updatePeer key body =>
      obtain ⟨req, _, p₀, _, _, _, rfl⟩ := h
      exact inDefault_apply (env.uuid 0) req p₀
    | setPeerRoutes key body =>
      obtain ⟨_, _, p₀, _, hp₀, _, rfl⟩ := h
      exact hp₀
    | setPeerExitNode key body =>
      obtain ⟨_, _, p₀, _, hp₀, _, rfl⟩ := h
      exact hp₀
    | _ => exact False.elim h
  | assignPeer p =>
    cases req with
    | updatePeer key body =>
      obtain ⟨req, _, p₀, _, _, _, rfl⟩ := h
      exact default_mem_ensureDefaultGroup req.groups
    | _ => exact False.elim h
  | _ => trivial

/-- Every request of the REST interface meets the contract. -/
private theorem serveREST_default (env : Env) (claims : Claims) (req : RestRequest) :
    (serveREST env claims req).Meets defaultContract fun _ => True :=
  (serveREST_meets req).weaken (fun _ _ h => h) fun _ h => h.inDefault

/-- What a call of an agent saves, if its edit leaves the groups alone. -/
private theorem AgentMay.inDefault {key : String} {edit : Domain.Peer → Domain.Peer → Prop}
    (hedit : ∀ p₀ p, edit p₀ p → p.groups = p₀.groups) {o : Op}
    (h : AgentMay key edit defaultAssumes o) : defaultContract.guar o := by
  cases o with
  | savePeer p err =>
    obtain ⟨p₀, _, hp₀, he⟩ := h
    show Domain.defaultGroupName ∈ p.groups
    rw [hedit p₀ p he]
    exact hp₀
  | assignPeer p => exact False.elim h
  | _ => trivial

/-- An edit about the connection keeps the groups. -/
theorem ConnectionEdit.groups {p₀ p : Domain.Peer} (h : ConnectionEdit p₀ p) :
    p.groups = p₀.groups := by
  obtain ⟨_, _, _, rfl⟩ := h
  rfl

/-- An edit of the metadata keeps the groups. -/
theorem MetaEdit.groups {peerMeta : Option Commonv1.PeerMeta} {p₀ p : Domain.Peer}
    (h : MetaEdit peerMeta p₀ p) : p.groups = p₀.groups := by
  obtain ⟨uuid, _, rfl⟩ := h
  cases peerMeta <;> rfl

/-- A login meets the contract: a new peer is put into the default group. -/
private theorem login_default (network : String) (env : Env) (ctx : Ctx) (allowed : Bool)
    (req : LoginRequest) :
    (login network env ctx allowed req).Meets defaultContract fun _ => True := by
  have hpermits : LoginPermits env ctx req defaultAssumes defaultContract :=
    { rely := fun _ _ h => h
      getSetupKey := fun _ => trivial
      allocate := trivial
      getPeer := trivial
      -- `enrollGroups` puts the group first
      create := fun _ _ _ _ _ => List.mem_cons_self
      -- an existing record keeps its groups
      renew := fun _ _ _ _ _ hex _ => hex
      increment := fun _ _ _ => trivial
      lookupCountry := fun _ => trivial
      notifyAll := fun _ => trivial }
  exact (hpermits.login network allowed).imp fun _ _ => trivial

/-- Sending a response writes nothing. -/
private theorem send_default (network : String) (env : Env) (accountID key : String) :
    (send network env accountID key).Meets defaultContract fun _ => True := by
  simp only [send, Call.getPeersByAccount, Call.getRulesByAccount, Prog.op_bind, Prog.ret_bind]
  refine ⟨trivial, fun r _ => ?_⟩
  cases r with
  | error e => trivial
  | ok peers =>
    refine ⟨trivial, fun r _ => ?_⟩
    cases r <;> trivial

/-- Every call of an agent meets the contract. -/
private theorem peerCall_default (token : Claims) (call : PeerCall) :
    (call.prog token).Meets defaultContract fun _ => True := by
  -- no call but `updatePeerMeta` edits anything else than the connection
  have hconnection {α : Type} {key : String} {p : M α}
      (h : p.Meets (agentContract key ConnectionEdit defaultAssumes) fun _ => True) :
      p.Meets defaultContract fun _ => True :=
    h.weaken (fun _ _ h => h) fun _ h => AgentMay.inDefault (fun _ _ => ConnectionEdit.groups) h
  cases call with
  | syncOpen env sourceIP stream key =>
    exact (hconnection (syncOpen_meets stream)).bind fun _ _ => trivial
  | send network env accountID =>
    exact (send_default network env accountID token.wgPubKey).bind fun _ _ => trivial
  | syncClose env accountID => exact hconnection (syncClose_meets accountID)
  | resolveCountry ip country err => exact hconnection (resolveCountry_meets country)
  | updatePeerMeta env sourceIP key peerMeta =>
    have hmeta : (updatePeerMeta env ⟨sourceIP, some token⟩ key peerMeta).Meets defaultContract
        fun _ => True :=
      (updatePeerMeta_meets peerMeta).weaken (fun _ _ h => h) fun _ h =>
        AgentMay.inDefault (fun _ _ => MetaEdit.groups) h
    exact hmeta.bind fun _ _ => trivial

/-! ## Sequences of requests -/

/-- The program of a request. -/
def Request.prog : Request → M Unit
  | .rest env claims req => do let _ ← serveREST env claims req
  | .login network env ctx allowed req => do
    let _ ← Management.login network env ctx allowed req
  | .peer token call => call.prog token

/-- Every request meets the contract. -/
private theorem request_default (r : Request) : r.prog.Meets defaultContract fun _ => True := by
  cases r with
  | rest env claims req => exact (serveREST_default env claims req).bind fun _ _ => trivial
  | login network env ctx allowed req =>
    exact (login_default network env ctx allowed req).bind fun _ _ => trivial
  | peer token call => exact peerCall_default token call

/-- The server after requests that are executed one at a time. -/
def serveAll (exec : (o : Op) → Server → o.Res × Server) (s : Server) (rs : List Request) :
    Server :=
  rs.foldl (fun s r => (r.prog.run exec s).2) s

/-- After any sequence of requests all peers are in the default group. -/
private theorem serveAll_default {exec : (o : Op) → Server → o.Res × Server}
    (hkeeps : defaultContract.Keeps exec fun s => AllInDefault s.store) {s : Server}
    (hs : AllInDefault s.store) (rs : List Request) : AllInDefault (serveAll exec s rs).store := by
  induction rs generalizing s with
  | nil => exact hs
  | cons r rs ih => exact ih ((request_default r).run hkeeps hs).1

/-- When the server starts, the backfill has put all peers into the default group. -/
private theorem allInDefault_openRows {st : Store} {rows : Table PeerRow.wgPubKey}
    (h : st.peers = openRows rows) : AllInDefault st := by
  intro k p hp
  rw [h] at hp
  obtain ⟨row, _, rfl⟩ := Option.map_eq_some_iff.mp hp
  show Domain.defaultGroupName ∈ splitIPs (backfillRow row).groups
  rw [splitIPs_backfillRow]
  exact default_mem_ensureDefaultGroup _

/-- What the backfill of `New` does to a row. -/
structure BackfillKeeps (row : PeerRow) : Prop where
  /-- A row that has Default is not changed. -/
  unchanged : Domain.defaultGroupName ∈ splitIPs row.groups → backfillRow row = row
  /-- Only the groups are. -/
  otherColumns : { backfillRow row with groups := row.groups } = row
  /-- The other groups stay, in order. -/
  otherGroups : (splitIPs (backfillRow row).groups).filter (· ≠ Domain.defaultGroupName) =
    (splitIPs row.groups).filter (· ≠ Domain.defaultGroupName)
  idempotent : backfillRow (backfillRow row) = backfillRow row

/-- The backfill adds the default group and changes nothing else. -/
private theorem backfillKeeps (row : PeerRow) : BackfillKeeps row := by
  refine ⟨backfillRow_of_mem, ?_, ?_, backfillRow_idem row⟩
  · unfold backfillRow
    split <;> rfl
  · rw [splitIPs_backfillRow]
    exact filter_ensureDefaultGroup _

/-- **Every peer is always in Default**, in a Postgres store that `New` has opened on any
    rows and in an in-memory store that starts without peers, after any sequence of
    requests. The backfill changes nothing else, and nothing at all the second time. -/
theorem every_peer_in_default :
    (∀ (rows : Table PeerRow.wgPubKey) (s : Server), s.store.peers = openRows rows →
      ∀ rs, AllInDefault (serveAll pgExec s rs).store) ∧
    (∀ s : Server, (∀ k, s.store.peers.rows k = none) →
      ∀ rs, AllInDefault (serveAll Server.exec s rs).store) ∧
    ∀ row, BackfillKeeps row := by
  refine ⟨fun rows s hrows rs => ?_, fun s hempty rs => ?_, backfillKeeps⟩
  · exact serveAll_default defaultContract_pg_keeps (allInDefault_openRows hrows) rs
  · refine serveAll_default defaultContract_keeps (fun k p hp => ?_) rs
    rw [hempty k] at hp
    cases hp

/-- A row from before groups, in a group whose name only looks like Default. -/
def teamServer : Server where
  store := { peers := openRows (Table.empty.save { wgPubKey := "A", groups := "DefaultTeam" }) }
  ipam := { network := 0x64400000#32, mask := 0xffc00000#32, next := 0x64400001#32 }

/-- An operator's update that does not mention Default. -/
def teamUpdate : Request :=
  .rest { uuid := fun _ => "" } { role := "admin" } (.updatePeer "A" (.ok { groups := ["x"] }))

/-- A peer whose group only starts with the name of the default group gets it. -/
theorem teamServer_in_default :
    (serveAll pgExec teamServer []).store.peers.rows "A" =
      some { wgPubKey := "A", groups := ["Default", "DefaultTeam"] } ∧
    (serveAll pgExec teamServer [teamUpdate]).store.peers.rows "A" =
      some { wgPubKey := "A", groups := ["Default", "x"] } ∧
    AllInDefault (serveAll pgExec teamServer [teamUpdate]).store :=
  ⟨by decide +kernel, by decide +kernel, every_peer_in_default.1 _ teamServer rfl [teamUpdate]⟩

end Blinex.Native.Management
