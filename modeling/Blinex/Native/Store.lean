import Mathlib.Data.Int.Order.Basic
import Blinex.ForStd.FirstMatch
import Blinex.ForStd.Table
import Blinex.Native.Messages

/-!
# `management/internal/store`

Both stores key rules by ID. The in-memory store ranges over its map, so the
order it collects the rules in is the runtime's choice; the Postgres store asks
for `ORDER BY priority` and gets ties in whatever order the database returns
them.

`Store` is what the two implementations of the `Store` interface have in common:
four tables, with peers filed under their public key and setup keys under their
secret (in Postgres a unique index). The methods are those of `memory/store.go`;
what differs in `postgres/store.go` is an input: an error the database may return,
and whether `GetPeer` hands out a copy (`live`).
-/

namespace Blinex.Native

/-- The rules of an account as a `range` over the map in the given order
    collects them. -/
def collectRules (rules : PMap String Domain.Rule) (accountID : String) (order : List String) :
    List Domain.Rule :=
  (order.filterMap rules).filter (·.accountID == accountID)

/-- `memory.Store.GetRulesByAccount`: collects, then `sort.SliceStable` by
    priority. -/
def getRulesByAccount (rules : PMap String Domain.Rule) (accountID : String)
    (order : List String) : List Domain.Rule :=
  (collectRules rules accountID order).mergeSort fun a b => decide (a.priority ≤ b.priority)

/-- `postgres.Store.GetRulesByAccount`: `out` is a result the query may give. -/
def PostgresRules (rules : PMap String Domain.Rule) (accountID : String)
    (out : List Domain.Rule) : Prop :=
  ∃ order, PMap.RangeOrder rules order ∧
    SortedRun Domain.Rule.priority (collectRules rules accountID order) out

/-- Two orders of the same `range` collect the same rules. -/
theorem collectRules_perm {rules : PMap String Domain.Rule} {order order' : List String}
    (h : PMap.RangeOrder rules order) (h' : PMap.RangeOrder rules order') (accountID : String) :
    (collectRules rules accountID order).Perm (collectRules rules accountID order') := by
  have hperm : order.Perm order' := by
    rw [List.perm_ext_iff_of_nodup h.nodup h'.nodup]
    intro k
    rw [h.mem_iff, h'.mem_iff]
  exact (hperm.filterMap rules).filter _

/-- The rules collected for an account are its rules. -/
theorem mem_collectRules {rules : PMap String Domain.Rule} {order : List String}
    (h : PMap.RangeOrder rules order) (accountID : String) (r : Domain.Rule) :
    r ∈ collectRules rules accountID order ↔
      (∃ id, rules id = some r) ∧ r.accountID = accountID := by
  simp only [collectRules, List.mem_filter, List.mem_filterMap, beq_iff_eq]
  constructor
  · rintro ⟨⟨id, _, hr⟩, ha⟩
    exact ⟨⟨id, hr⟩, ha⟩
  · rintro ⟨⟨id, hr⟩, ha⟩
    exact ⟨⟨id, (h.mem_iff id).mpr (by rw [hr]; exact nofun), hr⟩, ha⟩

/-! ## The store -/

/-- A store. In the in-memory one the record that `GetPeer` returns is `live`: an
    assignment to its fields changes the store at once. -/
structure Store where
  live : Bool := false
  setupKeys : Table Domain.SetupKey.key := .empty
  groups : Table Domain.Group.id := .empty
  peers : Table Domain.Peer.wgPubKey := .empty
  rules : Table Domain.Rule.id := .empty

namespace Store

/-- `GetSetupKey`. -/
def getSetupKey (s : Store) (now : Int) (key : String) : Except String Domain.SetupKey :=
  match s.setupKeys.rows key with
  | none => .error "setup key not found"
  | some sk => if sk.expiresAt < now then .error "setup key expired" else .ok sk

/-- `CreateSetupKey`. -/
def createSetupKey (s : Store) (sk : Domain.SetupKey) : Store :=
  { s with setupKeys := s.setupKeys.save sk }

/-- `GetSetupKeysByAccount`. -/
def getSetupKeysByAccount (s : Store) (accountID : String) (order : List String) :
    List Domain.SetupKey :=
  s.setupKeys.rows.select (·.accountID == accountID) order

/-- `DeleteSetupKey`: the first key that a `range` finds with this ID and account. -/
def deleteSetupKey (s : Store) (accountID id : String) (order : List String) :
    Except String Unit × Store :=
  match (order.filterMap s.setupKeys.rows).find?
      (fun sk => sk.id == id && sk.accountID == accountID) with
  | some sk => (.ok (), { s with setupKeys := s.setupKeys.delete sk.key })
  | none => (.error "setup key not found", s)

/-- `IncrementSetupKeyUsage`. -/
def incrementSetupKeyUsage (s : Store) (keyID : String) (order : List String) :
    Except String Unit × Store :=
  match (order.filterMap s.setupKeys.rows).find? (·.id == keyID) with
  | some sk =>
    (.ok (), { s with setupKeys := s.setupKeys.save { sk with usedCount := sk.usedCount + 1 } })
  | none => (.error ("setup key id not found: " ++ keyID), s)

/-- `GetGroupsByAccount`, sorted by creation time. -/
def getGroupsByAccount (s : Store) (accountID : String) (order : List String) :
    List Domain.Group :=
  (s.groups.rows.select (·.accountID == accountID) order).mergeSort
    fun a b => decide (a.createdAt ≤ b.createdAt)

/-- `CreateGroup`. -/
def createGroup (s : Store) (g : Domain.Group) : Store := { s with groups := s.groups.save g }

/-- `DeleteGroup`. -/
def deleteGroup (s : Store) (accountID id : String) : Except String Unit × Store :=
  match s.groups.rows id with
  | none => (.error "group not found", s)
  | some g =>
    if g.accountID ≠ accountID then (.error "group not found", s)
    else (.ok (), { s with groups := s.groups.delete id })

/-- `GetPeer`. -/
def getPeer (s : Store) (wgPubKey : String) : Except String Domain.Peer :=
  match s.peers.rows wgPubKey with
  | none => .error ("peer not found: " ++ wgPubKey)
  | some p => .ok p

/-- Assignments to the fields of a record that `GetPeer` returned; they turn it into
    `p`. -/
def assignPeer (s : Store) (p : Domain.Peer) : Store :=
  if s.live && (s.peers.rows p.wgPubKey).isSome then { s with peers := s.peers.save p } else s

/-- `GetPeersByAccount`. -/
def getPeersByAccount (s : Store) (accountID : String) (order : List String) :
    List Domain.Peer :=
  s.peers.rows.select (·.accountID == accountID) order

/-- `GetAllPeers`. -/
def getAllPeers (s : Store) (order : List String) : List Domain.Peer :=
  order.filterMap s.peers.rows

/-- `SavePeer`. -/
def savePeer (s : Store) (p : Domain.Peer) : Store := { s with peers := s.peers.save p }

/-- `DeletePeer`. -/
def deletePeer (s : Store) (wgPubKey : String) : Store :=
  { s with peers := s.peers.delete wgPubKey }

/-- `SaveRule`. -/
def saveRule (s : Store) (r : Domain.Rule) : Store := { s with rules := s.rules.save r }

/-- `DeleteRule`. -/
def deleteRule (s : Store) (accountID id : String) : Except String Unit × Store :=
  match s.rules.rows id with
  | none => (.error "rule not found", s)
  | some r =>
    if r.accountID ≠ accountID then (.error "rule not found", s)
    else (.ok (), { s with rules := s.rules.delete id })

/-- A peer that is returned is stored under the key. -/
theorem getPeer_eq_ok {s : Store} {key : String} {p : Domain.Peer} (h : s.getPeer key = .ok p) :
    s.peers.rows key = some p := by
  unfold getPeer at h
  split at h
  · exact nomatch h
  · rename_i hq
    rw [hq, Except.ok.inj h]

theorem getPeer_of_some {s : Store} {key : String} {p : Domain.Peer}
    (h : s.peers.rows key = some p) : s.getPeer key = .ok p := by
  simp only [getPeer, h]

/-- An error means that the key is not stored. -/
theorem getPeer_eq_error {s : Store} {key e : String} (h : s.getPeer key = .error e) :
    s.peers.rows key = none := by
  unfold getPeer at h
  split at h
  · assumption
  · exact nomatch h

end Store

end Blinex.Native
