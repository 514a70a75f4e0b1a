import Blinex.ForStd.Prog
import Blinex.Native.Ipam
import Blinex.Native.Store

/-!
# `management`: the server's shared state

The gRPC and the HTTP server work on one store, one IPAM, one table of `Sync`
subscribers and one list of revoked keys. Handlers are programs over the operations
below (`Prog`), each atomic under its own lock or in the database. What a handler
gets from outside (clock, UUIDs, database errors, the order of a `range`) is its
`Env`.
-/

namespace Blinex.Native.Management

/-- `syncSub`; `stream` stands for its identity and its channel. -/
structure SyncSub where
  stream : Nat
  accountID : String
deriving DecidableEq

/-- `registerSub`. -/
def registerSub (subs : PMap String SyncSub) (key : String) (sub : SyncSub) :
    PMap String SyncSub :=
  subs.set key sub

/-- `unregisterSub`: whoever is filed under the key is removed. -/
def unregisterSub (subs : PMap String SyncSub) (key : String) : PMap String SyncSub :=
  subs.delete key

/-- `ConnectedKeys`. -/
def connectedKeys (subs : PMap String SyncSub) : String → Bool := fun key => (subs key).isSome

/-- The state the handlers share. `notified` and `lookups` are history: the calls of
    `notifyAll` with the store they found, and the country lookups started, newest
    first. -/
structure Server where
  store : Store := {}
  ipam : IPAM
  subs : PMap String SyncSub := PMap.empty
  revoked : PMap String Int := PMap.empty
  notified : List (String × Store) := []
  lookups : List (String × String) := []

/-- Orders in which the maps of the in-memory store may be visited. -/
structure Orders where
  setupKeys : List String := []
  groups : List String := []
  peers : List String := []
  rules : List String := []

/-- The orders are ones that `range` may take. -/
structure Orders.Valid (o : Orders) (s : Store) : Prop where
  setupKeys : PMap.RangeOrder s.setupKeys.rows o.setupKeys
  groups : PMap.RangeOrder s.groups.rows o.groups
  peers : PMap.RangeOrder s.peers.rows o.peers
  rules : PMap.RangeOrder s.rules.rows o.rules

/-- What a call gets from outside: its clock readings and UUIDs in the order it asks
    for them, which of its store calls fail (in program order, reads by key aside),
    and the orders of its `range` loops. -/
structure Env where
  now : Nat → Int := fun _ => 0
  uuid : Nat → String
  fails : Nat → Option String := fun _ => none
  orders : Orders := {}
  /-- `validateRuleFields` ranges over a map with the two fields. -/
  srcFirst : Bool := true

/-- The operations on the shared state. An `err` is the database's. -/
inductive Op where
  | getSetupKey (key : String) (now : Int)
  | getSetupKeysByAccount (accountID : String) (order : List String) (err : Option String)
  | createSetupKey (sk : Domain.SetupKey) (err : Option String)
  | deleteSetupKey (accountID id : String) (order : List String) (err : Option String)
  | incrementSetupKeyUsage (keyID : String) (order : List String) (err : Option String)
  | getGroupsByAccount (accountID : String) (order : List String) (err : Option String)
  | createGroup (g : Domain.Group) (err : Option String)
  | deleteGroup (accountID id : String) (err : Option String)
  | getPeer (wgPubKey : String)
  | assignPeer (p : Domain.Peer)
  | getPeersByAccount (accountID : String) (order : List String) (err : Option String)
  | savePeer (p : Domain.Peer) (err : Option String)
  | deletePeer (wgPubKey : String) (err : Option String)
  | getRulesByAccount (accountID : String) (order : List String) (err : Option String)
  | saveRule (r : Domain.Rule) (err : Option String)
  | deleteRule (accountID id : String) (err : Option String)
  | allocate (wgPubKey : String)
  | releaseIP (wgPubKey : String)
  | revokeByWGKey (wgPubKey : String) (now : Int)
  | registerSub (key : String) (sub : SyncSub)
  | unregisterSub (key : String)
  | connectedKeys
  | notifyAll (accountID : String)
  | lookupCountry (wgPubKey ip : String)
deriving DecidableEq

/-- What an operation returns. -/
@[reducible] def Op.Res : Op → Type
  | .getSetupKey .. => Except String Domain.SetupKey
  | .getSetupKeysByAccount .. => Except String (List Domain.SetupKey)
  | .getGroupsByAccount .. => Except String (List Domain.Group)
  | .getPeer .. => Except String Domain.Peer
  | .getPeersByAccount .. => Except String (List Domain.Peer)
  | .getRulesByAccount .. => Except String (List Domain.Rule)
  | .createSetupKey .. | .deleteSetupKey .. | .incrementSetupKeyUsage .. | .createGroup ..
  | .deleteGroup .. | .savePeer .. | .deletePeer .. | .saveRule .. | .deleteRule .. =>
    Except String Unit
  | .allocate .. => Except String String
  | .connectedKeys => String → Bool
  | .assignPeer .. | .releaseIP .. | .revokeByWGKey .. | .registerSub .. | .unregisterSub ..
  | .notifyAll .. | .lookupCountry .. => Unit

namespace Server

/-- A read of the store, unless the database fails. -/
def read {α : Type} (err : Option String) (s : Server) (a : α) : Except String α × Server :=
  match err with
  | some e => (.error e, s)
  | none => (.ok a, s)

/-- A write to the store, unless the database fails. -/
def write (err : Option String) (s : Server) (store : Store) : Except String Unit × Server :=
  match err with
  | some e => (.error e, s)
  | none => (.ok (), { s with store })

/-- A write that may find nothing to change. -/
def change (err : Option String) (s : Server) (r : Except String Unit × Store) :
    Except String Unit × Server :=
  match err with
  | some e => (.error e, s)
  | none => (r.1, { s with store := r.2 })

/-- What the operations do. -/
def exec : (o : Op) → Server → o.Res × Server
  | .getSetupKey key now, s => (s.store.getSetupKey now key, s)
  | .getSetupKeysByAccount accountID order err, s =>
    s.read err (s.store.getSetupKeysByAccount accountID order)
  | .createSetupKey sk err, s => s.write err (s.store.createSetupKey sk)
  | .deleteSetupKey accountID id order err, s =>
    s.change err (s.store.deleteSetupKey accountID id order)
  | .incrementSetupKeyUsage keyID order err, s =>
    s.change err (s.store.incrementSetupKeyUsage keyID order)
  | .getGroupsByAccount accountID order err, s =>
    s.read err (s.store.getGroupsByAccount accountID order)
  | .createGroup g err, s => s.write err (s.store.createGroup g)
  | .deleteGroup accountID id err, s => s.change err (s.store.deleteGroup accountID id)
  | .getPeer wgPubKey, s => (s.store.getPeer wgPubKey, s)
  -- `GetPeer` hands out the stored pointer, and a handler may write through it
  | .assignPeer p, s => ((), { s with store := s.store.assignPeer p })
  | .getPeersByAccount accountID order err, s =>
    s.read err (s.store.getPeersByAccount accountID order)
  | .savePeer p err, s => s.write err (s.store.savePeer p)
  | .deletePeer wgPubKey err, s => s.write err (s.store.deletePeer wgPubKey)
  | .getRulesByAccount accountID order err, s =>
    s.read err (Native.getRulesByAccount s.store.rules.rows accountID order)
  | .saveRule r err, s => s.write err (s.store.saveRule r)
  | .deleteRule accountID id err, s => s.change err (s.store.deleteRule accountID id)
  | .allocate wgPubKey, s =>
    ((s.ipam.allocate wgPubKey).1, { s with ipam := (s.ipam.allocate wgPubKey).2 })
  | .releaseIP wgPubKey, s => ((), { s with ipam := s.ipam.release wgPubKey })
  | .revokeByWGKey wgPubKey now, s => ((), { s with revoked := s.revoked.set wgPubKey now })
  | .registerSub key sub, s => ((), { s with subs := Management.registerSub s.subs key sub })
  | .unregisterSub key, s => ((), { s with subs := Management.unregisterSub s.subs key })
  | .connectedKeys, s => (Management.connectedKeys s.subs, s)
  -- what is in the store when the notification is made is kept with it
  | .notifyAll accountID, s => ((), { s with notified := (accountID, s.store) :: s.notified })
  | .lookupCountry wgPubKey ip, s => ((), { s with lookups := (wgPubKey, ip) :: s.lookups })

end Server

/-- A handler, or a part of one. -/
abbrev M := Prog Op.Res

/-! ## The operations as programs -/

namespace Call

/-- `store.GetSetupKey` -/
def getSetupKey (key : String) (now : Int) : M (Except String Domain.SetupKey) :=
  .op (.getSetupKey key now) .ret

/-- `store.GetSetupKeysByAccount` -/
def getSetupKeysByAccount (accountID : String) (order : List String) (err : Option String) :
    M (Except String (List Domain.SetupKey)) :=
  .op (.getSetupKeysByAccount accountID order err) .ret

/-- `store.CreateSetupKey` -/
def createSetupKey (sk : Domain.SetupKey) (err : Option String) : M (Except String Unit) :=
  .op (.createSetupKey sk err) .ret

/-- `store.DeleteSetupKey` -/
def deleteSetupKey (accountID id : String) (order : List String) (err : Option String) :
    M (Except String Unit) :=
  .op (.deleteSetupKey accountID id order err) .ret

/-- `store.IncrementSetupKeyUsage` -/
def incrementSetupKeyUsage (keyID : String) (order : List String) (err : Option String) :
    M (Except String Unit) :=
  .op (.incrementSetupKeyUsage keyID order err) .ret

/-- `store.GetGroupsByAccount` -/
def getGroupsByAccount (accountID : String) (order : List String) (err : Option String) :
    M (Except String (List Domain.Group)) :=
  .op (.getGroupsByAccount accountID order err) .ret

/-- `store.CreateGroup` -/
def createGroup (g : Domain.Group) (err : Option String) : M (Except String Unit) :=
  .op (.createGroup g err) .ret

/-- `store.DeleteGroup` -/
def deleteGroup (accountID id : String) (err : Option String) : M (Except String Unit) :=
  .op (.deleteGroup accountID id err) .ret

/-- `store.GetPeer` -/
def getPeer (wgPubKey : String) : M (Except String Domain.Peer) :=
  .op (.getPeer wgPubKey) .ret

/-- The fields of a stored peer are assigned through its pointer. -/
def assignPeer (p : Domain.Peer) : M Unit :=
  .op (.assignPeer p) .ret

/-- `store.GetPeersByAccount` -/
def getPeersByAccount (accountID : String) (order : List String) (err : Option String) :
    M (Except String (List Domain.Peer)) :=
  .op (.getPeersByAccount accountID order err) .ret

/-- `store.SavePeer` -/
def savePeer (p : Domain.Peer) (err : Option String) : M (Except String Unit) :=
  .op (.savePeer p err) .ret

/-- `store.DeletePeer` -/
def deletePeer (wgPubKey : String) (err : Option String) : M (Except String Unit) :=
  .op (.deletePeer wgPubKey err) .ret

/-- `store.GetRulesByAccount` -/
def getRulesByAccount (accountID : String) (order : List String) (err : Option String) :
    M (Except String (List Domain.Rule)) :=
  .op (.getRulesByAccount accountID order err) .ret

/-- `store.SaveRule` -/
def saveRule (r : Domain.Rule) (err : Option String) : M (Except String Unit) :=
  .op (.saveRule r err) .ret

/-- `store.DeleteRule` -/
def deleteRule (accountID id : String) (err : Option String) : M (Except String Unit) :=
  .op (.deleteRule accountID id err) .ret

/-- `ipam.Allocate` -/
def allocate (wgPubKey : String) : M (Except String String) :=
  .op (.allocate wgPubKey) .ret

/-- `ipam.Release` -/
def releaseIP (wgPubKey : String) : M Unit :=
  .op (.releaseIP wgPubKey) .ret

/-- `jwt.RevokeByWGKey` -/
def revokeByWGKey (wgPubKey : String) (now : Int) : M Unit :=
  .op (.revokeByWGKey wgPubKey now) .ret

/-- File the stream under its key. -/
def registerSub (key : String) (sub : SyncSub) : M Unit :=
  .op (.registerSub key sub) .ret

/-- Remove whoever is filed under the key. -/
def unregisterSub (key : String) : M Unit :=
  .op (.unregisterSub key) .ret

/-- The keys that have a stream. -/
def connectedKeys : M (String → Bool) :=
  .op (.connectedKeys) .ret

/-- `NotifyAll` of the stream server -/
def notifyAll (accountID : String) : M Unit :=
  .op (.notifyAll accountID) .ret

/-- The goroutine that looks up the country of an address is started. -/
def lookupCountry (wgPubKey ip : String) : M Unit :=
  .op (.lookupCountry wgPubKey ip) .ret

end Call

end Blinex.Native.Management
