import Blinex.Native.Management

/-!
# `management/internal/store/postgres`

What the Postgres store adds to the tables of `Store`: lists are columns of
comma-separated text, so a record that is saved comes back with its lists joined and
split, and `New` puts every row that lacks it into the Default group.

A row is only ever read through `toDomainPeer` and `toDomainSetupKey`. The tables of
the model hold what these return: `pgExec` is `Server.exec` with saved records taken
through their rows.
-/

namespace Blinex.Native.Management

/-- `joinIPs`. -/
def joinIPs : List String → String
  | [] => ""
  | ip :: ips => ips.foldl (fun out ip => out ++ "," ++ ip) ip

/-- The loop of `splitIPs`; `field` is the text since the last comma. Empty fields are
    dropped. -/
def splitIPsLoop (field : List Char) : List Char → List String
  | [] => if field = [] then [] else [String.ofList field]
  | c :: rest =>
    if c = ',' then
      (if field = [] then [] else [String.ofList field]) ++ splitIPsLoop [] rest
    else splitIPsLoop (field ++ [c]) rest

/-- `splitIPs`. -/
def splitIPs (s : String) : List String := splitIPsLoop [] s.toList

example : splitIPs ",a,,DefaultTeam" = ["a", "DefaultTeam"] := by decide

/-! ## Rows -/

/-- `peer`, the row of a peer. -/
structure PeerRow where
  id : String := ""
  accountID : String := ""
  wgPubKey : String := ""
  ip : String := ""
  localIP : String := ""
  publicIP : String := ""
  country : String := ""
  hostname : String := ""
  os : String := ""
  kernel : String := ""
  version : String := ""
  dnsLabel : String := ""
  groups : String := ""
  allowedIPs : String := ""
  advertisedRoutes : String := ""
  exitNode : String := ""
  lastSeen : Int := 0
  createdAt : Int := 0
deriving DecidableEq

/-- `toDomainPeer`. -/
def toDomainPeer (p : PeerRow) : Domain.Peer where
  id := p.id
  accountID := p.accountID
  wgPubKey := p.wgPubKey
  ip := p.ip
  localIP := p.localIP
  publicIP := p.publicIP
  country := p.country
  hostname := p.hostname
  os := p.os
  kernel := p.kernel
  version := p.version
  dnsLabel := p.dnsLabel
  groups := splitIPs p.groups
  allowedIPs := splitIPs p.allowedIPs
  advertisedRoutes := splitIPs p.advertisedRoutes
  exitNode := p.exitNode
  lastSeen := p.lastSeen
  createdAt := p.createdAt

/-- The row that `SavePeer` writes. -/
def peerRow (dp : Domain.Peer) : PeerRow where
  id := dp.id
  accountID := dp.accountID
  wgPubKey := dp.wgPubKey
  ip := dp.ip
  localIP := dp.localIP
  publicIP := dp.publicIP
  country := dp.country
  hostname := dp.hostname
  os := dp.os
  kernel := dp.kernel
  version := dp.version
  dnsLabel := dp.dnsLabel
  groups := joinIPs dp.groups
  allowedIPs := joinIPs dp.allowedIPs
  advertisedRoutes := joinIPs dp.advertisedRoutes
  exitNode := dp.exitNode
  lastSeen := dp.lastSeen
  createdAt := dp.createdAt

/-- `setupKey`, the row of a setup key. -/
structure SetupKeyRow where
  id : String := ""
  accountID : String := ""
  key : String := ""
  name : String := ""
  ephemeral : Bool := false
  usedCount : Int := 0
  autoGroups : String := ""
  expiresAt : Int := 0
  createdAt : Int := 0
deriving DecidableEq

/-- `toDomainSetupKey`. -/
def toDomainSetupKey (sk : SetupKeyRow) : Domain.SetupKey where
  id := sk.id
  accountID := sk.accountID
  key := sk.key
  name := sk.name
  ephemeral := sk.ephemeral
  usedCount := sk.usedCount
  autoGroups := splitIPs sk.autoGroups
  expiresAt := sk.expiresAt
  createdAt := sk.createdAt

/-- The row that `CreateSetupKey` writes; `used_count` is not among its columns and starts at its
    zero value. -/
def setupKeyRow (dk : Domain.SetupKey) : SetupKeyRow where
  id := dk.id
  accountID := dk.accountID
  key := dk.key
  name := dk.name
  ephemeral := dk.ephemeral
  autoGroups := joinIPs dk.autoGroups
  expiresAt := dk.expiresAt
  createdAt := dk.createdAt

/-- The operations on the Postgres store. -/
def pgExec : (o : Op) → Server → o.Res × Server
  | .savePeer p err, s => Server.exec (.savePeer (toDomainPeer (peerRow p)) err) s
  | .createSetupKey sk err, s =>
    Server.exec (.createSetupKey (toDomainSetupKey (setupKeyRow sk)) err) s
  | o, s => Server.exec o s

/-! ## `New` -/

/-- The loop body of the backfill in `New`, exact membership and not `LIKE`. -/
def backfillRow (p : PeerRow) : PeerRow :=
  if Domain.defaultGroupName ∈ splitIPs p.groups then p
  else { p with groups := joinIPs (Domain.defaultGroupName :: splitIPs p.groups) }

/-- The backfill does not touch the key of a row. -/
private theorem backfillRow_wgPubKey (p : PeerRow) : (backfillRow p).wgPubKey = p.wgPubKey := by
  unfold backfillRow
  split <;> rfl

/-- The peers of a store that `New` has opened on the given rows. -/
def openRows (rows : Table PeerRow.wgPubKey) : Table Domain.Peer.wgPubKey :=
  rows.map (fun p => toDomainPeer (backfillRow p)) backfillRow_wgPubKey

/-- What the backfill makes of a peer that the store has written. -/
def backfillPeer (p : Domain.Peer) : Domain.Peer := toDomainPeer (backfillRow (peerRow p))

/-! ## Starting the server -/

/-- The setup key of `Seed`, if there is none with that secret. The group and the rule
    it also seeds are read by neither `Login` nor the peer handlers. -/
def seed (now : Nat → Int) (accountID key : String) (s : Store) : Store :=
  match s.setupKeys.rows key with
  | some _ => s
  | none =>
    s.createSetupKey
      { id := "default-key"
        accountID
        key
        name := "Default key"
        expiresAt := now 0 + 365 * 24 * 3600 * 1000000000
        createdAt := now 1 }

/-- What `main` gets from outside: its configuration, the clock, and what becomes of
    `GetAllPeers`, an order or an error. -/
structure Startup where
  networkCIDR : String
  defaultKey : String := ""
  now : Nat → Int := fun _ => 0
  order : List String := []
  getAllPeersErr : Option String := none

/-- The store that `New` and `Seed` leave. -/
def Startup.openStore (u : Startup) (s : Store) : Store :=
  seed u.now "default" u.defaultKey
    { s with peers := s.peers.map backfillPeer fun p => backfillRow_wgPubKey (peerRow p) }

/-- `main` until the server serves. The database stays, everything else is built anew,
    and an error of `GetAllPeers` leaves the IPAM without the leases of the stored peers.
    No server comes up with a network that `NewIPAM` refuses. -/
def Server.restart (u : Startup) (s : Server) : Option Server :=
  (IPAM.newIPAM u.networkCIDR).map fun ipam =>
    let store := u.openStore s.store
    { store
      ipam :=
        match u.getAllPeersErr with
        | some _ => ipam
        | none => ipam.preloadPeers (store.getAllPeers u.order)
      notified := s.notified
      lookups := s.lookups }

end Blinex.Native.Management
