import Blinex.ForStd.Prog
import Blinex.Go.Strings

/-!
# `client/internal/dnsconfig`: the DNS takeover on Windows

The functions are programs over the calls they make: a file operation or a PowerShell command
each, all of which succeed. An adapter is named by its alias; the interface index, under which
the commands address it, is looked up in the same run. Only the calls and what is decided from
them are here, not the log lines.
-/

namespace Blinex.Native.DnsConfig

/-- `adapterDNS`. -/
structure AdapterDNS where
  interfaceAlias : String
  serverAddresses : List String
deriving DecidableEq

/-- What the calls act on. `dns` is kept while an adapter is away; of those that are there, `up`
    are listed by a query. `backup` is the file at `backupPath`. -/
structure Machine where
  dns : String → List String
  up : List String := []
  down : List String := []
  backup : Option (List AdapterDNS) := none

/-- The calls. Whether the relay can listen on port 53 is up to the environment. -/
inductive Call where
  | startRelay (ok : Bool)
  | mkdirAll
  | statBackup
  | readBackup
  | writeBackup (data : List AdapterDNS)
  | removeBackup
  | queryAdapterDNS
  | resolveAdapterIndex (adapter : String)
  | setAdapterDNS (adapter : String) (servers : List String)
  | resetServerAddresses (adapter : String)

/-- What a call returns. -/
abbrev Call.Res : Call → Type
  | startRelay _ => Bool
  | mkdirAll => Unit
  | statBackup => Bool
  | readBackup => Option (List AdapterDNS)
  | writeBackup _ => Unit
  | removeBackup => Unit
  | queryAdapterDNS => Option (List AdapterDNS)
  | resolveAdapterIndex _ => Bool
  | setAdapterDNS _ _ => Bool
  | resetServerAddresses _ => Bool

namespace Machine

/-- The adapter is there, up or not. -/
def present (m : Machine) (adapter : String) : Bool :=
  m.up.contains adapter || m.down.contains adapter

/-- The servers of one adapter are replaced. -/
def setDNS (m : Machine) (adapter : String) (servers : List String) : Machine :=
  { m with dns := fun a => if a = adapter then servers else m.dns a }

/-- What a call does. Without an adapter that is up the query prints nothing, which is no
    JSON. -/
def exec : (c : Call) → Machine → c.Res × Machine
  | .startRelay ok, m => (ok, m)
  | .mkdirAll, m => ((), m)
  | .statBackup, m => (m.backup.isSome, m)
  | .readBackup, m => (m.backup, m)
  | .writeBackup data, m => ((), { m with backup := some data })
  | .removeBackup, m => ((), { m with backup := none })
  | .queryAdapterDNS, m =>
    -- the query finds no adapter, or the servers of each adapter that is up
    (if m.up = [] then none else some (m.up.map fun a => ⟨a, m.dns a⟩), m)
  | .resolveAdapterIndex adapter, m => (m.present adapter, m)
  | .setAdapterDNS adapter servers, m => (true, m.setDNS adapter servers)
  | .resetServerAddresses adapter, m => (true, m.setDNS adapter [])

end Machine

/-! ## The commands -/

/-- `psQuote`. -/
def psQuote (v : String) : String := "'" ++ Go.Strings.replaceAll v '\x27' "''" ++ "'"

/-- `psStringArray`, with the quoting written out as in the source. -/
def psStringArray (values : List String) : String :=
  let quoted := values.map fun v => "'" ++ Go.Strings.replaceAll v '\x27' "''" ++ "'"
  "@(" ++ Go.Strings.join quoted "," ++ ")"

/-- The script of `resolveAdapterIndex`. -/
def resolveAdapterIndexScript (adapter : String) : String :=
  "(Get-NetAdapter -Name " ++ psQuote adapter ++
    " -ErrorAction SilentlyContinue).InterfaceIndex"

/-- The script of `setAdapterDNS`. -/
def setAdapterDNSScript (interfaceIndex : Nat) (servers : List String) : String :=
  "Set-DnsClientServerAddress -InterfaceIndex " ++ toString interfaceIndex ++
    " -ServerAddresses " ++ psStringArray servers

/-! ## The takeover -/

/-- One call. -/
def call (c : Call) : Prog Call.Res c.Res := .op c .ret

/-- `restoreBackup`; an adapter that is gone counts as restored. -/
def restoreBackup (allOK : Bool) : List AdapterDNS → Prog Call.Res Bool
  | [] => return allOK
  | a :: backup => do
    if ← call (.resolveAdapterIndex a.interfaceAlias) then
      let ok ←
        if a.serverAddresses = [] then call (.resetServerAddresses a.interfaceAlias)
        else call (.setAdapterDNS a.interfaceAlias a.serverAddresses)
      restoreBackup (allOK && ok) backup
    else restoreBackup allOK backup

/-- `RecoverStaleGlobalOverride`; the backup stays. -/
def recoverStaleGlobalOverride : Prog Call.Res Unit := do
  match ← call .readBackup with
  | none => return
  | some backup =>
    let _ ← restoreBackup true backup
    return

/-- The loop of `ApplyGlobal`. -/
def overrideAdapters : List AdapterDNS → Prog Call.Res Unit
  | [] => return
  | a :: current => do
    let _ ← call (.setAdapterDNS a.interfaceAlias ["127.0.0.1"])
    overrideAdapters current

/-- `ApplyGlobal` from the second query on. -/
def takeOver : Prog Call.Res Unit := do
  match ← call .queryAdapterDNS with
  | none => return
  | some current => overrideAdapters current

/-- `ApplyGlobal`. A backup is only made if there is none. -/
def applyGlobal (relayOK : Bool) : Prog Call.Res Unit := do
  if ← call (.startRelay relayOK) then
    call .mkdirAll
    if ← call .statBackup then takeOver
    else
      match ← call .queryAdapterDNS with
      | none => return
      | some current =>
        call (.writeBackup current)
        takeOver

/-- `RevertGlobal`. -/
def revertGlobal : Prog Call.Res Unit := do
  match ← call .readBackup with
  | none => return
  | some backup =>
    if ← restoreBackup true backup then call .removeBackup

end Blinex.Native.DnsConfig
