import Blinex.ForStd.FirstMatch
import Blinex.Native.Acl

/-!
# `client/internal/acl`: the kernel policy engine

`ApplyRules` reinstalls the `BLINEX-ACL` chain by a sequence of `iptables`
commands. The first half models what is outside the repository: the packets the
kernel sees, installed rules, and how the `iptables` binary reads its arguments
(`Iptables`, with what is documented about it as fields). The second half is the
code of acl_linux.go over it.

A call may fail for reasons of its own (the binary is missing, the lock is
held); `fails i` says that the `i`-th call of one `ApplyRules` does.
-/

namespace Blinex.Native

open Blinex.Go

/-! ## iptables -/

/-- What the kernel knows about an IPv4 packet when it walks the chain. `dport`
    is present for TCP and UDP; `established` is conntrack's ESTABLISHED or
    RELATED. -/
structure Packet where
  inIface : String
  src : BitVec 32
  dst : BitVec 32
  proto : UInt8
  dport : Option (BitVec 16)
  established : Bool

/-- The targets the agent uses. -/
inductive Target where
  | accept | drop
deriving DecidableEq, Repr

/-- A rule of the chain; an absent option matches every packet. -/
structure Entry where
  inIface : Option String := none
  src : Option (BitVec 32 → Bool) := none
  dst : Option (BitVec 32 → Bool) := none
  proto : Option UInt8 := none
  dport : Option (BitVec 16) := none
  ctstate : Bool := false
  target : Option Target := none

namespace Entry

/-- The options of a rule match conjunctively. -/
def hits (p : Packet) (e : Entry) : Bool :=
  e.inIface.all (· == p.inIface) && e.src.all (· p.src) && e.dst.all (· p.dst) &&
    e.proto.all (· == p.proto) && e.dport.all (fun n => p.dport == some n) &&
    (!e.ctstate || p.established)

/-- The rule lets the packets it matches in. -/
def accepts (e : Entry) : Bool := e.target == some .accept

end Entry

/-- How `iptables` reads the values of its options, `none` where it refuses the
    command. Of hosts it is only known that an IPv4 address or prefix names
    exactly its addresses and that anything else `netip` can read is refused. -/
structure Iptables where
  host : String → Option (BitVec 32 → Bool)
  protocol : String → Option UInt8
  host_prefix4 : ∀ f p, Netip.parsePrefix f = some p → p.addr.is4 = true →
    host f = some fun a => p.contains (.v4 a)
  host_prefix6 : ∀ f p, Netip.parsePrefix f = some p → p.addr.is4 = false → host f = none
  host_addr4 : ∀ f a, Netip.parsePrefix f = none → Netip.parseAddr f = some (.v4 a) →
    host f = some fun b => a == b
  host_addr6 : ∀ f ip, Netip.parsePrefix f = none → Netip.parseAddr f = some ip →
    ip.is4 = false → host f = none
  protocol_tcp : protocol "tcp" = some 6
  protocol_udp : protocol "udp" = some 17
  protocol_icmp : protocol "icmp" = some 1

namespace Iptables

/-- The value of `--dport`. -/
def parsePort (s : String) : Option (BitVec 16) :=
  match Netip.decNumber s.toList with
  | some n => if n ≤ 65535 then some (BitVec.ofNat 16 n) else none
  | none => none

/-- One option with its value. -/
def option (ipt : Iptables) (flag value : String) (e : Entry) : Option Entry :=
  if flag = "-i" then some { e with inIface := some value }
  else if flag = "-s" then (ipt.host value).map fun h => { e with src := some h }
  else if flag = "-d" then (ipt.host value).map fun h => { e with dst := some h }
  else if flag = "-p" then (ipt.protocol value).map fun n => { e with proto := some n }
  -- `--dport` is an option of the two matches that `-p` has loaded
  else if flag = "--dport" then
    if e.proto = some 6 ∨ e.proto = some 17 then
      (parsePort value).map fun n => { e with dport := some n }
    else none
  else if flag = "-m" then if value = "conntrack" then some e else none
  else if flag = "--ctstate" then
    if value = "ESTABLISHED,RELATED" then some { e with ctstate := true } else none
  else if flag = "-j" then
    if value = "ACCEPT" then some { e with target := some .accept }
    else if value = "DROP" then some { e with target := some .drop }
    else none
  else none

/-- The options after `-A <chain>`. -/
def parse (ipt : Iptables) : List String → Entry → Option Entry
  | [], e => some e
  | [_], _ => none
  | flag :: value :: rest, e => (ipt.option flag value e).bind (ipt.parse rest)

/-- One `iptables` command on the chain called `name`; a refused command changes
    nothing. -/
def run (ipt : Iptables) (name : String) (args : List String) (c : List Entry) :
    Option (List Entry) :=
  match args with
  | [cmd, ch] => if cmd = "-F" ∧ ch = name then some [] else none
  | cmd :: ch :: spec =>
    if cmd = "-A" ∧ ch = name then (ipt.parse spec {}).map fun e => c ++ [e] else none
  | _ => none

/-- An `iptables` that takes exactly the hosts `netip` reads as IPv4. -/
def strict : Iptables where
  host f :=
    match Netip.parsePrefix f with
    -- `iptables` takes no IPv6 network
    | some p => if p.addr.is4 then some fun a => p.contains (.v4 a) else none
    | none =>
      match Netip.parseAddr f with
      | some (.v4 a) => some fun b => a == b
      | _ => none
  protocol s :=
    if s = "tcp" then some 6 else if s = "udp" then some 17 else if s = "icmp" then some 1
    else none
  host_prefix4 f p hp h4 := by simp only [hp, h4, ↓reduceIte]
  host_prefix6 f p hp h6 := by simp only [hp, h6, Bool.false_eq_true, ↓reduceIte]
  host_addr4 f a hp ha := by simp only [hp, ha]
  host_addr6 f ip hp ha h6 := by
    cases ip with
    | v4 a => exact nomatch h6
    | invalid => simp only [hp, ha]
    | v6 a z => simp only [hp, ha]
  protocol_tcp := by decide
  protocol_udp := by decide
  protocol_icmp := by decide

instance : Inhabited Iptables := ⟨strict⟩

end Iptables

/-! ## acl_linux.go -/

/-- `const chain`. -/
def chain : String := "BLINEX-ACL"

/-- The chain, and how many `iptables` calls have been made. -/
structure Kernel where
  chain : List Entry
  calls : Nat := 0

/-- `iptablesRun`: whether the call succeeded, and the state it leaves. -/
def iptablesRun (ipt : Iptables) (fails : Nat → Bool) (args : List String) (k : Kernel) :
    Bool × Kernel :=
  if fails k.calls then (false, { k with calls := k.calls + 1 })
  else
    match ipt.run chain args k.chain with
    | some c => (true, ⟨c, k.calls + 1⟩)
    | none => (false, { k with calls := k.calls + 1 })

/-- `buildIPTablesArgs`. -/
def buildIPTablesArgs (r : Commonv1.Rule) (iface : String) : List String :=
  let args := ["-A", chain, "-i", iface]
  let args := if r.src ≠ "" ∧ r.src ≠ "*" then args ++ ["-s", r.src] else args
  let args := if r.dst ≠ "" ∧ r.dst ≠ "*" then args ++ ["-d", r.dst] else args
  let proto := Strings.toLower r.protocol
  let args :=
    if proto ≠ "" ∧ proto ≠ "all" then
      -- a port only makes sense for TCP and UDP
      let args := args ++ ["-p", proto]
      if 0 < r.port ∧ (proto = "tcp" ∨ proto = "udp") then
        args ++ ["--dport", toString r.port]
      else args
    else args
  args ++ ["-j", if r.action = "deny" then "DROP" else "ACCEPT"]

/-- The stateful accept ahead of every policy rule. -/
def conntrackArgs : List String :=
  ["-A", chain, "-m", "conntrack", "--ctstate", "ESTABLISHED,RELATED", "-j", "ACCEPT"]

/-- The terminal deny. -/
def dropArgs : List String := ["-A", chain, "-j", "DROP"]

/-- `ApplyRules`. Only a failing flush is reported; every later failure is logged
    and skipped. -/
def applyRules (ipt : Iptables) (fails : Nat → Bool) (rules : List Commonv1.Rule)
    (iface : String) (k : Kernel) : Bool × Kernel :=
  let (ok, k) := iptablesRun ipt fails ["-F", chain] k
  if !ok then (false, k)
  else
    let k := (iptablesRun ipt fails conntrackArgs k).2
    let k := rules.foldl (fun k r =>
      if !r.enabled then k else (iptablesRun ipt fails (buildIPTablesArgs r iface) k).2) k
    (true, (iptablesRun ipt fails dropArgs k).2)

/-- Whether INPUT lets a packet in, given the jump that `EnsureChain` installs:
    packets of the mesh interface walk the chain, and INPUT's own policy accepts
    what falls off its end. -/
def inputAccepts (iface : String) (c : List Entry) (p : Packet) : Bool :=
  if p.inIface = iface then firstMatch (Entry.hits p) Entry.accepts true c else true

end Blinex.Native
