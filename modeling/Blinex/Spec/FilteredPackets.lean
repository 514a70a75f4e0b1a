import Blinex.Native.AclFilterTun
import Blinex.Spec.ConntrackFlows

/-!
# What the Windows filter lets in

The filter decides with three things that other goroutines change: the rules, the addresses of
the host, which it caches, and the flows that were recorded. A packet that nobody asked for is
kept out as soon as the cache can no longer be older than the address it is for.
-/

namespace Blinex.Spec

open Blinex.Go Blinex.Native

/-- A packet for an address that the host has since some time. The enumerations of the interfaces
    that began before have ended when it is `settled`, and of the flow that the packet would be a
    reply to, nothing is sent after `last`. -/
structure Unsolicited where
  pkt : List UInt8
  dst : Addr
  since : Int
  settled : Int
  last : Int
  since_le : since ≤ settled
  isDst : addrFromSlice ((pkt.drop 16).take 4) = some dst

namespace Unsolicited

variable (u : Unsolicited)

/-- The packet is a reply to `q`. -/
def Answers (q : List UInt8) : Prop :=
  ∃ k, parseFlowKey u.pkt = some k ∧ parseFlowKey q = some k.reverse

/-- An enumeration of the interfaces that begins when the host has the address finds it. One that
    began before may have missed it, whenever it ends. -/
structure Enumerates (now : Int) (addrs : Option (List InterfaceAddr)) (done : Int) : Prop where
  finds : u.since ≤ now → ∀ found, addrs = some found → u.dst ∈ localSet found
  ends : now < u.since → done < u.settled

/-- The call is as the description of the packet says. -/
def Consistent : TunTask → Prop
  | .write now addrs done _ => u.Enumerates now addrs done
  | .read pkts => ∀ t q, (t, q) ∈ pkts → u.Answers q → t ≤ u.last
  | _ => True

/-- A `Write` comes so late that what was cached before the host had the address, and what was
    recorded of the flow, has expired. -/
def Late : TunTask → Prop
  | .write now _ _ pkts =>
    u.settled + localAddrsTTL ≤ now ∧ ∀ t, (t, u.pkt) ∈ pkts → u.last + conntrackTTL < t
  | _ => True

end Unsolicited

/-- There is a policy, and its rules refuse the packet if it is for the host. -/
def RefusesLocally (pkt : List UInt8) (f : AclFilterTun) : Prop :=
  f.rulesSet = true ∧ aclFilterAllowsFor pkt f.rules [] = false

instance (pkt : List UInt8) : DecidablePred (RefusesLocally pkt) :=
  fun _ => inferInstanceAs (Decidable (_ ∧ _))

/-- Packets for the host are policed whatever its other addresses are. -/
private theorem aclFilterAllowsFor_local {pkt : List UInt8} {dst : Addr} {locals : List Addr}
    (hdst : addrFromSlice ((pkt.drop 16).take 4) = some dst)
    (hlocal : locals = [] ∨ dst ∈ locals) (rules : List Commonv1.Rule) :
    aclFilterAllowsFor pkt rules locals = aclFilterAllowsFor pkt rules [] := by
  -- the destination is not taken for transit
  have hpoliced : ¬(0 < locals.length ∧ dst ∉ locals) := by
    rintro ⟨hlen, hnot⟩
    rcases hlocal with rfl | hmem
    · exact absurd hlen (Nat.lt_irrefl 0)
    · exact hnot hmem
  have hnil : ¬(0 < ([] : List Addr).length ∧ dst ∉ ([] : List Addr)) := by simp
  unfold aclFilterAllowsFor
  rw [hdst]
  cases addrFromSlice ((pkt.drop 12).take 4) with
  | none => rfl
  | some src => simp only [if_neg hpoliced, if_neg hnil]

section Run

variable {u : Unsolicited}

/-! ## The cache and the table -/

/-- Addresses that were cached once it was settled include the destination, and the table has
    nothing of the flow that is newer than `last`. -/
structure UpToDate (u : Unsolicited) (f : AclFilterTun) : Prop where
  cache : ∀ cached, f.localCache = some cached → u.settled ≤ f.localAt → u.dst ∈ cached
  flows : ∀ k t, parseFlowKey u.pkt = some k → f.ct.flows.lookup k = some t → t ≤ u.last

/-- Enumerations and sent packets are as the description of the packet says. -/
def consistently (u : Unsolicited) : Contract TunOp.Res where
  rely _ _ := True
  guar
    | .localAddrs now addrs done => u.Enumerates now addrs done
    | .observeOutbound t q => u.Answers q → t ≤ u.last
    | _ => True

/-- A packet that is sent renews the flow only if it belongs to it. -/
private theorem observeOutbound_flows {c : Conntrack} {now : Int} {q : List UInt8}
    (hflows : ∀ k t, parseFlowKey u.pkt = some k → c.flows.lookup k = some t → t ≤ u.last)
    (hq : u.Answers q → now ≤ u.last) (k : FlowKey) (t : Int) (hk : parseFlowKey u.pkt = some k)
    (ht : (c.observeOutbound now q).flows.lookup k = some t) : t ≤ u.last := by
  have hstep := run_flows c (.observeOutbound now q)
  simp only [ConntrackCall.run, ExpiringTable.step, ConntrackCall.records] at hstep
  -- a packet without a flow, one of this flow, or one of another, which may clear the table
  cases hkey : parseFlowKey q with
  | none =>
    rw [Conntrack.observeOutbound, hkey] at ht
    exact hflows k t hk ht
  | some k' =>
    rw [hstep, hkey] at ht
    by_cases hsame : k = k'.reverse
    · subst hsame
      rw [Option.map_some, ExpiringTable.lookup_touch_self] at ht
      obtain rfl := Option.some.inj ht
      exact hq ⟨k'.reverse, hk, hkey⟩
    · simp only [Option.map_some, ExpiringTable.lookup_touch_ne _ hsame] at ht
      split at ht
      · cases ht
      · exact hflows k t hk ht

/-- A packet that comes in renews no flow. -/
private theorem allowInbound_flows {c : Conntrack} {now : Int} {q : List UInt8} {k : FlowKey}
    {t : Int}
    (ht : (c.allowInbound now q).2.flows.lookup k = some t) : c.flows.lookup k = some t := by
  cases hkey : parseFlowKey q with
  | none => rwa [Conntrack.allowInbound, hkey] at ht
  | some k' =>
    rw [(allowInbound_eq hkey).2] at ht
    exact ExpiringTable.lookup_of_lookup_check _ ht

/-- Each operation keeps the cache and the table up to date. -/
private theorem consistently_keeps : (consistently u).Keeps TunOp.exec (UpToDate u) := by
  intro o f hf ho
  refine ⟨?_, trivial⟩
  cases o with
  | localAddrs now addrs done =>
    simp only [TunOp.exec]
    split
    · exact hf
    · cases addrs with
      | none => exact hf
      | some found =>
        refine ⟨fun cached hcached hsettled => ?_, hf.flows⟩
        obtain rfl := Option.some.inj hcached
        -- it ended so late that it cannot have begun before the host had the address
        have hbegan : u.since ≤ now := by
          by_contra hbefore
          exact absurd (ho.ends (by omega)) (by simpa using hsettled)
        exact ho.finds hbegan found rfl
  | allowInbound now q =>
    exact ⟨hf.cache, fun k t hk ht => hf.flows k t hk (allowInbound_flows ht)⟩
  | observeOutbound now q => exact ⟨hf.cache, observeOutbound_flows hf.flows ho⟩
  | policy => exact hf
  | setRules rules => exact ⟨hf.cache, hf.flows⟩
  | clearRules => exact ⟨hf.cache, hf.flows⟩
  | deliver pkts => exact hf

/-- The loop of `Write` enumerates no addresses and records no sent packet. -/
private theorem writeLoop_consistently (rules : List Commonv1.Rule) (locals : List Addr)
    (pkts : List (Int × List UInt8)) (allowed : List (List UInt8)) :
    (AclFilterTun.writeLoop rules locals pkts allowed).Meets (consistently u) fun _ => True := by
  induction pkts generalizing allowed with
  | nil =>
    unfold AclFilterTun.writeLoop
    split
    · trivial
    · exact ⟨trivial, fun _ _ => trivial⟩
  | cons item rest ih =>
    unfold AclFilterTun.writeLoop
    split
    · exact ih allowed
    · refine ⟨trivial, fun tracked _ => ?_⟩
      dsimp only
      -- the verdict decides only whether the packet is kept
      split
      · exact ih _
      · exact ih allowed

/-- The loop of `Read` sees only answers that are old enough. -/
private theorem readLoop_consistently {pkts : List (Int × List UInt8)}
    (hpkts : ∀ t q, (t, q) ∈ pkts → u.Answers q → t ≤ u.last) :
    (AclFilterTun.readLoop pkts).Meets (consistently u) fun _ => True := by
  induction pkts with
  | nil => trivial
  | cons item rest ih =>
    have hrest := ih fun t q hq => hpkts t q (List.mem_cons_of_mem _ hq)
    unfold AclFilterTun.readLoop
    split
    · exact hrest
    · exact ⟨hpkts _ _ List.mem_cons_self, fun _ _ => hrest⟩

/-- The operations of a consistent task are consistent. -/
private theorem program_consistently {task : TunTask} (htask : u.Consistent task) :
    task.program.Meets (consistently u) fun _ => True := by
  cases task with
  | write now addrs done pkts =>
    refine ⟨trivial, fun ⟨rules, rulesSet⟩ _ => ?_⟩
    dsimp only
    -- before the first sync everything passes
    split
    · exact ⟨trivial, fun _ _ => trivial⟩
    · exact ⟨htask, fun locals _ => writeLoop_consistently rules locals pkts []⟩
  | read pkts =>
    refine ⟨trivial, fun ⟨_, rulesSet⟩ _ => ?_⟩
    dsimp only
    split
    · trivial
    · exact readLoop_consistently htask
  | setRules rules => exact ⟨trivial, fun _ _ => trivial⟩
  | clearRules => exact ⟨trivial, fun _ _ => trivial⟩

/-! ## One `Write` among the other calls -/

/-- There is a policy that refuses the packet, the addresses include its destination, the lookup
    fails, and it is not delivered. -/
def discards (u : Unsolicited) : Contract TunOp.Res where
  rely
    | .policy => fun (rules, rulesSet) =>
      rulesSet = true ∧ aclFilterAllowsFor u.pkt rules [] = false
    | .localAddrs now addrs done => fun locals => u.Enumerates now addrs done →
      u.settled + localAddrsTTL ≤ now → locals = [] ∨ u.dst ∈ locals
    | .allowInbound t q => fun tracked => q = u.pkt → u.last + conntrackTTL < t → tracked = false
    | _ => fun _ => True
  guar o := ∀ pkts, o = .deliver pkts → u.pkt ∉ pkts

/-- After the cache has settled the destination is found local, or everything is policed. -/
private theorem localAddrs_includes {f : AclFilterTun} (hf : UpToDate u f) {now : Int}
    {addrs : Option (List InterfaceAddr)} {done : Int} (henum : u.Enumerates now addrs done)
    (hlate : u.settled + localAddrsTTL ≤ now) :
    (TunOp.exec (.localAddrs now addrs done) f).1 = [] ∨
      u.dst ∈ (TunOp.exec (.localAddrs now addrs done) f).1 := by
  have hpos : (0 : Int) < localAddrsTTL := by decide
  simp only [TunOp.exec]
  split
  · -- the cache is at most ten seconds old
    rename_i cached hcached
    obtain ⟨hsome, hfresh⟩ := Option.filter_eq_some_iff.mp hcached
    have hfresh := of_decide_eq_true hfresh
    exact .inr (hf.cache cached hsome (by omega))
  · cases addrs with
    | none => exact .inl rfl
    | some found =>
      have hsince := u.since_le
      exact .inr (henum.finds (by omega) found rfl)

/-- When the flow has expired, the tracker no longer knows it. -/
private theorem allowInbound_expired {f : AclFilterTun} (hf : UpToDate u f) {t : Int}
    (hlate : u.last + conntrackTTL < t) : (f.ct.allowInbound t u.pkt).1 = false := by
  unfold Conntrack.allowInbound
  cases hk : parseFlowKey u.pkt with
  | none => rfl
  | some k =>
    dsimp only
    cases hseen : f.ct.flows.lookup k with
    | none => rfl
    | some seen =>
      have hold := hf.flows k seen hk hseen
      dsimp only
      rw [if_pos (by omega)]

/-- What a task reads from a filter that is up to date and refuses the packet. -/
private theorem discards_rely (o : TunOp) {f : AclFilterTun} (hf : UpToDate u f)
    (hpolicy : RefusesLocally u.pkt f) : (discards u).rely o (TunOp.exec o f).1 := by
  cases o with
  | policy => exact hpolicy
  | localAddrs now addrs done => exact localAddrs_includes hf
  | allowInbound t q =>
    intro hq hlate
    subst hq
    exact allowInbound_expired hf hlate
  | _ => trivial

/-- The loop of `Write` leaves the packet out of what it delivers. -/
private theorem writeLoop_discards {rules : List Commonv1.Rule} {locals : List Addr}
    {pkts : List (Int × List UInt8)} {allowed : List (List UInt8)}
    (hrules : aclFilterAllowsFor u.pkt rules locals = false)
    (hlate : ∀ t, (t, u.pkt) ∈ pkts → u.last + conntrackTTL < t) (hallowed : u.pkt ∉ allowed) :
    (AclFilterTun.writeLoop rules locals pkts allowed).Meets (discards u) fun _ => True := by
  -- on the packets; the ones allowed so far do not have it among them
  induction pkts generalizing allowed with
  | nil =>
    unfold AclFilterTun.writeLoop
    split
    · trivial
    · refine ⟨fun pkts heq => ?_, fun _ _ => trivial⟩
      rwa [← TunOp.deliver.inj heq]
  | cons item rest ih =>
    obtain ⟨now, q⟩ := item
    have hrest : ∀ t, (t, u.pkt) ∈ rest → u.last + conntrackTTL < t :=
      fun t ht => hlate t (List.mem_cons_of_mem _ ht)
    unfold AclFilterTun.writeLoop
    split
    · exact ih hrest hallowed
    · refine ⟨nofun, fun tracked htracked => ?_⟩
      dsimp only
      split
      · rename_i hkept
        refine ih hrest fun hmem => ?_
        rcases List.mem_append.mp hmem with hmem | hmem
        · exact hallowed hmem
        · -- the packet itself is neither tracked nor allowed
          obtain rfl := (List.mem_singleton.mp hmem).symm
          rw [htracked rfl (hlate now List.mem_cons_self), hrules] at hkept
          exact absurd hkept nofun
      · exact ih hrest hallowed

/-- The loop of `Read` delivers nothing. -/
private theorem readLoop_discards (pkts : List (Int × List UInt8)) :
    (AclFilterTun.readLoop pkts).Meets (discards u) fun _ => True := by
  induction pkts with
  | nil => trivial
  | cons item rest ih =>
    unfold AclFilterTun.readLoop
    split
    · exact ih
    · exact ⟨nofun, fun _ _ => ih⟩

/-- Every late task leaves the packet out of what it delivers. -/
private theorem program_discards {task : TunTask} (hcons : u.Consistent task)
    (hlate : u.Late task) :
    task.program.Meets (discards u) fun _ => True := by
  cases task with
  | write now addrs done pkts =>
    refine ⟨nofun, fun ⟨rules, rulesSet⟩ hpolicy => ?_⟩
    -- the policy is set and refuses the packet, and its destination is local
    obtain ⟨rfl, hrefused⟩ : rulesSet = true ∧ aclFilterAllowsFor u.pkt rules [] = false :=
      hpolicy
    refine ⟨nofun, fun locals hlocals => ?_⟩
    have hlocal : locals = [] ∨ u.dst ∈ locals := hlocals hcons hlate.1
    refine writeLoop_discards ?_ hlate.2 List.not_mem_nil
    rw [aclFilterAllowsFor_local u.isDst hlocal, hrefused]
  | read pkts =>
    refine ⟨nofun, fun ⟨_, rulesSet⟩ _ => ?_⟩
    dsimp only
    split
    · trivial
    · exact readLoop_discards pkts
  | setRules rules => exact ⟨nofun, fun _ _ => trivial⟩
  | clearRules => exact ⟨nofun, fun _ _ => trivial⟩

end Run

/-- One step of the filter's goroutines. -/
def tunStep : Pool TunOp.Res Unit AclFilterTun → PoolEvent TunTask →
    Option (Pool TunOp.Res Unit AclFilterTun) :=
  Pool.step TunOp.exec TunTask.program

/-- The calls that an event starts are as the description of the packet says. -/
def StartsConsistent (u : Unsolicited) : PoolEvent TunTask → Prop
  | .start _ task => u.Consistent task
  | .act _ => True

/-- Every event keeps the filter up to date. -/
private theorem allMeet_step {u : Unsolicited} (p : Pool TunOp.Res Unit AclFilterTun)
    (ev : PoolEvent TunTask) (p' : Pool TunOp.Res Unit AclFilterTun)
    (hev : StartsConsistent u ev) (hp : p.AllMeet (consistently u) (UpToDate u) fun _ => True)
    (h : tunStep p ev = some p') :
    p'.AllMeet (consistently u) (UpToDate u) fun _ => True := by
  refine hp.step consistently_keeps (fun pid task heq => ?_) h
  subst heq
  exact program_consistently hev

/-- **Packets that nobody asked for stay out.** From ten seconds after the end of the last
    enumeration that began before the host got an address, and two minutes after it last sent
    something of the flow, no `Write` hands the system a packet for that address if the policies
    in force during the call refuse it, whatever was cached or recorded before and whatever other
    calls are at work. -/
theorem unsolicited_not_delivered (u : Unsolicited) (before evs : List (PoolEvent TunTask))
    (hcons : ∀ ev ∈ before ++ evs, StartsConsistent u ev)
    (p p' : Pool TunOp.Res Unit AclFilterTun)
    (hbefore : exec tunStep { state := {} } before = some p) (hrun : exec tunStep p evs = some p')
    (hpolicy : Throughout tunStep (fun p => RefusesLocally u.pkt p.state) p evs) (pid : Nat)
    (hfree : p.procs pid = none) (hlate : ∀ task, .start pid task ∈ evs → u.Late task)
    (pkts : List (List UInt8)) (hpkts : (pid, .deliver pkts) ∈ p'.log)
    (hnew : (pid, .deliver pkts) ∉ p.log) : u.pkt ∉ pkts := by
  have hstart : ({ state := {} } : Pool TunOp.Res Unit AclFilterTun).AllMeet
      (consistently u) (UpToDate u) fun _ => True :=
    ⟨⟨nofun, nofun⟩, nofun⟩
  -- up to the last sync and from there on the filter is up to date
  have hp := exec_invariant allMeet_step
    (fun ev hev => hcons ev (List.mem_append_left _ hev)) hstart hbefore
  have hall : Throughout tunStep (fun p => UpToDate u p.state) p evs := by
    have halong : ExecAlong tunStep (fun _ ev => StartsConsistent u ev) p evs :=
      .of_forall (fun ev hev _ => hcons ev (List.mem_append_right _ hev)) p
    exact (halong.throughout allMeet_step hp).imp fun p hp => hp.inv
  have hrely (o : TunOp) (f : AclFilterTun) (hf : UpToDate u f ∧ RefusesLocally u.pkt f) :
      (discards u).rely o (TunOp.exec o f).1 := discards_rely o hf.1 hf.2
  -- so what the task delivers obeys the contract
  have hlog := Pool.log_of_meets hrely
    (fun task htask => program_discards (hcons _ (List.mem_append_right _ htask))
      (hlate task htask))
    (fun q hq => nomatch hfree.symm.trans hq) hrun (hall.and hpolicy) hpkts
  exact hlog.resolve_left hnew pkts rfl

/-- The start of a TCP connection from 100.64.0.1 to 100.64.0.2. -/
def synTo (port : UInt8) : List UInt8 :=
  [0x45, 0, 0, 24, 0, 0, 0, 0, 64, 6, 0, 0, 100, 64, 0, 1, 100, 64, 0, 2, 4, 0, 0, port]

/-- The host got 100.64.0.2 a second after the start, and has sent nothing to the client. -/
def telnetSyn : Unsolicited where
  pkt := synTo 23
  dst := addrFrom4 100 64 0 2
  since := 1000000000
  settled := 3000000000
  last := 0
  since_le := by decide
  isDst := rfl

/-- Only SSH is allowed. -/
def sshOnly : List Commonv1.Rule :=
  [{ src := "100.64.0.1", dst := "*", protocol := "tcp", port := 22, action := "allow",
     enabled := true }]

/-- The enumeration of an early batch begins before the host has the address, misses it, and ends
    when the host has it. -/
def earlyWrite : TunTask := .write 900000000 (some [.other]) 2000000000 []

/-- Both packets in one batch, three minutes after the start. -/
def mixedWrite : TunTask :=
  .write 180000000000 (some [.ipNet ((0xffff#96) ++ 0x64400002#32)]) 180000000001
    [(180000000002, synTo 22), (180000000003, synTo 23)]

/-- The policy is set, and the addresses are cached without the new one. -/
def mixedSetup : List (PoolEvent TunTask) :=
  [.start 0 (.setRules sshOnly), .act 0, .start 2 earlyWrite, .act 2, .act 2]

/-- Then the packets come in. -/
def mixedRun : List (PoolEvent TunTask) :=
  [.start 1 mixedWrite, .act 1, .act 1, .act 1, .act 1, .act 1]

/-- The enumerations are as the description of the packet says. -/
private theorem mixedRun_consistent :
    ∀ ev ∈ mixedSetup ++ mixedRun, StartsConsistent telnetSyn ev := by
  -- the early enumeration ends before the host has the address, the other one finds it
  have hearly : telnetSyn.Consistent earlyWrite :=
    ⟨fun h => absurd h (by decide), fun _ => by decide⟩
  have hwrite : telnetSyn.Consistent mixedWrite := by
    refine ⟨fun _ found hfound => ?_, fun h => absurd h (by decide)⟩
    obtain rfl := Option.some.inj hfound
    decide +kernel
  intro ev hev
  cases ev with
  | act pid => trivial
  | start pid task =>
    obtain ⟨-, rfl⟩ | ⟨-, rfl⟩ | ⟨-, rfl⟩ : (pid = 0 ∧ task = .setRules sshOnly) ∨
        (pid = 2 ∧ task = earlyWrite) ∨ (pid = 1 ∧ task = mixedWrite) := by
      simpa [mixedSetup, mixedRun] using hev
    · trivial
    · exact hearly
    · exact hwrite

/-- The second batch comes late enough. -/
private theorem mixedRun_late (task : TunTask) (htask : .start 1 task ∈ mixedRun) :
    telnetSyn.Late task := by
  obtain rfl : task = mixedWrite := by simpa [mixedRun] using htask
  refine ⟨by decide, fun t ht => ?_⟩
  obtain rfl : t = 180000000003 := by simpa [telnetSyn, synTo] using ht
  decide

/-- One arrives. -/
theorem mixedRun_delivers : ∃ p p',
    exec tunStep { state := {} } mixedSetup = some p ∧ p.state.localCache = some [] ∧
    exec tunStep p mixedRun = some p' ∧ (1, .deliver [synTo 22]) ∈ p'.log ∧
    ∀ pkts, (1, .deliver pkts) ∈ p'.log → synTo 23 ∉ pkts := by
  refine ⟨_, _, rfl, rfl, rfl, List.mem_cons_self, fun pkts hpkts => ?_⟩
  exact unsolicited_not_delivered telnetSyn mixedSetup mixedRun mixedRun_consistent _ _ rfl rfl
    (by decide +kernel) 1 rfl mixedRun_late pkts hpkts (by simp)

end Blinex.Spec
