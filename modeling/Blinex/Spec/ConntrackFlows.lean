import Blinex.ForStd.ExpiringTable
import Blinex.Native.Conntrack

/-!
# Replies to recent flows

The table of flows is an `ExpiringTable`: an outbound packet touches the key that its
reply will have, an inbound packet looks up its own. So what connection tracking admits
is read off the history of the calls.
-/

namespace Blinex.Spec

open Blinex.Native

/-- A call with the reading of its clock. -/
inductive ConntrackCall where
  | observeOutbound (now : Int) (pkt : List UInt8)
  | allowInbound (now : Int) (pkt : List UInt8)

namespace ConntrackCall

/-- When a call is made. -/
def time : ConntrackCall → Int
  | observeOutbound now _ => now
  | allowInbound now _ => now

/-- The key under which an outbound packet is recorded. -/
def records : ConntrackCall → Option FlowKey
  | observeOutbound _ pkt => (parseFlowKey pkt).map FlowKey.reverse
  | allowInbound _ _ => none

/-- The key that an inbound packet is looked up with. -/
def looksUp : ConntrackCall → Option FlowKey
  | observeOutbound _ _ => none
  | allowInbound _ pkt => parseFlowKey pkt

/-- What a call leaves behind. -/
def run (c : Conntrack) : ConntrackCall → Conntrack
  | observeOutbound now pkt => c.observeOutbound now pkt
  | allowInbound now pkt => (c.allowInbound now pkt).2

end ConntrackCall

open ConntrackCall

/-- An inbound packet is a lookup. -/
theorem allowInbound_eq {c : Conntrack} {now : Int} {pkt : List UInt8} {k : FlowKey}
    (hk : parseFlowKey pkt = some k) :
    (c.allowInbound now pkt).1 = (ExpiringTable.check conntrackTTL c.flows k now).1 ∧
      (c.allowInbound now pkt).2.flows = (ExpiringTable.check conntrackTTL c.flows k now).2 := by
  simp only [Conntrack.allowInbound, hk, ExpiringTable.check]
  cases c.flows.lookup k with
  | none => exact ⟨rfl, rfl⟩
  | some seen =>
    by_cases hold : conntrackTTL < now - seen
    · simp only [hold, if_true, and_self]
    · simp only [hold, if_false, and_self]

/-- A call is an event of the table. -/
theorem run_flows (c : Conntrack) (call : ConntrackCall) :
    (run c call).flows =
      ExpiringTable.step conntrackTTL conntrackMax time records looksUp c.flows call := by
  -- a packet without a flow key changes nothing
  cases call with
  | observeOutbound now pkt =>
    cases hk : parseFlowKey pkt with
    | none => simp [run, Conntrack.observeOutbound, ExpiringTable.step, records, looksUp, hk]
    | some k =>
      simp only [run, Conntrack.observeOutbound, ExpiringTable.step, records, hk, Option.map_some]
      rfl
  | allowInbound now pkt =>
    cases hk : parseFlowKey pkt with
    | none => simp [run, Conntrack.allowInbound, ExpiringTable.step, records, looksUp, hk]
    | some k =>
      simp only [run, ExpiringTable.step, records, looksUp, hk, time]
      exact (allowInbound_eq hk).2

/-- The tracker after some calls. -/
def trackerAfter (calls : List ConntrackCall) : Conntrack := calls.foldl run Conntrack.new

/-- The tracker after a run is the expiring table after it. -/
private theorem trackerAfter_flows (calls : List ConntrackCall) :
    (trackerAfter calls).flows =
      ExpiringTable.after conntrackTTL conntrackMax time records looksUp calls := by
  have hfold (c : Conntrack) : (calls.foldl run c).flows =
      calls.foldl (ExpiringTable.step conntrackTTL conntrackMax time records looksUp) c.flows := by
    induction calls generalizing c with
    | nil => rfl
    | cons call calls ih => rw [List.foldl_cons, List.foldl_cons, ih, run_flows]
  exact hfold Conntrack.new

/-- The latest packet sent with the key of the reverse flow is at most two minutes old, and
    since then no keyable packet was sent with the table full. -/
def RecentlySent (k : FlowKey) (now : Int) (calls : List ConntrackCall) : Prop :=
  ∃ before sent pkt later, calls = before ++ observeOutbound sent pkt :: later ∧
    parseFlowKey pkt = some k.reverse ∧ now - sent ≤ conntrackTTL ∧
    (∀ t q, observeOutbound t q ∈ later → parseFlowKey q ≠ some k.reverse) ∧
    ∀ mid t q rest, later = mid ++ observeOutbound t q :: rest → parseFlowKey q ≠ none →
      (trackerAfter (before ++ observeOutbound sent pkt :: mid)).flows.keys.length < conntrackMax

/-- Only a packet that was sent records a flow, under the key of its answer. -/
private theorem records_eq_some {call : ConntrackCall} {k : FlowKey} (h : call.records = some k) :
    ∃ t pkt, call = observeOutbound t pkt ∧ parseFlowKey pkt = some k.reverse := by
  cases call with
  | observeOutbound t pkt =>
    obtain ⟨k', hk', rfl⟩ := Option.map_eq_some_iff.mp h
    exact ⟨t, pkt, rfl, hk'⟩
  | allowInbound t pkt => cases h

/-- A packet that was sent records the flow of its answer. -/
private theorem records_of_key {t : Int} {pkt : List UInt8} {k : FlowKey}
    (h : parseFlowKey pkt = some k.reverse) : (observeOutbound t pkt).records = some k := by
  rw [records, h]
  rfl

/-- In the words of the table. -/
private theorem recentlySent_iff (k : FlowKey) (now : Int) (calls : List ConntrackCall) :
    RecentlySent k now calls ↔
      ∃ call, ExpiringTable.LatestTouch conntrackTTL conntrackMax time records looksUp k call
        calls ∧ now - call.time ≤ conntrackTTL := by
  constructor
  · -- the packet that was sent is the touch, and the conditions on later ones carry over
    rintro ⟨before, sent, pkt, later, rfl, hk, hfresh, hno, hroom⟩
    refine ⟨observeOutbound sent pkt, ⟨before, later, rfl, records_of_key hk, ?_, ?_⟩, hfresh⟩
    · intro call hcall hrec
      obtain ⟨t, q, rfl, hq⟩ := records_eq_some hrec
      exact hno t q hcall hq
    · rw [along_iff_forall]
      intro mid call rest heq hrec
      obtain ⟨k', hk'⟩ := Option.ne_none_iff_exists'.mp hrec
      obtain ⟨t, q, rfl, hq⟩ := records_eq_some hk'
      have hsize := hroom mid t q rest heq (by rw [hq]; exact Option.some_ne_none _)
      rw [trackerAfter_flows] at hsize
      rw [ExpiringTable.foldl_after, List.append_assoc]
      exact hsize
  · rintro ⟨call, ⟨before, later, rfl, hrec, hno, hroom⟩, hfresh⟩
    obtain ⟨sent, pkt, rfl, hk⟩ := records_eq_some hrec
    refine ⟨before, sent, pkt, later, rfl, hk, hfresh, fun t q hq hkey => ?_, ?_⟩
    · exact hno _ hq (records_of_key hkey)
    · intro mid t q rest heq hkey
      rw [along_iff_forall] at hroom
      obtain ⟨k', hk'⟩ := Option.ne_none_iff_exists'.mp hkey
      have hsize := hroom mid (observeOutbound t q) rest heq (by simp [records, hk'])
      rw [ExpiringTable.foldl_after, List.append_assoc] at hsize
      rw [trackerAfter_flows]
      exact hsize

/-- With a history in the past, an inbound packet is admitted exactly when it has a key and its
    reverse flow was recently sent. -/
theorem allowInbound_iff_recentlySent {calls : List ConntrackCall} {now : Int}
    (hpast : ∀ call ∈ calls, time call ≤ now) (pkt : List UInt8) :
    ((trackerAfter calls).allowInbound now pkt).1 = true ↔
      ∃ k, parseFlowKey pkt = some k ∧ RecentlySent k now calls := by
  cases hk : parseFlowKey pkt with
  | none => simp [Conntrack.allowInbound, hk]
  | some k =>
    rw [(allowInbound_eq hk).1, trackerAfter_flows,
      ExpiringTable.check_iff conntrackTTL conntrackMax time records looksUp hpast]
    simp only [Option.some.injEq, exists_eq_left', recentlySent_iff]

/-- **Connection tracking admits the return direction of recent flows.** After any calls with
    a clock that does not go back, the table has at most 8192 entries, and an inbound packet
    is admitted exactly when it has a key and its reverse flow was recently sent. -/
theorem conntrack_admits_iff (calls : List ConntrackCall) (now : Int) (pkt : List UInt8)
    (hclock : (calls.map time ++ [now]).Pairwise (· ≤ ·)) :
    (trackerAfter calls).flows.keys.length ≤ 8192 ∧
    (((trackerAfter calls).allowInbound now pkt).1 = true ↔
      ∃ k, parseFlowKey pkt = some k ∧ RecentlySent k now calls) := by
  have hpast : ∀ call ∈ calls, time call ≤ now := by
    intro call hcall
    exact (List.pairwise_append.mp hclock).2.2 _ (List.mem_map_of_mem hcall) now
      List.mem_cons_self
  refine ⟨?_, allowInbound_iff_recentlySent hpast pkt⟩
  rw [trackerAfter_flows]
  exact ExpiringTable.size_after_le conntrackTTL conntrackMax time records looksUp (by decide)
    calls

/-- An ICMP echo packet with identifier 7. -/
def echoPacket (type : UInt8) (src dst : List UInt8) : List UInt8 :=
  [0x45, 0, 0, 0, 0, 0, 0, 0, 0, 1, 0, 0] ++ src ++ dst ++ [type, 0, 0, 0, 0, 7]

/-- A host of a routed subnet is pinged. -/
def pingRun : List ConntrackCall :=
  [observeOutbound 0 (echoPacket 8 [100, 64, 0, 1] [10, 0, 0, 5])]

/-- The reply is admitted for two minutes. -/
theorem pingRun_admits_reply :
    (∃ k, parseFlowKey (echoPacket 0 [10, 0, 0, 5] [100, 64, 0, 1]) = some k ∧
      RecentlySent k 120000000000 pingRun) ∧
    ((trackerAfter pingRun).allowInbound 120000000001
      (echoPacket 0 [10, 0, 0, 5] [100, 64, 0, 1])).1 = false := by
  refine ⟨(conntrack_admits_iff pingRun 120000000000 _ (by decide)).2.mp ?_, ?_⟩
  · decide +kernel
  · decide +kernel

end Blinex.Spec
