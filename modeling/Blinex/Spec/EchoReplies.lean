import Blinex.Spec.ConntrackFlows

/-!
# Pings through connection tracking

A flow of echo packets is keyed by its addresses and the identifier. The key leaves out the
type, and packets of both types are recorded, so a flow that is live lets in requests as well
as replies: whenever the tracker would admit some echo packet, it would also admit an
unsolicited request (`echoRequest`).
-/

namespace Blinex.Spec

open Blinex.Go Blinex.Native
open ConntrackCall

/-- The packet is ICMP. -/
def isICMP (pkt : List UInt8) : Bool := pkt.getD 9 0 == 1

/-- The type field of an ICMP packet, behind the IP header. -/
def icmpType (pkt : List UInt8) : UInt8 := pkt.getD ((pkt.getD 0 0 &&& 0x0f).toNat * 4) 0

/-- This host sent an echo request to which `pkt` could be the reply: from its destination to
    its source, with its identifier, at most two minutes ago. -/
def Requested (calls : List ConntrackCall) (now : Int) (pkt : List UInt8) : Prop :=
  ∃ sent req k, observeOutbound sent req ∈ calls ∧ now - sent ≤ conntrackTTL ∧
    isICMP req = true ∧ icmpType req = 8 ∧
    parseFlowKey pkt = some k ∧ parseFlowKey req = some k.reverse

/-- Of ICMP, the tracker admits only replies to recent requests. -/
def AdmitsOnlyReplies (calls : List ConntrackCall) (now : Int) : Prop :=
  ∀ pkt, isICMP pkt = true → ((trackerAfter calls).allowInbound now pkt).1 = true →
    icmpType pkt = 0 ∧ Requested calls now pkt

/-- An echo request with the given addresses and identifier. -/
def echoRequest (a b c d e f g h i j : UInt8) : List UInt8 :=
  [0x45, 0, 0, 0, 0, 0, 0, 0, 0, 1, 0, 0, a, b, c, d, e, f, g, h, 8, 0, 0, 0, i, j]

/-- The flow of an echo request has its identifier for both ports. -/
private theorem parseFlowKey_echoRequest (a b c d e f g h i j : UInt8) :
    parseFlowKey (echoRequest a b c d e f g h i j) =
      some ⟨1, addrFrom4 a b c d, addrFrom4 e f g h, i.toBitVec ++ j.toBitVec,
        i.toBitVec ++ j.toBitVec⟩ := by
  have hversion : (0x45 : UInt8) >>> 4 = 4 := by decide
  simp [parseFlowKey, echoRequest, addrFromSlice, uint16At, hversion]

/-- A key has the protocol of its packet. That of an echo packet is two IPv4 addresses, and the
    identifier twice. -/
private theorem parseFlowKey_spec {pkt : List UInt8} {k : FlowKey} (h : parseFlowKey pkt = some k) :
    k.proto = pkt.getD 9 0 ∧ (k.proto = 1 → ∃ a b c d e f g h i j : UInt8,
      k = ⟨1, addrFrom4 a b c d, addrFrom4 e f g h, i.toBitVec ++ j.toBitVec,
        i.toBitVec ++ j.toBitVec⟩) := by
  -- a slice of four bytes is an IPv4 address
  have hslice : ∀ (m : Nat) (addr : Addr), m + 4 ≤ pkt.length →
      addrFromSlice ((pkt.drop m).take 4) = some addr → ∃ a b c d, addr = addrFrom4 a b c d := by
    intro m addr hlen haddr
    have hfour : ((pkt.drop m).take 4).length = 4 := by
      rw [List.length_take, List.length_drop]
      omega
    obtain ⟨a, b, c, d, hbytes⟩ := List.length_eq_four.mp hfour
    rw [hbytes] at haddr
    exact ⟨a, b, c, d, (Option.some.inj haddr).symm⟩
  -- the checks of `parseFlowKey`, one after the other; only the last branch is ICMP
  unfold parseFlowKey at h
  split at h
  · cases h
  · rename_i hhead
    have hlen : 20 ≤ pkt.length := by omega
    dsimp only at h
    split at h
    · cases h
    · split at h
      · rename_i src dst hsrc hdst
        obtain ⟨a, b, c, d, rfl⟩ := hslice 12 src (by omega) hsrc
        obtain ⟨e, f, g, x, rfl⟩ := hslice 16 dst (by omega) hdst
        split at h
        · -- TCP and UDP have another protocol number
          rename_i hports
          split at h
          · cases h
          · obtain rfl := Option.some.inj h
            refine ⟨rfl, fun hproto => ?_⟩
            rcases hports with hp | hp <;> exact absurd (hp.symm.trans hproto) (by decide)
        · split at h
          · split at h
            · cases h
            · split at h
              · cases h
              · obtain rfl := Option.some.inj h
                exact ⟨rfl, fun hproto => ⟨a, b, c, d, e, f, g, x, _, _, by rw [← hproto]; rfl⟩⟩
          · cases h
      · cases h

/-- Of ICMP, only echo packets have a key. -/
private theorem icmpType_of_parseFlowKey {pkt : List UInt8} {k : FlowKey}
    (h : parseFlowKey pkt = some k) (hproto : k.proto = 1) :
    icmpType pkt = 0 ∨ icmpType pkt = 8 := by
  have hicmp := (parseFlowKey_spec h).1.symm.trans hproto
  by_contra hother
  obtain ⟨hreply, hrequest⟩ := not_or.mp hother
  unfold parseFlowKey at h
  unfold icmpType at hreply hrequest
  -- a packet of another type has no flow key
  split at h
  · cases h
  · dsimp only at h
    split at h
    · cases h
    · split at h
      · split at h
        · rename_i hports
          rw [hicmp] at hports
          exact absurd hports (by decide)
        · split at h
          · cases h
          · rw [if_pos ⟨hrequest, hreply⟩] at h
            cases h
      · cases h

/-- A live flow lets a request in that nobody asked for. -/
private theorem request_of_recentlySent {k : FlowKey} {now : Int} {calls : List ConntrackCall}
    (hproto : k.proto = 1) (h : RecentlySent k now calls) :
    ∃ pkt, isICMP pkt = true ∧ icmpType pkt = 8 ∧ parseFlowKey pkt = some k := by
  obtain ⟨before, sent, pkt, later, -, hk, -⟩ := h
  obtain ⟨a, b, c, d, e, f, g, x, i, j, hbytes⟩ :=
    (parseFlowKey_spec hk).2 (show k.reverse.proto = 1 from hproto)
  -- back from the destination to the source
  refine ⟨echoRequest e f g x a b c d i j, rfl, by simp [icmpType, echoRequest], ?_⟩
  rw [parseFlowKey_echoRequest]
  have hrev := congrArg FlowKey.reverse hbytes
  exact congrArg some hrev.symm

/-- **Of ICMP only replies are admitted**, after a history in the past, exactly when the table
    has no live flow of echo packets. -/
theorem icmp_only_replies_iff (calls : List ConntrackCall) (now : Int)
    (hpast : ∀ call ∈ calls, time call ≤ now) :
    AdmitsOnlyReplies calls now ↔ ∀ k, k.proto = 1 → ¬ RecentlySent k now calls := by
  constructor
  · intro h k hproto hsent
    obtain ⟨pkt, hicmp, htype, hkey⟩ := request_of_recentlySent hproto hsent
    have hadmitted := (allowInbound_iff_recentlySent hpast pkt).mpr ⟨k, hkey, hsent⟩
    rw [(h pkt hicmp hadmitted).1] at htype
    exact absurd htype (by decide)
  · intro h pkt hicmp hadmitted
    obtain ⟨k, hkey, hsent⟩ := (allowInbound_iff_recentlySent hpast pkt).mp hadmitted
    exact absurd hsent (h k ((parseFlowKey_spec hkey).1.trans (beq_iff_eq.mp hicmp)))

/-- The same packet by packet: an echo packet that is admitted fails to be the reply to a recent
    request exactly if it is a request itself, or if all that this host sent of the flow in the
    last two minutes were replies. -/
theorem admitted_not_reply_iff {calls : List ConntrackCall} {now : Int}
    (hpast : ∀ call ∈ calls, time call ≤ now) {pkt : List UInt8} (hicmp : isICMP pkt = true)
    (hadmitted : ((trackerAfter calls).allowInbound now pkt).1 = true) :
    ¬(icmpType pkt = 0 ∧ Requested calls now pkt) ↔
      icmpType pkt = 8 ∨ ∀ sent req k, observeOutbound sent req ∈ calls →
        now - sent ≤ conntrackTTL → parseFlowKey pkt = some k →
        parseFlowKey req = some k.reverse → icmpType req = 0 := by
  -- an admitted packet has a flow, so it is a request or a reply
  obtain ⟨k, hkey, -⟩ := (allowInbound_iff_recentlySent hpast pkt).mp hadmitted
  have hproto : k.proto = 1 := (parseFlowKey_spec hkey).1.trans (beq_iff_eq.mp hicmp)
  constructor
  · intro hnot
    rcases icmpType_of_parseFlowKey hkey hproto with htype | htype
    · refine .inr fun sent req k' hmem hfresh hk' hreq => ?_
      obtain rfl := Option.some.inj (hkey.symm.trans hk')
      rcases icmpType_of_parseFlowKey hreq hproto with hreply | hrequest
      · exact hreply
      · -- a request of the flow would make the packet its reply
        have hreqICMP : isICMP req = true :=
          beq_iff_eq.mpr ((parseFlowKey_spec hreq).1.symm.trans hproto)
        exact absurd ⟨htype, sent, req, k, hmem, hfresh, hreqICMP, hrequest, hkey, hreq⟩ hnot
    · exact .inl htype
  · rintro hcase ⟨htype, sent, req, k', hmem, hfresh, -, hrequest, hk', hreq⟩
    rcases hcase with hself | hall
    · exact absurd (htype.symm.trans hself) (by decide)
    · exact absurd (hrequest.symm.trans (hall sent req k' hmem hfresh hk' hreq)) (by decide)

/-- Two minutes after its last ping the host admits no echo packet at all. -/
theorem pingRun_over_only_replies : AdmitsOnlyReplies pingRun 120000000001 := by
  refine (icmp_only_replies_iff pingRun 120000000001 (by simp [pingRun, time])).mpr ?_
  rintro k - ⟨before, sent, pkt, later, hcalls, -, hfresh, -⟩
  have hmem : observeOutbound sent pkt ∈ pingRun := by
    rw [hcalls]
    exact List.mem_append_right _ List.mem_cons_self
  simp only [pingRun, List.mem_singleton, observeOutbound.injEq] at hmem
  rw [hmem.1] at hfresh
  exact absurd hfresh (by decide)

/-- The host has pinged 10.0.0.5. A request from there with the same identifier is admitted. -/
theorem pingRun_admits_request :
    icmpType (echoPacket 8 [10, 0, 0, 5] [100, 64, 0, 1]) = 8 ∧
    ((trackerAfter pingRun).allowInbound 1000000000
      (echoPacket 8 [10, 0, 0, 5] [100, 64, 0, 1])).1 = true ∧
    ¬ AdmitsOnlyReplies pingRun 1000000000 := by
  have hadmitted : ((trackerAfter pingRun).allowInbound 1000000000
      (echoPacket 8 [10, 0, 0, 5] [100, 64, 0, 1])).1 = true := by decide +kernel
  refine ⟨by decide, hadmitted, fun h => ?_⟩
  exact absurd (h _ (by decide) hadmitted).1 (by decide)

end Blinex.Spec
