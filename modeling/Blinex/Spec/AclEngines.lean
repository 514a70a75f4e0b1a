import Blinex.Spec.AclChain
import Blinex.Spec.Policy

/-!
# The three policy engines agree

The `iptables` chain, the raw packet filter and the connection filter each walk
the synced rules in their own code. `engines_agree` says that on the rules the
server sends and on every complete, unfragmented IPv4 packet they reach the same
verdict.

The work is in one lemma per field of a rule: what `iptables` makes of it, when it
accepts it, is what `aclHostMatch` or the protocol test makes of it.
-/

namespace Blinex.Spec

open Blinex.Go Blinex.Native

/-! ## Rules and packets in scope -/

/-- What a synced rule has in `src` and `dst`. -/
def HostField (field : String) : Prop :=
  field = "" ∨ field = "*" ∨ Netip.parseAddr field ≠ none ∨ Netip.parsePrefix field ≠ none

/-- The rules the server sends. -/
structure InScope (r : Commonv1.Rule) : Prop where
  src : HostField r.src
  dst : HostField r.dst
  protocol : Strings.toLower r.protocol ∈ ["tcp", "udp", "icmp", "all"]
  port : 0 ≤ r.port ∧ r.port ≤ 65535
  action : r.action = "allow" ∨ r.action = "deny"

instance (field : String) : Decidable (HostField field) :=
  inferInstanceAs (Decidable (_ ∨ _ ∨ _ ∨ _))

/-- The bytes of an unfragmented IPv4 packet with a complete header, and ports if
    it is TCP or UDP. -/
structure IPv4Packet where
  bytes : List UInt8
  minimal : 20 ≤ bytes.length
  version : bytes.getD 0 0 >>> 4 = 4
  headerLen : 20 ≤ (bytes.getD 0 0 &&& 0x0f).toNat * 4
  complete : (bytes.getD 0 0 &&& 0x0f).toNat * 4 ≤ bytes.length
  unfragmented : bytes.getD 6 0 &&& 0x3f = 0 ∧ bytes.getD 7 0 = 0
  ports : bytes.getD 9 0 = 6 ∨ bytes.getD 9 0 = 17 →
    (bytes.getD 0 0 &&& 0x0f).toNat * 4 + 4 ≤ bytes.length

namespace IPv4Packet

variable (pkt : IPv4Packet)

/-- The header length in bytes. -/
def ihl : Nat := (pkt.bytes.getD 0 0 &&& 0x0f).toNat * 4

/-- Four bytes of the header as an address. -/
def word (i : Nat) : BitVec 32 :=
  (pkt.bytes.getD i 0).toBitVec ++ (pkt.bytes.getD (i + 1) 0).toBitVec ++
    (pkt.bytes.getD (i + 2) 0).toBitVec ++ (pkt.bytes.getD (i + 3) 0).toBitVec

/-- The protocol number. -/
def proto : UInt8 := pkt.bytes.getD 9 0

/-- The source address. -/
def src : BitVec 32 := pkt.word 12

/-- The destination address. -/
def dst : BitVec 32 := pkt.word 16

/-- The destination port of a TCP or UDP packet. -/
def dport : Option (BitVec 16) :=
  if pkt.proto = 6 ∨ pkt.proto = 17 then
    some ((pkt.bytes.getD (pkt.ihl + 2) 0).toBitVec ++ (pkt.bytes.getD (pkt.ihl + 3) 0).toBitVec)
  else none

/-- The packet as the kernel sees it arrive on `iface`, in no known flow. -/
def arriving (iface : String) : Packet :=
  { inIface := iface, src := pkt.src, dst := pkt.dst, proto := pkt.proto, dport := pkt.dport,
    established := false }

end IPv4Packet

/-! ## Host fields -/

/-- What `iptables` accepts as a host matches as `aclHostMatch` does; what it refuses
    matches no IPv4 address there either. -/
private theorem hostOption_agrees (ipt : Iptables) {field : String} (hf : HostField field)
    (a : BitVec 32) :
    ((hostOption ipt field).map fun h => h.all (· a)).getD false = aclHostMatch field (.v4 a) := by
  unfold hostOption
  by_cases hany : field = "" ∨ field = "*"
  · have hnot : ¬ (field ≠ "" ∧ field ≠ "*") := by tauto
    simp only [hnot, ↓reduceIte, Option.map_some, Option.getD_some, Option.all_none, aclHostMatch,
      hany]
  · have hsome : field ≠ "" ∧ field ≠ "*" := by tauto
    simp only [hsome, ne_eq, not_false_eq_true, and_self, ↓reduceIte, aclHostMatch]
    -- both engines try a prefix first, then a single address
    cases hp : Netip.parsePrefix field with
    | some p =>
      cases h4 : p.addr.is4 with
      | true => simp [ipt.host_prefix4 field p hp h4]
      | false => simp [ipt.host_prefix6 field p hp h4, Prefix.contains_v4_of_not_is4 h4 a]
    | none =>
      -- a field in scope that is no prefix is an address
      obtain ⟨ip, hip⟩ : ∃ ip, Netip.parseAddr field = some ip := by
        rcases hf with h | h | h | h
        · exact absurd (.inl h) hany
        · exact absurd (.inr h) hany
        · exact Option.ne_none_iff_exists'.mp h
        · exact absurd hp h
      cases h4 : ip.is4 with
      | true =>
        cases ip with
        | v4 b => simp [ipt.host_addr4 field b hp hip, hip, Addr.v4.injEq, beq_eq_decide]
        | invalid => exact absurd h4 Bool.false_ne_true
        | v6 b z => exact absurd h4 Bool.false_ne_true
      | false =>
        simp only [ipt.host_addr6 field ip hp hip h4, Option.map_none, Option.getD_none, hip]
        cases ip with
        | v4 b => exact absurd h4.symm Bool.false_ne_true
        | invalid => rfl
        | v6 b z => rfl

/-! ## Protocol and port -/

/-- The port on the command line is the port of the rule. -/
private theorem parsePort_toString {port : Int} (h : 0 ≤ port ∧ port ≤ 65535) :
    Iptables.parsePort (toString port) = some (toUInt16 port) := by
  obtain ⟨n, rfl⟩ := Int.eq_ofNat_of_zero_le h.1
  have hn : n ≤ 65535 := by omega
  have hrepr : toString (n : Int) = n.repr := rfl
  simp only [Iptables.parsePort, hrepr, Netip.decNumber_repr, hn, ↓reduceIte, toUInt16,
    BitVec.ofInt_natCast]

private theorem protoName_eq_tcp (n : UInt8) : "tcp" = protoName n ↔ n = 6 := by
  unfold protoName
  split_ifs <;> simp [*]

private theorem protoName_eq_udp (n : UInt8) : "udp" = protoName n ↔ n = 17 := by
  unfold protoName
  split_ifs <;> simp [*]

private theorem protoName_eq_icmp (n : UInt8) : "icmp" = protoName n ↔ n = 1 := by
  unfold protoName
  split_ifs <;> simp [*]

/-- The options for a protocol with ports. -/
private theorem protoOption_transport (ipt : Iptables) {name : String} {k : UInt8}
    (hname : name = "tcp" ∨ name = "udp") (hk : k = 6 ∨ k = 17)
    (hproto : ipt.protocol name = some k) {port : Int} (hport : 0 ≤ port ∧ port ≤ 65535) :
    protoOption ipt name port =
      some (some k, if 0 < port then some (toUInt16 port) else none) := by
  have hne : name ≠ "" ∧ name ≠ "all" := by
    rcases hname with rfl | rfl <;> decide
  unfold protoOption
  rw [if_pos hne, hproto, Option.bind_some, parsePort_toString hport]
  by_cases hpos : 0 < port <;> simp [hpos, hname, hk]

/-- They match as the protocol test does. -/
private theorem transport_agrees {name : String} {k n : UInt8} (hname : name = "tcp" ∨ name = "udp")
    (hk : k = 6 ∨ k = 17) (hn : name = protoName n ↔ n = k) (port : Int)
    {dport : Option (BitVec 16)} {d : BitVec 16} (hd : n = 6 ∨ n = 17 → dport = some d) :
    ((k == n) && (if 0 < port then some (toUInt16 port) else none).all
        fun q => dport == some q) =
      if name ≠ protoName n then false
      else !(decide (0 < port) && (name == "tcp" || name == "udp") && toUInt16 port != d) := by
  have hb : (name == "tcp" || name == "udp") = true := by simpa using hname
  by_cases h : n = k
  · -- the rule's protocol; the packet has a port to compare
    subst h
    rw [if_neg (not_not.mpr (hn.mpr rfl)), hd hk, hb]
    by_cases hpos : 0 < port
    · simp [hpos, beq_eq_decide, bne, eq_comm]
    · simp [hpos]
  · rw [if_pos fun hc => h (hn.mp hc)]
    simp [beq_eq_decide, Ne.symm h]

/-- The protocol options of a rule in scope are accepted, and match as the protocol
    test of the userspace engines. -/
private theorem protoOption_agrees (ipt : Iptables) {r : Commonv1.Rule} (hr : InScope r) {n : UInt8}
    {dport : Option (BitVec 16)} {d : BitVec 16} (hd : n = 6 ∨ n = 17 → dport = some d) :
    ∃ x, protoOption ipt (Strings.toLower r.protocol) r.port = some x ∧
      (x.1.all (· == n) && x.2.all fun q => dport == some q) =
        aclProtoMatch r.protocol r.port (protoName n) d := by
  have hproto := hr.protocol
  unfold aclProtoMatch
  generalize Strings.toLower r.protocol = proto at *
  simp only [List.mem_cons, List.not_mem_nil, or_false] at hproto
  -- TCP, UDP, ICMP or any protocol
  rcases hproto with rfl | rfl | rfl | rfl
  · exact ⟨_, protoOption_transport ipt (.inl rfl) (.inl rfl) ipt.protocol_tcp hr.port,
      transport_agrees (.inl rfl) (.inl rfl) (protoName_eq_tcp n) r.port hd⟩
  · exact ⟨_, protoOption_transport ipt (.inr rfl) (.inr rfl) ipt.protocol_udp hr.port,
      transport_agrees (.inr rfl) (.inr rfl) (protoName_eq_udp n) r.port hd⟩
  · -- ICMP: a port is not passed on
    refine ⟨(some 1, none), by simp [protoOption, ipt.protocol_icmp], ?_⟩
    by_cases h : n = 1
    · simp [h, protoName]
    · simp [protoName_eq_icmp, h, beq_eq_decide, Ne.symm h]
  · exact ⟨(none, none), by simp [protoOption], by simp⟩

/-! ## Whole rules -/

/-- A rule in scope matches a packet in the kernel exactly when it matches in
    userspace. A rule that `iptables` refuses names an IPv6 host and matches in neither. -/
private theorem ruleHits_eq_aclRuleMatches (ipt : Iptables) (iface : String) {r : Commonv1.Rule}
    (hr : InScope r) (he : r.enabled = true) {p : Packet} (hin : p.inIface = iface)
    {d : BitVec 16} (hd : p.proto = 6 ∨ p.proto = 17 → p.dport = some d) :
    ruleHits ipt iface p r =
      aclRuleMatches r (.v4 p.src) (.v4 p.dst) (protoName p.proto) d := by
  obtain ⟨x, hx, hxm⟩ := protoOption_agrees ipt hr hd
  have hs := hostOption_agrees ipt hr.src p.src
  have ht := hostOption_agrees ipt hr.dst p.dst
  unfold ruleHits aclRuleMatches
  rw [ruleEntry_eq, he, Bool.true_and, ← hxm]
  -- a refused host matches nothing in userspace
  cases hso : hostOption ipt r.src with
  | none =>
    simp only [hso, Option.map_none, Option.getD_none] at hs
    simp [← hs]
  | some s =>
    cases hdo : hostOption ipt r.dst with
    | none =>
      simp only [hdo, Option.map_none, Option.getD_none] at ht
      simp [← ht]
    | some t =>
      simp only [hso, Option.map_some, Option.getD_some] at hs
      simp only [hdo, Option.map_some, Option.getD_some] at ht
      simp [hx, Entry.hits, hin, hs, ht, Bool.and_assoc]

/-- On rules in scope the completed chain decides as `aclAllows`. -/
theorem inputAccepts_eq_aclAllows (ipt : Iptables) (iface : String) {rules : List Commonv1.Rule}
    (hscope : ∀ r ∈ rules, InScope r) (c : List Entry) {p : Packet} (hin : p.inIface = iface)
    (hest : p.established = false) {d : BitVec 16}
    (hd : p.proto = 6 ∨ p.proto = 17 → p.dport = some d) :
    inputAccepts iface (applyRules ipt (fun _ => false) rules iface ⟨c, 0⟩).2.chain p =
      aclAllows rules (.v4 p.src) (.v4 p.dst) (protoName p.proto) d := by
  have hflow := agentAllows_eq_firstMatch rules ⟨.v4 p.src, .v4 p.dst, protoName p.proto, d⟩
  unfold agentAllows sentMatches at hflow
  rw [inputAccepts_applyRules ipt iface _ rules c p rfl hin hest, hflow]
  -- the numbers of the calls only matter for failures, and there are none
  have hnum := firstMatch_map (fun r => ruleHits ipt iface p r)
    (fun r => decide (r.action ≠ "deny")) false Prod.fst (numbered rules)
  rw [numbered, List.zipIdx_map_fst, firstMatch_filter] at hnum
  refine hnum.symm.trans (firstMatch_congr _ _ _ (fun r hr => ?_) fun r hr _ => ?_)
  · -- disabled rules are not appended; in userspace they do not match
    cases he : r.enabled with
    | true =>
      rw [Bool.true_and]
      exact ruleHits_eq_aclRuleMatches ipt iface (hscope r hr) he hin hd
    | false => simp only [aclRuleMatches, he, Bool.false_and]
  · rcases (hscope r hr).action with ha | ha <;> rw [ha] <;> decide

/-! ## Raw packets -/

/-- Four bytes of a packet, one by one. -/
theorem take_drop_eq_getD {l : List UInt8} {i : Nat} (h : i + 4 ≤ l.length) :
    -- the checks of the filter that a well-formed packet passes
    (l.drop i).take 4 = [l.getD i 0, l.getD (i + 1) 0, l.getD (i + 2) 0, l.getD (i + 3) 0] := by
  have hd (j : Nat) (hj : j < l.length) : l.drop j = l.getD j 0 :: l.drop (j + 1) := by
    rw [List.drop_eq_getElem_cons hj, List.getD_eq_getElem?_getD, List.getElem?_eq_getElem hj,
      Option.getD_some]
  rw [hd i (by omega), hd (i + 1) (by omega), hd (i + 2) (by omega), hd (i + 3) (by omega)]
  simp only [List.take_succ_cons, List.take_zero]

/-- The raw packet filter reads the packet's fields and asks `aclAllows`. -/
private theorem aclFilterAllowsFor_eq (pkt : IPv4Packet) (rules : List Commonv1.Rule) :
    aclFilterAllowsFor pkt.bytes rules [] =
      aclAllows rules (.v4 pkt.src) (.v4 pkt.dst) (protoName pkt.proto) (pkt.dport.getD 0) := by
  have hlen := pkt.minimal
  have hnot : ¬ (pkt.bytes.length < 20 ∨ pkt.bytes.getD 0 0 >>> 4 ≠ 4) := by
    rintro (h | h)
    · omega
    · exact h pkt.version
  have hhdr : ¬ ((pkt.bytes.getD 0 0 &&& 0x0f).toNat * 4 < 20 ∨
      pkt.bytes.length < (pkt.bytes.getD 0 0 &&& 0x0f).toNat * 4) := by
    have h₁ := pkt.headerLen
    have h₂ := pkt.complete
    omega
  -- the filter reads a port exactly where the packet is known to have one
  have hport : ((protoName pkt.proto = "tcp" ∨ protoName pkt.proto = "udp") ∧
      (pkt.bytes.getD 0 0 &&& 0x0f).toNat * 4 + 4 ≤ pkt.bytes.length) ↔
      (pkt.proto = 6 ∨ pkt.proto = 17) := by
    rw [eq_comm (b := "tcp"), eq_comm (b := "udp"), protoName_eq_tcp, protoName_eq_udp]
    exact and_iff_left_of_imp pkt.ports
  unfold aclFilterAllowsFor
  rw [if_neg hnot]
  simp only [hhdr, ↓reduceIte, take_drop_eq_getD (show 12 + 4 ≤ pkt.bytes.length by omega),
    take_drop_eq_getD (show 16 + 4 ≤ pkt.bytes.length by omega), addrFromSlice, addrFrom4,
    List.length_nil, Nat.lt_irrefl, false_and]
  congr 1
  unfold IPv4Packet.dport
  split_ifs with h₁ h₂ h₂
  · rfl
  · exact absurd (hport.mp h₁) h₂
  · exact absurd (hport.mpr h₂) h₁
  · rfl

/-- **The engines agree.** For rules in scope and every complete unfragmented IPv4
    packet of a new flow, the chain that an undisturbed `ApplyRules` builds decides as
    the raw packet filter; and for TCP, UDP and ICMP as the connection filter, which
    ignores the port of an ICMP packet. -/
theorem engines_agree (ipt : Iptables) (iface : String) (rules : List Commonv1.Rule)
    (hscope : ∀ r ∈ rules, InScope r) (before : List Entry) (pkt : IPv4Packet) :
    inputAccepts iface (applyRules ipt (fun _ => false) rules iface ⟨before, 0⟩).2.chain
        (pkt.arriving iface) = aclFilterAllowsFor pkt.bytes rules [] ∧
    ∀ dport, pkt.dport = some dport ∨ pkt.proto = 1 →
      aclFilterAllowsFor pkt.bytes rules [] =
        aclAllows rules (.v4 pkt.src) (.v4 pkt.dst) (protoName pkt.proto) dport := by
  -- the kernel and the filter agree; the netstack router is the filter on the parsed fields
  have hkernel (d : BitVec 16) (hd : pkt.proto = 6 ∨ pkt.proto = 17 → pkt.dport = some d) :=
    inputAccepts_eq_aclAllows ipt iface hscope before (p := pkt.arriving iface) rfl rfl hd
  have hfilter : inputAccepts iface (applyRules ipt (fun _ => false) rules iface
      ⟨before, 0⟩).2.chain (pkt.arriving iface) = aclFilterAllowsFor pkt.bytes rules [] := by
    rw [aclFilterAllowsFor_eq]
    refine hkernel _ fun h => ?_
    simp only [IPv4Packet.dport, h, ↓reduceIte, Option.getD_some]
  refine ⟨hfilter, fun d hd => ?_⟩
  rw [← hfilter]
  refine hkernel d fun h => ?_
  rcases hd with hd | hicmp
  · exact hd
  · rw [hicmp] at h
    exact absurd h (by decide)

/-- A SYN to port 22, with four bytes of IP options. -/
def synPacket : IPv4Packet where
  bytes := [0x46, 0, 0, 44, 0, 0, 0x40, 0, 64, 6, 0, 0, 100, 64, 0, 1, 100, 64, 0, 2,
    1, 1, 1, 0, 0xc0, 0, 0, 22]
  minimal := by decide
  version := by decide
  headerLen := by decide
  complete := by decide
  unfragmented := by decide
  ports := by decide

/-- A refused IPv6 rule, an ssh rule and a deny. -/
def sshRules : List Commonv1.Rule :=
  [{ src := "fd00::1", dst := "*", protocol := "all", action := "deny", enabled := true },
   { src := "100.64.0.0/10", dst := "100.64.0.2", protocol := "TCP", port := 22,
     action := "allow", enabled := true },
   { src := "*", dst := "", protocol := "all", action := "deny", enabled := true }]

/-- A rule set that lets SSH in from one network, and a SYN packet from there. -/
theorem engines_agree_ssh :
    (∀ r ∈ sshRules, InScope r) ∧
    inputAccepts "wg0" (applyRules Iptables.strict (fun _ => false) sshRules "wg0"
      ⟨[], 0⟩).2.chain (synPacket.arriving "wg0") = true ∧
    aclAllows sshRules (.v4 synPacket.src) (.v4 synPacket.dst) "tcp" 22 = true := by
  have hscope : ∀ r ∈ sshRules, InScope r := by
    intro r hr
    simp only [sshRules, List.mem_cons, List.not_mem_nil, or_false] at hr
    rcases hr with rfl | rfl | rfl <;>
      exact ⟨by decide, by decide, by decide, by decide, by decide⟩
  have h := engines_agree Iptables.strict "wg0" sshRules hscope [] synPacket
  have hfilter : aclFilterAllowsFor synPacket.bytes sshRules [] = true := by decide
  exact ⟨hscope, h.1.trans hfilter, (h.2 22 (.inl (by decide))).symm.trans hfilter⟩

end Blinex.Spec
