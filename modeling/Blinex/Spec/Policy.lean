import Blinex.ForStd.FirstMatch
import Blinex.Native.Acl
import Blinex.Native.GrpcServer
import Blinex.Native.Store

/-!
# The access policy an account's rules denote

`Policy` says what a list of stored rules means, without expanding anything: the
first enabled rule that matches a flow decides, `group:g` matches the address of
any peer in `g`, and no match is a deny.

## Key results

- `aclAllows_buildSyncResponse`: what an agent decides on the rules it is sent is
  the policy of the stored rules.
- `getRulesByAccount_verdict_unique_iff`: when the verdict is a function of the
  stored rules, whatever order the store returns ties in.
-/

namespace Blinex.Spec

open Blinex.Go Blinex.Native

/-- What the agents know of a connection. -/
structure Flow where
  src : Addr
  dst : Addr
  proto : String
  dport : BitVec 16

namespace Policy

/-- A rule's host field names an address; `group:g` names the addresses of the
    peers in `g`. -/
def hostMatches (peers : List Domain.Peer) (field : String) (a : Addr) : Bool :=
  if Strings.hasPrefix field "group:" then
    peers.any fun p => p.groups.contains (Strings.trimPrefix field "group:") &&
      decide (Netip.parseAddr p.ip = some a)
  else aclHostMatch field a

/-- A stored rule matches a flow. -/
def ruleMatches (peers : List Domain.Peer) (f : Flow) (r : Domain.Rule) : Bool :=
  r.enabled && hostMatches peers r.src f.src && hostMatches peers r.dst f.dst &&
    aclProtoMatch r.protocol r.port f.proto f.dport

/-- The verdict of the first rule that matches, deny if none does. -/
def allows (peers : List Domain.Peer) (rules : List Domain.Rule) (f : Flow) : Bool :=
  firstMatch (ruleMatches peers f) (·.action == "allow") false rules

end Policy

/-- An agent's decision on a flow, given the rules of the last sync. -/
def agentAllows (rules : List Commonv1.Rule) (f : Flow) : Bool :=
  aclAllows rules f.src f.dst f.proto f.dport

/-- A synced rule matches a flow. -/
def sentMatches (f : Flow) (r : Commonv1.Rule) : Bool :=
  aclRuleMatches r f.src f.dst f.proto f.dport

/-- The agent's loop is a first-match decision list. -/
theorem agentAllows_eq_firstMatch (rules : List Commonv1.Rule) (f : Flow) :
    agentAllows rules f = firstMatch (sentMatches f) (·.action == "allow") false rules := by
  induction rules with
  | nil => rfl
  | cons r rules ih =>
    rw [firstMatch_cons, ← ih]
    rfl

/-! ## Group expansion -/

/-- The hosts a rule field is expanded to. -/
def fieldIPs (groupIPs : PMap String (List String)) (field : String) : List String :=
  if Strings.hasPrefix field "group:" then
    (groupIPs (Strings.trimPrefix field "group:")).getD []
  else [field]

/-- Every case of `expandGroupRule` is the product of the expansions of the two
    fields; the early returns are the products with an empty factor. -/
theorem expandGroupRule_eq (r : Domain.Rule) (g : PMap String (List String)) :
    expandGroupRule r g =
      (fieldIPs g r.src).flatMap fun s => (fieldIPs g r.dst).map fun d =>
        { r with src := s, dst := d } := by
  unfold expandGroupRule fieldIPs
  cases hs : Strings.hasPrefix r.src "group:" <;> cases hd : Strings.hasPrefix r.dst "group:" <;>
    simp only [Bool.not_true, Bool.not_false, Bool.and_self, Bool.and_true, Bool.and_false,
      Bool.true_and, Bool.false_and, Bool.false_eq_true, ↓reduceIte, List.isEmpty_iff,
      List.flatMap_cons, List.flatMap_nil, List.map_cons, List.map_nil, List.append_nil]
  · -- only `dst` is a group; it may be empty
    split
    · rename_i h; rw [h]; rfl
    · rfl
  · -- only `src` is
    split
    · rename_i h; rw [h]; rfl
    · rfl
  · -- both are, and an empty `src` is noticed first
    split
    · rename_i h; rw [h]; rfl
    · split
      · rename_i h; simp [h]
      · rfl

/-- A rule is sent under some form that matches `f`. -/
def reaches (peers : List Domain.Peer) (f : Flow) (r : Domain.Rule) : Bool :=
  ((expandGroupRule r (groupIPs peers)).map pbRule).any (sentMatches f)

/-- Expanded rules keep the action of the rule they come from. -/
private theorem action_of_mem_expandGroupRule {r : Domain.Rule} {g : PMap String (List String)}
    {er : Commonv1.Rule} (h : er ∈ (expandGroupRule r g).map pbRule) : er.action = r.action := by
  rw [expandGroupRule_eq] at h
  simp only [List.mem_map, List.mem_flatMap] at h
  obtain ⟨_, ⟨s, _, d, _, rfl⟩, rfl⟩ := h
  rfl

/-- The agent decides on the sent rules as on the stored ones, a stored rule
    matching when one of the rules it was expanded to does. -/
private theorem agentAllows_buildSyncResponse (network : String) (now : Int)
    (peers : List Domain.Peer)
    (rules : List Domain.Rule) (selfKey : String) (f : Flow) :
    agentAllows (buildSyncResponse network now peers rules selfKey).rules f =
      firstMatch (reaches peers f) (·.action == "allow") false rules := by
  rw [agentAllows_eq_firstMatch]
  refine firstMatch_flatMap _ _ _ _ (fun r _ => rfl) fun r _ er her => ?_
  rw [action_of_mem_expandGroupRule her]

/-! ## Sent rules against the policy -/

/-- On the text of an IPv4 address `aclHostMatch` is equality. -/
private theorem aclHostMatch_ipv4 {field : String} {a : BitVec 32}
    (h : Netip.parseAddr field = some (.v4 a)) (ip : Addr) :
    aclHostMatch field ip = decide (Netip.parseAddr field = some ip) := by
  have hempty : Netip.parseAddr "" = none := by decide
  have hstar : Netip.parseAddr "*" = none := by decide
  -- neither wildcard parses as an address
  have hne : ¬ (field = "" ∨ field = "*") := by
    rintro (rfl | rfl)
    · exact nomatch hempty.symm.trans h
    · exact nomatch hstar.symm.trans h
  simp only [aclHostMatch, hne, ↓reduceIte, Netip.parsePrefix_eq_none_of_parseAddr h, h,
    Option.some.injEq]
  rfl

/-- Some host the field is expanded to matches exactly when the policy says the
    field names the address. -/
private theorem any_fieldIPs (peers : List Domain.Peer)
    (hip : ∀ p ∈ peers, ∃ a, Netip.parseAddr p.ip = some (.v4 a)) (field : String) (a : Addr) :
    (fieldIPs (groupIPs peers) field).any (aclHostMatch · a) =
      Policy.hostMatches peers field a := by
  unfold fieldIPs Policy.hostMatches
  split
  · -- a group: the index lists the addresses of its members, as text
    rw [Bool.eq_iff_iff]
    simp only [List.any_eq_true, mem_groupIPs, Bool.and_eq_true, List.contains_iff_mem,
      decide_eq_true_eq]
    constructor
    · rintro ⟨_, ⟨p, hp, hg, rfl⟩, hm⟩
      obtain ⟨b, hb⟩ := hip p hp
      rw [aclHostMatch_ipv4 hb, decide_eq_true_eq] at hm
      exact ⟨p, hp, hg, hm⟩
    · rintro ⟨p, hp, hg, hm⟩
      obtain ⟨b, hb⟩ := hip p hp
      refine ⟨p.ip, ⟨p, hp, hg, rfl⟩, ?_⟩
      rw [aclHostMatch_ipv4 hb, decide_eq_true_eq]
      exact hm
  · simp only [List.any_cons, List.any_nil, Bool.or_false]

/-- A stored rule reaches a flow exactly when the policy says it matches. -/
private theorem reaches_eq_ruleMatches (peers : List Domain.Peer)
    (hip : ∀ p ∈ peers, ∃ a, Netip.parseAddr p.ip = some (.v4 a)) (f : Flow) (r : Domain.Rule)
    (hport : 0 ≤ r.port ∧ r.port ≤ 65535) :
    reaches peers f r = Policy.ruleMatches peers f r := by
  unfold reaches Policy.ruleMatches
  -- both sides ask for a source and a destination among the expanded hosts
  rw [← any_fieldIPs peers hip, ← any_fieldIPs peers hip, expandGroupRule_eq, Bool.eq_iff_iff]
  simp only [List.any_map, List.any_flatMap, List.any_eq_true, Function.comp_apply, sentMatches,
    aclRuleMatches, pbRule, toInt32_of_port hport.1 hport.2, Bool.and_eq_true]
  constructor
  · rintro ⟨s, hs, d, hd, ⟨⟨he, hms⟩, hmd⟩, hp⟩
    exact ⟨⟨⟨he, s, hs, hms⟩, d, hd, hmd⟩, hp⟩
  · rintro ⟨⟨⟨he, s, hs, hms⟩, d, hd, hmd⟩, hp⟩
    exact ⟨s, hs, d, hd, ⟨⟨he, hms⟩, hmd⟩, hp⟩

/-- Decided on the sent rules or on the stored ones, a flow gets the same verdict. -/
theorem agentAllows_eq_policy (network : String) (now : Int) {peers : List Domain.Peer}
    {rules : List Domain.Rule} (selfKey : String) (f : Flow)
    (hip : ∀ p ∈ peers, ∃ a, Netip.parseAddr p.ip = some (.v4 a))
    (hport : ∀ r ∈ rules, 0 ≤ r.port ∧ r.port ≤ 65535) :
    agentAllows (buildSyncResponse network now peers rules selfKey).rules f =
      Policy.allows peers rules f := by
  rw [agentAllows_buildSyncResponse]
  exact firstMatch_congr _ _ _
    (fun r hr => reaches_eq_ruleMatches peers hip f r (hport r hr)) fun _ _ _ => rfl

/-- **Group expansion preserves the policy.** The agent's verdict on the rules it
    is sent is the verdict of the stored rules. -/
theorem aclAllows_buildSyncResponse (network : String) (now : Int) (peers : List Domain.Peer)
    (rules : List Domain.Rule) (selfKey : String) (f : Flow)
    (hip : ∀ p ∈ peers, ∃ a, Netip.parseAddr p.ip = some (.v4 a))
    (hport : ∀ r ∈ rules, 0 ≤ r.port ∧ r.port ≤ 65535) :
    aclAllows (buildSyncResponse network now peers rules selfKey).rules f.src f.dst f.proto
        f.dport =
      Policy.allows peers rules f :=
  agentAllows_eq_policy network now selfKey f hip hport

/-- Two peers, one of them in `eng`. -/
def engPeers : List Domain.Peer :=
  [{ ip := "100.64.0.1", groups := ["eng"] }, { ip := "100.64.0.2", groups := ["ops"] }]

/-- `eng` may reach everyone on 443. -/
def engRules : List Domain.Rule :=
  [{ src := "group:eng", dst := "*", protocol := "TCP", port := 443, action := "allow",
     enabled := true }]

/-- A member of `eng` reaches another agent on 443, by the rules sent and by the policy. -/
theorem aclAllows_buildSyncResponse_eng :
    aclAllows (buildSyncResponse "n" 0 engPeers engRules "k").rules (addrFrom4 100 64 0 1)
        (addrFrom4 100 64 0 2) "tcp" 443 =
      Policy.allows engPeers engRules
        ⟨addrFrom4 100 64 0 1, addrFrom4 100 64 0 2, "tcp", 443⟩ ∧
    Policy.allows engPeers engRules
        ⟨addrFrom4 100 64 0 1, addrFrom4 100 64 0 2, "tcp", 443⟩ = true := by
  refine ⟨aclAllows_buildSyncResponse "n" 0 engPeers engRules "k"
    ⟨addrFrom4 100 64 0 1, addrFrom4 100 64 0 2, "tcp", 443⟩ ?_ ?_, by decide⟩
  · -- both peers have addresses
    intro p hp
    simp only [engPeers, List.mem_cons, List.not_mem_nil, or_false] at hp
    rcases hp with rfl | rfl
    · exact ⟨0x64400001, by decide⟩
    · exact ⟨0x64400002, by decide⟩
  · decide

/-! ## Ties in priority -/

/-- `r` is stored for the account, reaches `f`, and no stored rule of the account
    that reaches `f` has a smaller priority. -/
structure LeadingRule (rules : PMap String Domain.Rule) (accountID : String)
    (peers : List Domain.Peer) (f : Flow) (r : Domain.Rule) : Prop where
  stored : ∃ id, rules id = some r
  account : r.accountID = accountID
  reached : reaches peers f r = true
  least : ∀ id r', rules id = some r' → r'.accountID = accountID →
    reaches peers f r' = true → r.priority ≤ r'.priority

/-- For every flow the rules that may come first all say the same. -/
def TiesAgree (rules : PMap String Domain.Rule) (accountID : String)
    (peers : List Domain.Peer) : Prop :=
  ∀ f a b, LeadingRule rules accountID peers f a → LeadingRule rules accountID peers f b →
    (a.action == "allow") = (b.action == "allow")

section Ties

variable {rules : PMap String Domain.Rule} {accountID : String} {peers : List Domain.Peer}
variable {f : Flow} {order : List String}

/-- The leading rules of a listing are those of the store. -/
private theorem leads_collectRules_iff (h : PMap.RangeOrder rules order) (r : Domain.Rule) :
    Leads Domain.Rule.priority (reaches peers f) (collectRules rules accountID order) r ↔
      LeadingRule rules accountID peers f r := by
  constructor
  · rintro ⟨hmem, hhit, hleast⟩
    have ⟨hstored, hacc⟩ := (mem_collectRules h accountID r).mp hmem
    exact ⟨hstored, hacc, hhit, fun id r' hr' ha' =>
      hleast r' ((mem_collectRules h accountID r').mpr ⟨⟨id, hr'⟩, ha'⟩)⟩
  · rintro ⟨hstored, hacc, hhit, hleast⟩
    refine ⟨(mem_collectRules h accountID r).mpr ⟨hstored, hacc⟩, hhit, fun r' hr' => ?_⟩
    have ⟨⟨id, hr'⟩, ha'⟩ := (mem_collectRules h accountID r').mp hr'
    exact hleast id r' hr' ha'

/-- The verdict of every agent on `f`, given what the store returned. -/
def syncedVerdict (network : String) (now : Int) (peers : List Domain.Peer) (selfKey : String)
    (f : Flow) (stored : List Domain.Rule) : Bool :=
  agentAllows (buildSyncResponse network now peers stored selfKey).rules f

/-- Two results of the database agree on `f` when the leading rules do. -/
private theorem postgresRules_agree {out₁ out₂ : List Domain.Rule}
    (hagree : ∀ a b, LeadingRule rules accountID peers f a →
      LeadingRule rules accountID peers f b → (a.action == "allow") = (b.action == "allow"))
    (h₁ : PostgresRules rules accountID out₁) (h₂ : PostgresRules rules accountID out₂) :
    firstMatch (reaches peers f) (·.action == "allow") false out₁ =
      firstMatch (reaches peers f) (·.action == "allow") false out₂ := by
  obtain ⟨order₁, ho₁, hs₁⟩ := h₁
  obtain ⟨order₂, ho₂, hs₂⟩ := h₂
  -- both are sorted runs of one list of rules
  have hs₂' : SortedRun Domain.Rule.priority (collectRules rules accountID order₁) out₂ :=
    ⟨hs₂.perm.trans (collectRules_perm ho₂ ho₁ accountID), hs₂.sorted⟩
  refine (sorted_firstMatch_eq_iff _ _).mpr (fun a b ha hb => ?_) _ _ hs₁ hs₂'
  exact hagree a b ((leads_collectRules_iff ho₁ a).mp ha) ((leads_collectRules_iff ho₁ b).mp hb)

/-- What the in-memory store returns is one of the results the database may give. -/
private theorem postgresRules_getRulesByAccount (h : PMap.RangeOrder rules order) :
    PostgresRules rules accountID (getRulesByAccount rules accountID order) :=
  ⟨order, h, SortedRun.mergeSort (List.Perm.refl _)⟩

/-- A leading rule comes out first for the order that visits it first. -/
theorem LeadingRule.exists_order {r : Domain.Rule} (hr : LeadingRule rules accountID peers f r)
    (h : PMap.RangeOrder rules order) :
    ∃ order', PMap.RangeOrder rules order' ∧
      firstMatch (reaches peers f) (·.action == "allow") false
        (getRulesByAccount rules accountID order') = (r.action == "allow") := by
  obtain ⟨id, hid⟩ := hr.stored
  -- visit its key first; the sort is stable, so it stays ahead of its ties
  have hmem : id ∈ order := (h.mem_iff id).mpr (by rw [hid]; exact nofun)
  have hperm : order.Perm (id :: order.erase id) := List.perm_cons_erase hmem
  have horder : PMap.RangeOrder rules (id :: order.erase id) :=
    ⟨hperm.nodup_iff.mp h.nodup, fun k => by rw [← h.mem_iff, hperm.mem_iff]⟩
  refine ⟨_, horder, firstMatch_of_find?_eq_some _ _ _ ?_⟩
  have hcons : collectRules rules accountID (id :: order.erase id) =
      r :: collectRules rules accountID (order.erase id) := by
    simp only [collectRules, List.filterMap_cons, hid, List.filter_cons, hr.account,
      beq_self_eq_true, ↓reduceIte]
  have hleads := (leads_collectRules_iff horder r).mpr hr
  unfold getRulesByAccount
  rw [hcons] at hleads ⊢
  exact hleads.find?_mergeSort_cons

end Ties

/-- **The verdict is a function of the stored rules exactly when ties agree.** For
    either store, two reads of one rule set lead any two agents to the same verdict on
    every flow if and only if no flow is led by rules that disagree. -/
theorem getRulesByAccount_verdict_unique_iff (rules : PMap String Domain.Rule)
    (hfin : ∃ order, PMap.RangeOrder rules order) (accountID network : String)
    (peers : List Domain.Peer) (now₁ now₂ : Int) (self₁ self₂ : String) :
    ((∀ f order₁ order₂, PMap.RangeOrder rules order₁ → PMap.RangeOrder rules order₂ →
        syncedVerdict network now₁ peers self₁ f (getRulesByAccount rules accountID order₁) =
          syncedVerdict network now₂ peers self₂ f (getRulesByAccount rules accountID order₂)) ↔
      TiesAgree rules accountID peers) ∧
    ((∀ f out₁ out₂, PostgresRules rules accountID out₁ → PostgresRules rules accountID out₂ →
        syncedVerdict network now₁ peers self₁ f out₁ =
          syncedVerdict network now₂ peers self₂ f out₂) ↔
      TiesAgree rules accountID peers) := by
  simp only [syncedVerdict, agentAllows_buildSyncResponse]
  obtain ⟨order, horder⟩ := hfin
  -- the hard direction is the same for both: the memory store's reads are among the database's
  have hties (hall : ∀ f order₁ order₂, PMap.RangeOrder rules order₁ →
      PMap.RangeOrder rules order₂ →
      firstMatch (reaches peers f) (·.action == "allow") false
          (getRulesByAccount rules accountID order₁) =
        firstMatch (reaches peers f) (·.action == "allow") false
          (getRulesByAccount rules accountID order₂)) : TiesAgree rules accountID peers := by
    intro f a b ha hb
    have ⟨oa, hoa, ea⟩ := ha.exists_order horder
    have ⟨ob, hob, eb⟩ := hb.exists_order horder
    rw [← ea, ← eb]
    exact hall f oa ob hoa hob
  refine ⟨⟨hties, fun h f o₁ o₂ h₁ h₂ => ?_⟩, ⟨fun h => hties fun f o₁ o₂ h₁ h₂ => ?_,
    fun h f out₁ out₂ h₁ h₂ => postgresRules_agree (h f) h₁ h₂⟩⟩
  · exact postgresRules_agree (h f) (postgresRules_getRulesByAccount h₁)
      (postgresRules_getRulesByAccount h₂)
  · exact h f _ _ (postgresRules_getRulesByAccount h₁) (postgresRules_getRulesByAccount h₂)

/-- Two rules with the dashboard's default priority, one allowing and one denying
    everything. -/
def tiedRules : List Domain.Rule :=
  [{ id := "a", accountID := "acct", src := "*", dst := "*", protocol := "all",
     action := "allow", priority := 100, enabled := true },
   { id := "b", accountID := "acct", src := "*", dst := "*", protocol := "all",
     action := "deny", priority := 100, enabled := true }]

/-- They as a store holds them. -/
def tiedStore : PMap String Domain.Rule := PMap.index Domain.Rule.id tiedRules

/-- Any connection, here ssh between two peers. -/
def sshFlow : Flow := ⟨addrFrom4 100 64 0 1, addrFrom4 100 64 0 2, "tcp", 22⟩

/-- One order in which the rules may be listed. -/
private theorem rangeOrder_tiedStore : PMap.RangeOrder tiedStore ["a", "b"] :=
  PMap.RangeOrder.index Domain.Rule.id (by decide)

private theorem rangeOrder_tiedStore_swap : PMap.RangeOrder tiedStore ["b", "a"] :=
  ⟨by decide, fun k => by rw [← rangeOrder_tiedStore.mem_iff]; simp [or_comm]⟩

/-- Tied rules are sorted in any order, so sorting returns them as collected. -/
private theorem getRulesByAccount_tiedStore (order : List String)
    (h : (collectRules tiedStore "acct" order).Pairwise fun a b => a.priority ≤ b.priority) :
    getRulesByAccount tiedStore "acct" order = collectRules tiedStore "acct" order :=
  List.mergeSort_of_pairwise (h.imp fun hab => decide_eq_true hab)

/-- The two reads of `tiedStore` give the ssh connection opposite verdicts, in
    either store. -/
theorem getRulesByAccount_tied_verdicts_differ :
    (PMap.RangeOrder tiedStore ["a", "b"] ∧ PMap.RangeOrder tiedStore ["b", "a"]) ∧
    syncedVerdict "n" 0 [] "k" sshFlow (getRulesByAccount tiedStore "acct" ["a", "b"]) = true ∧
    syncedVerdict "n" 0 [] "k" sshFlow (getRulesByAccount tiedStore "acct" ["b", "a"]) = false ∧
    PostgresRules tiedStore "acct" (getRulesByAccount tiedStore "acct" ["a", "b"]) ∧
    PostgresRules tiedStore "acct" (getRulesByAccount tiedStore "acct" ["b", "a"]) := by
  refine ⟨⟨rangeOrder_tiedStore, rangeOrder_tiedStore_swap⟩, ?_, ?_,
    postgresRules_getRulesByAccount rangeOrder_tiedStore,
    postgresRules_getRulesByAccount rangeOrder_tiedStore_swap⟩
  · rw [getRulesByAccount_tiedStore _ (by decide)]
    decide
  · rw [getRulesByAccount_tiedStore _ (by decide)]
    decide

/-- The two rules of one priority disagree. -/
theorem tiedStore_not_tiesAgree : ¬ TiesAgree tiedStore "acct" [] := by
  intro h
  have heq := (getRulesByAccount_verdict_unique_iff tiedStore ⟨_, rangeOrder_tiedStore⟩ "acct" "n"
    [] 0 0 "k" "k").1.mpr h sshFlow _ _ rangeOrder_tiedStore rangeOrder_tiedStore_swap
  rw [getRulesByAccount_tiedStore _ (by decide), getRulesByAccount_tiedStore _ (by decide)] at heq
  exact absurd heq (by decide)

end Blinex.Spec
