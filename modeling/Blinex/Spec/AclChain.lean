import Blinex.Native.AclLinux

/-!
# What `ApplyRules` leaves in the chain

Every `iptables` call of `ApplyRules` after the flush appends at most one entry.
`chain_applyRules` reads the chain off the rule list and the calls that failed;
everything said about the kernel engine goes through it.

`ApplyRules` never builds a second chain to swap in, so its intermediate states
are live. `chainAfter` is the chain after the first `n` calls, and
`inputAccepts_chainAfter_eq_false_iff` says in which of these states a packet that
both policies deny is kept out.
-/

namespace Blinex.Spec

open Blinex.Go Blinex.Native

variable (ipt : Iptables) (iface : String)

/-- The entry a rule's append installs, `none` if `iptables` refuses it. -/
def ruleEntry (r : Commonv1.Rule) : Option Entry :=
  ipt.parse ((buildIPTablesArgs r iface).drop 2) {}

/-- The entry of the conntrack accept. -/
def conntrackEntry : Entry := { ctstate := true, target := some .accept }

/-- The entry of the terminal deny. -/
def dropEntry : Entry := { target := some .drop }

/-- The enabled rules with the number of the call that appends each; calls 0 and 1
    are the flush and the conntrack accept. -/
def numbered (rules : List Commonv1.Rule) : List (Commonv1.Rule × Nat) :=
  (rules.filter (·.enabled)).zipIdx 2

/-- The number of the call that appends the terminal deny. -/
def dropCall (rules : List Commonv1.Rule) : Nat := (rules.filter (·.enabled)).length + 2

/-! ## One call -/

/-- The arguments for one host field. -/
def hostArgs (flag field : String) : List String :=
  if field ≠ "" ∧ field ≠ "*" then [flag, field] else []

/-- The arguments for protocol and port. -/
def protoArgs (proto : String) (port : Int) : List String :=
  if proto ≠ "" ∧ proto ≠ "all" then
    "-p" :: proto ::
      if 0 < port ∧ (proto = "tcp" ∨ proto = "udp") then ["--dport", toString port] else []
  else []

/-- The command line field by field. -/
private theorem buildIPTablesArgs_eq (r : Commonv1.Rule) :
    buildIPTablesArgs r iface =
      "-A" :: chain :: "-i" :: iface :: (hostArgs "-s" r.src ++ (hostArgs "-d" r.dst ++
        (protoArgs (Strings.toLower r.protocol) r.port ++
          ["-j", if r.action = "deny" then "DROP" else "ACCEPT"]))) := by
  simp only [buildIPTablesArgs, hostArgs, protoArgs]
  by_cases hs : r.src ≠ "" ∧ r.src ≠ "*" <;> by_cases hd : r.dst ≠ "" ∧ r.dst ≠ "*" <;>
    simp only [hs, hd, ne_eq, not_false_eq_true, and_self, ↓reduceIte] <;> split_ifs <;> rfl

/-- The command line of a rule appends its entry, if `iptables` takes it. -/
private theorem run_buildIPTablesArgs (r : Commonv1.Rule) (c : List Entry) :
    ipt.run chain (buildIPTablesArgs r iface) c =
      (ruleEntry ipt iface r).map fun e => c ++ [e] := by
  simp only [ruleEntry, buildIPTablesArgs_eq, Iptables.run, and_self, ↓reduceIte,
    List.drop_succ_cons, List.drop_zero]

/-- The first append is the entry for established flows. -/
private theorem run_conntrackArgs (c : List Entry) :
    ipt.run chain conntrackArgs c = some (c ++ [conntrackEntry]) := rfl

private theorem run_dropArgs (c : List Entry) :
    ipt.run chain dropArgs c = some (c ++ [dropEntry]) := rfl

/-- A call that appends `e`, or is refused when there is none. -/
private theorem iptablesRun_append (fails : Nat → Bool) (args : List String) (e : Option Entry)
    (c : List Entry) (n : Nat) (h : ipt.run chain args c = e.map fun e => c ++ [e]) :
    (iptablesRun ipt fails args ⟨c, n⟩).2 =
      ⟨c ++ (if fails n then none else e).toList, n + 1⟩ := by
  unfold iptablesRun
  cases hf : fails n with
  | true => simp
  | false => cases e <;> simp [h]

/-! ## A whole run -/

/-- The loop over the rules. -/
private theorem foldl_appends (fails : Nat → Bool) (rules : List Commonv1.Rule) (c : List Entry)
    (n : Nat) :
    rules.foldl (fun k r => if !r.enabled then k
        else (iptablesRun ipt fails (buildIPTablesArgs r iface) k).2) ⟨c, n⟩ =
      ⟨c ++ ((rules.filter (·.enabled)).zipIdx n).filterMap
          (fun x => if fails x.2 then none else ruleEntry ipt iface x.1),
        n + (rules.filter (·.enabled)).length⟩ := by
  -- the calls are numbered as they are made, so the number goes along with the chain
  induction rules generalizing c n with
  | nil => simp
  | cons r rules ih =>
    cases he : r.enabled with
    | false => simp only [List.foldl_cons, he, Bool.not_false, ↓reduceIte, ih,
        List.filter_cons, Bool.false_eq_true]
    | true =>
      rw [List.foldl_cons, he]
      simp only [Bool.not_true, Bool.false_eq_true, ↓reduceIte]
      rw [iptablesRun_append ipt fails _ _ c n (run_buildIPTablesArgs ipt iface r c), ih,
        List.filter_cons_of_pos he, List.zipIdx_cons, List.filterMap_cons, List.length_cons,
        List.append_assoc, Nat.add_right_comm, Nat.add_assoc]
      cases (if fails n then none else ruleEntry ipt iface r) <;> rfl

/-- The chain `ApplyRules` leaves when the flush goes through. -/
theorem chain_applyRules (fails : Nat → Bool) (rules : List Commonv1.Rule) (c : List Entry)
    (hflush : fails 0 = false) :
    (applyRules ipt fails rules iface ⟨c, 0⟩).2.chain =
      (if fails 1 then none else some conntrackEntry).toList ++
        ((numbered rules).filterMap fun x =>
          if fails x.2 then none else ruleEntry ipt iface x.1) ++
        (if fails (dropCall rules) then none else some dropEntry).toList := by
  -- the flush leaves an empty chain, and the appends fill it in order
  have hrun : iptablesRun ipt fails ["-F", chain] ⟨c, 0⟩ = (true, ⟨[], 1⟩) := by
    simp only [iptablesRun, hflush, Bool.false_eq_true, ↓reduceIte, Iptables.run, and_self]
  simp only [applyRules, hrun, Bool.not_true, Bool.false_eq_true, ↓reduceIte]
  rw [iptablesRun_append ipt fails _ (some conntrackEntry) [] 1 (run_conntrackArgs ipt []),
    foldl_appends,
    iptablesRun_append ipt fails _ (some dropEntry) _ _ (run_dropArgs ipt _),
    Nat.add_comm (1 + 1)]
  rfl

/-- A failed flush leaves the chain alone. -/
private theorem chain_applyRules_of_flush_failed (fails : Nat → Bool) (rules : List Commonv1.Rule)
    (c : List Entry) (hflush : fails 0 = true) :
    (applyRules ipt fails rules iface ⟨c, 0⟩).2.chain = c := by
  simp only [applyRules, iptablesRun, hflush, ↓reduceIte, Bool.not_false]

/-! ## Reading a command line back -/

/-- How a host field restricts the entry. -/
def hostOption (field : String) : Option (Option (BitVec 32 → Bool)) :=
  if field ≠ "" ∧ field ≠ "*" then (ipt.host field).map some else some none

/-- How protocol and port restrict the entry. -/
def protoOption (proto : String) (port : Int) : Option (Option UInt8 × Option (BitVec 16)) :=
  if proto ≠ "" ∧ proto ≠ "all" then
    (ipt.protocol proto).bind fun n =>
      if 0 < port ∧ (proto = "tcp" ∨ proto = "udp") then
        if n = 6 ∨ n = 17 then
          (Iptables.parsePort (toString port)).map fun q => (some n, some q)
        else none
      else some (some n, none)
  else some (none, none)

/-- The target an action stands for. -/
def ruleTarget (r : Commonv1.Rule) : Target := if r.action = "deny" then .drop else .accept

/-- A source field is read back as its option. -/
private theorem parse_src (field : String) (rest : List String) (e : Entry) (he : e.src = none) :
    ipt.parse (hostArgs "-s" field ++ rest) e =
      (hostOption ipt field).bind fun h => ipt.parse rest { e with src := h } := by
  unfold hostArgs hostOption
  split_ifs
  · cases hh : ipt.host field <;> simp [Iptables.parse, Iptables.option, hh]
  · simp [← he]

/-- A destination field is read back as its option. -/
private theorem parse_dst (field : String) (rest : List String) (e : Entry) (he : e.dst = none) :
    ipt.parse (hostArgs "-d" field ++ rest) e =
      (hostOption ipt field).bind fun h => ipt.parse rest { e with dst := h } := by
  unfold hostArgs hostOption
  split_ifs
  · cases hh : ipt.host field <;> simp [Iptables.parse, Iptables.option, hh]
  · simp [← he]

/-- A protocol and its port are read back as their options. -/
private theorem parse_proto (proto : String) (port : Int) (rest : List String) (e : Entry)
    (hp : e.proto = none) (hd : e.dport = none) :
    ipt.parse (protoArgs proto port ++ rest) e =
      (protoOption ipt proto port).bind fun x =>
        ipt.parse rest { e with proto := x.1, dport := x.2 } := by
  unfold protoArgs protoOption
  split_ifs
  · -- with a port; what matters of its text is whether it parses
    generalize toString port = value
    cases hn : ipt.protocol proto with
    | none => simp [Iptables.parse, Iptables.option, hn]
    | some n =>
      by_cases h6 : n = 6 ∨ n = 17
      · cases hq : Iptables.parsePort value <;>
          simp [Iptables.parse, Iptables.option, hn, h6, hq]
      · simp [Iptables.parse, Iptables.option, hn, h6]
  · cases hn : ipt.protocol proto <;> simp [Iptables.parse, Iptables.option, hn, ← hd]
  · simp [← hp, ← hd]

/-- The entry a rule installs, field by field. -/
theorem ruleEntry_eq (r : Commonv1.Rule) :
    ruleEntry ipt iface r =
      (hostOption ipt r.src).bind fun s => (hostOption ipt r.dst).bind fun d =>
        (protoOption ipt (Strings.toLower r.protocol) r.port).bind fun x =>
          some { inIface := some iface, src := s, dst := d, proto := x.1, dport := x.2,
                 target := some (ruleTarget r) } := by
  have hiface (rest : List String) : ipt.parse ("-i" :: iface :: rest) {} =
      ipt.parse rest { inIface := some iface } := rfl
  have hjump (e : Entry) : ipt.parse ["-j", if r.action = "deny" then "DROP" else "ACCEPT"] e =
      some { e with target := some (ruleTarget r) } := by
    unfold ruleTarget
    split_ifs <;> rfl
  simp only [ruleEntry, buildIPTablesArgs_eq, List.drop_succ_cons, List.drop_zero, hiface]
  -- one option after the other, each into a field that is still empty
  rw [parse_src _ _ _ _ rfl]
  refine congrArg _ (funext fun s => ?_)
  rw [parse_dst _ _ _ _ rfl]
  refine congrArg _ (funext fun d => ?_)
  rw [parse_proto _ _ _ _ _ rfl rfl]
  refine congrArg _ (funext fun x => ?_)
  rw [hjump]

/-- An installed entry carries its rule's target. -/
private theorem accepts_of_ruleEntry {r : Commonv1.Rule} {e : Entry}
    (h : ruleEntry ipt iface r = some e) : e.accepts = decide (r.action ≠ "deny") := by
  rw [ruleEntry_eq] at h
  simp only [Option.bind_eq_some_iff] at h
  obtain ⟨_, _, _, _, _, _, heq⟩ := h
  obtain rfl := Option.some.inj heq
  unfold Entry.accepts ruleTarget
  split_ifs with ha <;> simp [ha]

/-! ## Intermediate states -/

/-- The chain once a rule list has been installed without a hitch. -/
def installedChain (rules : List Commonv1.Rule) : List Entry :=
  (applyRules ipt (fun _ => false) rules iface ⟨[], 0⟩).2.chain

/-- The chain after the first `n` calls of `ApplyRules` on `new`, those marked by
    `fails` failing, when `old` was installed before. -/
def chainAfter (fails : Nat → Bool) (n : Nat) (old new : List Commonv1.Rule) : List Entry :=
  (applyRules ipt (fun i => fails i || decide (n ≤ i)) new iface
    ⟨installedChain ipt iface old, 0⟩).2.chain

/-- The call was among the first `n` and went through. -/
def Done (fails : Nat → Bool) (n i : Nat) : Prop := i < n ∧ fails i = false

/-- A rule's own append would match the packet. -/
def ruleHits (p : Packet) (r : Commonv1.Rule) : Bool :=
  (ruleEntry ipt iface r).any (Entry.hits p)

/-- What keeps a packet out of a half-installed chain: of the rules whose append went
    through and that match the packet the first one denies, or there is none and the
    terminal deny is in place. -/
def FailsClosed (fails : Nat → Bool) (n : Nat) (new : List Commonv1.Rule) (p : Packet) : Prop :=
  (∃ l₁ x l₂, numbered new = l₁ ++ x :: l₂ ∧ Done fails n x.2 ∧ ruleHits ipt iface p x.1 = true ∧
      x.1.action = "deny" ∧
      ∀ y ∈ l₁, Done fails n y.2 → ruleHits ipt iface p y.1 = false) ∨
    ((∀ y ∈ numbered new, Done fails n y.2 → ruleHits ipt iface p y.1 = false) ∧
      Done fails n (dropCall new))

/-- The chain of a reinstallation in progress decides as its rules do, each
    counting only if its append went through. -/
theorem inputAccepts_applyRules (fails : Nat → Bool) (rules : List Commonv1.Rule)
    (c : List Entry) (p : Packet) (hflush : fails 0 = false) (hin : p.inIface = iface)
    (hnew : p.established = false) :
    inputAccepts iface (applyRules ipt fails rules iface ⟨c, 0⟩).2.chain p =
      firstMatch (fun x : Commonv1.Rule × Nat => !fails x.2 && ruleHits ipt iface p x.1)
        (fun x => decide (x.1.action ≠ "deny")) (fails (dropCall rules)) (numbered rules) := by
  rw [inputAccepts, if_pos hin, chain_applyRules ipt iface fails rules c hflush,
    List.append_assoc, firstMatch_append]
  -- the conntrack entry never matches a new flow
  have hskip (dflt : Bool) : firstMatch (Entry.hits p) Entry.accepts dflt
      (if fails 1 then none else some conntrackEntry).toList = dflt := by
    split_ifs
    · rfl
    · simp [firstMatch, Entry.hits, conntrackEntry, hnew]
  -- past the rules the terminal deny decides, and without it INPUT accepts
  have hlast : firstMatch (Entry.hits p) Entry.accepts true
      (if fails (dropCall rules) then none else some dropEntry).toList =
        fails (dropCall rules) := by
    split_ifs with h
    · simp [h]
    · simp [firstMatch, Entry.hits, Entry.accepts, dropEntry, h]
  rw [hskip, firstMatch_append, hlast]
  refine firstMatch_filterMap _ _ _ _ (fun x _ hx => ?_) fun x _ e hx => ?_
  · -- no entry: the append failed or `iptables` refused the rule
    cases hf : fails x.2 with
    | true => rfl
    | false =>
      simp only [hf, Bool.false_eq_true, ↓reduceIte] at hx
      simp only [ruleHits, hx, Option.any_none, Bool.and_false]
  · cases hf : fails x.2 with
    | true => simp [hf] at hx
    | false =>
      simp only [hf, Bool.false_eq_true, ↓reduceIte] at hx
      exact ⟨by simp [ruleHits, hx], accepts_of_ruleEntry ipt iface hx⟩

/-- **When reinstalling stays closed.** After any number of calls, any of them
    failing, a new flow that the old policy denies is kept out exactly when the flush
    has not taken effect or what has been installed since already denies it. That the
    new policy denies it too makes no difference. -/
theorem inputAccepts_chainAfter_eq_false_iff (fails : Nat → Bool) (n : Nat)
    (old new : List Commonv1.Rule) (p : Packet) (hin : p.inIface = iface)
    (hstate : p.established = false)
    (hold : inputAccepts iface (installedChain ipt iface old) p = false) :
    inputAccepts iface (chainAfter ipt iface fails n old new) p = false ↔
      ¬ Done fails n 0 ∨ FailsClosed ipt iface fails n new p := by
  -- a command was done when it was reached and did not fail
  have hdone (i : Nat) : (fails i || decide (n ≤ i)) = false ↔ Done fails n i := by
    rw [Bool.or_eq_false_iff, decide_eq_false_iff_not, Nat.not_le, and_comm]
    rfl
  unfold chainAfter
  by_cases h0 : Done fails n 0
  · -- the chain was flushed: the first entry that was appended and matches decides
    rw [inputAccepts_applyRules _ _ _ _ _ _ ((hdone 0).mpr h0) hin hstate, firstMatch_eq_iff]
    have hhit (x : Commonv1.Rule × Nat) :
        (!(fails x.2 || decide (n ≤ x.2)) && ruleHits ipt iface p x.1) = false ↔
          (Done fails n x.2 → ruleHits ipt iface p x.1 = false) := by
      rw [← hdone, Bool.and_eq_false_iff]
      cases (fails x.2 || decide (n ≤ x.2)) <;> simp
    simp only [hhit, hdone, h0, not_true_eq_false, false_or, FailsClosed, Bool.and_eq_true,
      Bool.not_eq_eq_eq_not, Bool.not_true, decide_eq_false_iff_not, not_not]
    constructor
    · rintro (⟨l₁, x, l₂, heq, ⟨hx, hh⟩, hl₁, hd⟩ | h)
      · exact .inl ⟨l₁, x, l₂, heq, hx, hh, hd, hl₁⟩
      · exact .inr h
    · rintro (⟨l₁, x, l₂, heq, hx, hh, hd, hl₁⟩ | h)
      · exact .inl ⟨l₁, x, l₂, heq, ⟨hx, hh⟩, hl₁, hd⟩
      · exact .inr h
  · -- the old chain is still there
    have hflush : (fails 0 || decide (n ≤ 0)) = true := by
      rw [← Bool.not_eq_false, hdone]
      exact h0
    rw [chain_applyRules_of_flush_failed _ _ _ _ _ hflush]
    exact iff_of_true hold (.inl h0)

/-- A new ssh connection from 10.0.0.1. -/
def sshPacket : Packet :=
  { inIface := "wg0", src := 0x0a000001, dst := 0x64400001, proto := 6, dport := some 22,
    established := false }

/-- Keep 10.0.0.1 out, let everyone else in. -/
def denyFirst : List Commonv1.Rule :=
  [{ src := "10.0.0.1", dst := "*", protocol := "all", action := "deny", enabled := true },
   { src := "*", dst := "*", protocol := "all", action := "allow", enabled := true }]

/-- Reinstalling these rules keeps 10.0.0.1 out as soon as the flush and the two calls of the first
    rule went through, even if every later call fails. -/
theorem chainAfter_complete_denies :
    inputAccepts "wg0" (chainAfter Iptables.strict "wg0" (fun i => decide (2 < i)) 5 denyFirst
      denyFirst) sshPacket = false := by
  refine (inputAccepts_chainAfter_eq_false_iff Iptables.strict "wg0" _ 5 denyFirst denyFirst
    sshPacket rfl rfl (by decide)).mpr (.inr (.inl ⟨[], _, _, rfl, ?_, ?_, ?_, nofun⟩))
  · exact ⟨by decide, by decide⟩
  · decide
  · rfl

/-- Right after the flush of an unchanged empty policy the packet is let in; so it
    is for good when the terminal deny fails, or when the append of the one rule that
    denies it does. -/
theorem chainAfter_lets_denied_packet_in :
    (inputAccepts "wg0" (installedChain Iptables.strict "wg0" []) sshPacket = false ∧
      inputAccepts "wg0" (installedChain Iptables.strict "wg0" denyFirst) sshPacket = false) ∧
    inputAccepts "wg0" (chainAfter Iptables.strict "wg0" (fun _ => false) 1 [] []) sshPacket =
      true ∧
    inputAccepts "wg0" (chainAfter Iptables.strict "wg0" (fun i => i == 2) 3 [] []) sshPacket =
      true ∧
    inputAccepts "wg0" (chainAfter Iptables.strict "wg0" (fun i => i == 2) 5 denyFirst denyFirst)
      sshPacket = true := by
  decide

end Blinex.Spec
