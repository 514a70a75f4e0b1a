import Blinex.Spec.ForwardSlots

/-!
# Policies that change while connections come in

A forwarder reads the subnets, then the rules, and a sync replaces them one after the other. A
connection that comes in is nevertheless never let through by a policy that is no longer there:
what it was checked against was in force after it came in.
-/

namespace Blinex.Spec

open Blinex.Go Blinex.Native

/-- Subnets and rules let a flow pass: it is for a subnet, or for TCP a service of the host, and
    the rules allow it. A source that does not parse is not checked. -/
def Permits (localAddr : Addr) (f : ForwardFlow) (subnets : List Prefix)
    (rules : List Commonv1.Rule) : Prop :=
  (RoutingNet.shouldForward { localAddr, subnets } f.dst = true ∨
    f.proto = "tcp" ∧ f.dst = localAddr) ∧
  ∀ src, f.src = some src → aclAllows rules src f.dst f.proto f.port = true

/-- The operation lets the flow out of the host. -/
def LetsOut (f : ForwardFlow) : RouterOp → Prop
  | .dial f' _ => f' = f
  | .ping f' _ => f' = f
  | _ => False

/-- The lists that are read satisfy `S` and `R`, and the flow is not let out. -/
def withholds (f : ForwardFlow) (S : List Prefix → Prop) (R : List Commonv1.Rule → Prop) :
    Contract RouterOp.Res where
  rely
    | .subnets => S
    | .aclRules => R
    | _ => fun _ => True
  guar o := ¬LetsOut f o

section Tasks

variable {localAddr : Addr} {f : ForwardFlow} {S : List Prefix → Prop}
  {R : List Commonv1.Rule → Prop}

/-! What the checks have found. -/

/-- A destination that passes the gate is in the subnets that were read. -/
private theorem shouldForward_meets (dst : Addr) : (ForwardTask.shouldForward localAddr dst).Meets
    (withholds f S R) fun forwards => forwards = true →
      ∃ subnets, S subnets ∧ RoutingNet.shouldForward { localAddr, subnets } dst = true :=
  ⟨id, fun subnets hS h => ⟨subnets, hS, h⟩⟩

/-- The gate of TCP also lets the host's own address through. -/
private theorem gateTCP_meets (hS : ∃ subnets, S subnets) (dst : Addr) :
    (ForwardTask.gateTCP localAddr dst).Meets (withholds f S R) fun forwards => forwards = true →
      ∃ subnets, S subnets ∧
        (RoutingNet.shouldForward { localAddr, subnets } dst = true ∨ dst = localAddr) := by
  unfold ForwardTask.gateTCP
  split
  · rename_i heq
    obtain ⟨subnets, hsubnets⟩ := hS
    exact fun _ => ⟨subnets, hsubnets, .inr (beq_iff_eq.mp heq)⟩
  · refine (shouldForward_meets dst).imp fun _ h hforwards => ?_
    obtain ⟨subnets, hsubnets, hfwd⟩ := h hforwards
    exact ⟨subnets, hsubnets, .inl hfwd⟩

/-- A flow that is not denied is allowed by the rules that were read, if its source is known. -/
private theorem aclDenies_meets (hR : ∃ rules, R rules) (flow : ForwardFlow) :
    (ForwardTask.aclDenies flow).Meets (withholds f S R) fun denied => denied = false →
      ∃ rules, R rules ∧ ∀ src, flow.src = some src →
        aclAllows rules src flow.dst flow.proto flow.port = true := by
  unfold ForwardTask.aclDenies
  -- a source that cannot be read is not held against the flow
  split
  · rename_i hsrc
    obtain ⟨rules, hrules⟩ := hR
    exact fun _ => ⟨rules, hrules, fun src h => nomatch hsrc.symm.trans h⟩
  · rename_i src hsrc
    refine ⟨id, fun rules hrules hdenied => ⟨rules, hrules, fun src' hsrc' => ?_⟩⟩
    obtain rfl := Option.some.inj (hsrc.symm.trans hsrc')
    simpa using hdenied

/-! What passed them is another flow. -/

/-- Proxying another flow does not dial this one. -/
private theorem proxy_meets {flow : ForwardFlow} (hne : flow ≠ f) (addr : Addr) (dialled : Bool) :
    (ForwardTask.proxy flow addr dialled).Meets (withholds f S R) fun _ => True := by
  cases dialled with
  | true => exact ⟨hne, fun _ _ => ⟨id, fun _ _ => ⟨id, fun _ _ => trivial⟩⟩⟩
  | false => exact ⟨hne, fun _ _ => ⟨id, fun _ _ => trivial⟩⟩

private theorem reset_meets : ForwardTask.reset.Meets (withholds f S R) fun _ => True :=
  ⟨id, fun _ _ => trivial⟩

/-- With or without a slot, another TCP flow does not dial this one. -/
private theorem slotTCP_meets {flow : ForwardFlow} (hne : flow ≠ f) (addr : Addr)
    (req : ForwarderRequest) :
    (ForwardTask.slotTCP flow addr req).Meets (withholds f S R) fun _ => True := by
  refine ⟨id, fun got _ => ?_⟩
  cases got with
  | false => exact reset_meets
  | true =>
    cases req.endpoint with
    | false => exact ⟨id, fun _ _ => reset_meets⟩
    | true => exact ⟨id, fun _ _ => proxy_meets hne addr req.dialled⟩

/-- With or without a slot, another UDP flow does not dial this one. -/
private theorem slotUDP_meets {flow : ForwardFlow} (hne : flow ≠ f) (addr : Addr)
    (req : ForwarderRequest) :
    (ForwardTask.slotUDP flow addr req).Meets (withholds f S R) fun _ => True := by
  refine ⟨id, fun got _ => ?_⟩
  cases got with
  | false => trivial
  | true =>
    cases req.endpoint with
    | false => exact ⟨id, fun _ _ => trivial⟩
    | true => exact proxy_meets hne addr req.dialled

/-- With or without a slot, another ping does not dial this flow. -/
private theorem slotICMP_meets {flow : ForwardFlow} (hne : flow ≠ f)
    (out : List (List UInt8) × Option (List UInt8)) :
    (ForwardTask.slotICMP flow out).Meets (withholds f S R) fun _ => True := by
  refine ⟨id, fun got _ => ?_⟩
  cases got with
  | false => trivial
  | true =>
    obtain ⟨sent, reply⟩ := out
    refine ⟨hne, fun _ _ => ?_⟩
    cases reply with
    | none => exact ⟨id, fun _ _ => trivial⟩
    | some pkt => exact ⟨id, fun _ _ => ⟨id, fun _ _ => trivial⟩⟩

/-! The tasks. -/

variable (hbar : ∀ subnets rules, S subnets → R rules → ¬Permits localAddr f subnets rules)
  (hR : ∃ rules, R rules)
include hbar hR

/-- A TCP request does not dial the flow: gate and rules would have had to let it through. -/
private theorem handleTCP_meets (hS : ∃ subnets, S subnets) (req : ForwarderRequest) :
    (ForwardTask.handleTCP localAddr req).Meets (withholds f S R) fun _ => True := by
  unfold ForwardTask.handleTCP
  split
  · exact reset_meets
  · refine (gateTCP_meets hS _).bind fun forwards hgate => ?_
    split
    · exact reset_meets
    · rename_i hforwards
      refine (aclDenies_meets hR _).bind fun denied hacl => ?_
      split
      · exact reset_meets
      · rename_i hdenied
        -- the flow would have passed with what was read, which the bar excludes
        obtain ⟨subnets, hsubnets, hgate⟩ := hgate (by simpa using hforwards)
        obtain ⟨rules, hrules, hallow⟩ := hacl (by simpa using hdenied)
        refine slotTCP_meets (fun heq => ?_) _ req
        subst heq
        exact hbar subnets rules hsubnets hrules ⟨hgate.imp id fun h => ⟨rfl, h⟩, hallow⟩

/-- A UDP request does not dial the flow. -/
private theorem handleUDP_meets (req : ForwarderRequest) :
    (ForwardTask.handleUDP localAddr req).Meets (withholds f S R) fun _ => True := by
  unfold ForwardTask.handleUDP
  split
  · trivial
  · refine (shouldForward_meets _).bind fun forwards hgate => ?_
    split
    · trivial
    · rename_i hforwards
      refine (aclDenies_meets hR _).bind fun denied hacl => ?_
      split
      · trivial
      · rename_i hdenied
        -- past both checks, the flow is one that the two snapshots let through
        obtain ⟨subnets, hsubnets, hgate⟩ := hgate (by simpa using hforwards)
        obtain ⟨rules, hrules, hallow⟩ := hacl (by simpa using hdenied)
        refine slotUDP_meets (fun heq => ?_) _ req
        subst heq
        exact hbar subnets rules hsubnets hrules ⟨.inl hgate, hallow⟩

/-- An echo request does not ping for the flow. -/
private theorem interceptICMPv4_meets (lib : PacketLib) (packet : List UInt8)
    (attempts : List PingAttempt) :
    (ForwardTask.interceptICMPv4 lib localAddr packet attempts).Meets (withholds f S R)
      fun _ => True := by
  unfold ForwardTask.interceptICMPv4
  split
  · trivial
  split
  · trivial
  dsimp only
  split
  · trivial
  split
  · trivial
  split
  · trivial
  -- the packet is an echo request with addresses; from here on it is as for UDP
  refine (shouldForward_meets _).bind fun forwards hgate => ?_
  split
  · trivial
  rename_i hforwards
  split
  · trivial
  refine (aclDenies_meets hR _).bind fun denied hacl => ?_
  split
  · trivial
  rename_i hdenied
  obtain ⟨subnets, hsubnets, hgate⟩ := hgate (by simpa using hforwards)
  obtain ⟨rules, hrules, hallow⟩ := hacl (by simpa using hdenied)
  refine slotICMP_meets (fun heq => ?_) _
  subst heq
  exact hbar subnets rules hsubnets hrules ⟨.inl hgate, hallow⟩

/-- No task dials the flow. -/
private theorem program_meets (lib : PacketLib) (hS : ∃ subnets, S subnets) (task : RouterTask) :
    (task.program lib localAddr).Meets (withholds f S R) fun _ => True := by
  cases task with
  | tcp req => exact handleTCP_meets hbar hR hS req
  | udp req => exact handleUDP_meets hbar hR req
  | icmp packet attempts => exact interceptICMPv4_meets hbar hR lib packet attempts
  | sync subnets rules => exact ⟨id, fun _ _ => ⟨id, fun _ _ => trivial⟩⟩

end Tasks

/-! ## Undisturbed

If no sync comes in between, a task dials the address that the handlers of `RoutingNet` give, and
no other. -/

section Undisturbed

variable {n : RoutingNet} {got : Bool} {target : Option Addr}

/-- The lists stay those of `n`, there is capacity as `got` says, and only `target` is dialled. -/
def undisturbed (n : RoutingNet) (got : Bool) (target : Option Addr) :
    Contract RouterOp.Res where
  rely
    | .subnets => fun subnets => subnets = n.subnets
    | .aclRules => fun rules => rules = n.aclRules
    | .acquire => fun r => r = got
    | _ => fun _ => True
  guar o := ∀ f addr, o = .dial f addr → target = some addr

/-- The proxy dials the address it was given. -/
private theorem proxy_dials {flow : ForwardFlow} {addr : Addr} (h : target = some addr)
    (dialled : Bool) :
    (ForwardTask.proxy flow addr dialled).Meets (undisturbed n got target) fun _ => True := by
  have hdial : ∀ f a, RouterOp.dial flow addr = .dial f a → target = some a := by
    intro f a heq
    rw [h, (RouterOp.dial.inj heq).2]
  cases dialled with
  | true => exact ⟨hdial, fun _ _ => ⟨nofun, fun _ _ => ⟨nofun, fun _ _ => trivial⟩⟩⟩
  | false => exact ⟨hdial, fun _ _ => ⟨nofun, fun _ _ => trivial⟩⟩

/-- Undisturbed, the gate is that of the router at rest. -/
private theorem shouldForward_as (dst : Addr) :
    (ForwardTask.shouldForward n.localAddr dst).Meets (undisturbed n got target) fun forwards =>
      forwards = n.shouldForward dst := by
  refine ⟨nofun, fun subnets hsubnets => ?_⟩
  obtain rfl : subnets = n.subnets := hsubnets
  rfl

/-- Undisturbed, the gate of TCP is that of the router at rest. -/
private theorem gateTCP_as (dst : Addr) :
    (ForwardTask.gateTCP n.localAddr dst).Meets (undisturbed n got target) fun forwards =>
      forwards = (dst == n.localAddr || n.shouldForward dst) := by
  unfold ForwardTask.gateTCP
  cases hlocal : dst == n.localAddr with
  | true => rfl
  | false => exact shouldForward_as dst

/-- Undisturbed, the rules are those of the router at rest. -/
private theorem aclDenies_as (flow : ForwardFlow) (remote : List UInt8)
    (hsrc : flow.src = addrFromSlice remote) :
    (ForwardTask.aclDenies flow).Meets (undisturbed n got target) fun denied =>
      denied = n.aclDenies remote flow.dst flow.proto flow.port := by
  unfold ForwardTask.aclDenies RoutingNet.aclDenies
  rw [← hsrc]
  cases flow.src with
  | none => rfl
  | some src =>
    refine ⟨nofun, fun rules hrules => ?_⟩
    obtain rfl : rules = n.aclRules := hrules
    rfl

/-- Undisturbed, a TCP request dials what the handler of the router at rest dials. -/
theorem handleTCP_dials_as (req : ForwarderRequest) :
    (ForwardTask.handleTCP n.localAddr req).Meets (undisturbed n got
      (n.handleTCP got req.endpoint req.remoteAddress req.localAddress req.localPort))
      fun _ => True := by
  -- a reset dials nothing, whatever the target
  have hreset {t : Option Addr} : ForwardTask.reset.Meets (undisturbed n got t) fun _ => True :=
    ⟨nofun, fun _ _ => trivial⟩
  generalize htarget :
    n.handleTCP got req.endpoint req.remoteAddress req.localAddress req.localPort = target
  unfold RoutingNet.handleTCP at htarget
  unfold ForwardTask.handleTCP
  cases hdst : addrFromSlice req.localAddress with
  | none => exact hreset
  | some dst =>
    refine (gateTCP_as dst).bind fun forwards hforwards => ?_
    split
    · exact hreset
    · rename_i hgate
      refine (aclDenies_as _ req.remoteAddress rfl).bind fun denied hdenied => ?_
      split
      · exact hreset
      · rename_i hallowed
        rw [hforwards] at hgate
        rw [hdenied] at hallowed
        -- both checks passed: the slot decides, then the endpoint
        refine ⟨nofun, fun r hr => ?_⟩
        obtain rfl : r = got := hr
        cases r with
        | false => exact hreset
        | true =>
          cases hendpoint : req.endpoint with
          | false => exact ⟨nofun, fun _ _ => hreset⟩
          | true =>
            have hdials : target =
                some (if dst == n.localAddr then addrFrom4 127 0 0 1 else dst) := by
              rw [← htarget, hdst, hendpoint]
              dsimp only
              rw [if_neg (by simpa using hgate), if_neg hallowed, if_neg (by decide)]
            exact ⟨nofun, fun _ _ => proxy_dials hdials req.dialled⟩

/-- Undisturbed, a UDP request dials what the handler of the router at rest dials. -/
theorem handleUDP_dials_as (req : ForwarderRequest) :
    (ForwardTask.handleUDP n.localAddr req).Meets (undisturbed n got
      (n.handleUDP got req.endpoint req.remoteAddress req.localAddress req.localPort))
      fun _ => True := by
  generalize htarget :
    n.handleUDP got req.endpoint req.remoteAddress req.localAddress req.localPort = target
  unfold RoutingNet.handleUDP at htarget
  unfold ForwardTask.handleUDP
  cases hdst : addrFromSlice req.localAddress with
  | none => trivial
  | some dst =>
    refine (shouldForward_as dst).bind fun forwards hforwards => ?_
    split
    · trivial
    · rename_i hgate
      refine (aclDenies_as _ req.remoteAddress rfl).bind fun denied hdenied => ?_
      split
      · trivial
      · rename_i hallowed
        rw [hforwards] at hgate
        rw [hdenied] at hallowed
        -- both checks passed: the slot decides, then the endpoint
        refine ⟨nofun, fun r hr => ?_⟩
        obtain rfl : r = got := hr
        cases r with
        | false => trivial
        | true =>
          cases hendpoint : req.endpoint with
          | false => exact ⟨nofun, fun _ _ => trivial⟩
          | true =>
            have hdials : target = some dst := by
              rw [← htarget, hdst, hendpoint]
              dsimp only
              rw [if_neg hgate, if_neg hallowed, if_neg (by decide)]
            exact proxy_dials hdials req.dialled

end Undisturbed

/-- **A refused connection stays inside.** Let a flow be refused by every combination of subnets
    and rules that are in force during a part of a run. Then no connection, packet or ping that
    comes in during this part lets the flow out of the host, whatever was in force before and
    whatever other tasks are still at work. -/
theorem refused_not_released (lib : PacketLib) (localAddr : Addr) (f : ForwardFlow)
    (S : List Prefix → Prop) (R : List Commonv1.Rule → Prop)
    (hbar : ∀ subnets rules, S subnets → R rules → ¬Permits localAddr f subnets rules)
    (p p' : Pool RouterOp.Res Unit Router) (evs : List (PoolEvent RouterTask)) (pid : Nat)
    (hfree : p.procs pid = none) (hrun : exec (routerStep lib localAddr) p evs = some p')
    (hforce : Throughout (routerStep lib localAddr)
      (fun p => S p.state.subnets ∧ R p.state.aclRules) p evs)
    (o : RouterOp) (ho : (pid, o) ∈ p'.log) (hnew : (pid, o) ∉ p.log) : ¬LetsOut f o := by
  have hnow := hforce.head
  -- what is read meets the conditions, since they hold throughout
  have hrely : ∀ o n, (S (Router.subnets n) ∧ R n.aclRules) →
      (withholds f S R).rely o (RouterOp.exec o n).1 := by
    intro o n hn
    cases o with
    | subnets => exact hn.1
    | aclRules => exact hn.2
    | _ => trivial
  have hlog := Pool.log_of_meets hrely
    (fun task _ => program_meets hbar ⟨_, hnow.2⟩ lib ⟨_, hnow.1⟩ task)
    (fun q hq => nomatch hfree.symm.trans hq) hrun hforce ho
  exact hlog.resolve_left hnew

/-- The flow of a connection to 10.0.0.5:22. -/
def deniedFlow : ForwardFlow :=
  ⟨some (addrFrom4 100 64 0 1), addrFrom4 10 0 0 5, "tcp", 22⟩

/-- The rules that a sync puts in the place of the one that lets everybody through. -/
def denyRules : List Commonv1.Rule := [{ action := "deny", enabled := true }]

/-- A first connection has read the subnets when the sync begins, and has not yet read the rules
    when it ends. -/
def revokedRun : List (PoolEvent RouterTask) :=
  [.start 1 (.tcp lanSSH), .act 1, .start 2 (.sync lanRouter.subnets denyRules), .act 2, .act 2]

/-- The router after the sync. -/
def revokedStart : Pool RouterOp.Res Unit Router :=
  (exec (routerStep rfcLib lanRouter.localAddr) lanStart revokedRun).getD lanStart

/-- A second connection comes in, and a sync that takes the rules away overtakes it. -/
def deniedRun : List (PoolEvent RouterTask) :=
  [.start 0 (.tcp lanSSH), .act 0, .start 3 (.sync lanRouter.subnets []), .act 3, .act 3, .act 0,
    .act 0]

/-- The second connection is reset: neither list of rules lets it through, and the list that did
    is no longer there. -/
theorem deniedRun_withheld :
    exec (routerStep rfcLib lanRouter.localAddr) lanStart revokedRun = some revokedStart ∧
    Permits lanRouter.localAddr deniedFlow lanStart.state.subnets lanStart.state.aclRules ∧
    revokedStart.state.aclRules = denyRules ∧
    ∃ p, exec (routerStep rfcLib lanRouter.localAddr) revokedStart deniedRun = some p ∧
      p.state.aclRules = [] ∧ (p.log.filter (·.1 = 0)).length = 3 ∧
      ∀ o, (0, o) ∈ p.log → ¬LetsOut deniedFlow o := by
  -- the rule that the sync replaced would have let the flow through
  have hpermits :
      Permits lanRouter.localAddr deniedFlow lanStart.state.subnets lanStart.state.aclRules := by
    refine ⟨.inl (by decide +kernel), fun src hsrc => ?_⟩
    obtain rfl := Option.some.inj hsrc
    decide +kernel
  refine ⟨rfl, hpermits, rfl, _, rfl, rfl, rfl, fun o ho => ?_⟩
  refine refused_not_released rfcLib lanRouter.localAddr deniedFlow (fun _ => True)
    (fun rules => rules = denyRules ∨ rules = []) ?_ revokedStart _ deniedRun 0 rfl rfl ?_ o ho
    ?_
  · -- neither of the rule sets that are in force allows it
    rintro subnets rules - (rfl | rfl) hpermits
    · exact absurd (hpermits.2 _ rfl) (by decide)
    · exact absurd (hpermits.2 _ rfl) (by decide)
  · decide +kernel
  · -- number 0 has not acted before
    intro hbefore
    have hids : revokedStart.log.map (·.1) = [2, 2, 1] := rfl
    have hzero : 0 ∈ revokedStart.log.map (·.1) := List.mem_map.mpr ⟨_, hbefore, rfl⟩
    rw [hids] at hzero
    exact absurd hzero (by decide)

end Blinex.Spec
