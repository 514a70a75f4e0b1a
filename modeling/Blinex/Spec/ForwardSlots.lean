import Blinex.Native.ForwardTasks
import Blinex.Spec.PingForwarding

/-!
# Forwards at work

However the goroutines of the router are scheduled, a forward holds a slot of its semaphore from
the moment it is let in to its end, and every way through a forwarder gives back what it took: so
there are never more than 1024 forwards and 64 pings, and no slot is lost. And a flow that no
policy ever in force allows never reaches a socket of the host, though the lists are read and
replaced one at a time.
-/

namespace Blinex.Spec

open Blinex.Go Blinex.Native Semaphore

/-! ## Slots -/

/-- The semaphore of TCP and UDP. -/
def forwardKind : (o : RouterOp) → Kind o.Res
  | .acquire => .acquire id
  | .release => .release
  | _ => .other

/-- The semaphore of the pings. -/
def pingKind : (o : RouterOp) → Kind o.Res
  | .acquireICMP => .acquire id
  | .releaseICMP => .release
  | _ => .other

/-- The operations count the forwards as a semaphore does. -/
private theorem forward_counts :
    Counts forwardKind RouterOp.exec Router.sem maxConcurrentForwards := by
  refine ⟨fun o got s hk => ?_, fun o s hk => ?_, fun o s hk => ?_⟩
  · cases o <;> cases hk
    by_cases h : s.sem < maxConcurrentForwards <;> simp [RouterOp.exec, h]
  · cases o <;> cases hk
    rfl
  · cases o with
    | acquireICMP => by_cases h : s.icmpSem < maxConcurrentICMP <;> simp [RouterOp.exec, h]
    | acquire => cases hk
    | release => cases hk
    | _ => rfl

/-- The operations count the pings as a semaphore does. -/
private theorem ping_counts : Counts pingKind RouterOp.exec Router.icmpSem maxConcurrentICMP := by
  refine ⟨fun o got s hk => ?_, fun o s hk => ?_, fun o s hk => ?_⟩
  · cases o <;> cases hk
    by_cases h : s.icmpSem < maxConcurrentICMP <;> simp [RouterOp.exec, h]
  · cases o <;> cases hk
    rfl
  · cases o with
    | acquire => by_cases h : s.sem < maxConcurrentForwards <;> simp [RouterOp.exec, h]
    | acquireICMP => cases hk
    | releaseICMP => cases hk
    | _ => rfl

/-! Every way through a forwarder gives back the slot that it took. -/

/-- The proxy gives its slot back, whether or not the dial succeeded. -/
private theorem proxy_owes (flow : ForwardFlow) (addr : Addr) (dialled : Bool) :
    Owes forwardKind (fun _ => false) true (ForwardTask.proxy flow addr dialled) := by
  cases dialled with
  | true => exact fun _ _ => ⟨rfl, fun _ => rfl⟩
  | false => exact fun _ => ⟨rfl, fun _ => rfl⟩

/-- A slot that a TCP request takes is given back on every path. -/
private theorem slotTCP_owes (flow : ForwardFlow) (addr : Addr) (req : ForwarderRequest) :
    Owes forwardKind (fun _ => false) false (ForwardTask.slotTCP flow addr req) := by
  refine ⟨rfl, fun got => ?_⟩
  cases got with
  | false => exact fun _ => rfl
  | true =>
    cases req.endpoint with
    | false => exact ⟨rfl, fun _ _ => rfl⟩
    | true => exact fun _ => proxy_owes flow addr req.dialled

/-- A slot that a UDP request takes is given back on every path. -/
private theorem slotUDP_owes (flow : ForwardFlow) (addr : Addr) (req : ForwarderRequest) :
    Owes forwardKind (fun _ => false) false (ForwardTask.slotUDP flow addr req) := by
  refine ⟨rfl, fun got => ?_⟩
  cases got with
  | false => rfl
  | true =>
    cases req.endpoint with
    | false => exact ⟨rfl, fun _ => rfl⟩
    | true => exact proxy_owes flow addr req.dialled

/-- A slot that a ping takes is given back on every path. -/
private theorem slotICMP_owes (flow : ForwardFlow) (out : List (List UInt8) × Option (List UInt8)) :
    Owes pingKind (fun _ => false) false (ForwardTask.slotICMP flow out) := by
  refine ⟨rfl, fun got => ?_⟩
  cases got with
  | false => rfl
  | true =>
    intro _
    obtain ⟨sent, reply⟩ := out
    cases reply with
    | none => exact ⟨rfl, fun _ => rfl⟩
    | some pkt => exact fun _ => ⟨rfl, fun _ => rfl⟩

/-- A forward holds no slot for pings, and a ping none for forwards. -/
private theorem slot_other_owes (flow : ForwardFlow) (addr : Addr) (req : ForwarderRequest)
    (out : List (List UInt8) × Option (List UInt8)) :
    Owes pingKind (fun _ => false) false (ForwardTask.slotTCP flow addr req) ∧
    Owes pingKind (fun _ => false) false (ForwardTask.slotUDP flow addr req) ∧
    Owes forwardKind (fun _ => false) false (ForwardTask.slotICMP flow out) := by
  -- forwards take no slot of the pings, and pings none of the forwards
  have hproxy : Owes pingKind (fun _ => false) false
      (ForwardTask.proxy flow addr req.dialled) := by
    unfold ForwardTask.proxy
    cases req.dialled with
    | true => exact fun _ _ _ => rfl
    | false => exact fun _ _ => rfl
  refine ⟨fun got => ?_, fun got => ?_, fun got => ?_⟩
  · cases got with
    | false => exact fun _ => rfl
    | true =>
      cases req.endpoint with
      | false => exact fun _ _ => rfl
      | true => exact fun _ => hproxy
  · cases got with
    | false => rfl
    | true =>
      cases req.endpoint with
      | false => exact fun _ => rfl
      | true => exact hproxy
  · cases got with
    | false => rfl
    | true =>
      intro _
      obtain ⟨sent, reply⟩ := out
      cases reply with
      | none => exact fun _ => rfl
      | some pkt => exact fun _ _ => rfl

/-! The checks before it touch no semaphore. -/

section Checks

variable {kind : (o : RouterOp) → Kind o.Res}

private theorem shouldForward_owes (h : kind .subnets = .other) (localAddr dst : Addr) :
    Owes kind (fun _ => false) false (ForwardTask.shouldForward localAddr dst) :=
  (owes_other h).mpr fun _ => rfl

/-- The gate of TCP takes no slot. -/
private theorem gateTCP_owes (h : kind .subnets = .other) (localAddr dst : Addr) :
    Owes kind (fun _ => false) false (ForwardTask.gateTCP localAddr dst) := by
  unfold ForwardTask.gateTCP
  split
  · rfl
  · exact shouldForward_owes h localAddr dst

/-- The rules take no slot. -/
private theorem aclDenies_owes (h : kind .aclRules = .other) (flow : ForwardFlow) :
    Owes kind (fun _ => false) false (ForwardTask.aclDenies flow) := by
  unfold ForwardTask.aclDenies
  split
  · rfl
  · exact (owes_other h).mpr fun _ => rfl

variable (hsubnets : kind .subnets = .other) (hrules : kind .aclRules = .other)
include hsubnets hrules

/-- A TCP request owes nothing in the end, if its slot is given back. -/
private theorem handleTCP_owes (hcomplete : kind (.complete true) = .other) (localAddr : Addr)
    (req : ForwarderRequest)
    (hslot : ∀ flow addr, Owes kind (fun _ => false) false (ForwardTask.slotTCP flow addr req)) :
    Owes kind (fun _ => false) false (ForwardTask.handleTCP localAddr req) := by
  -- a request that is refused takes no slot
  have hreset : Owes kind (fun _ => false) false ForwardTask.reset :=
    (owes_other hcomplete).mpr fun _ => rfl
  unfold ForwardTask.handleTCP
  split
  · exact hreset
  · refine Owes.bind (gateTCP_owes hsubnets _ _) fun forwards => ?_
    split
    · exact hreset
    · refine Owes.bind (aclDenies_owes hrules _) fun denied => ?_
      split
      · exact hreset
      · exact hslot _ _

/-- A UDP request owes nothing in the end, if its slot is given back. -/
private theorem handleUDP_owes (localAddr : Addr) (req : ForwarderRequest)
    (hslot : ∀ flow addr, Owes kind (fun _ => false) false (ForwardTask.slotUDP flow addr req)) :
    Owes kind (fun _ => false) false (ForwardTask.handleUDP localAddr req) := by
  unfold ForwardTask.handleUDP
  split
  · rfl
  · refine Owes.bind (shouldForward_owes hsubnets _ _) fun forwards => ?_
    split
    · rfl
    · refine Owes.bind (aclDenies_owes hrules _) fun denied => ?_
      split
      · rfl
      · exact hslot _ _

/-- An echo request owes nothing in the end, if its slot is given back. -/
private theorem interceptICMPv4_owes (lib : PacketLib) (localAddr : Addr) (packet : List UInt8)
    (attempts : List PingAttempt)
    (hslot : ∀ flow out, Owes kind (fun _ => false) false (ForwardTask.slotICMP flow out)) :
    Owes kind (fun _ => false) false
      (ForwardTask.interceptICMPv4 lib localAddr packet attempts) := by
  unfold ForwardTask.interceptICMPv4
  split
  · rfl
  split
  · rfl
  dsimp only
  split
  · rfl
  split
  · rfl
  split
  · rfl
  -- neither the checks of the packet nor those of the router take a slot
  refine Owes.bind (shouldForward_owes hsubnets _ _) fun forwards => ?_
  split
  · rfl
  split
  · rfl
  refine Owes.bind (aclDenies_owes hrules _) fun denied => ?_
  split
  · rfl
  · exact hslot _ _

end Checks

/-- No task owes a slot of either kind in the end. -/
private theorem program_owes (lib : PacketLib) (localAddr : Addr) (task : RouterTask) :
    Owes forwardKind (fun _ => false) false (task.program lib localAddr) ∧
      Owes pingKind (fun _ => false) false (task.program lib localAddr) := by
  cases task with
  | tcp req =>
    exact ⟨handleTCP_owes rfl rfl rfl localAddr req fun flow addr => slotTCP_owes flow addr req,
      handleTCP_owes rfl rfl rfl localAddr req fun flow addr =>
        (slot_other_owes flow addr req ([], none)).1⟩
  | udp req =>
    exact ⟨handleUDP_owes rfl rfl localAddr req fun flow addr => slotUDP_owes flow addr req,
      handleUDP_owes rfl rfl localAddr req fun flow addr =>
        (slot_other_owes flow addr req ([], none)).2.1⟩
  | icmp packet attempts =>
    refine ⟨interceptICMPv4_owes rfl rfl lib localAddr packet attempts fun flow out => ?_,
      interceptICMPv4_owes rfl rfl lib localAddr packet attempts fun flow out =>
        slotICMP_owes flow out⟩
    -- the slot of a ping is not one of the forwarder
    exact (slot_other_owes flow flow.dst ⟨[], [], 0, true, true⟩ out).2.2
  | sync subnets rules => exact ⟨fun _ _ => rfl, fun _ _ => rfl⟩

/-- The router at work: tasks start and perform their operations in any order. -/
def routerStep (lib : PacketLib) (localAddr : Addr) :
    Pool RouterOp.Res Unit Router → PoolEvent RouterTask → Option (Pool RouterOp.Res Unit Router) :=
  Pool.step RouterOp.exec (RouterTask.program lib localAddr)

/-- Nothing has started yet. -/
def Router.start (n : Router) : Pool RouterOp.Res Unit Router := { state := n }

/-- A router starts balanced. -/
private theorem start_balanced {kind : (o : RouterOp) → Kind o.Res} {count : Router → Nat}
    {cap : Nat}
    {n : Router} (h : count n = 0) : Balanced kind count cap (Router.start n) := by
  refine ⟨fun pid q hq => ?_, ⟨∅, fun pid => ?_, h.symm⟩, ?_⟩
  · cases hq
  · simp [Owing, Router.start]
  · exact le_of_eq_of_le h (Nat.zero_le cap)

/-- The slots of a semaphore are held by tasks that are on their way. -/
structure SlotsHeld (kind : (o : RouterOp) → Kind o.Res) (count : Router → Nat) (cap : Nat)
    (p : Pool RouterOp.Res Unit Router) : Prop where
  within : count p.state ≤ cap
  counted : ∃ owing : Finset Nat, (∀ pid, pid ∈ owing ↔ Owing kind p pid) ∧
    owing.card = count p.state
  available : ∀ pid o, p.nextOp pid = some o → kind o = .release → 0 < count p.state
  returned : (∀ pid q, p.procs pid = some q → ∃ a, q = .ret a) → count p.state = 0

/-- The balance, in terms of the router. -/
private theorem slotsHeld_of_balanced {kind : (o : RouterOp) → Kind o.Res} {count : Router → Nat}
    {cap : Nat} {p : Pool RouterOp.Res Unit Router} (h : Balanced kind count cap p) :
    SlotsHeld kind count cap p := by
  refine ⟨h.within, h.counted, fun pid o hnext hk => ?_, fun hdone => ?_⟩
  · unfold Pool.nextOp at hnext
    split at hnext
    · rename_i o' next hpid
      obtain rfl := Option.some.inj hnext
      obtain ⟨held, hheld⟩ := h.obeys pid _ hpid
      -- a program about to release owes a slot, so the count is positive
      obtain ⟨rfl, -⟩ := (owes_release hk).mp hheld
      exact h.pos ⟨_, hpid, hheld⟩
    · cases hnext
  · obtain ⟨owing, hmem, hcard⟩ := h.counted
    rw [← hcard, Finset.card_eq_zero]
    refine Finset.eq_empty_of_forall_notMem fun pid hpid => ?_
    obtain ⟨q, hq, howes⟩ := (hmem pid).mp hpid
    -- a program that has returned owes nothing
    obtain ⟨a, rfl⟩ := hdone pid q hq
    cases howes

/-- **Forwards are bounded and no slot is lost.** In every interleaving of any number of
    connections, pings and syncs, at most 1024 forwards and 64 pings are on their way, each slot
    taken is owed by exactly one of them, giving one back never blocks, and when all have ended
    every slot is free again. -/
theorem forward_slots_held (lib : PacketLib) (localAddr : Addr) (subnets : List Prefix)
    (rules : List Commonv1.Rule) (evs : List (PoolEvent RouterTask))
    (p : Pool RouterOp.Res Unit Router)
    (h : exec (routerStep lib localAddr) (Router.start { subnets, aclRules := rules }) evs =
      some p) :
    SlotsHeld forwardKind Router.sem 1024 p ∧ SlotsHeld pingKind Router.icmpSem 64 p := by
  -- both balances are kept by every event
  have hstep (p : Pool RouterOp.Res Unit Router) (ev : PoolEvent RouterTask)
      (p' : Pool RouterOp.Res Unit Router) (_ : True)
      (hp : Balanced forwardKind Router.sem 1024 p ∧ Balanced pingKind Router.icmpSem 64 p)
      (hstep : routerStep lib localAddr p ev = some p') :
      Balanced forwardKind Router.sem 1024 p' ∧ Balanced pingKind Router.icmpSem 64 p' :=
    ⟨hp.1.step forward_counts (fun task => (program_owes lib localAddr task).1) hstep,
      hp.2.step ping_counts (fun task => (program_owes lib localAddr task).2) hstep⟩
  have hend := exec_invariant hstep (fun _ _ => trivial)
    ⟨start_balanced rfl, start_balanced rfl⟩ h
  exact ⟨slotsHeld_of_balanced hend.1, slotsHeld_of_balanced hend.2⟩

/-- A connection from 100.64.0.1 to 10.0.0.5:22. -/
def lanSSH : ForwarderRequest where
  localAddress := [10, 0, 0, 5]
  remoteAddress := [100, 64, 0, 1]
  localPort := 22

/-- It is checked, let in and accepted. -/
def acceptedRun : List (PoolEvent RouterTask) :=
  [.start 0 (.tcp lanSSH), .act 0, .act 0, .act 0, .act 0]

/-- The router before anything comes in. -/
def lanStart : Pool RouterOp.Res Unit Router :=
  Router.start { subnets := lanRouter.subnets, aclRules := lanRouter.aclRules }

/-- Its slot is taken until the connection ends. -/
theorem acceptedRun_slot : ∃ p,
    exec (routerStep rfcLib lanRouter.localAddr) lanStart acceptedRun = some p ∧ p.state.sem = 1 ∧
    SlotsHeld forwardKind Router.sem 1024 p := by
  have hsem : (exec (routerStep rfcLib lanRouter.localAddr) lanStart acceptedRun).map
      (·.state.sem) = some 1 := by
    decide +kernel
  obtain ⟨p, hp, hone⟩ := Option.map_eq_some_iff.mp hsem
  exact ⟨p, hp, hone, (forward_slots_held _ _ _ _ acceptedRun p hp).1⟩

end Blinex.Spec
