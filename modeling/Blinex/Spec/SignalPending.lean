import Blinex.Spec.SignalRouting

/-!
# What the signal server holds

A lookup that misses and the call to `handleAbsentTarget` are two critical
sections, and the target may register between them.

## Key results

- `held_for_absent_only`: nothing waits for a registered peer exactly in the runs
  in which no message is queued after its target has come back; and a queued
  message is handed over at the next registration.
-/

namespace Blinex.Native.Signal

open Signalv1 (Message)

/-! ## Held messages -/

namespace Server

variable {s : Server} {now : Nat}

/-- The messages waiting for a key. -/
def waiting (s : Server) (k : String) : List Held := ((s.pending k).getD {}).msgs

private theorem waiting_of_none {k : String} (h : s.pending k = none) : s.waiting k = [] := by
  simp only [waiting, h, Option.getD_none]

private theorem waiting_of_some {k : String} {q : PendingQueue} (h : s.pending k = some q) :
    s.waiting k = q.msgs := by
  simp only [waiting, h, Option.getD_some]

/-- Registration takes what waits for the key, or drops it if it is too old. -/
theorem register_taken (k : String) (self : StreamId) :
    (s.register now k self).1 = s.waiting k ∨ (s.register now k self).1 = [] := by
  unfold register takePendingLocked
  cases hq : s.pending k with
  | none => exact .inr rfl
  | some q =>
    dsimp only
    split
    · exact .inr rfl
    · exact .inl (waiting_of_some hq).symm

/-- A queue that is not too old is handed over whole. -/
private theorem register_fresh {k : String} {q : PendingQueue} (self : StreamId)
    (hq : s.pending k = some q) (hfresh : now - q.queuedAt ≤ pendingTTL) :
    (s.register now k self).1 = q.msgs := by
  unfold register takePendingLocked
  simp only [hq, Nat.not_lt.mpr hfresh, ↓reduceIte]

/-- Nothing waits for a key that has just registered. -/
theorem waiting_register_self (k : String) (self : StreamId) :
    (s.register now k self).2.waiting k = [] := by
  unfold register takePendingLocked
  cases hq : s.pending k with
  | none => exact waiting_of_none hq
  | some q =>
    dsimp only
    split <;> exact waiting_of_none (PMap.delete_self _ _)

/-- Registering one key keeps the queues of the others. -/
theorem waiting_register_ne {k k' : String} (self : StreamId) (h : k' ≠ k) :
    (s.register now k self).2.waiting k' = s.waiting k' := by
  unfold register takePendingLocked
  cases hq : s.pending k with
  | none => rfl
  | some q =>
    dsimp only
    split <;> simp only [waiting, PMap.delete_ne _ h]

theorem waiting_unregister (k k' : String) (self : StreamId) :
    (s.unregister k self).waiting k' = s.waiting k' := by
  simp only [waiting, unregister_pending]

/-- A queue expires as a whole. -/
private theorem waiting_expirePendingLocked (k : String) :
    (s.expirePendingLocked now).waiting k = s.waiting k ∨
      (s.expirePendingLocked now).waiting k = [] := by
  unfold waiting expirePendingLocked
  dsimp only
  cases s.pending k with
  | none => exact .inr rfl
  | some q =>
    simp only [Option.filter_some]
    split
    · exact .inl rfl
    · exact .inr rfl

/-- Relay data is never queued. -/
theorem waiting_handleAbsentTarget_relay {x : Held} (hx : x.msg.bodyType = .relay) (k : String) :
    (s.handleAbsentTarget now x).waiting k = s.waiting k := by
  unfold handleAbsentTarget
  rw [if_pos hx]
  dsimp only
  split <;> split <;> rfl

/-- A signaling message goes to the end of its target's queue, which may have
    expired or lost its oldest message. -/
theorem waiting_handleAbsentTarget_self (x : Held) (hx : x.msg.bodyType ≠ .relay) :
    ∃ kept, kept.Sublist (s.waiting x.msg.remoteKey) ∧
      (s.handleAbsentTarget now x).waiting x.msg.remoteKey = kept ++ [x] := by
  -- what has expired is removed first
  have hsub : ((s.expirePendingLocked now).waiting x.msg.remoteKey).Sublist
      (s.waiting x.msg.remoteKey) := by
    have hexp : (s.expirePendingLocked now).waiting x.msg.remoteKey = _ ∨ _ :=
      waiting_expirePendingLocked x.msg.remoteKey
    rcases hexp with h | h
    · rw [h]
    · rw [h]
      exact List.nil_sublist _
  unfold handleAbsentTarget
  rw [if_neg hx]
  simp only [waiting, PMap.set_self, Option.getD_some] at hsub ⊢
  refine ⟨_, ?_, rfl⟩
  -- a full queue drops its oldest message
  split
  · exact (List.drop_sublist 1 _).trans hsub
  · exact hsub

/-- The queue of another key stays, or expires. -/
theorem waiting_handleAbsentTarget_ne {x : Held} {k : String} (hk : k ≠ x.msg.remoteKey) :
    (s.handleAbsentTarget now x).waiting k = s.waiting k ∨
      (s.handleAbsentTarget now x).waiting k = [] := by
  by_cases hx : x.msg.bodyType = .relay
  · exact .inl (waiting_handleAbsentTarget_relay hx k)
  · unfold handleAbsentTarget
    rw [if_neg hx]
    have hexp : (s.expirePendingLocked now).waiting k = s.waiting k ∨ _ :=
      waiting_expirePendingLocked k
    simpa only [waiting, PMap.set_ne _ _ hk] using hexp

end Server

/-- Nothing waits for a registered key. -/
def NoneHeld (s : State) : Prop :=
  ∀ k id, s.server.streams k = some id → s.server.waiting k = []

/-- The event does not queue a message for a registered key: when a handler whose
    lookup missed takes the lock again, the target is still away. -/
def TargetAway (s : State) : Event → Prop
  | .act id .absent => ∀ hd m, s.handlers id = some hd → hd.phase = .absent m →
      m.bodyType ≠ .relay → s.server.streams m.remoteKey = none
  | _ => True

/-- Only `handleAbsentTarget` can leave a message waiting for a registered key. -/
private theorem HandlerStep.noneHeld_iff {s : State} {id : StreamId} {hd : Handler} {a : Action}
    {e : Effect} (hs : NoneHeld s) (hh : s.handlers id = some hd)
    (h : HandlerStep s.server s.now id hd a e) :
    NoneHeld (s.after id e) ↔ TargetAway s (.act id a) := by
  cases h with
  | register m hp =>
    refine iff_of_true (fun k i hi => ?_) trivial
    simp only [State.after, Server.register_streams] at hi ⊢
    by_cases hk : k = hd.peerKey
    · rw [hk]
      exact Server.waiting_register_self _ _
    · rw [PMap.set_ne _ _ hk] at hi
      rw [Server.waiting_register_ne _ hk]
      exact hs k i hi
  | close res hp =>
    refine iff_of_true (fun k i hi => ?_) trivial
    have hi' := (Server.unregister_eq_some.mp hi).1
    exact (Server.waiting_unregister _ _ _).trans (hs k i hi')
  | absent m hp =>
    constructor
    · -- the target's queue is not empty, so the target is not registered
      intro hnone hd' m' hh' hp' hsig
      obtain rfl := Option.some.inj (hh.symm.trans hh')
      obtain rfl := Phase.absent.inj (hp.symm.trans hp')
      have hqueued : ∃ kept, _ ∧
          (s.server.handleAbsentTarget s.now ⟨id, m⟩).waiting m.remoteKey = kept ++ [⟨id, m⟩] :=
        Server.waiting_handleAbsentTarget_self ⟨id, m⟩ hsig
      obtain ⟨kept, _, hw⟩ := hqueued
      cases hstr : s.server.streams m.remoteKey with
      | none => rfl
      | some i =>
        have hi : (s.server.handleAbsentTarget s.now ⟨id, m⟩).streams m.remoteKey = some i := by
          rw [Server.handleAbsentTarget_streams]
          exact hstr
        have hempty := hw.symm.trans (hnone m.remoteKey i hi)
        exact absurd hempty (List.concat_ne_nil _ _)
    · intro haway k i hi
      simp only [State.after, Server.handleAbsentTarget_streams] at hi ⊢
      have hwas := hs k i hi
      by_cases hsig : m.bodyType = .relay
      · exact (Server.waiting_handleAbsentTarget_relay hsig k).trans hwas
      · have hk : k ≠ m.remoteKey := by
          intro hk
          have hnone := haway hd m hh hp hsig
          cases (hk ▸ hnone).symm.trans hi
        have hkept : (s.server.handleAbsentTarget s.now ⟨id, m⟩).waiting k = _ ∨ _ :=
          Server.waiting_handleAbsentTarget_ne hk
        rcases hkept with hw | hw
        · exact hw.trans hwas
        · exact hw
  | _ => exact iff_of_true hs trivial

/-- An event keeps nothing waiting for registered keys if its target is away. -/
private theorem noneHeld_step_iff {s s' : State} {ev : Event} (hs : NoneHeld s)
    (h : step s ev = some s') : NoneHeld s' ↔ TargetAway s ev := by
  rcases step_cases h with ⟨id, authKey, rfl, _, rfl⟩ | ⟨id, a, hd, e, rfl, hh, he, rfl⟩ |
    ⟨d, rfl, rfl⟩
  · exact iff_of_true hs trivial
  · exact he.noneHeld_iff hs hh
  · exact iff_of_true hs trivial

/-! ## The hand-over -/

/-- The message that `handleAbsentTarget` is about to queue for `k`. -/
def Phase.queues (self : StreamId) (k : String) : Phase → List Held
  | .absent m => if m.bodyType ≠ .relay ∧ m.remoteKey = k then [⟨self, m⟩] else []
  | _ => []

/-- The message the event queues for `k`, if it queues one. -/
def State.accepted (s : State) (k : String) : Event → List Held
  | .act id .absent =>
    match s.handlers id with
    | some hd => hd.phase.queues id k
    | none => []
  | _ => []

/-- The messages a run queues for `k`, oldest first. -/
def acceptedAlong (k : String) : State → List Event → List Held
  | _, [] => []
  | s, ev :: es =>
    match step s ev with
    | none => []
    | some s' => s.accepted k ev ++ acceptedAlong k s' es

/-- The event registers a stream under `k`. -/
def Registers (k : String) (s : State) (ev : Event) : Prop :=
  ∃ id hd, ev = .act id .register ∧ s.handlers id = some hd ∧ hd.peerKey = k

/-- `x` waits for `k` behind any number of messages and before at most `n`, in a
    queue last added to at `since` or later. -/
def Server.Waits (s : Server) (k : String) (x : Held) (n since : Nat) : Prop :=
  ∃ q older newer, s.pending k = some q ∧ q.msgs = older ++ x :: newer ∧
    newer.length ≤ n ∧ since ≤ q.queuedAt

namespace Server

variable {s : Server} {k : String} {x : Held} {n since now : Nat}

/-- Waiting depends on the queue of the key only. -/
private theorem Waits.of_pending_eq {s' : Server} (hw : s.Waits k x n since)
    (h : s'.pending k = s.pending k) : s'.Waits k x n since := by
  obtain ⟨q, older, newer, hq, hrest⟩ := hw
  exact ⟨q, older, newer, h.trans hq, hrest⟩

/-- Registering one key keeps the queues of the others, ages included. -/
private theorem pending_register_ne {k' : String} (self : StreamId) (h : k' ≠ k) :
    (s.register now k self).2.pending k' = s.pending k' := by
  unfold register takePendingLocked
  cases hq : s.pending k with
  | none => rfl
  | some q =>
    dsimp only
    split <;> exact PMap.delete_ne _ h

/-- Relay data is not kept, and nothing expires for it. -/
theorem pending_handleAbsentTarget_relay {y : Held} (hy : y.msg.bodyType = .relay) :
    (s.handleAbsentTarget now y).pending = s.pending := by
  unfold handleAbsentTarget
  rw [if_pos hy]
  dsimp only
  split <;> split <;> rfl

/-- Expiry spares a queue that is not too old. -/
private theorem pending_expirePendingLocked {q : PendingQueue} (hq : s.pending k = some q)
    (hfresh : now ≤ q.queuedAt + pendingTTL) :
    (s.expirePendingLocked now).pending k = some q := by
  have hage : ¬ pendingTTL < now - q.queuedAt := by omega
  simp only [expirePendingLocked, hq, Option.filter_some, hage, decide_false, Bool.not_false,
    ↓reduceIte]

/-- A message queued later leaves `x` in place as long as the queue has not grown
    full behind it. -/
theorem Waits.handleAbsentTarget (hw : s.Waits k x n since) (hsince : since ≤ now)
    (hnow : now ≤ since + pendingTTL) {self : StreamId} {m : Message}
    (hcap : n + ((Phase.absent m).queues self k).length < pendingPerPeer) :
    (s.handleAbsentTarget now ⟨self, m⟩).Waits k x
      (n + ((Phase.absent m).queues self k).length) since := by
  by_cases hsig : m.bodyType = .relay
  · have hnone : (Phase.absent m).queues self k = [] := if_neg fun h => h.1 hsig
    rw [hnone]
    exact hw.of_pending_eq (congrFun (pending_handleAbsentTarget_relay hsig) k)
  · obtain ⟨q, older, newer, hq, hmsgs, hlen, hat⟩ := hw
    have hfresh : (s.expirePendingLocked now).pending k = some q :=
      pending_expirePendingLocked hq (by omega)
    unfold Server.handleAbsentTarget
    rw [if_neg hsig]
    by_cases hk : m.remoteKey = k
    · subst hk
      have hone : (Phase.absent m).queues self m.remoteKey = [⟨self, m⟩] := if_pos ⟨hsig, rfl⟩
      simp only [hone, List.length_singleton] at hcap ⊢
      simp only [hfresh, Option.getD_some]
      -- a queue that drops its oldest message has 32, so `x` is not the oldest
      have hkept : ∃ older', (if pendingPerPeer ≤ q.msgs.length then q.msgs.drop 1 else q.msgs)
          = older' ++ x :: newer := by
        split
        · rename_i hfull
          cases older with
          | nil =>
            rw [hmsgs] at hfull
            simp only [List.nil_append, List.length_cons] at hfull
            omega
          | cons o older => exact ⟨older, by rw [hmsgs]; rfl⟩
        · exact ⟨older, hmsgs⟩
      obtain ⟨older', hkept⟩ := hkept
      refine ⟨_, older', newer ++ [⟨self, m⟩], PMap.set_self _ _ _, ?_, ?_, hsince⟩
      · simp only [hkept, List.append_assoc, List.cons_append]
      · rw [List.length_append, List.length_singleton]
        omega
    · have hnone : (Phase.absent m).queues self k = [] := if_neg fun h => hk h.2
      rw [hnone]
      exact ⟨q, older, newer, (PMap.set_ne _ _ (Ne.symm hk)).trans hfresh, hmsgs, hlen, hat⟩

end Server

/-- One event of a run leaves a waiting message in its queue, unless it registers the
    target, the queue ages past the limit, or 32 newer messages have come. -/
private theorem waits_step {s s' : State} {ev : Event} {k : String} {x : Held} {n since : Nat}
    (h : step s ev = some s') (hw : s.server.Waits k x n since) (hreg : ¬ Registers k s ev)
    (hsince : since ≤ s.now) (hnow : s.now ≤ since + pendingTTL)
    (hcap : n + (s.accepted k ev).length < pendingPerPeer) :
    s'.server.Waits k x (n + (s.accepted k ev).length) since ∧ since ≤ s'.now := by
  rcases step_cases h with ⟨id, authKey, rfl, _, rfl⟩ | ⟨id, a, hd, e, rfl, hh, he, rfl⟩ |
    ⟨d, rfl, rfl⟩
  · exact ⟨hw, hsince⟩
  · refine ⟨?_, hsince⟩
    cases he with
    -- another key registers
    | register m hp =>
      have hne : k ≠ hd.peerKey := fun hk => hreg ⟨id, hd, rfl, hh, hk.symm⟩
      exact hw.of_pending_eq (Server.pending_register_ne _ hne)
    | absent m hp =>
      have hacc : s.accepted k (.act id .absent) = (Phase.absent m).queues id k := by
        simp only [State.accepted, hh, hp]
      rw [hacc] at hcap ⊢
      exact hw.handleAbsentTarget hsince hnow hcap
    | close res hp => exact hw.of_pending_eq (congrFun (Server.unregister_pending _ _) k)
    | _ => exact hw
  · exact ⟨hw, Nat.le_trans hsince (Nat.le_add_right _ _)⟩

/-- The clock does not go back in a step. -/
private theorem step_now_le {s s' : State} {ev : Event} (h : step s ev = some s') :
    s.now ≤ s'.now := by
  rcases step_cases h with ⟨id, authKey, rfl, _, rfl⟩ | ⟨id, a, hd, e, rfl, _, _, rfl⟩ |
    ⟨d, rfl, rfl⟩
  · exact Nat.le_refl _
  · exact Nat.le_refl _
  · exact Nat.le_add_right _ _

/-- It does not go back in a run. -/
private theorem exec_now_le {s t : State} {es : List Event} (h : exec step s es = some t) :
    s.now ≤ t.now := by
  have hstep : ∀ u ev u', True → s.now ≤ u.now → step u ev = some u' → s.now ≤ u'.now :=
    fun _ _ _ _ hu h => Nat.le_trans hu (step_now_le h)
  exact exec_invariant hstep (fun _ _ => trivial) (Nat.le_refl _) h

/-- A waiting message is still waiting at the end of a run that does not register its
    target, within the time limit and the cap. -/
private theorem waits_run {s t : State} {es : List Event} {k : String} {x : Held} {n since : Nat}
    (h : exec step s es = some t) (hw : s.server.Waits k x n since)
    (hreg : ExecAlong step (fun s ev => ¬ Registers k s ev) s es) (hsince : since ≤ s.now)
    (hnow : t.now ≤ since + pendingTTL)
    (hcap : n + (acceptedAlong k s es).length < pendingPerPeer) :
    ∃ n, t.server.Waits k x n since := by
  -- each step counts the messages that are queued behind `x`
  induction es generalizing s n with
  | nil =>
    obtain rfl := Option.some.inj h
    exact ⟨n, hw⟩
  | cons ev es ih =>
    obtain ⟨s', hse, hrest⟩ := exec_cons_eq_some h
    obtain ⟨hev, hes⟩ := hreg s' hse
    simp only [acceptedAlong, hse, List.length_append] at hcap
    have hle : s.now ≤ t.now := Nat.le_trans (step_now_le hse) (exec_now_le hrest)
    obtain ⟨hw', hsince'⟩ := waits_step hse hw hev hsince (Nat.le_trans hle hnow) (by omega)
    exact ih hrest hw' hes hsince' (by omega)

/-- What is queued is the message in hand, if it is no relay data. -/
private theorem mem_queues {p : Phase} {self : StreamId} {k : String} {x : Held}
    (h : x ∈ p.queues self k) :
    ∃ m, p = .absent m ∧ x = ⟨self, m⟩ ∧ m.bodyType ≠ .relay ∧ m.remoteKey = k := by
  cases p with
  | absent m =>
    simp only [Phase.queues] at h
    split at h
    · rename_i hm
      exact ⟨m, rfl, List.mem_singleton.mp h, hm⟩
    · exact absurd h List.not_mem_nil
  | _ => exact absurd h List.not_mem_nil

/-- A message that has just been queued is the newest. -/
private theorem waits_of_accepted {s s' : State} {ev : Event} {k : String} {x : Held}
    (hx : x ∈ s.accepted k ev) (h : step s ev = some s') :
    s'.server.Waits k x 0 s'.now := by
  rcases step_cases h with ⟨id, authKey, rfl, _, rfl⟩ | ⟨id, a, hd, e, rfl, hh, he, rfl⟩ |
    ⟨d, rfl, rfl⟩
  · exact absurd hx List.not_mem_nil
  · cases he with
    -- only a message for an absent target is queued
    | absent m hp =>
      simp only [State.accepted, hh] at hx
      obtain ⟨m', hp', rfl, hsig, rfl⟩ := mem_queues hx
      obtain rfl := Phase.absent.inj (hp.symm.trans hp')
      simp only [State.after, Server.handleAbsentTarget, if_neg hsig]
      exact ⟨_, _, [], PMap.set_self _ _ _, rfl, Nat.le_refl _, Nat.le_refl _⟩
    | _ => exact absurd hx List.not_mem_nil
  · exact absurd hx List.not_mem_nil

/-- A handler that registers has the waiting messages in hand. -/
private theorem inHand_of_register {s s' : State} {id : StreamId} {hd : Handler} {x : Held}
    {n since : Nat}
    (h : step s (.act id .register) = some s') (hh : s.handlers id = some hd)
    (hw : s.server.Waits hd.peerKey x n since) (hnow : s.now ≤ since + pendingTTL) :
    ∃ hd', s'.handlers id = some hd' ∧ x ∈ hd'.phase.inHand id := by
  rcases step_cases h with ⟨_, _, hev, _⟩ | ⟨i, a, hd', e, hev, hh', he, rfl⟩ | ⟨_, hev, _⟩
  · exact nomatch hev
  · obtain ⟨rfl, rfl⟩ := Event.act.inj hev
    obtain rfl := Option.some.inj (hh.symm.trans hh')
    cases he with
    | register m hp =>
      -- the queue is within its time, so it is taken whole
      obtain ⟨q, older, newer, hq, hmsgs, _, hat⟩ := hw
      have htaken : (s.server.register s.now hd.peerKey id).1 = q.msgs :=
        Server.register_fresh id hq (by omega)
      have hx : x ∈ q.msgs := by
        rw [hmsgs]
        exact List.mem_append_cons_self
      refine ⟨_, s.after_handlers_self id _, ?_⟩
      simp only [htaken, delivering, List.ne_nil_of_mem hx, ↓reduceIte]
      exact List.mem_cons_of_mem _ hx
  · exact nomatch hev

/-- **Held signaling.** In every interleaving, nothing waits for a registered key in
    any state reached exactly if every message that is queued finds its target still
    away. A queued message is in the hands of the next stream to register under its
    target's key, if that is within the time limit and fewer than 32 messages for the
    same key have followed. -/
theorem held_for_absent_only (es : List Event) :
    (Throughout step NoneHeld {} es ↔ ExecAlong step TargetAway {} es) ∧
    ∀ (s s₁ s₂ s₃ : State) (ev : Event) (es' : List Event) (k : String) (x : Held)
      (id : StreamId) (hd : Handler),
      exec step {} es = some s → x ∈ s.accepted k ev → step s ev = some s₁ →
      exec step s₁ es' = some s₂ → ExecAlong step (fun s ev => ¬ Registers k s ev) s₁ es' →
      s₂.now ≤ s₁.now + pendingTTL → (acceptedAlong k s₁ es').length < pendingPerPeer →
      s₂.handlers id = some hd → hd.peerKey = k → step s₂ (.act id .register) = some s₃ →
      ∃ hd', s₃.handlers id = some hd' ∧ x ∈ hd'.phase.inHand id := by
  constructor
  · -- nothing waits at the start
    have hinit : NoneHeld {} := fun _ _ h => by
      simp only [PMap.empty_apply, reduceCtorEq] at h
    have hkeep : ∀ (s : State) (ev : Event) (s' : State), True → step s ev = some s' → True :=
      fun _ _ _ _ _ => trivial
    exact throughout_iff hkeep (fun _ _ _ _ hs h => noneHeld_step_iff hs h) trivial hinit
  · intro s s₁ s₂ s₃ ev es' k x id hd _ hx hev hrun hreg hnow hcap hh hk hreg'
    -- queued, still there when the stream registers, and then in its hands
    subst hk
    have hw : s₁.server.Waits hd.peerKey x 0 s₁.now := waits_of_accepted hx hev
    obtain ⟨n, hw'⟩ := waits_run hrun hw hreg (Nat.le_refl _) hnow (by omega)
    exact inHand_of_register hreg' hh hw' hnow

/-- The offer that was held for `B` is in the hands of the stream that registers under its key. -/
theorem heldOfferRun_inHand :
    ∃ s hd, exec step {} (heldOfferRun.take 9) = some s ∧ s.handlers 2 = some hd ∧
      ⟨1, heldOffer⟩ ∈ hd.phase.inHand 2 := by
  -- up to the lookup, the queueing, `B` on its way, and its registration
  have hrun : ((exec step {} (heldOfferRun.take 4)).bind fun s =>
      (step s (.act 1 .absent)).bind fun s₁ =>
      (exec step s₁ ((heldOfferRun.drop 5).take 3)).bind fun s₂ =>
      (step s₂ (.act 2 .register)).map fun _ =>
        (s.accepted "B" (.act 1 .absent), decide (s₂.now ≤ s₁.now + pendingTTL),
          (acceptedAlong "B" s₁ ((heldOfferRun.drop 5).take 3)).length,
          (s₂.handlers 2).map (·.peerKey))) =
      some ([⟨1, heldOffer⟩], true, 0, some "B") := by
    decide +kernel
  obtain ⟨s, hs, hrun⟩ := Option.bind_eq_some_iff.mp hrun
  obtain ⟨s₁, hs₁, hrun⟩ := Option.bind_eq_some_iff.mp hrun
  obtain ⟨s₂, hs₂, hrun⟩ := Option.bind_eq_some_iff.mp hrun
  obtain ⟨s₃, hs₃, hfacts⟩ := Option.map_eq_some_iff.mp hrun
  simp only [Prod.mk.injEq, decide_eq_true_eq] at hfacts
  obtain ⟨haccepted, hnow, hcap, hpeer⟩ := hfacts
  obtain ⟨hd, hhd, hkey⟩ := Option.map_eq_some_iff.mp hpeer
  have hregisters : ExecAlong step (fun s ev => ¬ Registers "B" s ev) s₁
      ((heldOfferRun.drop 5).take 3) := by
    refine .of_forall (fun ev hev s => ?_) s₁
    rintro ⟨id, hd, rfl, -⟩
    simp [heldOfferRun] at hev
  obtain ⟨hd', hhd', hmem⟩ := (held_for_absent_only (heldOfferRun.take 4)).2 s s₁ s₂ s₃
    (.act 1 .absent) _ "B" ⟨1, heldOffer⟩ 2 hd hs (haccepted ▸ List.mem_singleton.mpr rfl) hs₁
    hs₂ hregisters hnow (hcap ▸ by decide) hhd hkey hs₃
  refine ⟨s₃, hd', ?_, hhd', hmem⟩
  have hsplit : heldOfferRun.take 9 = heldOfferRun.take 4 ++ ([.act 1 .absent] ++
      ((heldOfferRun.drop 5).take 3 ++ [.act 2 .register])) := rfl
  have hone (s : State) (ev : Event) : exec step s [ev] = step s ev := by
    cases h : step s ev <;> simp [exec, h]
  rw [hsplit, exec_append, hs, Option.bind_some, exec_append, hone, hs₁, Option.bind_some,
    exec_append, hs₂, Option.bind_some, hone, hs₃]

/-- `A` looks `B` up in vain, `B` registers, and only then is the offer queued. -/
def lateHoldRun : List Event :=
  [.open 1 (some "A"), .act 1 (.recv heldOffer), .act 1 .register, .act 1 .lookup,
    .open 2 (some "B"), .act 2 (.recv { key := "B" }), .act 2 .register, .act 1 .absent]

/-- The offer waits for a peer that is connected. -/
theorem lateHoldRun_holds :
    ∃ s, exec step {} lateHoldRun = some s ∧ s.server.streams "B" = some 2 ∧
      s.server.waiting "B" = [⟨1, heldOffer⟩] ∧ s.written = [] := by
  have hrun : (exec step {} lateHoldRun).map
      (fun s => (s.server.streams "B", s.server.waiting "B", s.written)) =
      some (some 2, [⟨1, heldOffer⟩], []) := by
    decide +kernel
  obtain ⟨s, hs, hfacts⟩ := Option.map_eq_some_iff.mp hrun
  simp only [Prod.mk.injEq] at hfacts
  exact ⟨s, hs, hfacts⟩

end Blinex.Native.Signal
