import Blinex.Native.SignalServer

/-!
# Safety of the signal server under every interleaving

`HandlerStep` lists what a handler can do in one atomic action; every invariant
here is one case analysis over it.

## Key results

- `written_authentic`: with the JWT interceptor in place, whatever is written to a
  stream was received on a stream whose verified key is the message's key.
- `registered_live`: the routing table only names unfinished handlers, and names the
  latest registration of a key as long as it is unfinished.
-/

namespace Blinex.Native.Signal

open Signalv1 (Message)

/-! ## What an action can do -/

/-- The actions of `Send`, guards and effects spelled out. -/
inductive HandlerStep (s : Server) (now : Nat) (self : StreamId) (h : Handler) :
    Action → Effect → Prop where
  | recv (m : Message) (hp : h.phase = .recv) :
    HandlerStep s now self h (.recv m)
      { handler := h.received m, server := s, received := [⟨self, m⟩] }
  | recvEnd (err : Option String) (res : Option Status) (hp : h.phase = .recv) :
    HandlerStep s now self h (.recvEnd err)
      { handler := { h with phase := .closing res }, server := s }
  | register (m : Message) (hp : h.phase = .register m) :
    HandlerStep s now self h .register
      { handler := { h with phase := delivering m (s.register now h.peerKey self).1 },
        server := (s.register now h.peerKey self).2, registered := [(h.peerKey, self)] }
  | delivered (m : Message) (q : Held) (queued : List Held)
      (hp : h.phase = .deliver m (q :: queued)) :
    HandlerStep s now self h (.deliver true)
      { handler := { h with phase := delivering m queued }, server := s, written := [(self, q)] }
  | broke (m : Message) (q : Held) (queued : List Held)
      (hp : h.phase = .deliver m (q :: queued)) :
    HandlerStep s now self h (.deliver false)
      { handler := { h with phase := afterChecks m }, server := s }
  | missed (m : Message) (hp : h.phase = .lookup m) (hs : s.streams m.remoteKey = none) :
    HandlerStep s now self h .lookup { handler := { h with phase := .absent m }, server := s }
  | found (m : Message) (target : StreamId) (hp : h.phase = .lookup m)
      (hs : s.streams m.remoteKey = some target) :
    HandlerStep s now self h .lookup
      { handler := { h with phase := .forward m target }, server := s }
  | absent (m : Message) (hp : h.phase = .absent m) :
    HandlerStep s now self h .absent
      { handler := { h with phase := .recv }, server := s.handleAbsentTarget now ⟨self, m⟩ }
  | forward (m : Message) (target : StreamId) (ok : Bool) (hp : h.phase = .forward m target) :
    HandlerStep s now self h (.forward ok)
      { handler := { h with phase := .recv }, server := s,
        written := if ok then [(target, ⟨self, m⟩)] else [] }
  | close (res : Option Status) (hp : h.phase = .closing res) :
    HandlerStep s now self h .close
      { handler := { h with phase := .done res }, server := s.unregister h.peerKey self }

/-- The actions of a handler are those of `HandlerStep`. -/
private theorem handlerStep_cases {s : Server} {now : Nat} {self : StreamId} {h : Handler}
    {a : Action}
    {e : Effect} (hstep : handlerStep s now self h a = some e) : HandlerStep s now self h a e := by
  unfold handlerStep at hstep
  -- one case for each action in the phase that enables it
  split at hstep
  · obtain rfl := Option.some.inj hstep
    exact .recv _ ‹_›
  · obtain rfl := Option.some.inj hstep
    exact .recvEnd _ _ ‹_›
  · obtain rfl := Option.some.inj hstep
    exact .register _ ‹_›
  · -- a write to the own stream, which may fail
    split at hstep <;> obtain rfl := Option.some.inj hstep
    · rename_i hok
      rw [hok]
      exact .delivered _ _ _ ‹_›
    · rename_i hok
      rw [Bool.not_eq_true] at hok
      rw [hok]
      exact .broke _ _ _ ‹_›
  · -- the target is registered or not
    split at hstep <;> obtain rfl := Option.some.inj hstep
    · exact .missed _ ‹_› ‹_›
    · exact .found _ _ ‹_› ‹_›
  · obtain rfl := Option.some.inj hstep
    exact .absent _ ‹_›
  · obtain rfl := Option.some.inj hstep
    exact .forward _ _ _ ‹_›
  · obtain rfl := Option.some.inj hstep
    exact .close _ ‹_›
  · -- any other action is not enabled
    exact nomatch hstep

/-- The state after an action with effect `e` of the handler of `id`. -/
def State.after (s : State) (id : StreamId) (e : Effect) : State :=
  { s with
    server := e.server
    handlers := s.handlers.set id e.handler
    received := e.received ++ s.received
    written := e.written ++ s.written
    registered := e.registered ++ s.registered }

/-- The handler that acts, after its action. -/
@[simp] theorem State.after_handlers_self (s : State) (id : StreamId) (e : Effect) :
    (s.after id e).handlers id = some e.handler := PMap.set_self _ _ _

theorem State.after_handlers_ne (s : State) (e : Effect) {id i : StreamId} (h : i ≠ id) :
    (s.after id e).handlers i = s.handlers i := PMap.set_ne _ _ h

/-- An event opens a fresh stream, is an action of an open one, or moves the clock. -/
theorem step_cases {s s' : State} {ev : Event} (h : step s ev = some s') :
    (∃ id authKey, ev = .open id authKey ∧ s.handlers id = none ∧
      s' = { s with handlers := s.handlers.set id { authKey } }) ∨
    (∃ id a hd e, ev = .act id a ∧ s.handlers id = some hd ∧
      HandlerStep s.server s.now id hd a e ∧ s' = s.after id e) ∨
    (∃ d, ev = .tick d ∧ s' = { s with now := s.now + d }) := by
  cases ev with
  | «open» id authKey =>
    simp only [step] at h
    split at h
    · -- the stream is new
      exact .inl ⟨id, authKey, rfl, ‹_›, (Option.some.inj h).symm⟩
    · cases h
  | act id a =>
    simp only [step] at h
    split at h
    · cases h
    · -- the handler of the stream takes a step
      obtain ⟨e, he, rfl⟩ := Option.map_eq_some_iff.mp h
      exact .inr (.inl ⟨id, a, _, e, rfl, ‹_›, handlerStep_cases he, rfl⟩)
  | tick d => exact .inr (.inr ⟨d, rfl, (Option.some.inj h).symm⟩)

/-! ## Where messages come from -/

namespace Server

variable {s : Server} {now : Nat}

/-- `x` waits in some queue. -/
def Holds (s : Server) (x : Held) : Prop := ∃ k q, s.pending k = some q ∧ x ∈ q.msgs

/-- Taking a queue changes no registration. -/
@[simp] theorem takePendingLocked_streams (k : String) :
    (s.takePendingLocked now k).2.streams = s.streams := by
  unfold takePendingLocked
  split
  · rfl
  · split <;> rfl

/-- What is taken was held, and taking adds nothing to any queue. -/
private theorem holds_of_takePendingLocked {k : String} {x : Held}
    (h : x ∈ (s.takePendingLocked now k).1 ∨ (s.takePendingLocked now k).2.Holds x) :
    s.Holds x := by
  unfold takePendingLocked at h
  split at h
  · rcases h with h | h
    · exact absurd h List.not_mem_nil
    · exact h
  · rename_i q hq
    have hdel (hx : Holds { s with pending := s.pending.delete k } x) : s.Holds x := by
      obtain ⟨k', q', hq', hx⟩ := hx
      exact ⟨k', q', (PMap.delete_eq_some _ hq').2, hx⟩
    split at h
    · -- too old: the queue is dropped and nothing is delivered
      rcases h with h | h
      · exact absurd h List.not_mem_nil
      · exact hdel h
    · rcases h with h | h
      · exact ⟨k, q, hq, h⟩
      · exact hdel h

/-- Registering replaces the stream of the key. -/
@[simp] theorem register_streams (k : String) (self : StreamId) :
    (s.register now k self).2.streams = s.streams.set k self := by
  unfold register
  rw [takePendingLocked_streams]

/-- Registering hands over messages that were held, and holds no new ones. -/
private theorem holds_of_register {k : String} {self : StreamId} {x : Held}
    (h : x ∈ (s.register now k self).1 ∨ (s.register now k self).2.Holds x) : s.Holds x := by
  have hheld : Holds { s with streams := s.streams.set k self } x := holds_of_takePendingLocked h
  exact hheld

/-- A message for an absent target changes no registration. -/
@[simp] theorem handleAbsentTarget_streams (x : Held) :
    (s.handleAbsentTarget now x).streams = s.streams := by
  unfold handleAbsentTarget
  split
  · dsimp only
    split <;> split <;> rfl
  · rfl

private theorem holds_of_expirePendingLocked {x : Held} (h : (s.expirePendingLocked now).Holds x) :
    s.Holds x := by
  obtain ⟨k, q, hq, hx⟩ := h
  have hq' := Option.filter_eq_some_iff.mp hq
  exact ⟨k, q, hq'.1, hx⟩

/-- `handleAbsentTarget` queues nothing but its argument. -/
private theorem holds_of_handleAbsentTarget {x y : Held}
    (h : (s.handleAbsentTarget now y).Holds x) :
    x = y ∨ s.Holds x := by
  unfold handleAbsentTarget at h
  split at h
  · dsimp only at h
    split at h <;> split at h <;> exact .inr h
  · obtain ⟨k, q, hq, hx⟩ := h
    rcases PMap.set_eq_some _ hq with ⟨_, rfl⟩ | ⟨_, hq⟩
    · -- the queue of the target: what was left of it after expiry, and the new message
      rw [List.mem_append, List.mem_singleton] at hx
      refine hx.symm.imp_right fun hx => ?_
      have hx' : x ∈ (((s.expirePendingLocked now).pending y.msg.remoteKey).getD {}).msgs := by
        split at hx
        · exact List.mem_of_mem_drop hx
        · exact hx
      cases hp : (s.expirePendingLocked now).pending y.msg.remoteKey with
      | none =>
        rw [hp] at hx'
        exact absurd hx' List.not_mem_nil
      | some q' =>
        rw [hp] at hx'
        exact holds_of_expirePendingLocked ⟨_, q', hp, hx'⟩
    · exact .inr (holds_of_expirePendingLocked ⟨k, q, hq, hx⟩)

/-- A stream that closes keeps the queues. -/
@[simp] theorem unregister_pending (k : String) (self : StreamId) :
    (s.unregister k self).pending = s.pending := by
  unfold unregister
  split <;> rfl

/-- Deregistration leaves every other registration alone. -/
theorem unregister_eq_some {k k' : String} {self id : StreamId} :
    (s.unregister k self).streams k' = some id ↔
      s.streams k' = some id ∧ ¬ (k ≠ "" ∧ k' = k ∧ id = self) := by
  unfold unregister
  split
  · -- the entry is removed only if the stream that closes is still the one registered
    rename_i hown
    by_cases hk : k' = k
    · subst hk
      simp only [PMap.delete_self, reduceCtorEq, hown, ne_eq, not_false_eq_true, true_and,
        Option.some.injEq, false_iff, not_and, not_not]
      exact Eq.symm
    · simp only [PMap.delete_ne _ hk, hk, false_and, and_false, not_false_eq_true, and_true]
  · rename_i hown
    refine (and_iff_left_of_imp fun hs => ?_).symm
    rintro ⟨hne, rfl, rfl⟩
    exact hown ⟨hne, hs⟩

end Server

/-- The messages a handler has in hand. -/
def Phase.inHand (self : StreamId) : Phase → List Held
  | .register m | .lookup m | .absent m | .forward m _ => [⟨self, m⟩]
  | .deliver m queued => ⟨self, m⟩ :: queued
  | .recv | .closing _ | .done _ => []

/-- After the checks the handler has the message in hand, or nothing. -/
private theorem inHand_afterChecks {self : StreamId} {m : Message} {x : Held}
    (h : x ∈ (afterChecks m).inHand self) : x = ⟨self, m⟩ := by
  unfold afterChecks at h
  split at h
  · exact absurd h List.not_mem_nil
  · exact List.mem_singleton.mp h

/-- During a delivery it has the rest of the queue as well. -/
private theorem inHand_delivering {self : StreamId} {m : Message} {queued : List Held} {x : Held}
    (h : x ∈ (delivering m queued).inHand self) : x = ⟨self, m⟩ ∨ x ∈ queued := by
  unfold delivering at h
  split at h
  · exact .inl (inHand_afterChecks h)
  · exact List.mem_cons.mp h

/-- A message that got through the checks names the handler's key, which is the
    verified one if there is one. -/
private theorem Handler.received_spec {h : Handler} {self : StreamId} {m : Message} {x : Held}
    (hx : x ∈ (h.received m).phase.inHand self) :
    x = ⟨self, m⟩ ∧ m.key ≠ "" ∧ (h.received m).peerKey = m.key ∧
      (h.peerKey = "" ∧ (h.authKey = none ∨ h.authKey = some m.key) ∨ h.peerKey = m.key) := by
  unfold Handler.received at hx ⊢
  split at hx
  · -- the first message sets the key, after the check against the verified one
    rename_i hempty
    split at hx
    · exact absurd hx List.not_mem_nil
    · rename_i hkey
      split at hx
      · exact absurd hx List.not_mem_nil
      · rename_i hauth
        rw [if_pos hempty, if_neg hkey, if_neg hauth]
        refine ⟨List.mem_singleton.mp hx, hkey, rfl, .inl ⟨hempty, ?_⟩⟩
        tauto
  · -- later messages must repeat it
    rename_i hnamed
    split at hx
    · exact absurd hx List.not_mem_nil
    · rename_i hkey
      rw [if_neg hnamed, if_neg hkey]
      have hkey' : m.key = h.peerKey := not_not.mp hkey
      exact ⟨inHand_afterChecks hx, hkey' ▸ hnamed, hkey'.symm, .inr hkey'.symm⟩

section Step

variable {s : Server} {now : Nat} {self : StreamId} {hd : Handler} {a : Action} {e : Effect}

/-- No action invents a message: what a handler has in hand, what is queued and
    what is written was in hand or queued before, or has just been received. -/
private theorem HandlerStep.origin (h : HandlerStep s now self hd a e) :
    (∀ x ∈ e.handler.phase.inHand self,
      x ∈ hd.phase.inHand self ∨ s.Holds x ∨ x ∈ e.received) ∧
    (∀ x, e.server.Holds x → s.Holds x ∨ x ∈ hd.phase.inHand self) ∧
    (∀ w ∈ e.written, w.2 ∈ hd.phase.inHand self) := by
  cases h with
  | recv m hp =>
    refine ⟨fun x hx => ?_, fun x hx => .inl hx, nofun⟩
    exact .inr (.inr (List.mem_singleton.mpr (Handler.received_spec hx).1))
  | recvEnd err res hp => exact ⟨nofun, fun x hx => .inl hx, nofun⟩
  | register m hp =>
    refine ⟨fun x hx => ?_, fun x hx => .inl (Server.holds_of_register (.inr hx)), nofun⟩
    -- in hand now: the registering message and what was pending for it
    rcases inHand_delivering hx with rfl | hx
    · exact .inl (by rw [hp]; exact List.mem_singleton.mpr rfl)
    · exact .inr (.inl (Server.holds_of_register (.inl hx)))
  | delivered m q queued hp =>
    rw [hp]
    refine ⟨fun x hx => .inl ?_, fun x hx => .inl hx, fun w hw => ?_⟩
    · rcases inHand_delivering hx with rfl | hx
      · exact List.mem_cons_self
      · exact List.mem_cons_of_mem _ (List.mem_cons_of_mem _ hx)
    · obtain rfl := List.mem_singleton.mp hw
      exact List.mem_cons_of_mem _ List.mem_cons_self
  | broke m q queued hp =>
    rw [hp]
    refine ⟨fun x hx => .inl ?_, fun x hx => .inl hx, nofun⟩
    obtain rfl := inHand_afterChecks hx
    exact List.mem_cons_self
  | missed m hp hs => exact ⟨fun x hx => .inl (by rw [hp]; exact hx), fun x hx => .inl hx, nofun⟩
  | found m target hp hs =>
    exact ⟨fun x hx => .inl (by rw [hp]; exact hx), fun x hx => .inl hx, nofun⟩
  | absent m hp =>
    refine ⟨nofun, fun x hx => ?_, nofun⟩
    rw [hp]
    exact (Server.holds_of_handleAbsentTarget hx).symm.imp_right List.mem_singleton.mpr
  | forward m target ok hp =>
    refine ⟨nofun, fun x hx => .inl hx, fun w hw => ?_⟩
    rw [hp]
    cases ok with
    | true =>
      obtain rfl := List.mem_singleton.mp hw
      exact List.mem_singleton.mpr rfl
    | false => exact absurd hw List.not_mem_nil
  | close res hp =>
    refine ⟨nofun, fun x hx => .inl ?_, nofun⟩
    simpa only [Server.Holds, Server.unregister_pending] using hx

/-- The verified key of the stream is `k`, and the handler goes by no other. -/
structure Handler.Verified (hd : Handler) (k : String) : Prop where
  auth : hd.authKey = some k
  named : hd.peerKey = k ∨ (hd.peerKey = "" ∧ ∀ m, hd.phase ≠ .register m)

/-- The handler's context never changes. -/
theorem HandlerStep.authKey_eq (h : HandlerStep s now self hd a e) :
    e.handler.authKey = hd.authKey := by
  cases h with
  | recv m hp =>
    simp only [Handler.received, Handler.fail]
    split_ifs <;> rfl
  | _ => rfl

/-- A received message that is not refused carries the verified key. -/
private theorem HandlerStep.received_key (h : HandlerStep s now self hd a e) {k : String}
    (hv : hd.Verified k) {x : Held} (hx : x ∈ e.handler.phase.inHand self)
    (hr : x ∈ e.received) : x.src = self ∧ x.msg.key = k := by
  cases h with
  | recv m hp =>
    obtain ⟨rfl, hne, hpeer, hkey⟩ := Handler.received_spec hx
    refine ⟨rfl, ?_⟩
    rcases hkey with ⟨_, hauth | hauth⟩ | hkey
    · -- a stream without a verified key is not verified
      exact nomatch hv.auth.symm.trans hauth
    · exact Option.some.inj (hauth.symm.trans hv.auth)
    · rcases hv.named with hn | ⟨hn, _⟩
      · exact hkey.symm.trans hn
      · exact absurd (hkey.symm.trans hn) hne
  | _ => exact absurd hr List.not_mem_nil

/-- A message that got through the checks does not register again. -/
theorem afterChecks_ne_register (m m' : Message) : afterChecks m ≠ .register m' := by
  unfold afterChecks
  split <;> exact nofun

/-- Nor does one whose queue is being delivered. -/
theorem delivering_ne_register (m m' : Message) (queued : List Held) :
    delivering m queued ≠ .register m' := by
  unfold delivering
  split
  · exact afterChecks_ne_register m m'
  · exact nofun

/-- A handler keeps to its verified key. -/
theorem HandlerStep.verified (h : HandlerStep s now self hd a e) {k : String}
    (hv : hd.Verified k) : e.handler.Verified k := by
  refine ⟨h.authKey_eq.trans hv.auth, ?_⟩
  have hkeep (p : Phase) (hp : ∀ m, p ≠ .register m) :
      ({ hd with phase := p } : Handler).peerKey = k ∨
        (({ hd with phase := p } : Handler).peerKey = "" ∧ ∀ m, p ≠ .register m) :=
    hv.named.imp_right fun hn => ⟨hn.1, hp⟩
  cases h with
  | recv m hp =>
    unfold Handler.received
    split_ifs with hempty hkey hauth hsame
    · exact hkeep _ fun _ => nofun
    · exact hkeep _ fun _ => nofun
    · -- the registering message: the check ties it to the verified key
      rw [hv.auth] at hauth
      left
      simpa [eq_comm] using hauth
    · exact hkeep _ fun _ => nofun
    · exact hkeep _ (afterChecks_ne_register m)
  | register m hp => exact hkeep _ fun m' => delivering_ne_register m m' _
  | delivered m q queued hp => exact hkeep _ fun m' => delivering_ne_register m m' _
  | broke m q queued hp => exact hkeep _ (afterChecks_ne_register m)
  | _ => exact hkeep _ fun _ => nofun

/-- A handler only registers itself, under its verified key. -/
theorem HandlerStep.routes (h : HandlerStep s now self hd a e) {k k' : String} {id : StreamId}
    (hv : hd.Verified k) (hs : e.server.streams k' = some id) :
    s.streams k' = some id ∨ (k' = k ∧ id = self) := by
  cases h with
  | register m hp =>
    -- a handler that registers has a name, and it is the verified one
    have hpeer : hd.peerKey = k := by
      rcases hv.named with hn | ⟨_, hn⟩
      · exact hn
      · exact absurd hp (hn m)
    simp only [Server.register_streams] at hs
    rcases PMap.set_eq_some _ hs with ⟨rfl, rfl⟩ | ⟨_, hs⟩
    · exact .inr ⟨hpeer, rfl⟩
    · exact .inl hs
  | absent m hp => exact .inl (by simpa only [Server.handleAbsentTarget_streams] using hs)
  | close res hp => exact .inl (Server.unregister_eq_some.mp hs).1
  | _ => exact .inl hs

end Step

/-! ## Authenticity -/

/-- The message was received on the stream it is attributed to, and carries that
    stream's verified key. -/
def State.Genuine (s : State) (x : Held) : Prop :=
  x ∈ s.received ∧ ∃ hd, s.handlers x.src = some hd ∧ hd.authKey = some x.msg.key

/-- The invariant behind `written_authentic`. -/
structure Authentic (s : State) : Prop where
  verified : ∀ id hd, s.handlers id = some hd → ∃ k, hd.Verified k
  routed : ∀ k id, s.server.streams k = some id →
    ∃ hd, s.handlers id = some hd ∧ hd.authKey = some k
  inHand : ∀ id hd, s.handlers id = some hd → ∀ x ∈ hd.phase.inHand id, s.Genuine x
  held : ∀ x, s.server.Holds x → s.Genuine x
  written : ∀ w ∈ s.written, s.Genuine w.2

/-- The interceptor ran: the stream's context carries a verified key. -/
def Event.Authenticated : Event → Prop
  | .open _ authKey => authKey ≠ none
  | .act _ _ | .tick _ => True

section Authentic

variable {s : State} {id : StreamId} {hd : Handler} {a : Action} {e : Effect}

/-- An action keeps every handler's context. -/
theorem exists_handler_after (hh : s.handlers id = some hd)
    (h : HandlerStep s.server s.now id hd a e) {i : StreamId} {k : String}
    (hi : ∃ hd, s.handlers i = some hd ∧ hd.authKey = some k) :
    ∃ hd, (s.after id e).handlers i = some hd ∧ hd.authKey = some k := by
  obtain ⟨hd', hi, hk⟩ := hi
  by_cases heq : i = id
  · subst heq
    obtain rfl := Option.some.inj (hh.symm.trans hi)
    exact ⟨e.handler, s.after_handlers_self i e, h.authKey_eq.trans hk⟩
  · exact ⟨hd', (s.after_handlers_ne e heq).trans hi, hk⟩

theorem State.Genuine.after (hh : s.handlers id = some hd)
    (h : HandlerStep s.server s.now id hd a e) {x : Held} (hx : s.Genuine x) :
    (s.after id e).Genuine x :=
  ⟨List.mem_append_right _ hx.1, exists_handler_after hh h hx.2⟩

/-- An action keeps the invariant. -/
theorem Authentic.after (hs : Authentic s) (hh : s.handlers id = some hd)
    (h : HandlerStep s.server s.now id hd a e) : Authentic (s.after id e) := by
  obtain ⟨k, hv⟩ := hs.verified id hd hh
  obtain ⟨horig, hheld, hwritten⟩ := h.origin
  have hself := s.after_handlers_self id e
  -- whatever was in hand or queued before the action is still genuine
  have hbefore (x : Held) (hx : x ∈ hd.phase.inHand id ∨ s.server.Holds x) :
      (s.after id e).Genuine x := by
    rcases hx with hx | hx
    · exact (hs.inHand id hd hh x hx).after hh h
    · exact (hs.held x hx).after hh h
  have hverified : ∀ i hd, (s.after id e).handlers i = some hd → ∃ k, hd.Verified k := by
    intro i hd' hi
    rcases PMap.set_eq_some _ hi with ⟨_, rfl⟩ | ⟨_, hi⟩
    · exact ⟨k, h.verified hv⟩
    · exact hs.verified i hd' hi
  have hrouted : ∀ k i, (s.after id e).server.streams k = some i →
      ∃ hd, (s.after id e).handlers i = some hd ∧ hd.authKey = some k := by
    intro k' i hi
    rcases h.routes hv hi with hi | ⟨rfl, rfl⟩
    · exact exists_handler_after hh h (hs.routed k' i hi)
    · exact ⟨e.handler, hself, (h.verified hv).auth⟩
  have hinHand : ∀ i hd, (s.after id e).handlers i = some hd →
      ∀ x ∈ hd.phase.inHand i, (s.after id e).Genuine x := by
    intro i hd' hi x hx
    rcases PMap.set_eq_some _ hi with ⟨rfl, rfl⟩ | ⟨_, hi⟩
    · rcases horig x hx with hx' | hx' | hr
      · exact hbefore x (.inl hx')
      · exact hbefore x (.inr hx')
      · -- just received: the checks tie its key to the stream's
        obtain ⟨hsrc, hkey⟩ := h.received_key hv hx hr
        have hauth : e.handler.authKey = some x.msg.key := by
          rw [hkey]
          exact (h.verified hv).auth
        exact ⟨List.mem_append_left _ hr, e.handler, hsrc ▸ hself, hauth⟩
    · exact (hs.inHand i hd' hi x hx).after hh h
  have hlog : ∀ w ∈ (s.after id e).written, (s.after id e).Genuine w.2 := by
    intro w hw
    rcases List.mem_append.mp hw with hw | hw
    · exact hbefore w.2 (.inl (hwritten w hw))
    · exact (hs.written w hw).after hh h
  exact ⟨hverified, hrouted, hinHand, fun x hx => hbefore x (hheld x hx).symm, hlog⟩

/-- Opening a fresh stream keeps the invariant if the interceptor ran. -/
theorem Authentic.opened (hs : Authentic s) (hfresh : s.handlers id = none)
    {authKey : Option String}
    (hauth : authKey ≠ none) :
    Authentic { s with handlers := s.handlers.set id { authKey } } := by
  have hold {i : StreamId} {k : String}
      (hi : ∃ hd, s.handlers i = some hd ∧ hd.authKey = some k) :
      ∃ hd, s.handlers.set id { authKey } i = some hd ∧ hd.authKey = some k := by
    obtain ⟨hd, hi, hk⟩ := hi
    have hne : i ≠ id := by
      rintro rfl
      exact nomatch hfresh.symm.trans hi
    exact ⟨hd, by rw [PMap.set_ne _ _ hne]; exact hi, hk⟩
  have hgenuine {x : Held} (hx : s.Genuine x) :
      ({ s with handlers := s.handlers.set id { authKey } } : State).Genuine x :=
    ⟨hx.1, hold hx.2⟩
  constructor
  · intro i hd hi
    rcases PMap.set_eq_some _ hi with ⟨_, rfl⟩ | ⟨_, hi⟩
    · obtain ⟨k, rfl⟩ := Option.ne_none_iff_exists'.mp hauth
      exact ⟨k, rfl, .inr ⟨rfl, fun _ => nofun⟩⟩
    · exact hs.verified i hd hi
  · intro k i hi
    exact hold (hs.routed k i hi)
  · intro i hd hi x hx
    -- the fresh handler has nothing in hand
    rcases PMap.set_eq_some _ hi with ⟨_, rfl⟩ | ⟨_, hi⟩
    · exact absurd hx List.not_mem_nil
    · exact hgenuine (hs.inHand i hd hi x hx)
  · intro x hx
    exact hgenuine (hs.held x hx)
  · intro w hw
    exact hgenuine (hs.written w hw)

end Authentic

/-- At the start there is no stream. -/
theorem authentic_init : Authentic {} := by
  refine ⟨fun id hd h => ?_, fun k id h => ?_, fun id hd h => ?_, fun x hx => ?_, fun w hw => ?_⟩
  · simp only [PMap.empty_apply, reduceCtorEq] at h
  · simp only [PMap.empty_apply, reduceCtorEq] at h
  · simp only [PMap.empty_apply, reduceCtorEq] at h
  · obtain ⟨k, q, h, _⟩ := hx
    simp only [PMap.empty_apply, reduceCtorEq] at h
  · exact absurd hw List.not_mem_nil

/-- Every event of an authenticated stream keeps the invariant. -/
theorem Authentic.step {s s' : State} {ev : Event} (hev : ev.Authenticated) (hs : Authentic s)
    (h : step s ev = some s') : Authentic s' := by
  rcases step_cases h with ⟨id, authKey, rfl, hfresh, rfl⟩ | ⟨id, a, hd, e, rfl, hh, he, rfl⟩ |
    ⟨d, rfl, rfl⟩
  · exact hs.opened hfresh hev
  · exact hs.after hh he
  · -- the clock is no part of the invariant
    exact ⟨hs.verified, hs.routed, hs.inHand, hs.held, hs.written⟩

/-- **Sender authenticity.** With the interceptor installed, in every interleaving
    every message ever written to a stream was received on a stream whose verified
    key is the message's key, and the routing table files a stream under its own
    verified key only. -/
theorem written_authentic {es : List Event} {s : State} (hauth : ∀ ev ∈ es, ev.Authenticated)
    (h : exec step {} es = some s) :
    (∀ target x, (target, x) ∈ s.written → x ∈ s.received ∧
      ∃ hd, s.handlers x.src = some hd ∧ hd.authKey = some x.msg.key) ∧
    (∀ k id, s.server.streams k = some id →
      ∃ hd, s.handlers id = some hd ∧ hd.authKey = some k) := by
  have hs : Authentic s :=
    exec_invariant (fun _ _ _ hev hs h => hs.step hev h) hauth authentic_init h
  exact ⟨fun target x hx => hs.written _ hx, hs.routed⟩

/-- An offer to a peer that is away. -/
def heldOffer : Message := { key := "A", remoteKey := "B", body := some { type := .offer } }

/-- `A` sends the offer, which is held until `B` connects. -/
def heldOfferRun : List Event :=
  [.open 1 (some "A"), .act 1 (.recv heldOffer), .act 1 .register, .act 1 .lookup, .act 1 .absent,
    .open 2 (some "B"), .tick second, .act 2 (.recv { key := "B" }), .act 2 .register,
    .act 2 (.deliver true)]

/-- Both streams have passed the interceptor. -/
theorem heldOfferRun_authenticated : ∀ ev ∈ heldOfferRun, ev.Authenticated := by
  simp [heldOfferRun, Event.Authenticated]

/-- The offer is written to the stream of `B`, and nothing else is written. -/
theorem heldOfferRun_written :
    ∃ s, exec step {} heldOfferRun = some s ∧ s.written = [(2, ⟨1, heldOffer⟩)] := by
  have hwritten : (exec step {} heldOfferRun).map (·.written) = some [(2, ⟨1, heldOffer⟩)] := by
    decide +kernel
  exact Option.map_eq_some_iff.mp hwritten

/-- An offer that was held is written with the key of its sender. -/
theorem written_authentic_heldOffer :
    ∃ s, exec step {} heldOfferRun = some s ∧ s.written = [(2, ⟨1, heldOffer⟩)] ∧
      ∃ hd, s.handlers 1 = some hd ∧ hd.authKey = some heldOffer.key := by
  obtain ⟨s, hrun, hs⟩ := heldOfferRun_written
  have hmem : (2, ⟨1, heldOffer⟩) ∈ s.written := by
    rw [hs]
    exact List.mem_singleton.mpr rfl
  exact ⟨s, hrun, hs, ((written_authentic heldOfferRun_authenticated hrun).1 _ _ hmem).2⟩

/-! ## Reconnects -/

/-- The stream that registered last under `k`. -/
def latest (log : List (String × StreamId)) (k : String) : Option StreamId :=
  (log.find? (·.1 == k)).map (·.2)

/-- The invariant behind `registered_live`. -/
structure Routed (s : State) : Prop where
  registering : ∀ id hd m, s.handlers id = some hd → hd.phase = .register m → hd.peerKey ≠ ""
  live : ∀ k id, s.server.streams k = some id →
    k ≠ "" ∧ ∃ hd, s.handlers id = some hd ∧ hd.peerKey = k ∧ hd.phase.isDone = false
  latest : ∀ k id, latest s.registered k = some id →
    k ≠ "" ∧ ∃ hd, s.handlers id = some hd ∧ hd.peerKey = k ∧
      (hd.phase.isDone = false → s.server.streams k = some id)

section Routed

variable {s : State} {id : StreamId} {hd : Handler} {a : Action} {e : Effect}

/-- A key, once set, stays. -/
theorem HandlerStep.peerKey_eq {srv : Server} {now : Nat} (h : HandlerStep srv now id hd a e)
    (hne : hd.peerKey ≠ "") : e.handler.peerKey = hd.peerKey := by
  cases h with
  | recv m hp =>
    unfold Handler.received
    rw [if_neg hne]
    split_ifs <;> rfl
  | _ => rfl

/-- A handler that is about to register has a name. -/
theorem HandlerStep.registering {srv : Server} {now : Nat} (h : HandlerStep srv now id hd a e)
    {m : Message} (hp : e.handler.phase = .register m) : e.handler.peerKey ≠ "" := by
  cases h with
  | recv m' hp' =>
    -- only a first message that got through the checks leads to a registration
    have hin : ⟨id, m⟩ ∈ (hd.received m').phase.inHand id := by
      rw [hp]
      exact List.mem_singleton.mpr rfl
    obtain ⟨_, hne, hpeer, _⟩ := Handler.received_spec hin
    exact hpeer ▸ hne
  | register m' hp' => exact absurd hp (delivering_ne_register m' m _)
  | delivered m' q queued hp' => exact absurd hp (delivering_ne_register m' m _)
  | broke m' q queued hp' => exact absurd hp (afterChecks_ne_register m' m)
  | _ => exact nomatch hp

/-- What an action does to the routing table: nothing, or it registers its handler,
    or it removes its handler's own entry and the handler is done. -/
theorem HandlerStep.table (h : HandlerStep s.server s.now id hd a e) :
    (e.server.streams = s.server.streams ∧ e.registered = [] ∧ e.handler.phase.isDone = false) ∨
    (∃ m, hd.phase = .register m ∧ e.server.streams = s.server.streams.set hd.peerKey id ∧
      e.registered = [(hd.peerKey, id)] ∧ e.handler.phase.isDone = false) ∨
    (e.server = s.server.unregister hd.peerKey id ∧ e.registered = [] ∧
      e.handler.phase.isDone = true) := by
  have hafter (m : Message) : (afterChecks m).isDone = false := by
    unfold afterChecks
    split <;> rfl
  have hdeliver (m : Message) (queued : List Held) : (delivering m queued).isDone = false := by
    unfold delivering
    split
    · exact hafter m
    · rfl
  cases h with
  -- receiving never finishes a handler, it closes first
  | recv m hp =>
    refine .inl ⟨rfl, rfl, ?_⟩
    simp only [Handler.received, Handler.fail]
    split_ifs
    · rfl
    · rfl
    · rfl
    · rfl
    · exact hafter m
  | register m hp => exact .inr (.inl ⟨m, hp, Server.register_streams _ _, rfl, hdeliver m _⟩)
  | delivered m q queued hp => exact .inl ⟨rfl, rfl, hdeliver m queued⟩
  | broke m q queued hp => exact .inl ⟨rfl, rfl, hafter m⟩
  | absent m hp => exact .inl ⟨Server.handleAbsentTarget_streams _, rfl, rfl⟩
  | close res hp => exact .inr (.inr ⟨rfl, rfl, rfl⟩)
  | _ => exact .inl ⟨rfl, rfl, rfl⟩

/-- A handler that is done does not act. -/
private theorem HandlerStep.not_done {srv : Server} {now : Nat}
    (h : HandlerStep srv now id hd a e) :
    hd.phase.isDone = false := by
  cases h with
  | missed m hp hs => rw [hp]; rfl
  | found m target hp hs => rw [hp]; rfl
  | _ => rename_i hp; rw [hp]; rfl

/-- A named handler is still there after an action, under the same name. -/
private theorem exists_named_after (hh : s.handlers id = some hd)
    (h : HandlerStep s.server s.now id hd a e) {i : StreamId} {hi : Handler} {k : String}
    (hk : k ≠ "") (hs : s.handlers i = some hi) (hname : hi.peerKey = k) :
    ∃ hi', (s.after id e).handlers i = some hi' ∧ hi'.peerKey = k ∧
      (i ≠ id → hi' = hi) ∧ (i = id → hi' = e.handler) := by
  by_cases heq : i = id
  · subst heq
    obtain rfl := Option.some.inj (hh.symm.trans hs)
    have hpeer := h.peerKey_eq (hname ▸ hk)
    exact ⟨e.handler, s.after_handlers_self i e, hpeer.trans hname, fun hne => absurd rfl hne,
      fun _ => rfl⟩
  · exact ⟨hi, (s.after_handlers_ne e heq).trans hs, hname, fun _ => rfl,
      fun h => absurd h heq⟩

/-- The latest registration of a key. -/
private theorem latest_cons (k k' : String) (i : StreamId) (log : List (String × StreamId)) :
    latest ((k, i) :: log) k' = if k = k' then some i else latest log k' := by
  unfold latest
  by_cases hk : k = k'
  · rw [List.find?_cons_of_pos (by simpa using hk), if_pos hk]
    rfl
  · rw [List.find?_cons_of_neg (by simpa using hk), if_neg hk]

/-- An action keeps the table's entries alive. -/
private theorem Routed.live_after (hs : Routed s) (hh : s.handlers id = some hd)
    (h : HandlerStep s.server s.now id hd a e) {k : String} {i : StreamId}
    (hi : e.server.streams k = some i) :
    k ≠ "" ∧ ∃ hd, (s.after id e).handlers i = some hd ∧ hd.peerKey = k ∧
      hd.phase.isDone = false := by
  -- an entry that was there before, in an action that does not finish its handler
  have hkept (hi : s.server.streams k = some i)
      (hnd : i = id → e.handler.phase.isDone = false) :
      k ≠ "" ∧ ∃ hd, (s.after id e).handlers i = some hd ∧ hd.peerKey = k ∧
        hd.phase.isDone = false := by
    obtain ⟨hk, hd', hs', hname, hlive⟩ := hs.live k i hi
    obtain ⟨hd'', hs'', hname', hother, hsame⟩ := exists_named_after hh h hk hs' hname
    refine ⟨hk, hd'', hs'', hname', ?_⟩
    by_cases heq : i = id
    · rw [hsame heq]
      exact hnd heq
    · rw [hother heq]
      exact hlive
  rcases h.table with ⟨htab, _, hnd⟩ | ⟨m, hp, htab, _, hnd⟩ | ⟨htab, _, _⟩
  · rw [htab] at hi
    exact hkept hi fun _ => hnd
  · rw [htab] at hi
    rcases PMap.set_eq_some _ hi with ⟨rfl, rfl⟩ | ⟨_, hi⟩
    · have hne := hs.registering id hd m hh hp
      exact ⟨hne, e.handler, s.after_handlers_self id e, h.peerKey_eq hne, hnd⟩
    · exact hkept hi fun _ => hnd
  · -- the closing handler's own entry is gone, so the entry is another's
    rw [htab, Server.unregister_eq_some] at hi
    obtain ⟨hi, hnot⟩ := hi
    refine hkept hi fun heq => ?_
    subst heq
    obtain ⟨hk, hd', hs', hname, _⟩ := hs.live k i hi
    obtain rfl := Option.some.inj (hh.symm.trans hs')
    exact absurd ⟨hname ▸ hk, hname.symm, rfl⟩ hnot

/-- An action keeps the latest registrations in the table. -/
private theorem Routed.latest_after (hs : Routed s) (hh : s.handlers id = some hd)
    (h : HandlerStep s.server s.now id hd a e) {k : String} {i : StreamId}
    (hi : Signal.latest (e.registered ++ s.registered) k = some i) :
    k ≠ "" ∧ ∃ hd, (s.after id e).handlers i = some hd ∧ hd.peerKey = k ∧
      (hd.phase.isDone = false → e.server.streams k = some i) := by
  -- a registration that is not the newest: the table kept it, unless its handler is done
  have hkept (hi : Signal.latest s.registered k = some i)
      (htab : s.server.streams k = some i → (i = id → e.handler.phase.isDone = false) →
        e.server.streams k = some i) :
      k ≠ "" ∧ ∃ hd, (s.after id e).handlers i = some hd ∧ hd.peerKey = k ∧
        (hd.phase.isDone = false → e.server.streams k = some i) := by
    obtain ⟨hk, hd', hs', hname, hreg⟩ := hs.latest k i hi
    obtain ⟨hd'', hs'', hname', hother, hsame⟩ := exists_named_after hh h hk hs' hname
    refine ⟨hk, hd'', hs'', hname', fun hlive => ?_⟩
    by_cases heq : i = id
    · have hhd : hd' = hd := by
        subst heq
        exact Option.some.inj (hs'.symm.trans hh)
      exact htab (hreg (hhd ▸ h.not_done)) fun _ => hsame heq ▸ hlive
    · exact htab (hreg (hother heq ▸ hlive)) fun h => absurd h heq
  rcases h.table with ⟨htab, hlog, _⟩ | ⟨m, hp, htab, hlog, _⟩ | ⟨htab, hlog, hdone⟩
  · rw [hlog, List.nil_append] at hi
    exact hkept hi fun ht _ => by rw [htab]; exact ht
  · rw [hlog, List.singleton_append, latest_cons] at hi
    by_cases hk : hd.peerKey = k
    · -- the registration itself
      rw [if_pos hk] at hi
      obtain rfl := Option.some.inj hi
      have hne := hs.registering id hd m hh hp
      refine ⟨hk ▸ hne, e.handler, s.after_handlers_self id e, (h.peerKey_eq hne).trans hk,
        fun _ => ?_⟩
      rw [htab, hk, PMap.set_self]
    · rw [if_neg hk] at hi
      exact hkept hi fun ht _ => by rw [htab, PMap.set_ne _ _ (Ne.symm hk)]; exact ht
  · -- a closing handler only removes its own entry, and it is done
    rw [hlog, List.nil_append] at hi
    refine hkept hi fun ht hnd => ?_
    rw [htab, Server.unregister_eq_some]
    refine ⟨ht, fun hown => ?_⟩
    exact nomatch (hnd hown.2.2).symm.trans hdone

/-- An action keeps the invariant. -/
theorem Routed.after (hs : Routed s) (hh : s.handlers id = some hd)
    (h : HandlerStep s.server s.now id hd a e) : Routed (s.after id e) := by
  refine ⟨fun i hd' m hi hp => ?_, fun k i hi => hs.live_after hh h hi,
    fun k i hi => hs.latest_after hh h hi⟩
  rcases PMap.set_eq_some _ hi with ⟨_, rfl⟩ | ⟨_, hi⟩
  · exact h.registering hp
  · exact hs.registering i hd' m hi hp

/-- A stream that was just opened is in nobody's way. -/
theorem Routed.opened (hs : Routed s) (hfresh : s.handlers id = none) (authKey : Option String) :
    Routed { s with handlers := s.handlers.set id { authKey } } := by
  have hold {i : StreamId} {hi : Handler} (h : s.handlers i = some hi) :
      s.handlers.set id { authKey } i = some hi := by
    -- an open stream is not the new one
    have hne : i ≠ id := by
      rintro rfl
      exact nomatch hfresh.symm.trans h
    rw [PMap.set_ne _ _ hne]
    exact h
  constructor
  · intro i hd m hi hp
    -- the new handler has no message in hand
    rcases PMap.set_eq_some _ hi with ⟨_, rfl⟩ | ⟨_, hi⟩
    · exact nomatch hp
    · exact hs.registering i hd m hi hp
  · intro k i hi
    obtain ⟨hk, hd, hs', hrest⟩ := hs.live k i hi
    exact ⟨hk, hd, hold hs', hrest⟩
  · intro k i hi
    obtain ⟨hk, hd, hs', hrest⟩ := hs.latest k i hi
    exact ⟨hk, hd, hold hs', hrest⟩

private theorem routed_init : Routed {} := by
  refine ⟨fun id hd m h => ?_, fun k id h => ?_, fun k id h => ?_⟩
  · simp only [PMap.empty_apply, reduceCtorEq] at h
  · simp only [PMap.empty_apply, reduceCtorEq] at h
  · simp only [Signal.latest, List.find?_nil, Option.map_none, reduceCtorEq] at h

/-- Every event keeps the invariant. -/
theorem Routed.step {s' : State} {ev : Event} (hs : Routed s) (h : step s ev = some s') :
    Routed s' := by
  rcases step_cases h with ⟨id, authKey, rfl, hfresh, rfl⟩ | ⟨id, a, hd, e, rfl, hh, he, rfl⟩ |
    ⟨d, rfl, rfl⟩
  · exact hs.opened hfresh authKey
  · exact hs.after hh he
  · exact ⟨hs.registering, hs.live, hs.latest⟩

end Routed

/-- **Reconnects never unregister the live stream.** In every interleaving the
    routing table maps a key only to a stream whose handler has not finished, and if
    the handler of the latest registration of a key has not finished, to exactly that
    stream. -/
theorem registered_live {es : List Event} {s : State} (h : exec step {} es = some s) :
    (∀ k id, s.server.streams k = some id →
      ∃ hd, s.handlers id = some hd ∧ hd.phase.isDone = false) ∧
    (∀ k id hd, latest s.registered k = some id → s.handlers id = some hd →
      hd.phase.isDone = false → s.server.streams k = some id) := by
  have hs : Routed s := exec_invariant (fun _ _ _ _ hs h => hs.step h) (fun _ _ => trivial)
    routed_init h
  refine ⟨fun k id hk => ?_, fun k id hd hk hid hlive => ?_⟩
  · obtain ⟨_, hd, hid, _, hlive⟩ := hs.live k id hk
    exact ⟨hd, hid, hlive⟩
  · obtain ⟨_, hd', hid', _, hreg⟩ := hs.latest k id hk
    obtain rfl := Option.some.inj (hid.symm.trans hid')
    exact hreg hlive

/-- `A` reconnects before its first handler has cleaned up. -/
def reconnectRun : List Event :=
  [.open 1 none, .act 1 (.recv { key := "A" }), .act 1 .register, .act 1 (.recvEnd none),
    .open 2 none, .act 2 (.recv { key := "A" }), .act 2 .register, .act 1 .close]

/-- After a reconnect the key leads to the new stream. -/
theorem registered_live_reconnect :
    ∃ s, exec step {} reconnectRun = some s ∧ s.server.streams "A" = some 2 := by
  -- the second stream registered last, and its handler is waiting for messages
  have hlast : (exec step {} reconnectRun).map (fun s => (latest s.registered "A",
      (s.handlers 2).map (·.phase))) = some (some 2, some .recv) := by
    decide +kernel
  obtain ⟨s, hrun, hs⟩ := Option.map_eq_some_iff.mp hlast
  obtain ⟨hreg, hphase⟩ := Prod.mk.inj hs
  obtain ⟨hd, hid, hp⟩ := Option.map_eq_some_iff.mp hphase
  exact ⟨s, hrun, (registered_live hrun).2 "A" 2 hd hreg hid (by rw [hp]; rfl)⟩

end Blinex.Native.Signal
