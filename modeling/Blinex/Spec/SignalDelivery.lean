import Blinex.Spec.SignalOrder

/-!
# Who gets a message

A message waits in the queue of its target or is forwarded to a stream that was found under its
target's key. Either way it ends up on a stream of the peer it is addressed to. Relay data does
not wait, so it arrives in the order in which it was sent.

## Key results

- `written_to_addressee`: every message is written to streams of its addressee only.
- `RelayOrdered`: the relay data of a stream is forwarded in order and at most once.
-/

namespace Blinex.Native.Signal

open Signalv1 (Message)

/-! ## What an action adds -/

section Step

variable {srv : Server} {now : Nat} {id : StreamId} {hd : Handler} {a : Action} {e : Effect}

/-- A message waits if it did before, or if its addressee is absent. -/
private theorem Server.mem_waiting_absent {s : Server} {x y : Held} {k : String}
    (h : y ∈ (s.handleAbsentTarget now x).waiting k) :
    y ∈ s.waiting k ∨ (y = x ∧ k = x.msg.remoteKey ∧ x.msg.bodyType ≠ .relay) := by
  -- relayed data is dropped
  by_cases hrelay : x.msg.bodyType = .relay
  · rw [waiting_handleAbsentTarget_relay hrelay] at h
    exact .inl h
  by_cases hk : k = x.msg.remoteKey
  · subst hk
    obtain ⟨kept, hkept, heq⟩ : ∃ kept, kept.Sublist (s.waiting x.msg.remoteKey) ∧
        (s.handleAbsentTarget now x).waiting x.msg.remoteKey = kept ++ [x] :=
      waiting_handleAbsentTarget_self x hrelay
    rw [heq, List.mem_append, List.mem_singleton] at h
    exact h.imp (fun h => hkept.subset h) fun h => ⟨h, rfl, hrelay⟩
  · -- another key's queue stays, unless it has expired
    have hkept : (s.handleAbsentTarget now x).waiting k = s.waiting k ∨
        (s.handleAbsentTarget now x).waiting k = [] := waiting_handleAbsentTarget_ne hk
    rcases hkept with heq | heq
    · exact .inl (heq ▸ h)
    · rw [heq] at h
      exact absurd h List.not_mem_nil

/-- Registering adds no waiting message. -/
private theorem Server.mem_waiting_register {s : Server} {k k' : String} {self : StreamId}
    {y : Held}
    (h : y ∈ (s.register now k self).2.waiting k') : y ∈ s.waiting k' := by
  by_cases hk : k' = k
  · subst hk
    rw [waiting_register_self] at h
    exact absurd h List.not_mem_nil
  · rwa [waiting_register_ne self hk] at h

/-- Only signaling whose target was not found is queued, for its target. -/
theorem HandlerStep.queues (h : HandlerStep srv now id hd a e) {k : String} {x : Held}
    (hx : x ∈ e.server.waiting k) :
    x ∈ srv.waiting k ∨ (k = x.msg.remoteKey ∧ x.msg.bodyType ≠ .relay) := by
  cases h with
  | register m hp => exact .inl (Server.mem_waiting_register hx)
  | absent m hp =>
    rcases Server.mem_waiting_absent hx with hx | ⟨rfl, hk, hrelay⟩
    · exact .inl hx
    · exact .inr ⟨hk, hrelay⟩
  | close res hp =>
    rw [Server.waiting_unregister] at hx
    exact .inl hx
  | _ => exact .inl hx

/-- A handler hands over what waited for its key. -/
private theorem HandlerStep.hands_over (h : HandlerStep srv now id hd a e) {x : Held}
    (hx : x ∈ e.handler.phase.undelivered) :
    x ∈ hd.phase.undelivered ∨ (x ∈ srv.waiting hd.peerKey ∧ ∃ m, hd.phase = .register m) := by
  cases h with
  | recv m hp =>
    rw [(hd.underway_received id m).2] at hx
    exact absurd hx List.not_mem_nil
  -- what is handed over was waiting for the key that registers
  | register m hp =>
    rw [undelivered_delivering] at hx
    have htaken : (srv.register now hd.peerKey id).1 = srv.waiting hd.peerKey ∨
        (srv.register now hd.peerKey id).1 = [] := Server.register_taken hd.peerKey id
    rcases htaken with heq | heq
    · exact .inr ⟨heq ▸ hx, m, hp⟩
    · rw [heq] at hx
      exact absurd hx List.not_mem_nil
  | delivered m q queued hp =>
    rw [undelivered_delivering] at hx
    rw [hp]
    exact .inl (List.mem_cons_of_mem _ hx)
  | broke m q queued hp =>
    rw [undelivered_afterChecks] at hx
    exact absurd hx List.not_mem_nil
  | _ => exact absurd hx List.not_mem_nil

/-- A delivery is not forwarded. -/
private theorem delivering_ne_forward (m m' : Message) (queued : List Held) (target : StreamId) :
    delivering m queued ≠ .forward m' target := by
  unfold delivering
  split
  · exact afterChecks_ne_forward m m' target
  · exact nofun

/-- A handler forwards to the stream under the target's key. -/
private theorem HandlerStep.forwards_to (h : HandlerStep srv now id hd a e) {m : Message}
    {target : StreamId} (hp : e.handler.phase = .forward m target) :
    srv.streams m.remoteKey = some target := by
  cases h with
  | recv m' hp' =>
    -- a received message is refused, registers its sender or goes on to its target
    rcases hd.received_phase m' with ⟨res, hr⟩ | ⟨hr, _⟩ | hr
    · cases hr.symm.trans hp
    · cases hr.symm.trans hp
    · exact absurd (hr.symm.trans hp) (afterChecks_ne_forward _ _ _)
  -- the table was looked up just now
  | found m' t hp' hs =>
    obtain ⟨rfl, rfl⟩ := Phase.forward.inj hp
    exact hs
  | broke m' q queued hp' => exact absurd hp (afterChecks_ne_forward _ _ _)
  | register m' hp' => exact absurd hp (delivering_ne_forward _ _ _ _)
  | delivered m' q queued hp' => exact absurd hp (delivering_ne_forward _ _ _ _)
  | _ => cases hp

end Step

/-! ## Addressees -/

/-- The verified key of the stream is `k`. -/
def State.BelongsTo (s : State) (id : StreamId) (k : String) : Prop :=
  ∃ hd, s.handlers id = some hd ∧ hd.authKey = some k

/-- Messages wait for, and are on the way to, the peers they are addressed to; those that wait are
    signaling. -/
structure Addressed (s : State) : Prop where
  waiting : ∀ k, ∀ x ∈ s.server.waiting k, x.msg.remoteKey = k ∧ x.msg.bodyType ≠ .relay
  undelivered : ∀ id hd, s.handlers id = some hd → ∀ x ∈ hd.phase.undelivered,
    hd.authKey = some x.msg.remoteKey ∧ x.msg.bodyType ≠ .relay
  forwarding : ∀ id hd m target, s.handlers id = some hd → hd.phase = .forward m target →
    s.BelongsTo target m.remoteKey
  written : ∀ w ∈ s.written, s.BelongsTo w.1 w.2.msg.remoteKey

section Addressed

variable {s : State} {id : StreamId} {hd : Handler} {a : Action} {e : Effect}

/-- A handler delivers to the key that its stream belongs to. -/
private theorem Addressed.undelivered_after (hs : Addressed s) (ha : Authentic s)
    (hh : s.handlers id = some hd) (h : HandlerStep s.server s.now id hd a e) {x : Held}
    (hx : x ∈ e.handler.phase.undelivered) :
    e.handler.authKey = some x.msg.remoteKey ∧ x.msg.bodyType ≠ .relay := by
  rw [h.authKey_eq]
  rcases h.hands_over hx with hx | ⟨hx, m, hp⟩
  · exact hs.undelivered id hd hh x hx
  · -- a handler registers under its verified key
    obtain ⟨hkey, hrelay⟩ := hs.waiting _ x hx
    obtain ⟨k, hauth, hname | ⟨_, hnot⟩⟩ := ha.verified id hd hh
    · rw [hauth, hkey, hname]
      exact ⟨rfl, hrelay⟩
    · exact absurd hp (hnot m)

/-- An action keeps every message on its way to its addressee. -/
theorem Addressed.after (hs : Addressed s) (ha : Authentic s) (hh : s.handlers id = some hd)
    (h : HandlerStep s.server s.now id hd a e) : Addressed (s.after id e) where
  waiting k x hx := by
    rcases h.queues hx with hx | ⟨hk, hrelay⟩
    · exact hs.waiting k x hx
    · exact ⟨hk.symm, hrelay⟩
  undelivered i hd' hi x hx := by
    rcases PMap.set_eq_some _ hi with ⟨_, rfl⟩ | ⟨_, hi⟩
    · exact hs.undelivered_after ha hh h hx
    · exact hs.undelivered i hd' hi x hx
  forwarding i hd' m target hi hp := by
    rcases PMap.set_eq_some _ hi with ⟨_, rfl⟩ | ⟨_, hi⟩
    · exact exists_handler_after hh h (ha.routed _ _ (h.forwards_to hp))
    · exact exists_handler_after hh h (hs.forwarding i hd' m target hi hp)
  written w hw := by
    rcases List.mem_append.mp hw with hw | hw
    · refine exists_handler_after hh h ?_
      -- a waiting message is written to the own stream, a forwarded one to the target's
      rcases h.writes hw with ⟨hid, m, queued, hp⟩ | ⟨m, hp, heq⟩
      · have hx : w.2 ∈ hd.phase.undelivered := by
          rw [hp]
          exact List.mem_cons_self
        rw [hid]
        exact ⟨hd, hh, (hs.undelivered id hd hh w.2 hx).1⟩
      · rw [heq]
        exact hs.forwarding id hd m w.1 hh hp
    · exact exists_handler_after hh h (hs.written w hw)

/-- Opening a stream changes no message. -/
theorem Addressed.opened (hs : Addressed s) (hfresh : s.handlers id = none)
    (authKey : Option String) :
    Addressed { s with handlers := s.handlers.set id { authKey } } := by
  have hold {i : StreamId} {k : String} (hi : s.BelongsTo i k) :
      State.BelongsTo { s with handlers := s.handlers.set id { authKey } } i k := by
    obtain ⟨hd, hi, hk⟩ := hi
    -- a stream that belongs to a key is not the new one
    have hne : i ≠ id := by
      intro heq
      exact nomatch (heq ▸ hi).symm.trans hfresh
    exact ⟨hd, (PMap.set_ne _ _ hne).trans hi, hk⟩
  refine ⟨hs.waiting, fun i hd hi x hx => ?_, fun i hd m target hi hp => ?_,
    fun w hw => hold (hs.written w hw)⟩
  · rcases PMap.set_eq_some _ hi with ⟨_, rfl⟩ | ⟨_, hi⟩
    · exact absurd hx List.not_mem_nil
    · exact hs.undelivered i hd hi x hx
  · rcases PMap.set_eq_some _ hi with ⟨_, rfl⟩ | ⟨_, hi⟩
    · exact nomatch hp
    · exact hold (hs.forwarding i hd m target hi hp)

theorem addressed_init : Addressed {} where
  waiting _ _ hx := absurd hx List.not_mem_nil
  undelivered _ _ h := by simp only [PMap.empty_apply, reduceCtorEq] at h
  forwarding _ _ _ _ h := by simp only [PMap.empty_apply, reduceCtorEq] at h
  written _ h := absurd h List.not_mem_nil

/-- Every event keeps every message on its way to its addressee. -/
theorem Addressed.step {s' : State} {ev : Event} (hs : Addressed s) (ha : Authentic s)
    (h : step s ev = some s') : Addressed s' := by
  rcases step_cases h with ⟨id, authKey, rfl, hfresh, rfl⟩ | ⟨id, a, hd, e, rfl, hh, he, rfl⟩ |
    ⟨d, rfl, rfl⟩
  · exact hs.opened hfresh authKey
  · exact hs.after ha hh he
  · -- the clock is no part of the invariant
    exact ⟨hs.waiting, hs.undelivered, hs.forwarding, hs.written⟩

/-- Both invariants hold after every run of authenticated streams. -/
theorem addressed_run {es : List Event} (hauth : ∀ ev ∈ es, ev.Authenticated)
    (h : exec step {} es = some s) : Authentic s ∧ Addressed s := by
  have hstep (s : State) (ev : Event) (s' : State) (hev : ev.Authenticated)
      (hs : Authentic s ∧ Addressed s) (h : Signal.step s ev = some s') :
      Authentic s' ∧ Addressed s' := ⟨hs.1.step hev h, hs.2.step hs.1 h⟩
  exact exec_invariant hstep hauth ⟨authentic_init, addressed_init⟩ h

end Addressed

/-- **Delivery to the addressee.** With the interceptor installed, in every interleaving every
    message, whether forwarded at once or held until its target came back, is only ever written to
    streams whose verified key is the key it is addressed to. -/
theorem written_to_addressee {es : List Event} {s : State} (hauth : ∀ ev ∈ es, ev.Authenticated)
    (h : exec step {} es = some s) (target : StreamId) (x : Held)
    (hx : (target, x) ∈ s.written) :
    ∃ hd, s.handlers target = some hd ∧ hd.authKey = some x.msg.remoteKey := by
  exact (addressed_run hauth h).2.written _ hx

/-- The offer that waited for `B` is written to the stream of `B`. -/
theorem heldOffer_to_addressee :
    ∃ s, exec step {} heldOfferRun = some s ∧ s.written = [(2, ⟨1, heldOffer⟩)] ∧
      ∃ hd, s.handlers 2 = some hd ∧ hd.authKey = some "B" := by
  obtain ⟨s, hrun, hs⟩ := heldOfferRun_written
  refine ⟨s, hrun, hs, written_to_addressee heldOfferRun_authenticated hrun 2 ⟨1, heldOffer⟩ ?_⟩
  rw [hs]
  exact List.mem_singleton.mpr rfl

/-! ## Relay data in order -/

/-- The message is relay data sent by `src`. -/
def Held.relays (src : StreamId) (x : Held) : Bool := x.src == src && x.msg.bodyType == .relay

/-- The messages written to a stream, oldest first. -/
def State.writtenTo (s : State) (target : StreamId) : List Held :=
  (s.written.reverse.filter (·.1 == target)).map (·.2)

/-- The relay data received from `src`, oldest first. -/
def State.relayedBy (s : State) (src : StreamId) : List Held :=
  s.received.reverse.filter (·.relays src)

/-- What `src` has relayed to a stream comes, in order, before what it is at work on. -/
def RelayOrdered (src : StreamId) (s : State) : Prop :=
  ∀ t, ((s.writtenTo t).filter (·.relays src) ++ (s.underway src).filter (·.relays src)).Sublist
    (s.relayedBy src)

section RelayOrdered

variable {s : State} {src id t : StreamId} {hd : Handler} {a : Action} {e : Effect}

/-- What an action adds to a stream. -/
theorem writtenTo_after (h : HandlerStep s.server s.now id hd a e) :
    (s.after id e).writtenTo t = s.writtenTo t ++ (e.written.filter (·.1 == t)).map (·.2) := by
  have hrev : e.written.reverse = e.written := by
    cases h with
    | forward m target ok hp => cases ok <;> rfl
    | _ => rfl
  simp only [State.writtenTo, State.after, List.reverse_append, List.filter_append, hrev,
    List.map_append]

/-- What an action adds to the data that a stream relays. -/
private theorem relayedBy_after (h : HandlerStep s.server s.now id hd a e) :
    (s.after id e).relayedBy src = s.relayedBy src ++ e.received.filter (·.relays src) := by
  have hrev : e.received.reverse = e.received := by
    cases h <;> rfl
  simp only [State.relayedBy, State.after, List.reverse_append, List.filter_append, hrev]

/-- A message of another stream is not relayed by this one. -/
private theorem relays_of_ne {m : Message} (h : id ≠ src) :
    ([⟨id, m⟩] : List Held).filter (·.relays src) = [] := by
  simp [Held.relays, h]

/-- An action that relays nothing to `t`. -/
theorem RelayOrdered.quiet (hs : RelayOrdered src s) (hh : s.handlers id = some hd)
    (h : HandlerStep s.server s.now id hd a e)
    (hnone : ((e.written.filter (·.1 == t)).map (·.2)).filter (·.relays src) = []) :
    (((s.after id e).writtenTo t).filter (·.relays src) ++
      ((s.after id e).underway src).filter (·.relays src)).Sublist
        ((s.after id e).relayedBy src) := by
  have hunder : (((s.after id e).underway src).filter (·.relays src)).Sublist
      ((s.underway src).filter (·.relays src) ++ e.received.filter (·.relays src)) := by
    -- the handler that acts, or another one
    by_cases heq : src = id
    · subst heq
      rw [State.underway_after_self, State.underway_eq hh, ← List.filter_append]
      exact h.underway_sublist.filter _
    · rw [State.underway_after_ne heq]
      exact List.sublist_append_left _ _
  rw [writtenTo_after h, relayedBy_after h, List.filter_append, hnone, List.append_nil]
  have hgrown := (List.Sublist.refl ((s.writtenTo t).filter (·.relays src))).append hunder
  rw [← List.append_assoc] at hgrown
  exact hgrown.trans ((hs t).append (List.Sublist.refl _))

/-- Relay data is written in the order in which it was received. -/
theorem RelayOrdered.after (hs : RelayOrdered src s) (ha : Addressed s)
    (hh : s.handlers id = some hd) (h : HandlerStep s.server s.now id hd a e) :
    RelayOrdered src (s.after id e) := by
  intro t
  have hstep := h
  cases h with
  | delivered m q queued hp =>
    -- what was held is not relay data
    have hq : q.msg.bodyType ≠ .relay := by
      refine (ha.undelivered id hd hh q ?_).2
      rw [hp]
      exact List.mem_cons_self
    refine hs.quiet hh hstep ?_
    by_cases hid : id = t <;> simp [hid, Held.relays, hq]
  | forward m target ok hp =>
    by_cases hmine : ok = true ∧ target = t ∧ id = src
    · -- the message in hand is written, and no other is taken up
      obtain ⟨rfl, rfl, rfl⟩ := hmine
      have hold := hs target
      rw [State.underway_eq hh, hp] at hold
      rw [writtenTo_after hstep, relayedBy_after hstep, State.underway_after_self]
      simpa [List.filter_append, Phase.underway] using hold
    · -- it failed, goes to another stream, or comes from one
      refine hs.quiet hh hstep ?_
      cases ok with
      | false => rfl
      | true =>
        by_cases ht : target = t
        · have hne : id ≠ src := fun heq => hmine ⟨rfl, ht, heq⟩
          simpa [ht] using relays_of_ne hne
        · simp [ht]
  | _ => exact hs.quiet hh hstep rfl

/-- Opening a stream has nothing underway. -/
theorem RelayOrdered.opened (hs : RelayOrdered src s) (hfresh : s.handlers id = none)
    (authKey : Option String) :
    RelayOrdered src { s with handlers := s.handlers.set id { authKey } } := by
  intro t
  rw [State.underway_opened hfresh authKey src]
  exact hs t

/-- Every event keeps the order. -/
theorem RelayOrdered.step {s' : State} {ev : Event} (hs : RelayOrdered src s) (ha : Addressed s)
    (h : step s ev = some s') : RelayOrdered src s' := by
  rcases step_cases h with ⟨id, authKey, rfl, hfresh, rfl⟩ | ⟨id, a, hd, e, rfl, hh, he, rfl⟩ |
    ⟨d, rfl, rfl⟩
  · exact hs.opened hfresh authKey
  · exact hs.after ha hh he
  · exact hs

theorem relayOrdered_init : RelayOrdered src {} := fun _ => List.nil_sublist _

end RelayOrdered

end Blinex.Native.Signal
