import Blinex.Spec.SignalPending

/-!
# The order in which signaling arrives

A new stream is in the routing table before the messages taken for it are written,
so a message that is forwarded may overtake one that was held.

## Key results

- `sender_order`: what one stream signals to another arrives in order, unless it is
  forwarded while earlier messages of the same sender are still being handed over.
-/

namespace Blinex.Native.Signal

open Signalv1 (Message)

/-! ## Nothing is written to a stream before it registers -/

/-- The stream has been registered at some point. -/
def State.HasRegistered (s : State) (id : StreamId) : Prop := ∃ k, (k, id) ∈ s.registered

/-- A stream registers once, and is not written to before. -/
structure RegistersOnce (s : State) : Prop where
  named : ∀ id, s.HasRegistered id →
    ∃ hd, s.handlers id = some hd ∧ hd.peerKey ≠ "" ∧ ∀ m, hd.phase ≠ .register m
  registering : ∀ id hd m, s.handlers id = some hd → hd.phase = .register m → hd.peerKey ≠ ""
  routed : ∀ k id, s.server.streams k = some id → s.HasRegistered id
  forwarding : ∀ id hd m target, s.handlers id = some hd → hd.phase = .forward m target →
    s.HasRegistered target
  delivering : ∀ id hd m queued, s.handlers id = some hd → hd.phase = .deliver m queued →
    s.HasRegistered id
  written : ∀ w ∈ s.written, s.HasRegistered w.1

section RegistersOnce

variable {srv : Server} {now : Nat} {id : StreamId} {hd : Handler} {a : Action} {e : Effect}

/-- A message that was just checked is not forwarded yet. -/
theorem afterChecks_ne_forward (m m' : Message) (target : StreamId) :
    afterChecks m ≠ .forward m' target := by
  unfold afterChecks
  split <;> exact nofun

private theorem afterChecks_ne_deliver (m m' : Message) (queued : List Held) :
    afterChecks m ≠ .deliver m' queued := by
  unfold afterChecks
  split <;> exact nofun

/-- What the checks on a received message lead to. -/
theorem Handler.received_phase (hd : Handler) (m : Message) :
    (∃ res, (hd.received m).phase = .closing res) ∨
    ((hd.received m).phase = .register m ∧ hd.peerKey = "") ∨
    (hd.received m).phase = afterChecks m := by
  unfold Handler.received Handler.fail
  -- the first message registers, the later ones only have to name the same key
  split
  · rename_i hempty
    split
    · exact .inl ⟨_, rfl⟩
    · split
      · exact .inl ⟨_, rfl⟩
      · exact .inr (.inl ⟨rfl, hempty⟩)
  · split
    · exact .inl ⟨_, rfl⟩
    · exact .inr (.inr rfl)

/-- A handler forwards to a stream it has found in the table. -/
theorem HandlerStep.forwards (h : HandlerStep srv now id hd a e) {m : Message}
    {target : StreamId} (hp : e.handler.phase = .forward m target) :
    ∃ k, srv.streams k = some target := by
  cases h with
  | recv m' hp' =>
    -- a received message is refused, registers its sender or goes on to its target
    rcases hd.received_phase m' with ⟨res, hr⟩ | ⟨hr, _⟩ | hr
    · cases hr.symm.trans hp
    · cases hr.symm.trans hp
    · exact absurd (hr.symm.trans hp) (afterChecks_ne_forward _ _ _)
  | register m' hp' =>
    simp only [Signal.delivering] at hp
    split at hp
    · exact absurd hp (afterChecks_ne_forward _ _ _)
    · cases hp
  | delivered m' q queued hp' =>
    simp only [Signal.delivering] at hp
    split at hp
    · exact absurd hp (afterChecks_ne_forward _ _ _)
    · cases hp
  | broke m' q queued hp' => exact absurd hp (afterChecks_ne_forward _ _ _)
  -- the table was looked up just now
  | found m' t hp' hs =>
    obtain ⟨-, rfl⟩ := Phase.forward.inj hp
    exact ⟨_, hs⟩
  | _ => cases hp

/-- A handler only has held messages in hand from its registration on. -/
private theorem HandlerStep.delivers (h : HandlerStep srv now id hd a e) {m : Message}
    {queued : List Held} (hp : e.handler.phase = .deliver m queued) :
    (∃ m queued, hd.phase = .deliver m queued) ∨ e.registered = [(hd.peerKey, id)] := by
  cases h with
  | recv m' hp' =>
    rcases hd.received_phase m' with ⟨res, hr⟩ | ⟨hr, _⟩ | hr
    · cases hr.symm.trans hp
    · cases hr.symm.trans hp
    · exact absurd (hr.symm.trans hp) (afterChecks_ne_deliver _ _ _)
  | register m' hp' => exact .inr rfl
  | delivered m' q queued' hp' => exact .inl ⟨_, _, hp'⟩
  | broke m' q queued' hp' => exact absurd hp (afterChecks_ne_deliver _ _ _)
  | _ => cases hp

/-- A named handler that has left its registration behind does not come back to it. -/
private theorem HandlerStep.ne_register (h : HandlerStep srv now id hd a e) (hne : hd.peerKey ≠ "")
    (m : Message) : e.handler.phase ≠ .register m := by
  cases h with
  | recv m' hp' =>
    rcases hd.received_phase m' with ⟨res, hr⟩ | ⟨_, hempty⟩ | hr
    · rw [hr]
      exact nofun
    · -- only a handler without a key registers
      exact absurd hempty hne
    · rw [hr]
      exact afterChecks_ne_register _ _
  | register m' hp' => exact delivering_ne_register _ _ _
  | delivered m' q queued hp' => exact delivering_ne_register _ _ _
  | broke m' q queued hp' => exact afterChecks_ne_register _ _
  | _ => exact nofun

/-- Where the writes of an action go: to the own stream or the one in hand. -/
theorem HandlerStep.writes (h : HandlerStep srv now id hd a e) {w : StreamId × Held}
    (hw : w ∈ e.written) :
    (w.1 = id ∧ ∃ m queued, hd.phase = .deliver m (w.2 :: queued)) ∨
    (∃ m, hd.phase = .forward m w.1 ∧ w.2 = ⟨id, m⟩) := by
  cases h with
  | delivered m q queued hp =>
    obtain rfl := List.mem_singleton.mp hw
    exact .inl ⟨rfl, m, queued, hp⟩
  | forward m target ok hp =>
    -- nothing is written where the send fails
    cases ok with
    | true =>
      obtain rfl := List.mem_singleton.mp hw
      exact .inr ⟨m, hp, rfl⟩
    | false => exact absurd hw List.not_mem_nil
  | _ => exact absurd hw List.not_mem_nil

end RegistersOnce

section RegistersOnceRun

variable {s : State} {id : StreamId} {hd : Handler} {a : Action} {e : Effect}

theorem State.HasRegistered.after {i : StreamId} (h : s.HasRegistered i) :
    (s.after id e).HasRegistered i := by
  obtain ⟨k, hk⟩ := h
  exact ⟨k, List.mem_append_right _ hk⟩

/-- A stream that has registered has a name and does not register again. -/
private theorem RegistersOnce.named_after (hs : RegistersOnce s) (hh : s.handlers id = some hd)
    (h : HandlerStep s.server s.now id hd a e) {i : StreamId}
    (hi : (s.after id e).HasRegistered i) :
    ∃ hd, (s.after id e).handlers i = some hd ∧ hd.peerKey ≠ "" ∧ ∀ m, hd.phase ≠ .register m := by
  -- the handler that acts keeps its name and is not about to register
  have hself (hne : hd.peerKey ≠ "") : ∃ hd, (s.after id e).handlers id = some hd ∧
      hd.peerKey ≠ "" ∧ ∀ m, hd.phase ≠ .register m :=
    ⟨e.handler, s.after_handlers_self id e, by rw [h.peerKey_eq hne]; exact hne, h.ne_register hne⟩
  have hold (hreg : s.HasRegistered i) : ∃ hd, (s.after id e).handlers i = some hd ∧
      hd.peerKey ≠ "" ∧ ∀ m, hd.phase ≠ .register m := by
    obtain ⟨hd', hi', hne, hphase⟩ := hs.named i hreg
    by_cases heq : i = id
    · subst heq
      obtain rfl := Option.some.inj (hh.symm.trans hi')
      exact hself hne
    · exact ⟨hd', (s.after_handlers_ne e heq).trans hi', hne, hphase⟩
  obtain ⟨k, hk⟩ := hi
  rcases List.mem_append.mp hk with hk | hk
  · -- the action registered the stream just now, or it had registered before
    rcases h.table with ⟨_, hreg, _⟩ | ⟨m, hp, _, hreg, _⟩ | ⟨_, hreg, _⟩
    · rw [hreg] at hk
      exact absurd hk List.not_mem_nil
    · rw [hreg, List.mem_singleton, Prod.mk.injEq] at hk
      obtain ⟨-, rfl⟩ := hk
      exact hself (hs.registering i hd m hh hp)
    · rw [hreg] at hk
      exact absurd hk List.not_mem_nil
  · exact hold ⟨k, hk⟩

/-- The table leads to streams that have registered. -/
private theorem RegistersOnce.routed_after (hs : RegistersOnce s)
    (h : HandlerStep s.server s.now id hd a e) {k : String} {i : StreamId}
    (hi : e.server.streams k = some i) : (s.after id e).HasRegistered i := by
  rcases h.table with ⟨htab, _, _⟩ | ⟨m, hp, htab, hreg, _⟩ | ⟨htab, _, _⟩
  · rw [htab] at hi
    exact (hs.routed k i hi).after
  · rw [htab] at hi
    rcases PMap.set_eq_some _ hi with ⟨rfl, rfl⟩ | ⟨_, hi⟩
    · exact ⟨hd.peerKey, List.mem_append_left _ (by rw [hreg]; exact List.mem_singleton.mpr rfl)⟩
    · exact (hs.routed k i hi).after
  · rw [htab] at hi
    exact (hs.routed k i (Server.unregister_eq_some.mp hi).1).after

/-- An action keeps the invariant. -/
theorem RegistersOnce.after (hs : RegistersOnce s) (hh : s.handlers id = some hd)
    (h : HandlerStep s.server s.now id hd a e) : RegistersOnce (s.after id e) where
  named _ hi := hs.named_after hh h hi
  registering i hd' m hi hp := by
    rcases PMap.set_eq_some _ hi with ⟨_, rfl⟩ | ⟨_, hi⟩
    · exact h.registering hp
    · exact hs.registering i hd' m hi hp
  routed _ _ hi := hs.routed_after h hi
  forwarding i hd' m target hi hp := by
    rcases PMap.set_eq_some _ hi with ⟨_, rfl⟩ | ⟨_, hi⟩
    · obtain ⟨k, hk⟩ := h.forwards hp
      exact (hs.routed k target hk).after
    · exact (hs.forwarding i hd' m target hi hp).after
  delivering i hd' m queued hi hp := by
    -- the handler that acted, or another one
    rcases PMap.set_eq_some _ hi with ⟨rfl, rfl⟩ | ⟨_, hi⟩
    · rcases h.delivers hp with ⟨m', queued', hp'⟩ | hreg
      · exact (hs.delivering _ hd m' queued' hh hp').after
      · exact ⟨hd.peerKey, List.mem_append_left _ (by rw [hreg]; exact List.mem_singleton.mpr rfl)⟩
    · exact (hs.delivering i hd' m queued hi hp).after
  written w hw := by
    rcases List.mem_append.mp hw with hw | hw
    · -- written to the own stream, or forwarded
      rcases h.writes hw with ⟨hid, m, queued, hp⟩ | ⟨m, hp, _⟩
      · rw [hid]
        exact (hs.delivering id hd m _ hh hp).after
      · exact (hs.forwarding id hd m _ hh hp).after
    · exact (hs.written w hw).after

/-- A stream that was just opened has not registered. -/
theorem RegistersOnce.opened (hs : RegistersOnce s) (hfresh : s.handlers id = none)
    (authKey : Option String) :
    RegistersOnce { s with handlers := s.handlers.set id { authKey } } where
  named i hi := by
    obtain ⟨hd, hh, hrest⟩ := hs.named i hi
    -- the new stream had no handler
    have hne : i ≠ id := by
      intro heq
      exact nomatch (heq ▸ hh).symm.trans hfresh
    exact ⟨hd, (PMap.set_ne _ _ hne).trans hh, hrest⟩
  registering i hd m hi hp := by
    -- the new handler has no message in hand
    rcases PMap.set_eq_some _ hi with ⟨_, rfl⟩ | ⟨_, hi⟩
    · exact nomatch hp
    · exact hs.registering i hd m hi hp
  routed := hs.routed
  forwarding i hd m target hi hp := by
    rcases PMap.set_eq_some _ hi with ⟨_, rfl⟩ | ⟨_, hi⟩
    · exact nomatch hp
    · exact hs.forwarding i hd m target hi hp
  delivering i hd m queued hi hp := by
    rcases PMap.set_eq_some _ hi with ⟨_, rfl⟩ | ⟨_, hi⟩
    · exact nomatch hp
    · exact hs.delivering i hd m queued hi hp
  written := hs.written

/-- At the start there are no streams. -/
private theorem registersOnce_init : RegistersOnce {} where
  named _ h := by
    obtain ⟨k, hk⟩ := h
    exact absurd hk List.not_mem_nil
  registering _ _ _ h := by simp only [PMap.empty_apply, reduceCtorEq] at h
  routed _ _ h := by simp only [PMap.empty_apply, reduceCtorEq] at h
  forwarding _ _ _ _ h := by simp only [PMap.empty_apply, reduceCtorEq] at h
  delivering _ _ _ _ h := by simp only [PMap.empty_apply, reduceCtorEq] at h
  written _ h := absurd h List.not_mem_nil

end RegistersOnceRun

/-! ## Order -/

/-- The message is signaling sent by `src`. -/
def Held.signals (src : StreamId) (x : Held) : Bool := x.src == src && x.msg.bodyType != .relay

/-- The signaling received from `src`, oldest first. -/
def State.sentBy (s : State) (src : StreamId) : List Held :=
  s.received.reverse.filter (·.signals src)

/-- The signaling of `src` written to the stream `target`, oldest first. -/
def State.gotFrom (s : State) (src target : StreamId) : List Held :=
  ((s.written.reverse.filter (·.1 == target)).map (·.2)).filter (·.signals src)

/-- When a signaling message is forwarded, none of the same sender's is still to be
    handed over to the target. -/
def NotOvertaking (s : State) : Event → Prop
  | .act id (.forward true) => ∀ hd m target td tm queued, s.handlers id = some hd →
      hd.phase = .forward m target → m.bodyType ≠ .relay → s.handlers target = some td →
      td.phase = .deliver tm queued → ∀ x ∈ queued, x.src ≠ id
  | _ => True

/-- The received message a handler is at work on. -/
def Phase.underway (self : StreamId) : Phase → List Held
  | .register m | .deliver m _ | .lookup m | .absent m | .forward m _ => [⟨self, m⟩]
  | .recv | .closing _ | .done _ => []

/-- The held messages a handler has taken and not yet written. -/
def Phase.undelivered : Phase → List Held
  | .deliver _ queued => queued
  | _ => []

/-- The message that a stream has received and not passed on yet. -/
def State.underway (s : State) (src : StreamId) : List Held :=
  match s.handlers src with
  | some hd => hd.phase.underway src
  | none => []

/-- A stream that has just been opened has nothing in hand, like no stream at all. -/
theorem State.underway_opened {s : State} {id : StreamId} (hfresh : s.handlers id = none)
    (authKey : Option String) (src : StreamId) :
    State.underway { s with handlers := s.handlers.set id { authKey } } src = s.underway src := by
  unfold State.underway
  by_cases heq : src = id
  · subst heq
    simp only [PMap.set_self, hfresh, Phase.underway]
  · simp only [PMap.set_ne _ _ heq]

/-- What a stream has taken from its queue and not delivered yet. -/
def State.undelivered (s : State) (target : StreamId) : List Held :=
  match s.handlers target with
  | some hd => hd.phase.undelivered
  | none => []

/-- The invariant behind `sender_order`: what has been written to a stream or waits
    for it comes before the message its sender is at work on. -/
structure Ordered (src : StreamId) (s : State) : Prop where
  waiting : ∀ k, ((s.server.waiting k).filter (·.signals src) ++
    (s.underway src).filter (·.signals src)).Sublist (s.sentBy src)
  written : ∀ t, (s.gotFrom src t ++ (s.undelivered t).filter (·.signals src) ++
    (s.underway src).filter (·.signals src)).Sublist (s.sentBy src)

section Order

variable {s : State} {src id t : StreamId} {hd : Handler} {a : Action} {e : Effect}

/-- A message of another stream is not one of this stream. -/
private theorem signals_of_ne {m : Message} (h : id ≠ src) :
    ([⟨id, m⟩] : List Held).filter (·.signals src) = [] := by
  simp [Held.signals, h]

/-- After the checks the message is underway, or done with. -/
private theorem underway_afterChecks (self : StreamId) (m : Message) :
    ((afterChecks m).underway self).Sublist [⟨self, m⟩] := by
  unfold afterChecks
  split
  · exact List.nil_sublist _
  · exact List.Sublist.refl _

/-- During a delivery the message is still underway. -/
private theorem underway_delivering (self : StreamId) (m : Message) (queued : List Held) :
    ((delivering m queued).underway self).Sublist [⟨self, m⟩] := by
  unfold delivering
  split
  · exact underway_afterChecks self m
  · exact List.Sublist.refl _

/-- After the checks nothing is left to deliver. -/
theorem undelivered_afterChecks (m : Message) : (afterChecks m).undelivered = [] := by
  unfold afterChecks
  split <;> rfl

/-- What is left to deliver is the rest of the queue. -/
theorem undelivered_delivering (m : Message) (queued : List Held) :
    (delivering m queued).undelivered = queued := by
  unfold delivering
  split
  · rename_i hnil
    rw [hnil]
    exact undelivered_afterChecks m
  · rfl

/-- A message that arrives is underway, unless the stream closes. -/
theorem Handler.underway_received (hd : Handler) (self : StreamId) (m : Message) :
    ((hd.received m).phase.underway self).Sublist [⟨self, m⟩] ∧
      (hd.received m).phase.undelivered = [] := by
  rcases hd.received_phase m with ⟨res, hr⟩ | ⟨hr, _⟩ | hr <;> rw [hr]
  · exact ⟨List.nil_sublist _, rfl⟩
  · exact ⟨List.Sublist.refl _, rfl⟩
  · exact ⟨underway_afterChecks self m, undelivered_afterChecks m⟩

/-- A handler is at work on what it was at work on, or on what it has just received. -/
theorem HandlerStep.underway_sublist {srv : Server} {now : Nat}
    (h : HandlerStep srv now id hd a e) :
    (e.handler.phase.underway id).Sublist (hd.phase.underway id ++ e.received) := by
  cases h with
  | recv m hp =>
    rw [hp]
    exact (hd.underway_received id m).1
  | register m hp =>
    rw [hp]
    exact (underway_delivering id m _).trans (List.sublist_append_left _ _)
  | delivered m q queued hp =>
    rw [hp]
    exact (underway_delivering id m _).trans (List.sublist_append_left _ _)
  | broke m q queued hp =>
    rw [hp]
    exact (underway_afterChecks id m).trans (List.sublist_append_left _ _)
  -- looking the target up does not change the message
  | missed m hp hs =>
    rw [hp]
    exact List.sublist_append_left _ _
  | found m target hp hs =>
    rw [hp]
    exact List.sublist_append_left _ _
  | _ => exact List.nil_sublist _

/-- What is underway on the stream that acts. -/
theorem State.underway_after_self : (s.after id e).underway id = e.handler.phase.underway id := by
  simp only [State.underway, State.after_handlers_self]

theorem State.underway_after_ne (h : src ≠ id) : (s.after id e).underway src = s.underway src := by
  simp only [State.underway, s.after_handlers_ne e h]

theorem State.underway_eq (hh : s.handlers id = some hd) :
    s.underway id = hd.phase.underway id := by
  simp only [State.underway, hh]

/-- What is left to deliver on the stream that acts. -/
private theorem State.undelivered_after_self :
    (s.after id e).undelivered id = e.handler.phase.undelivered := by
  simp only [State.undelivered, State.after_handlers_self]

private theorem State.undelivered_after_ne (h : t ≠ id) :
    (s.after id e).undelivered t = s.undelivered t := by
  simp only [State.undelivered, s.after_handlers_ne e h]

/-- What is left to deliver, by the handler. -/
private theorem State.undelivered_eq (hh : s.handlers id = some hd) :
    s.undelivered id = hd.phase.undelivered := by
  simp only [State.undelivered, hh]

/-- What `src` is at work on after an action, its own or another's. -/
private theorem underway_after_sublist (src : StreamId) (hh : s.handlers id = some hd)
    (h : HandlerStep s.server s.now id hd a e) :
    (((s.after id e).underway src).filter (·.signals src)).Sublist
      ((s.underway src).filter (·.signals src) ++ e.received.filter (·.signals src)) := by
  by_cases heq : src = id
  · subst heq
    rw [State.underway_after_self, State.underway_eq hh, ← List.filter_append]
    exact h.underway_sublist.filter _
  · rw [State.underway_after_ne heq]
    exact List.sublist_append_left _ _

/-- The received log grows by what the action receives. -/
private theorem sentBy_after (h : HandlerStep s.server s.now id hd a e) :
    (s.after id e).sentBy src = s.sentBy src ++ e.received.filter (·.signals src) := by
  have hrev : e.received.reverse = e.received := by
    cases h <;> rfl
  simp only [State.sentBy, State.after, List.reverse_append, List.filter_append, hrev]

/-- What an action adds to what a stream got from another one. -/
private theorem gotFrom_after (h : HandlerStep s.server s.now id hd a e) :
    (s.after id e).gotFrom src t = s.gotFrom src t ++
      ((e.written.filter (·.1 == t)).map (·.2)).filter (·.signals src) := by
  have hrev : e.written.reverse = e.written := by
    cases h with
    | forward m target ok hp => cases ok <;> rfl
    | _ => rfl
  simp only [State.gotFrom, State.after, List.reverse_append, List.filter_append, List.map_append,
    hrev]

/-- What was in order stays in order while the log grows by what is at work. -/
private theorem sublist_extend {α : Type*} {A A' U U' S R : List α} (h : (A ++ U).Sublist S)
    (hA : A'.Sublist A) (hU : U'.Sublist (U ++ R)) : (A' ++ U').Sublist (S ++ R) := by
  have happ : (A' ++ U').Sublist (A ++ (U ++ R)) := hA.append hU
  rw [← List.append_assoc] at happ
  exact happ.trans (h.append_right R)

/-- The queues stay in order: what is queued is what its sender was at work on. -/
private theorem Ordered.waiting_after (hs : Ordered src s) (hh : s.handlers id = some hd)
    (h : HandlerStep s.server s.now id hd a e) (k : String) :
    ((e.server.waiting k).filter (·.signals src) ++
      ((s.after id e).underway src).filter (·.signals src)).Sublist
        ((s.after id e).sentBy src) := by
  have hU := underway_after_sublist src hh h
  rw [sentBy_after h]
  -- a queue that does not grow
  have hkept (hw : (e.server.waiting k).Sublist (s.server.waiting k)) :
      ((e.server.waiting k).filter (·.signals src) ++
        ((s.after id e).underway src).filter (·.signals src)).Sublist
        (s.sentBy src ++ e.received.filter (·.signals src)) :=
    sublist_extend (hs.waiting k) (hw.filter _) hU
  cases h with
  | register m hp =>
    apply hkept
    by_cases hk : k = hd.peerKey
    · rw [hk, Server.waiting_register_self]
      exact List.nil_sublist _
    · rw [Server.waiting_register_ne _ hk]
  | close res hp =>
    apply hkept
    rw [Server.waiting_unregister]
  | absent m hp =>
    by_cases hk : k = m.remoteKey ∧ m.bodyType ≠ .relay
    · obtain ⟨rfl, hsig⟩ := hk
      have hqueued : ∃ kept : List Held, kept.Sublist (s.server.waiting m.remoteKey) ∧
          (s.server.handleAbsentTarget s.now ⟨id, m⟩).waiting m.remoteKey = kept ++ [⟨id, m⟩] :=
        Server.waiting_handleAbsentTarget_self ⟨id, m⟩ hsig
      obtain ⟨kept, hsub, hw⟩ := hqueued
      simp only [hw, List.filter_append, List.filter_nil, List.append_nil]
      by_cases heq : src = id
      · -- the message moves from the handler to the queue
        subst heq
        have hold := hs.waiting m.remoteKey
        rw [State.underway_eq hh, hp] at hold
        rw [State.underway_after_self]
        simp only [Phase.underway, List.filter_nil, List.append_nil] at hold ⊢
        exact ((hsub.filter _).append_right _).trans hold
      · rw [signals_of_ne (Ne.symm heq), List.append_nil, State.underway_after_ne heq]
        exact ((hsub.filter _).append_right _).trans (hs.waiting m.remoteKey)
    · -- relay data is not kept, and the queues of other keys are swept at most
      apply hkept
      by_cases hsig : m.bodyType = .relay
      · rw [Server.waiting_handleAbsentTarget_relay hsig]
      · have hk' : k ≠ m.remoteKey := fun heq => hk ⟨heq, hsig⟩
        have hw : (s.server.handleAbsentTarget s.now ⟨id, m⟩).waiting k = _ ∨ _ :=
          Server.waiting_handleAbsentTarget_ne hk'
        rcases hw with hw | hw
        · rw [hw]
        · rw [hw]
          exact List.nil_sublist _
  | _ => exact hkept (List.Sublist.refl _)

/-- A stream that is about to register has been written nothing. -/
private theorem RegistersOnce.gotFrom_nil (hr : RegistersOnce s) (hh : s.handlers id = some hd)
    {m : Message} (hp : hd.phase = .register m) : s.gotFrom src id = [] := by
  have hnone : s.written.reverse.filter (·.1 == id) = [] := by
    rw [List.filter_eq_nil_iff]
    intro w hw
    rw [beq_iff_eq]
    intro hid
    obtain ⟨hd', hh', _, hne⟩ := hr.named id (hid ▸ hr.written w (List.mem_reverse.mp hw))
    obtain rfl := Option.some.inj (hh.symm.trans hh')
    exact hne m hp
  simp only [State.gotFrom, hnone, List.map_nil, List.filter_nil]

/-- Taken and written messages together, under an action that writes nothing to `t`
    and takes nothing for it. -/
private theorem undelivered_after_sublist (hh : s.handlers id = some hd)
    (h : e.handler.phase.undelivered.Sublist hd.phase.undelivered) :
    ((s.after id e).undelivered t).Sublist (s.undelivered t) := by
  by_cases heq : t = id
  · subst heq
    rw [State.undelivered_after_self, State.undelivered_eq hh]
    exact h
  · rw [State.undelivered_after_ne heq]

/-- A handler that may forward has nothing of its own left in the target's hands. -/
private theorem NotOvertaking.undelivered_nil (hok : NotOvertaking s (.act id (.forward true)))
    (hh : s.handlers id = some hd) {m : Message} (hp : hd.phase = .forward m t)
    (hsig : m.bodyType ≠ .relay) : (s.undelivered t).filter (·.signals id) = [] := by
  rw [List.filter_eq_nil_iff]
  intro x hx
  unfold State.undelivered at hx
  -- only a handler that delivers has messages in hand
  cases htd : s.handlers t with
  | none =>
    rw [htd] at hx
    exact absurd hx List.not_mem_nil
  | some td =>
    simp only [htd] at hx
    cases htp : td.phase with
    | deliver tm queued =>
      rw [htp] at hx
      have hne : x.src ≠ id := hok hd m t td tm queued hh hp hsig htd htp x hx
      simp [Held.signals, hne]
    | _ =>
      rw [htp] at hx
      exact absurd hx List.not_mem_nil

/-- The streams stay in order. -/
private theorem Ordered.written_after (hr : RegistersOnce s) (hs : Ordered src s)
    (hh : s.handlers id = some hd) (h : HandlerStep s.server s.now id hd a e)
    (hok : NotOvertaking s (.act id a)) (t : StreamId) :
    ((s.after id e).gotFrom src t ++ ((s.after id e).undelivered t).filter (·.signals src) ++
      ((s.after id e).underway src).filter (·.signals src)).Sublist
        ((s.after id e).sentBy src) := by
  have hU := underway_after_sublist src hh h
  rw [sentBy_after h, gotFrom_after h]
  have hdrop (hnil : e.handler.phase.undelivered = []) :
      ((s.after id e).undelivered t).Sublist (s.undelivered t) := by
    refine undelivered_after_sublist hh ?_
    rw [hnil]
    exact List.nil_sublist _
  -- an action that writes nothing of `src` to `t` and takes nothing for it
  have hquiet (hw : ((e.written.filter (·.1 == t)).map (·.2)).filter (·.signals src) = [])
      (hd' : ((s.after id e).undelivered t).Sublist (s.undelivered t)) :
      (s.gotFrom src t ++ ((e.written.filter (·.1 == t)).map (·.2)).filter (·.signals src) ++
        ((s.after id e).undelivered t).filter (·.signals src) ++
        ((s.after id e).underway src).filter (·.signals src)).Sublist
        (s.sentBy src ++ e.received.filter (·.signals src)) := by
    rw [hw, List.append_nil]
    exact sublist_extend (hs.written t) ((hd'.filter _).append_left _) hU
  cases h with
  | recv m hp => exact hquiet rfl (hdrop (hd.underway_received id m).2)
  | register m hp =>
    by_cases heq : t = id
    · -- a new stream: what it takes was in order in the queue
      subst heq
      have hnil : s.gotFrom src t = [] := hr.gotFrom_nil hh hp
      rw [hnil, State.undelivered_after_self, undelivered_delivering]
      refine sublist_extend (hs.waiting hd.peerKey) (List.Sublist.filter _ ?_) hU
      have htaken : (s.server.register s.now hd.peerKey t).1 = s.server.waiting hd.peerKey ∨ _ :=
        Server.register_taken hd.peerKey t
      rcases htaken with htaken | htaken <;> rw [htaken]
      exact List.nil_sublist _
    · refine hquiet rfl ?_
      rw [State.undelivered_after_ne heq]
  | delivered m q queued hp =>
    by_cases heq : t = id
    · -- a message moves from the hand to the stream
      subst heq
      have hwas : s.undelivered t = [q] ++ queued := by
        rw [State.undelivered_eq hh, hp]
        rfl
      have hwrite : ([(t, q)].filter (·.1 == t)).map (·.2) = [q] := by
        simp
      rw [State.undelivered_after_self, undelivered_delivering, hwrite]
      refine sublist_extend (hs.written t) ?_ hU
      rw [hwas, List.filter_append, List.append_assoc]
    · refine hquiet ?_ ?_
      · simp [Ne.symm heq]
      · rw [State.undelivered_after_ne heq]
  | broke m q queued hp => exact hquiet rfl (hdrop (undelivered_afterChecks m))
  | forward m target ok hp =>
    by_cases hmine : ok = true ∧ target = t ∧ src = id ∧ m.bodyType ≠ .relay
    · -- nothing of `src` is left to hand over, so its message is next in order
      obtain ⟨rfl, rfl, rfl, hsig⟩ := hmine
      have hempty : (s.undelivered target).filter (·.signals src) = [] :=
        hok.undelivered_nil hh hp hsig
      have hgone := (hdrop rfl).filter (·.signals src)
      rw [hempty, List.sublist_nil] at hgone
      have hold := hs.written target
      rw [hempty, State.underway_eq hh, hp, List.append_nil] at hold
      rw [hgone, State.underway_after_self]
      simpa [Phase.underway] using hold
    · refine hquiet ?_ (hdrop rfl)
      cases ok with
      | false => rfl
      | true =>
        simp only [Held.signals, List.filter_eq_nil_iff, List.mem_map, List.mem_filter, beq_iff_eq,
          ↓reduceIte, List.mem_singleton, Bool.and_eq_true, bne_iff_ne]
        rintro x ⟨w, ⟨rfl, hwt⟩, rfl⟩ ⟨hsrc, hsig⟩
        exact hmine ⟨rfl, hwt, hsrc.symm, hsig⟩
  | _ => exact hquiet rfl (hdrop rfl)

/-- Opening a stream changes no order. -/
theorem Ordered.opened (hs : Ordered src s) (hfresh : s.handlers id = none)
    (authKey : Option String) :
    Ordered src { s with handlers := s.handlers.set id { authKey } } := by
  have hunder := State.underway_opened hfresh authKey src
  -- nor has it taken anything from its queue
  have hundel (t : StreamId) :
      State.undelivered { s with handlers := s.handlers.set id { authKey } } t
      = s.undelivered t := by
    unfold State.undelivered
    by_cases heq : t = id
    · subst heq
      simp only [PMap.set_self, hfresh, Phase.undelivered]
    · simp only [PMap.set_ne _ _ heq]
  constructor
  · intro k
    rw [hunder]
    exact hs.waiting k
  · intro t
    rw [hunder, hundel]
    exact hs.written t

private theorem ordered_init : Ordered src {} :=
  ⟨fun _ => List.nil_sublist _, fun _ => List.nil_sublist _⟩

/-- An event that does not overtake keeps both invariants. -/
theorem Ordered.step {s' : State} {ev : Event} (hok : NotOvertaking s ev)
    (hs : RegistersOnce s ∧ Ordered src s) (h : step s ev = some s') :
    RegistersOnce s' ∧ Ordered src s' := by
  obtain ⟨hr, hs⟩ := hs
  rcases step_cases h with ⟨id, authKey, rfl, hfresh, rfl⟩ | ⟨id, a, hd, e, rfl, hh, he, rfl⟩ |
    ⟨d, rfl, rfl⟩
  · exact ⟨hr.opened hfresh authKey, hs.opened hfresh authKey⟩
  · exact ⟨hr.after hh he, hs.waiting_after hh he, hs.written_after hr hh he hok⟩
  · -- the clock is no part of the invariants
    exact ⟨⟨hr.named, hr.registering, hr.routed, hr.forwarding, hr.delivering, hr.written⟩,
      ⟨hs.waiting, hs.written⟩⟩

end Order

/-- **Order per sender.** In every interleaving in which no signaling message is
    forwarded to a stream while that stream's handler still has earlier messages of
    the same sender to hand over, the signaling written to a stream from one sender is
    a subsequence of what the sender sent, in the order it was sent. -/
theorem sender_order {es : List Event} {s : State} (hok : ExecAlong step NotOvertaking {} es)
    (h : exec step {} es = some s) (src target : StreamId) :
    (s.gotFrom src target).Sublist (s.sentBy src) := by
  have hs : RegistersOnce s ∧ Ordered src s :=
    (hok.throughout (fun _ _ _ hev hs h => Ordered.step hev hs h)
      ⟨registersOnce_init, ordered_init⟩).last h
  have hwritten := hs.2.written target
  rw [List.append_assoc] at hwritten
  exact (List.sublist_append_left _ _).trans hwritten

/-- The offer that follows the first one. -/
def newerOffer : Message :=
  { key := "A", remoteKey := "B", body := some { type := .offer, payload := "2" } }

/-- `A` sends both offers while `B` is away, `B` connects and is handed both. -/
def handedOverRun : List Event :=
  [.open 1 (some "A"), .act 1 (.recv heldOffer), .act 1 .register, .act 1 .lookup, .act 1 .absent,
    .act 1 (.recv newerOffer), .act 1 .lookup, .act 1 .absent, .open 2 (some "B"),
    .act 2 (.recv { key := "B" }), .act 2 .register, .act 2 (.deliver true),
    .act 2 (.deliver true)]

/-- Two messages that waited are handed over in their order. -/
theorem sender_order_handedOver :
    ∃ s, exec step {} handedOverRun = some s ∧
      s.gotFrom 1 2 = [⟨1, heldOffer⟩, ⟨1, newerOffer⟩] ∧
      (s.gotFrom 1 2).Sublist (s.sentBy 1) := by
  have hok : ExecAlong step NotOvertaking {} handedOverRun := by
    apply ExecAlong.of_forall
    simp [handedOverRun, NotOvertaking]
  have hrun : (exec step {} handedOverRun).map (·.gotFrom 1 2) =
      some [⟨1, heldOffer⟩, ⟨1, newerOffer⟩] := by
    decide +kernel
  obtain ⟨s, hs, hgot⟩ := Option.map_eq_some_iff.mp hrun
  exact ⟨s, hs, hgot, sender_order hok hs 1 2⟩

/-- `B` registers while `A`'s first offer is held, and `A`'s second is forwarded before
    the first is handed over. -/
def overtakingRun : List Event :=
  [.open 1 (some "A"), .act 1 (.recv heldOffer), .act 1 .register, .act 1 .lookup, .act 1 .absent,
    .open 2 (some "B"), .act 2 (.recv { key := "B" }), .act 2 .register,
    .act 1 (.recv newerOffer), .act 1 .lookup, .act 1 (.forward true), .act 2 (.deliver true)]

/-- A message that is forwarded before an older one is handed over overtakes it. -/
theorem overtakingRun_reorders :
    ∃ s, exec step {} overtakingRun = some s ∧
      s.sentBy 1 = [⟨1, heldOffer⟩, ⟨1, newerOffer⟩] ∧
      s.gotFrom 1 2 = [⟨1, newerOffer⟩, ⟨1, heldOffer⟩] := by
  have hrun : (exec step {} overtakingRun).map (fun s => (s.sentBy 1, s.gotFrom 1 2)) =
      some ([⟨1, heldOffer⟩, ⟨1, newerOffer⟩], [⟨1, newerOffer⟩, ⟨1, heldOffer⟩]) := by
    decide +kernel
  obtain ⟨s, hs, hfacts⟩ := Option.map_eq_some_iff.mp hrun
  exact ⟨s, hs, Prod.mk.inj hfacts⟩

end Blinex.Native.Signal
