import Mathlib.Data.List.Find
import Blinex.Native.SyncStreams

/-!
# `Sync` subscriptions

What a `Sync` stream can rely on while it is live, over every interleaving.

`subscribed_iff`: the newest live stream of every key is the one `notifyAll` signals,
in all states of a run, exactly when no stream ends while another one of its key is
live. `unregisterSub` does not look whose registration it removes.

`waiting_fresh`: a registered stream that waits with an empty channel has sent a
response built from reads after every completed notification of its account,
although a full channel drops signals.
-/

namespace Blinex.Native.Management.Streams

variable {network : String} {s s' : State}

/-! ## What a handler can do -/

/-- The three phases of `send`, where an error ends the handler. -/
def Phase.inSend : Phase → Bool
  | .readPeers | .readRules .. | .sending _ => true
  | _ => false

/-- The actions of a handler, with what they leave. -/
inductive Move (network : String) (s : State) (id : StreamId) (st : Stream) :
    Action → State → Prop where
  | register (hphase : st.phase = .opening) (hlock : s.readers = []) :
    Move network s id st .register
      ((s.register id st).setStream id { st with phase := .readPeers })
  | fail {a : Action} (hphase : st.phase.inSend = true) (ha : a ≠ .close) (e : String) :
    Move network s id st a (s.setStream id (st.fail e))
  | readPeers (hphase : st.phase = .readPeers) (order : List String) :
    Move network s id st (.readPeers order none)
      (s.setStream id { st with
        phase := .readRules (s.store.getPeersByAccount st.accountID order) s.writes })
  | readRules {peers : List Domain.Peer} {n : Nat} (hphase : st.phase = .readRules peers n)
      (order : List String) (now : Int) :
    Move network s id st (.readRules order now none)
      (s.setStream id { st with
        phase := .sending
          { resp := buildSyncResponse network now peers
              (getRulesByAccount s.store.rules.rows st.accountID order) st.key
            peersAt := n
            rulesAt := s.writes } })
  | send {out : Sent} (hphase : st.phase = .sending out) :
    Move network s id st (.send none)
      (s.setStream id { st with phase := .waiting, last := some out })
  | take (hphase : st.phase = .waiting) :
    Move network s id st .take
      ({ s with tokens := fun x => s.tokens x && x != id }.setStream id
        { st with phase := .readPeers })
  | cancel (hphase : st.phase = .waiting) :
    Move network s id st .cancel (s.setStream id { st with phase := .closing none })
  | close {res : Option Status} (hphase : st.phase = .closing res) (hlock : s.readers = []) :
    Move network s id st .close
      ((s.unregister st).setStream id { st with phase := .done res })

/-- The actions of a stream are those of `Move`. -/
theorem streamStep_move {id : StreamId} {st : Stream} {a : Action}
    (h : streamStep network s id st a = some s') : Move network s id st a s' := by
  unfold streamStep at h
  split at h
  case h_1 hphase =>
    -- a reader holds the lock
    split at h
    · exact absurd h nofun
    · obtain rfl := Option.some.inj h
      exact .register hphase (not_not.mp ‹_›)
  case h_2 hphase =>
    obtain rfl := Option.some.inj h
    exact .fail (by rw [hphase]; rfl) (by nofun) _
  case h_3 hphase =>
    obtain rfl := Option.some.inj h
    exact .readPeers hphase _
  case h_4 hphase =>
    obtain rfl := Option.some.inj h
    exact .fail (by rw [hphase]; rfl) (by nofun) _
  case h_5 hphase =>
    obtain rfl := Option.some.inj h
    exact .readRules hphase _ _
  case h_6 hphase =>
    obtain rfl := Option.some.inj h
    exact .fail (by rw [hphase]; rfl) (by nofun) _
  case h_7 hphase =>
    obtain rfl := Option.some.inj h
    exact .send hphase
  case h_8 hphase =>
    -- there has to be a signal
    split at h
    · obtain rfl := Option.some.inj h
      exact .take hphase
    · exact absurd h nofun
  case h_9 hphase =>
    obtain rfl := Option.some.inj h
    exact .cancel hphase
  case h_10 hphase =>
    split at h
    · exact absurd h nofun
    · obtain rfl := Option.some.inj h
      exact .close hphase (not_not.mp ‹_›)
  case h_11 => exact absurd h nofun

/-- The events, with what they leave. -/
inductive Happens (network : String) (s : State) : Event → State → Prop where
  | open (id : StreamId) (key accountID : String) (hnew : s.streams id = none) :
    Happens network s (.open id key accountID) (s.setStream id { key, accountID })
  | act {id : StreamId} {st : Stream} {a : Action} {s' : State} (hst : s.streams id = some st)
      (hmove : Move network s id st a s') :
    Happens network s (.act id a) s'
  | write (pid : Nat) (accountID : String) (store : Store) (hnew : s.writers pid = none) :
    Happens network s (.write pid accountID store)
      ((s.write store).setWriter pid { accountID, version := s.writes + 1 })
  | quiet (store : Store) : Happens network s (.quiet store) (s.write store)
  | lock {pid : Nat} {w : Writer} (order : List String) (hw : s.writers pid = some w)
      (hphase : w.phase = .wrote) :
    Happens network s (.notify pid (.lock order))
      ({ s with readers := pid :: s.readers }.setWriter pid { w with phase := .notifying order })
  | next {pid : Nat} {w : Writer} {key : String} {rest : List String}
      (hw : s.writers pid = some w) (hphase : w.phase = .notifying (key :: rest)) :
    Happens network s (.notify pid .next)
      ((s.signal w.accountID key).setWriter pid { w with phase := .notifying rest })
  | unlock {pid : Nat} {w : Writer} (hw : s.writers pid = some w)
      (hphase : w.phase = .notifying []) :
    Happens network s (.notify pid .unlock)
      ({ s with readers := s.readers.filter (· ≠ pid) }.setWriter pid
        { w with phase := .notified })

/-- The actions of a writer are those of `Happens`. -/
private theorem writerStep_happens {pid : Nat} {w : Writer} {a : Notify}
    (hw : s.writers pid = some w)
    (h : writerStep s pid w a = some s') : Happens network s (.notify pid a) s' := by
  unfold writerStep at h
  split at h
  case h_1 hphase =>
    obtain rfl := Option.some.inj h
    exact .lock _ hw hphase
  case h_2 hphase =>
    obtain rfl := Option.some.inj h
    exact .next hw hphase
  case h_3 hphase =>
    obtain rfl := Option.some.inj h
    exact .unlock hw hphase
  case h_4 => exact absurd h nofun

/-- Every event is one of `Happens`. -/
theorem step_happens {e : Event} (h : step network s e = some s') : Happens network s e s' := by
  cases e with
  | «open» id key accountID =>
    simp only [step] at h
    -- the number is free
    split at h
    · obtain rfl := Option.some.inj h
      exact .open id key accountID ‹_›
    · exact absurd h nofun
  | act id a =>
    simp only [step] at h
    split at h
    · exact absurd h nofun
    · exact .act ‹_› (streamStep_move h)
  | write pid accountID store =>
    simp only [step] at h
    split at h
    · obtain rfl := Option.some.inj h
      exact .write pid accountID store ‹_›
    · exact absurd h nofun
  | quiet store =>
    obtain rfl := Option.some.inj h
    exact .quiet store
  | notify pid a =>
    simp only [step] at h
    split at h
    · exact absurd h nofun
    · exact writerStep_happens ‹_› h

/-! ## The newest live stream -/

/-- Between `registerSub` and `unregisterSub`. -/
def Phase.live : Phase → Bool
  | .opening | .done _ => false
  | _ => true

/-- The stream is live. -/
def State.isLive (s : State) (id : StreamId) : Bool :=
  (s.streams id).any (·.phase.live)

/-- The live stream of the key that registered last. -/
def State.newest (s : State) (key : String) : Option StreamId :=
  (s.registered.find? fun r => r.1 == key && s.isLive r.2).map (·.2)

/-- The newest live stream of every key is connected, and it is the one that
    `notifyAll` signals. -/
def Subscribed (s : State) : Prop :=
  ∀ key id, s.newest key = some id →
    connectedKeys s.subs key = true ∧
      ∃ st, s.streams id = some st ∧ s.subs key = some ⟨id, st.accountID⟩

/-- A stream that ends is the only live one of its key. -/
def EndsAlone (s : State) : Event → Prop
  | .act id .close =>
    ∀ st, s.streams id = some st →
      ∀ id' st', id' ≠ id → s.streams id' = some st' → st'.key = st.key →
        s.isLive id' = false
  | _ => True

/-- The registrations are those of the streams that have left `opening`. -/
structure Registered (s : State) : Prop where
  key : ∀ key id, (key, id) ∈ s.registered →
    ∃ st, s.streams id = some st ∧ st.key = key ∧ st.phase ≠ .opening
  live : ∀ id st, s.streams id = some st → st.phase.live = true → (st.key, id) ∈ s.registered

/-- A live stream exists and is in a live phase. -/
private theorem isLive_eq_true {id : StreamId} (h : s.isLive id = true) :
    ∃ st, s.streams id = some st ∧ st.phase.live = true :=
  Option.any_eq_true .. |>.mp h

/-- The newest stream of a key is registered for it and live. -/
private theorem newest_eq_some {key : String} {id : StreamId} (h : s.newest key = some id) :
    (key, id) ∈ s.registered ∧ s.isLive id = true := by
  obtain ⟨r, hr, rfl⟩ := Option.map_eq_some_iff.mp h
  have hmem := List.mem_of_find?_eq_some hr
  have hp := List.find?_some hr
  simp only [Bool.and_eq_true, beq_iff_eq] at hp
  obtain ⟨rfl, hlive⟩ := hp
  exact ⟨hmem, hlive⟩

/-- A key has no newest stream if all that were registered for it have ended. -/
private theorem newest_eq_none_iff {key : String} :
    s.newest key = none ↔ ∀ id, (key, id) ∈ s.registered → s.isLive id = false := by
  simp only [State.newest, Option.map_eq_none_iff, List.find?_eq_none, Bool.and_eq_true,
    beq_iff_eq, not_and, Bool.not_eq_true]
  constructor
  · intro h id hmem
    exact h (key, id) hmem rfl
  · intro h r hmem hkey
    exact h r.2 (by rw [← hkey]; exact hmem)

/-- Only the registrations of the key and whether they are live matter. -/
private theorem newest_congr {key : String} (hreg : s'.registered = s.registered)
    (hlive : ∀ id, (key, id) ∈ s.registered → s'.isLive id = s.isLive id) :
    s'.newest key = s.newest key := by
  simp only [State.newest, hreg]
  congr 1
  apply List.find?_congr
  intro r hmem
  by_cases hkey : r.1 = key
  · subst hkey
    rw [hlive r.2 hmem]
  · have hne : (r.1 == key) = false := beq_eq_false_iff_ne.mpr hkey
    rw [hne, Bool.false_and, Bool.false_and]

/-! ### Steps that neither register nor unregister -/

/-- The table and the registrations stay, and so does which streams are live. -/
structure Keeps (s s' : State) : Prop where
  registered : s'.registered = s.registered
  subs : s'.subs = s.subs
  streams : ∀ id st, s.streams id = some st → ∃ st', s'.streams id = some st' ∧
    st'.key = st.key ∧ st'.accountID = st.accountID ∧ st'.phase.live = st.phase.live ∧
    (st'.phase = .opening → st.phase = .opening)
  fresh : ∀ id st', s.streams id = none → s'.streams id = some st' → st'.phase.live = false

/-- Steps that touch neither table nor streams. -/
private theorem Keeps.of_eq (hreg : s'.registered = s.registered) (hsubs : s'.subs = s.subs)
    (hstreams : s'.streams = s.streams) : Keeps s s' where
  registered := hreg
  subs := hsubs
  streams id st h := ⟨st, by rw [hstreams]; exact h, rfl, rfl, rfl, fun h => h⟩
  fresh id st' hnone hsome := by
    rw [hstreams, hnone] at hsome
    exact absurd hsome nofun

/-- A live stream moves on to another live phase. -/
private theorem Keeps.of_live {id : StreamId} {st st' : Stream} (hst : s.streams id = some st)
    (hkey : st'.key = st.key) (hacc : st'.accountID = st.accountID)
    (hlive : st.phase.live = true) (hlive' : st'.phase.live = true) :
    Keeps s (s.setStream id st') where
  registered := rfl
  subs := rfl
  streams x sx hx := by
    by_cases hxid : x = id
    · subst hxid
      obtain rfl := Option.some.inj (hst.symm.trans hx)
      -- a live stream has left `opening` behind
      refine ⟨st', PMap.set_self .., hkey, hacc, hlive'.trans hlive.symm, fun h => ?_⟩
      rw [h] at hlive'
      exact absurd hlive' Bool.false_ne_true
    · exact ⟨sx, (PMap.set_ne _ _ hxid).trans hx, rfl, rfl, rfl, fun h => h⟩
  fresh x sx hnone hsome := by
    rcases PMap.set_eq_some _ hsome with ⟨rfl, _⟩ | ⟨_, hsome⟩
    · exact absurd (hnone.symm.trans hst) nofun
    · exact absurd (hnone.symm.trans hsome) nofun

/-- The same streams are live. -/
private theorem Keeps.isLive (h : Keeps s s') (id : StreamId) : s'.isLive id = s.isLive id := by
  unfold State.isLive
  cases hs : s.streams id with
  | some st =>
    obtain ⟨st', hst', _, _, hlive, _⟩ := h.streams id st hs
    rw [hst']
    exact hlive
  -- a stream that was just opened is not live yet
  | none =>
    cases hs' : s'.streams id with
    | none => rfl
    | some st' => exact h.fresh id st' hs hs'

/-- The registrations stay in order. -/
private theorem Keeps.wf (h : Keeps s s') (hs : Registered s) : Registered s' where
  key key id hmem := by
    rw [h.registered] at hmem
    obtain ⟨st, hst, rfl, hphase⟩ := hs.key key id hmem
    obtain ⟨st', hst', hkey, _, _, hopening⟩ := h.streams id st hst
    exact ⟨st', hst', hkey, fun hp => hphase (hopening hp)⟩
  live id st' hst' hlive := by
    rw [h.registered]
    cases hst : s.streams id with
    -- a new stream is not live
    | none => exact absurd (hlive.symm.trans (h.fresh id st' hst hst')) nofun
    | some st =>
      obtain ⟨st'', hst'', hkey, _, hlive', _⟩ := h.streams id st hst
      obtain rfl := Option.some.inj (hst'.symm.trans hst'')
      rw [hkey]
      exact hs.live id st hst (hlive'.symm.trans hlive)

/-- The newest streams stay subscribed. -/
theorem Keeps.subscribed (h : Keeps s s') (hs : Subscribed s) : Subscribed s' := by
  intro key id hnew
  have hsame : s'.newest key = s.newest key :=
    newest_congr h.registered fun id _ => h.isLive id
  obtain ⟨hconn, st, hst, hsub⟩ := hs key id (hsame ▸ hnew)
  obtain ⟨st', hst', _, hacc, _, _⟩ := h.streams id st hst
  rw [h.subs]
  exact ⟨hconn, st', hst', by rw [hacc]; exact hsub⟩

/-- A stream that builds or sends a response is live. -/
private theorem Phase.live_of_inSend {ph : Phase} (h : ph.inSend = true) : ph.live = true := by
  cases ph with
  | readPeers | readRules | sending => rfl
  | opening | waiting | closing | done => exact absurd h Bool.false_ne_true

/-- An event registers a stream, unregisters one, or leaves both the table and the
    live streams. -/
private theorem Happens.cases_subs {e : Event} (h : Happens network s e s') :
    (∃ id st, e = .act id .register ∧ s.streams id = some st ∧ st.phase = .opening ∧
      s' = (s.register id st).setStream id { st with phase := .readPeers }) ∨
    (∃ id st res, e = .act id .close ∧ s.streams id = some st ∧ st.phase = .closing res ∧
      s' = (s.unregister st).setStream id { st with phase := .done res }) ∨
    ((∀ id, e ≠ .act id .close) ∧ Keeps s s') := by
  cases h with
  | «open» id key accountID hnew =>
    refine .inr (.inr ⟨fun _ => nofun, rfl, rfl, fun x sx hx => ?_, fun x sx hnone hsome => ?_⟩)
    · -- the new stream was not there
      have hne : x ≠ id := by
        intro heq
        rw [heq, hnew] at hx
        exact absurd hx nofun
      exact ⟨sx, (PMap.set_ne _ _ hne).trans hx, rfl, rfl, rfl, fun h => h⟩
    · rcases PMap.set_eq_some _ hsome with ⟨_, rfl⟩ | ⟨_, hsome⟩
      · -- it is in `opening`
        rfl
      · exact absurd (hnone.symm.trans hsome) nofun
  | @act id st a _ hst hmove =>
    cases hmove with
    | register hphase hlock => exact .inl ⟨_, _, rfl, hst, hphase, rfl⟩
    | close hphase hlock => exact .inr (.inl ⟨_, _, _, rfl, hst, hphase, rfl⟩)
    | fail hphase ha e =>
      have hkeep : Keeps s (s.setStream id (st.fail e)) :=
        .of_live hst rfl rfl (Phase.live_of_inSend hphase) rfl
      exact .inr (.inr ⟨fun _ heq => ha (Event.act.inj heq).2, hkeep⟩)
    | readPeers hphase | readRules hphase | send hphase | cancel hphase =>
      exact .inr (.inr ⟨fun _ => nofun, .of_live hst rfl rfl (by rw [hphase]; rfl) rfl⟩)
    | take hphase =>
      have hset : Keeps s (s.setStream id { st with phase := .readPeers }) :=
        .of_live hst rfl rfl (by rw [hphase]; rfl) rfl
      exact .inr (.inr ⟨fun _ => nofun, hset.registered, hset.subs, hset.streams, hset.fresh⟩)
  | write | quiet | lock | unlock => exact .inr (.inr ⟨fun _ => nofun, .of_eq rfl rfl rfl⟩)
  | next =>
    refine .inr (.inr ⟨fun _ => nofun, ?_⟩)
    unfold State.signal
    split
    · exact .of_eq rfl rfl rfl
    · split <;> exact .of_eq rfl rfl rfl

/-! ### Registering and unregistering -/

section Subs

variable {id : StreamId} {st : Stream} {res : Option Status}

/-- A stream that has not registered is in no registration. -/
private theorem Registered.not_mem (hs : Registered s) (hst : s.streams id = some st)
    (hphase : st.phase = .opening) (key : String) : (key, id) ∉ s.registered := by
  intro hmem
  obtain ⟨st', hst', _, hopen⟩ := hs.key key id hmem
  obtain rfl := Option.some.inj (hst.symm.trans hst')
  exact hopen hphase

/-- One stream's phase does not decide whether another is live. -/
private theorem isLive_setStream_ne {x : StreamId} (st' : Stream) (hx : x ≠ id) :
    (s.setStream id st').isLive x = s.isLive x := by
  simp only [State.isLive, State.setStream, PMap.set_ne _ _ hx]

/-- Registering a stream adds its registration. -/
theorem Registered.register (hs : Registered s) (hst : s.streams id = some st)
    (hphase : st.phase = .opening) :
    Registered ((s.register id st).setStream id { st with phase := .readPeers }) where
  key key x hmem := by
    -- the new registration, or one of another stream
    rcases List.mem_cons.mp hmem with heq | hmem
    · obtain ⟨rfl, rfl⟩ := Prod.mk.inj heq
      exact ⟨_, PMap.set_self .., rfl, nofun⟩
    · have hx : x ≠ id := fun h => hs.not_mem hst hphase key (h ▸ hmem)
      obtain ⟨sx, hsx, hkey, hopen⟩ := hs.key key x hmem
      exact ⟨sx, (PMap.set_ne _ _ hx).trans hsx, hkey, hopen⟩
  live x sx hsx hlive := by
    rcases PMap.set_eq_some _ hsx with ⟨rfl, rfl⟩ | ⟨_, hsx⟩
    · exact List.mem_cons_self
    · exact List.mem_cons_of_mem _ (hs.live x sx hsx hlive)

/-- A registration outlives its stream. -/
theorem Registered.unregister (hs : Registered s) (hst : s.streams id = some st) :
    Registered ((s.unregister st).setStream id { st with phase := .done res }) where
  key key x hmem := by
    obtain ⟨sx, hsx, hkey, hopen⟩ := hs.key key x hmem
    by_cases hx : x = id
    · subst hx
      obtain rfl := Option.some.inj (hst.symm.trans hsx)
      exact ⟨_, PMap.set_self .., hkey, nofun⟩
    · exact ⟨sx, (PMap.set_ne _ _ hx).trans hsx, hkey, hopen⟩
  live x sx hsx hlive := by
    rcases PMap.set_eq_some _ hsx with ⟨_, rfl⟩ | ⟨_, hsx⟩
    · exact absurd hlive Bool.false_ne_true
    · exact hs.live x sx hsx hlive

/-- A new registration makes its stream the newest, and the one that is signalled. -/
theorem Subscribed.register (hs : Registered s) (hsub : Subscribed s)
    (hst : s.streams id = some st) (hphase : st.phase = .opening) :
    Subscribed ((s.register id st).setStream id { st with phase := .readPeers }) := by
  intro key x hnew
  by_cases hkey : key = st.key
  · subst hkey
    -- the search stops at the first registration
    have hself : State.isLive ((s.register id st).setStream id { st with phase := .readPeers })
        id = true := by
      simp only [State.isLive, State.setStream, PMap.set_self, Option.any_some, Phase.live]
    simp only [State.newest, State.setStream, State.register, List.find?_cons, beq_self_eq_true,
      Bool.true_and] at hnew hself
    rw [hself] at hnew
    obtain rfl := Option.some.inj hnew
    refine ⟨?_, _, PMap.set_self .., PMap.set_self ..⟩
    simp only [connectedKeys, State.setStream, State.register, registerSub, PMap.set_self,
      Option.isSome_some]
  · have hne : (st.key == key) = false := beq_eq_false_iff_ne.mpr (Ne.symm hkey)
    have hsame : State.newest ((s.register id st).setStream id { st with phase := .readPeers })
        key = s.newest key := by
      simp only [State.newest, State.setStream, State.register, List.find?_cons, hne,
        Bool.false_and]
      congr 1
      apply List.find?_congr
      intro r hmem
      have hr : r.2 ≠ id := fun h => hs.not_mem hst hphase r.1 (h ▸ hmem)
      exact congrArg _ (isLive_setStream_ne _ hr)
    obtain ⟨hconn, sx, hsx, hx⟩ := hsub key x (hsame ▸ hnew)
    have hxid : x ≠ id := fun h =>
      hs.not_mem hst hphase key (h ▸ (newest_eq_some (hsame ▸ hnew)).1)
    have hsubs : registerSub s.subs st.key ⟨id, st.accountID⟩ key = s.subs key :=
      PMap.set_ne _ _ hkey
    refine ⟨?_, sx, (PMap.set_ne _ _ hxid).trans hsx, hsubs.trans hx⟩
    simp only [connectedKeys, State.setStream, State.register, hsubs, hx, Option.isSome_some]

/-- The end of a stream leaves the others subscribed exactly when none of them has its
    key. -/
private theorem subscribed_unregister_iff (hs : Registered s) (hsub : Subscribed s)
    (hst : s.streams id = some st) :
    Subscribed ((s.unregister st).setStream id { st with phase := .done res }) ↔
      EndsAlone s (.act id .close) := by
  have hother (x : StreamId) (hx : x ≠ id) :
      State.isLive ((s.unregister st).setStream id { st with phase := .done res }) x =
        s.isLive x :=
    isLive_setStream_ne _ hx
  have hself : State.isLive ((s.unregister st).setStream id { st with phase := .done res }) id =
      false := by
    simp only [State.isLive, State.setStream, PMap.set_self, Option.any_some, Phase.live]
  constructor
  · intro h st₀ hst₀ x sx hx hsx hkey
    obtain rfl := Option.some.inj (hst.symm.trans hst₀)
    -- a live stream of the key would be the newest of something, but the table is empty there
    have hnone : State.newest ((s.unregister st).setStream id { st with phase := .done res })
        st.key = none := by
      cases hnew : State.newest _ st.key with
      | none => rfl
      | some y =>
        obtain ⟨_, _, _, hy⟩ := h st.key y hnew
        simp only [State.setStream, State.unregister, unregisterSub, PMap.delete_self,
          reduceCtorEq] at hy
    cases hlive : s.isLive x with
    | false => rfl
    | true =>
      obtain ⟨sx', hsx', hphase⟩ := isLive_eq_true hlive
      obtain rfl := Option.some.inj (hsx.symm.trans hsx')
      have hmem : (st.key, x) ∈ s.registered := hkey ▸ hs.live x sx hsx hphase
      exact ((hother x hx).symm.trans (newest_eq_none_iff.mp hnone x hmem)).symm ▸ hlive.symm
  · intro h key x hnew
    obtain ⟨hmem, hlive⟩ := newest_eq_some hnew
    -- the stream that ended is not live, so the newest one is another
    have hx : x ≠ id := fun heq => Bool.false_ne_true (hself.symm.trans (heq ▸ hlive))
    obtain ⟨sx, hsx, hkey, _⟩ := hs.key key x hmem
    -- and of another key, whose entry is still there
    have hne : key ≠ st.key := by
      intro heq
      have hdead := h st hst x sx hx hsx (hkey.trans heq)
      exact Bool.false_ne_true (((hother x hx).trans hdead).symm.trans hlive)
    have hsame : State.newest ((s.unregister st).setStream id { st with phase := .done res })
        key = s.newest key := by
      refine newest_congr (by rfl) fun y hy => ?_
      apply hother y
      intro heq
      obtain ⟨sy, hsy, hkey', _⟩ := hs.key key y hy
      obtain rfl := Option.some.inj (hst.symm.trans (heq ▸ hsy))
      exact hne hkey'.symm
    obtain ⟨_, sx', hsx', hsubx⟩ := hsub key x (hsame ▸ hnew)
    have hsubs : unregisterSub s.subs st.key key = s.subs key := PMap.delete_ne _ hne
    refine ⟨?_, sx', (PMap.set_ne _ _ hx).trans hsx', hsubs.trans hsubx⟩
    simp only [connectedKeys, State.setStream, State.unregister, hsubs, hsubx, Option.isSome_some]

end Subs

/-! ### Runs -/

/-- A step keeps the registrations in order. -/
theorem Registered.step {e : Event} (hs : Registered s) (h : step network s e = some s') :
    Registered s' := by
  rcases (step_happens h).cases_subs with ⟨id, st, rfl, hst, hphase, rfl⟩ |
    ⟨id, st, res, rfl, hst, _, rfl⟩ | ⟨_, hkeeps⟩
  · exact hs.register hst hphase
  · exact hs.unregister hst
  · exact hkeeps.wf hs

/-- A step keeps the newest streams subscribed unless it ends one of several. -/
private theorem subscribed_step_iff {e : Event} (hs : Registered s) (hsub : Subscribed s)
    (h : step network s e = some s') : Subscribed s' ↔ EndsAlone s e := by
  rcases (step_happens h).cases_subs with ⟨id, st, rfl, hst, hphase, rfl⟩ |
    ⟨id, st, res, rfl, hst, _, rfl⟩ | ⟨hclose, hkeeps⟩
  · exact iff_of_true (hsub.register hs hst hphase) trivial
  · exact subscribed_unregister_iff hs hsub hst
  · -- neither registers nor closes
    refine iff_of_true (hkeeps.subscribed hsub) ?_
    unfold EndsAlone
    split
    · exact absurd rfl (hclose _)
    · trivial

private theorem registered_start (store : Store) : Registered (start store) where
  key _ _ h := nomatch h
  live _ _ h := nomatch h

/-- No key has a stream at the start. -/
private theorem subscribed_start (store : Store) : Subscribed (start store) := by
  intro key id h
  exact absurd (newest_eq_some h).1 List.not_mem_nil

/-- In all states of a run every key with a live stream is connected and its newest
    live stream is the one `notifyAll` signals, exactly when no stream ends while
    another live one has its key. -/
theorem subscribed_iff (network : String) (store : Store) (es : List Event) :
    Throughout (step network) Subscribed (start store) es ↔
      ExecAlong (step network) EndsAlone (start store) es :=
  throughout_iff (fun _ _ _ => Registered.step) (fun _ _ _ => subscribed_step_iff)
    (registered_start store) (subscribed_start store)

/-- An agent reconnects: its new stream registers, then the old one finds its context
    cancelled and ends. -/
def reconnectRun : List Event :=
  [.open 1 "K" "acme", .act 1 .register, .open 2 "K" "acme", .act 2 .register,
    .act 1 (.readPeers [] (some "context canceled")), .act 1 .close]

/-- After it the new stream is live, the agent counts as disconnected and nobody is
    left to signal. -/
theorem reconnectRun_unsubscribes :
    (exec (step "100.64.0.0/10") (start {}) reconnectRun).map (fun s =>
      (s.newest "K", connectedKeys s.subs "K", (s.subs "K").isSome)) =
      some (some 2, false, false) := by
  decide +kernel

/-! ## No update is lost -/

/-- The loop of this `notifyAll` is past the key. -/
def WriterPhase.Visited (key : String) : WriterPhase → Prop
  | .wrote => False
  | .notifying rest => key ∉ rest
  | .notified => True

/-- What the stream has read, or will read before it waits again, includes the write
    `v`. -/
def Stream.UpTo (v : Nat) (st : Stream) : Prop :=
  match st.phase with
  | .opening => False
  | .readRules _ n => v ≤ n
  | .sending out => v ≤ out.peersAt ∧ v ≤ out.rulesAt
  | .waiting => ∀ out, st.last = some out → v ≤ out.peersAt ∧ v ≤ out.rulesAt
  | .readPeers | .closing _ | .done _ => True

/-- A subscriber that a notification of its account has passed has a signal waiting or
    is up to the write behind the notification. -/
structure Notified (s : State) : Prop where
  version_le : ∀ pid w, s.writers pid = some w → w.version ≤ s.writes
  fresh : ∀ key sub pid w, s.subs key = some sub → s.writers pid = some w →
    w.accountID = sub.accountID → w.phase.Visited key →
    s.tokens sub.stream = true ∨ ∃ st, s.streams sub.stream = some st ∧ st.UpTo w.version

theorem notified_start (store : Store) : Notified (start store) where
  version_le _ _ h := nomatch h
  fresh _ _ _ _ h := nomatch h

section Notified

variable {id : StreamId} {st st' : Stream}

/-- A stream moves on without losing what it is up to. -/
theorem Notified.setStream (hs : Notified s) (hst : s.streams id = some st)
    (hup : ∀ v, v ≤ s.writes → st.UpTo v → st'.UpTo v) : Notified (s.setStream id st') where
  version_le := hs.version_le
  fresh key sub pid w hsub hw hacc hvisited := by
    rcases hs.fresh key sub pid w hsub hw hacc hvisited with htoken | ⟨sx, hsx, hv⟩
    · exact .inl htoken
    · by_cases hx : sub.stream = id
      · rw [hx] at hsx ⊢
        obtain rfl := Option.some.inj (hst.symm.trans hsx)
        exact .inr ⟨st', PMap.set_self .., hup _ (hs.version_le pid w hw) hv⟩
      · exact .inr ⟨sx, (PMap.set_ne _ _ hx).trans hsx, hv⟩

/-- A stream about to read the store is up to every write; nothing else is touched but
    its own token and registration. -/
private theorem Notified.rereads (hs : Notified s) (hstreams : s'.streams = s.streams.set id st')
    (hup : ∀ v, st'.UpTo v) (hwriters : s'.writers = s.writers) (hwrites : s'.writes = s.writes)
    (htokens : ∀ x, x ≠ id → s'.tokens x = s.tokens x)
    (hsubs : ∀ key sub, s'.subs key = some sub → sub.stream ≠ id → s.subs key = some sub) :
    Notified s' where
  version_le pid w hw := by
    rw [hwrites]
    exact hs.version_le pid w (hwriters ▸ hw)
  fresh key sub pid w hsub hw hacc hvisited := by
    -- the stream that reads again, or another one
    by_cases hx : sub.stream = id
    · rw [hx, hstreams]
      exact .inr ⟨st', PMap.set_self .., hup _⟩
    · rw [htokens _ hx, hstreams, PMap.set_ne _ _ hx]
      exact hs.fresh key sub pid w (hsubs key sub hsub hx) (hwriters ▸ hw) hacc hvisited

/-- A move of a stream loses no notification. -/
theorem Notified.move {a : Action} (hs : Notified s) (hst : s.streams id = some st)
    (h : Move network s id st a s') : Notified s' := by
  cases h with
  | register hphase hlock =>
    -- the new subscriber has yet to read everything
    refine hs.rereads rfl (fun v => trivial) rfl rfl (fun _ _ => rfl) fun key sub hsub hne => ?_
    rcases PMap.set_eq_some _ hsub with ⟨_, rfl⟩ | ⟨_, hsub⟩
    · exact absurd rfl hne
    · exact hsub
  | fail hphase ha e => exact hs.setStream hst fun v _ _ => trivial
  | readPeers hphase order => exact hs.setStream hst fun v hv _ => hv
  | readRules hphase order now =>
    refine hs.setStream hst fun v hv hup => ?_
    simp only [Stream.UpTo, hphase] at hup
    exact ⟨hup, hv⟩
  | send hphase =>
    refine hs.setStream hst fun v _ hup out hout => ?_
    simp only [Stream.UpTo, hphase] at hup
    exact Option.some.inj hout ▸ hup
  | take hphase =>
    -- the signal is gone, but the stream reads again
    refine hs.rereads rfl (fun v => trivial) rfl rfl (fun x hx => ?_) fun _ _ h _ => h
    have hne : (x != id) = true := bne_iff_ne.mpr hx
    simp only [State.setStream, hne, Bool.and_true]
  | cancel hphase => exact hs.setStream hst fun v _ _ => trivial
  | close hphase hlock =>
    refine hs.rereads rfl (fun v => trivial) rfl rfl (fun _ _ => rfl) fun key sub hsub _ => ?_
    exact (PMap.delete_eq_some _ hsub).2

end Notified

/-- A writer moves on, without passing a key it has not signalled. -/
theorem Notified.setWriter {pid : Nat} {w w' : Writer} (hs : Notified s)
    (hw : s.writers pid = some w) (hacc : w'.accountID = w.accountID)
    (hversion : w'.version = w.version)
    (hvisited : ∀ key sub, s.subs key = some sub → w.accountID = sub.accountID →
      w'.phase.Visited key → w.phase.Visited key ∨ s.tokens sub.stream = true) :
    Notified (s.setWriter pid w') where
  version_le x wx hx := by
    rcases PMap.set_eq_some _ hx with ⟨_, rfl⟩ | ⟨_, hx⟩
    · exact hversion ▸ hs.version_le pid w hw
    · exact hs.version_le x wx hx
  fresh key sub x wx hsub hx hacc' hvis := by
    rcases PMap.set_eq_some _ hx with ⟨_, rfl⟩ | ⟨_, hx⟩
    · rw [hversion]
      rw [hacc] at hacc'
      -- the key was visited before, or its subscriber has the signal
      rcases hvisited key sub hsub hacc' hvis with hvis | htoken
      · exact hs.fresh key sub pid w hsub hw hacc' hvis
      · exact .inl htoken
    · exact hs.fresh key sub x wx hsub hx hacc' hvis

/-- A signal only adds tokens. -/
theorem Notified.signal (hs : Notified s) (accountID key : String) :
    Notified (s.signal accountID key) := by
  unfold State.signal
  split
  · exact hs
  · split
    · exact hs
    · refine ⟨hs.version_le, fun k sub pid w hsub hw hacc hvis => ?_⟩
      rcases hs.fresh k sub pid w hsub hw hacc hvis with htoken | hup
      · exact .inl (by simp only [htoken, Bool.true_or])
      · exact .inr hup

/-- A subscriber of the account has a signal after its turn. -/
private theorem signal_token {accountID key : String} {sub : SyncSub} (hsub : s.subs key = some sub)
    (hacc : accountID = sub.accountID) : (s.signal accountID key).tokens sub.stream = true := by
  simp only [State.signal, hsub, hacc, ne_eq, not_true_eq_false, ↓reduceIte, beq_self_eq_true,
    Bool.or_true]

private theorem signal_subs (accountID key : String) : (s.signal accountID key).subs = s.subs := by
  unfold State.signal
  split
  · rfl
  · split <;> rfl

/-- A signal leaves the writers alone. -/
theorem signal_writers (accountID key : String) :
    (s.signal accountID key).writers = s.writers := by
  unfold State.signal
  split
  · rfl
  · split <;> rfl

/-- A write is notified of later. -/
theorem Notified.write (hs : Notified s) (store : Store) : Notified (s.write store) where
  version_le pid w hw := (hs.version_le pid w hw).trans (Nat.le_succ _)
  fresh := hs.fresh

/-- A step loses no notification. -/
theorem Notified.step {e : Event} (hvalid : ValidOrders s e) (hs : Notified s)
    (h : step network s e = some s') : Notified s' := by
  cases step_happens h with
  | «open» id key accountID hnew =>
    -- the new stream is not in the table yet
    refine ⟨hs.version_le, fun k sub pid w hsub hw hacc hvis => ?_⟩
    rcases hs.fresh k sub pid w hsub hw hacc hvis with htoken | ⟨st, hst, hup⟩
    · exact .inl htoken
    · have hne : sub.stream ≠ id := by
        intro heq
        rw [heq, hnew] at hst
        exact absurd hst nofun
      exact .inr ⟨st, (PMap.set_ne _ _ hne).trans hst, hup⟩
  | act hst hmove => exact hs.move hst hmove
  | write pid accountID store hnew =>
    have hs' := hs.write store
    refine ⟨fun x wx hx => ?_, fun k sub x wx hsub hx hacc hvis => ?_⟩
    · rcases PMap.set_eq_some _ hx with ⟨_, rfl⟩ | ⟨_, hx⟩
      · exact Nat.le_refl _
      · exact hs'.version_le x wx hx
    · rcases PMap.set_eq_some _ hx with ⟨_, rfl⟩ | ⟨_, hx⟩
      · -- the new writer has visited nobody
        exact absurd hvis id
      · exact hs'.fresh k sub x wx hsub hx hacc hvis
  | quiet store => exact hs.write store
  | @lock pid w order hw hphase =>
    -- every subscriber is still to be visited
    have hlock : Notified { s with readers := pid :: s.readers } := ⟨hs.version_le, hs.fresh⟩
    refine hlock.setWriter hw rfl rfl fun k sub hsub _ hvis => ?_
    have hmem : k ∈ order := by
      rw [hvalid.mem_iff k, hsub]
      exact nofun
    exact absurd hmem hvis
  | @next pid w key rest hw hphase =>
    have hw' : (s.signal w.accountID key).writers pid = some w := by rw [signal_writers, hw]
    refine (hs.signal w.accountID key).setWriter hw' rfl rfl fun k sub hsub hacc hvis => ?_
    -- the subscriber of this turn has the signal, the others were visited before
    by_cases hk : k = key
    · subst hk
      rw [signal_subs] at hsub
      exact .inr (signal_token hsub hacc)
    · refine .inl ?_
      rw [hphase]
      exact fun hmem => (List.mem_cons.mp hmem).elim hk hvis
  | @unlock pid w hw hphase =>
    have hunlock : Notified { s with readers := s.readers.filter (· ≠ pid) } :=
      ⟨hs.version_le, hs.fresh⟩
    refine hunlock.setWriter hw rfl rfl fun k sub hsub _ _ => .inl ?_
    rw [hphase]
    exact List.not_mem_nil

/-! ### What the responses are built from -/

/-- The peers are a listing of the account in version `n` of the store. -/
def PeersOf (versions : PMap Nat Store) (accountID : String) (n : Nat) (peers : List Domain.Peer) :
    Prop :=
  ∃ store order, versions n = some store ∧ PMap.RangeOrder store.peers.rows order ∧
    peers = store.getPeersByAccount accountID order

/-- The response is built from a listing of the peers and one of the rules, in the
    versions of the store it names. -/
def Sent.Built (network : String) (versions : PMap Nat Store) (st : Stream) (out : Sent) : Prop :=
  ∃ peers store order now, PeersOf versions st.accountID out.peersAt peers ∧
    versions out.rulesAt = some store ∧ PMap.RangeOrder store.rules.rows order ∧
    out.resp = buildSyncResponse network now peers
      (getRulesByAccount store.rules.rows st.accountID order) st.key

/-- What a handler holds comes from the store. -/
structure Stream.Wf (network : String) (versions : PMap Nat Store) (st : Stream) : Prop where
  reading : ∀ peers n, st.phase = .readRules peers n → PeersOf versions st.accountID n peers
  sending : ∀ out, st.phase = .sending out → out.Built network versions st
  sent : ∀ out, st.last = some out → out.Built network versions st
  waiting : st.phase = .waiting → st.last ≠ none

/-- `versions` is the history of the store, and the handlers hold what they read. -/
structure History (network : String) (s : State) : Prop where
  current : s.versions s.writes = some s.store
  past : ∀ n store, s.versions n = some store → n ≤ s.writes
  streams : ∀ id st, s.streams id = some st → st.Wf network s.versions

/-- The history begins with the first store. -/
theorem history_start (store : Store) : History network (start store) where
  current := by simp only [start, PMap.set_self]
  past n x h := by
    rcases PMap.set_eq_some _ h with ⟨rfl, _⟩ | ⟨_, h⟩
    · exact Nat.le_refl _
    · cases h
  streams _ _ h := by cases h

section History

variable {versions versions' : PMap Nat Store} {st : Stream}

/-- A listing stays one in a longer history. -/
theorem PeersOf.mono {accountID : String} {n : Nat} {peers : List Domain.Peer}
    (hle : ∀ n store, versions n = some store → versions' n = some store)
    (h : PeersOf versions accountID n peers) : PeersOf versions' accountID n peers := by
  obtain ⟨store, order, hn, horder, heq⟩ := h
  exact ⟨store, order, hle n store hn, horder, heq⟩

/-- So does a response. -/
theorem Sent.Built.mono {out : Sent}
    (hle : ∀ n store, versions n = some store → versions' n = some store)
    (h : out.Built network versions st) : out.Built network versions' st := by
  obtain ⟨peers, store, order, now, hpeers, hn, horder, heq⟩ := h
  exact ⟨peers, store, order, now, hpeers.mono hle, hle _ store hn, horder, heq⟩

/-- So does all that a handler holds. -/
theorem Stream.Wf.mono (hle : ∀ n store, versions n = some store → versions' n = some store)
    (h : st.Wf network versions) : st.Wf network versions' where
  reading peers n hp := (h.reading peers n hp).mono hle
  sending out hp := (h.sending out hp).mono hle
  sent out hp := (h.sent out hp).mono hle
  waiting := h.waiting

/-- In the other phases a handler holds nothing but its last response. -/
private theorem Stream.Wf.setPhase (h : st.Wf network versions) {ph : Phase}
    (hreading : ∀ peers n, ph = .readRules peers n → PeersOf versions st.accountID n peers)
    (hsending : ∀ out, ph = .sending out → out.Built network versions st)
    (hwaiting : ph ≠ .waiting) : Stream.Wf network versions { st with phase := ph } :=
  ⟨hreading, hsending, h.sent, fun hp => absurd hp hwaiting⟩

end History

/-- A write adds a version and changes none. -/
theorem History.write (hs : History network s) (store : Store) :
    History network (s.write store) where
  current := PMap.set_self ..
  past n x h := by
    rcases PMap.set_eq_some _ h with ⟨rfl, _⟩ | ⟨_, h⟩
    · exact Nat.le_refl _
    · exact (hs.past n x h).trans (Nat.le_succ _)
  streams id st hst := by
    refine (hs.streams id st hst).mono fun n x hn => ?_
    -- the new version has a number of its own
    have hne : n ≠ s.writes + 1 := by
      have hle := hs.past n x hn
      omega
    exact (PMap.set_ne _ _ hne).trans hn

/-- A stream may change to one that holds what it read. -/
theorem History.setStream {id : StreamId} {st' : Stream} (hs : History network s)
    (hst' : st'.Wf network s.versions) : History network (s.setStream id st') where
  current := hs.current
  past := hs.past
  streams x sx hx := by
    rcases PMap.set_eq_some _ hx with ⟨_, rfl⟩ | ⟨_, hx⟩
    · exact hst'
    · exact hs.streams x sx hx

/-- The history is about the store, its versions and the handlers only. -/
theorem History.congr (hs : History network s) (hstore : s'.store = s.store)
    (hwrites : s'.writes = s.writes) (hversions : s'.versions = s.versions)
    (hstreams : s'.streams = s.streams) : History network s' where
  current := by rw [hversions, hwrites, hstore]; exact hs.current
  past := by rw [hversions, hwrites]; exact hs.past
  streams := by rw [hstreams, hversions]; exact hs.streams

/-- A move of a stream keeps the history. -/
theorem History.move {id : StreamId} {st : Stream} {a : Action} (hs : History network s)
    (hvalid : ValidOrders s (.act id a)) (hst : s.streams id = some st)
    (h : Move network s id st a s') : History network s' := by
  have hwf := hs.streams id st hst
  cases h with
  | register hphase hlock =>
    have hreg : History network (s.register id st) := hs.congr rfl rfl rfl rfl
    exact hreg.setStream (hwf.setPhase nofun nofun nofun)
  | fail hphase ha e => exact hs.setStream (hwf.setPhase nofun nofun nofun)
  | readPeers hphase order =>
    refine hs.setStream (hwf.setPhase (fun peers n heq => ?_) nofun nofun)
    obtain ⟨rfl, rfl⟩ := Phase.readRules.inj heq
    -- the listing is of the current version
    exact ⟨s.store, order, hs.current, hvalid, rfl⟩
  | readRules hphase order now =>
    refine hs.setStream (hwf.setPhase nofun (fun out heq => ?_) nofun)
    obtain rfl := Phase.sending.inj heq
    exact ⟨_, s.store, order, now, hwf.reading _ _ hphase, hs.current, hvalid, rfl⟩
  | send hphase =>
    refine hs.setStream ⟨nofun, nofun, fun out heq => ?_, nofun⟩
    obtain rfl := Option.some.inj heq
    exact hwf.sending _ hphase
  | take hphase =>
    have htake : History network { s with tokens := fun x => s.tokens x && x != id } :=
      hs.congr rfl rfl rfl rfl
    exact htake.setStream (hwf.setPhase nofun nofun nofun)
  | cancel hphase => exact hs.setStream (hwf.setPhase nofun nofun nofun)
  | close hphase hlock =>
    have hunreg : History network (s.unregister st) := hs.congr rfl rfl rfl rfl
    exact hunreg.setStream (hwf.setPhase nofun nofun nofun)

/-- A step keeps the history. -/
theorem History.step {e : Event} (hvalid : ValidOrders s e) (hs : History network s)
    (h : step network s e = some s') : History network s' := by
  cases step_happens h with
  | «open» id key accountID hnew => exact hs.setStream ⟨nofun, nofun, nofun, nofun⟩
  | act hst hmove => exact hs.move hvalid hst hmove
  | write pid accountID store hnew => exact (hs.write store).congr rfl rfl rfl rfl
  | quiet store => exact hs.write store
  | lock | unlock => exact hs.congr rfl rfl rfl rfl
  | next =>
    unfold State.signal
    split
    · exact hs.congr rfl rfl rfl rfl
    · split <;> exact hs.congr rfl rfl rfl rfl

/-- A registered stream that waits with an empty channel: the response it sent last was
    built from reads of the store after every write of its account whose `notifyAll` has
    returned. -/
theorem waiting_fresh {store : Store} {es : List Event}
    (hvalid : ExecAlong (step network) ValidOrders (start store) es)
    (h : exec (step network) (start store) es = some s) {id : StreamId} {st : Stream}
    (hst : s.streams id = some st) (hsub : s.subs st.key = some ⟨id, st.accountID⟩)
    (hwait : st.phase = .waiting) (hempty : s.tokens id = false) :
    ∃ out, st.last = some out ∧ out.Built network s.versions st ∧
      ∀ pid w, s.writers pid = some w → w.accountID = st.accountID → w.phase = .notified →
        w.version ≤ out.peersAt ∧ w.version ≤ out.rulesAt := by
  -- both invariants hold along the run
  have hinv : Throughout (step network) (fun s => Notified s ∧ History network s)
      (start store) es :=
    hvalid.throughout
      (fun _ _ _ hv hs hstep => ⟨hs.1.step hv hstep, hs.2.step hv hstep⟩)
      ⟨notified_start store, history_start store⟩
  obtain ⟨hnotified, hhistory⟩ := hinv.last h
  have hwf := hhistory.streams id st hst
  obtain ⟨out, hout⟩ := Option.ne_none_iff_exists'.mp (hwf.waiting hwait)
  refine ⟨out, hout, hwf.sent out hout, fun pid w hw hacc hphase => ?_⟩
  have hvisited : w.phase.Visited st.key := by
    rw [hphase]
    trivial
  rcases hnotified.fresh st.key _ pid w hsub hw hacc hvisited with htoken | ⟨st', hst', hup⟩
  · exact absurd (htoken.symm.trans hempty) nofun
  · obtain rfl := Option.some.inj (hst.symm.trans hst')
    simp only [Stream.UpTo, hwait] at hup
    exact hup out hout

/-- The store once the peer `P` has enrolled. -/
def enrolled : Store := Store.savePeer {} { wgPubKey := "P", accountID := "acme" }

/-- Two notifications reach a stream in the middle of its first response; the second
    finds the channel full. One signal makes it send again. -/
def coalescedRun : List Event :=
  [.open 1 "K" "acme", .act 1 .register, .act 1 (.readPeers [] none),
    .write 7 "acme" {}, .notify 7 (.lock ["K"]), .notify 7 .next, .notify 7 .unlock,
    .write 8 "acme" enrolled, .notify 8 (.lock ["K"]), .notify 8 .next, .notify 8 .unlock,
    .act 1 (.readRules [] 0 none), .act 1 (.send none),
    .act 1 .take, .act 1 (.readPeers ["P"] none), .act 1 (.readRules [] 0 none),
    .act 1 (.send none)]

/-- Every listing of the run is an order of its map. -/
private theorem coalescedRun_valid :
    ExecAlong (step "net") ValidOrders (start {}) coalescedRun := by
  have hsubs := PMap.RangeOrder.singleton "K" (⟨1, "acme"⟩ : SyncSub)
  have hpeers : PMap.RangeOrder ({} : Store).peers.rows [] := .empty
  have hpeers' : PMap.RangeOrder enrolled.peers.rows ["P"] := .singleton ..
  have hrules : PMap.RangeOrder enrolled.rules.rows [] := .empty
  -- open, register, the first read, then the two writers
  refine .cons rfl trivial (.cons rfl trivial (.cons rfl hpeers ?_))
  refine .cons rfl trivial (.cons rfl hsubs (.cons rfl trivial (.cons rfl trivial ?_)))
  refine .cons rfl trivial (.cons rfl hsubs (.cons rfl trivial (.cons rfl trivial ?_)))
  -- the rest of the first response, then the second one
  refine .cons rfl hrules (.cons rfl trivial ?_)
  exact .cons rfl trivial (.cons rfl hpeers' (.cons rfl hrules (.cons rfl trivial trivial)))

/-- The stream then waits with an empty channel, and its last response is of the second
    write. -/
theorem waiting_fresh_coalesced :
    ∃ s st out, exec (step "net") (start {}) coalescedRun = some s ∧
      s.streams 1 = some st ∧ s.tokens 1 = false ∧ st.last = some out ∧
      s.writers 8 = some ⟨"acme", 2, .notified⟩ ∧ 2 ≤ out.peersAt ∧ 2 ≤ out.rulesAt := by
  have hrun : (exec (step "net") (start {}) coalescedRun).map (fun s =>
      ((s.streams 1).map fun st => (st.key, st.accountID, decide (st.phase = .waiting)),
        s.tokens 1, s.subs "K", s.writers 8)) =
      some (some ("K", "acme", true), false, some ⟨1, "acme"⟩,
        some ⟨"acme", 2, .notified⟩) := by
    decide +kernel
  obtain ⟨s, hs, hfacts⟩ := Option.map_eq_some_iff.mp hrun
  simp only [Prod.mk.injEq] at hfacts
  obtain ⟨hstream, htoken, hsub, hwriter⟩ := hfacts
  obtain ⟨st, hst, hst'⟩ := Option.map_eq_some_iff.mp hstream
  simp only [Prod.mk.injEq, decide_eq_true_eq] at hst'
  obtain ⟨hkey, hacc, hwait⟩ := hst'
  -- the subscription is that of the stream
  have hsub' : s.subs st.key = some ⟨1, st.accountID⟩ := by rw [hkey, hacc, hsub]
  obtain ⟨out, hout, _, hfresh⟩ := waiting_fresh coalescedRun_valid hs hst hsub' hwait htoken
  have hversion := hfresh 8 _ hwriter hacc.symm rfl
  exact ⟨s, st, out, hs, hst, htoken, hout, hwriter, hversion⟩

end Blinex.Native.Management.Streams
