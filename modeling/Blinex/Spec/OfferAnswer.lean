import Blinex.ForStd.Run
import Blinex.Native.IceManager

/-!
# Offer and answer

Two managers, `a` with the smaller key and so the controller, connect to each other over
two queues that keep the order and may hold a message for any time. OFFERs and ANSWERs carry
no attempt, so beside the session we log which entry each OFFER was sent for and which OFFER
each ANSWER responds to. When an attempt of the controller ends, the entry for the next one
is installed at once; an ANSWER that is late goes there, and the next attempt takes it for
its own. An ANSWER that finds the entry of the attempt it answers does no harm.
-/

namespace Blinex.Spec

open Blinex.Native.Ice
open Blinex.Native.Signalv1 (BodyType)

/-- The two managers and the messages on their way. -/
structure Session where
  a : Manager
  b : Manager
  toA : List IceBody := []
  toB : List IceBody := []

/-- A step of one side on its own, or the delivery of the oldest message to it. -/
inductive SessionEvent where
  | a (e : Event)
  | b (e : Event)
  | deliverA
  | deliverB
deriving DecidableEq

/-- Each side only connects to the other, and stays connected to it. -/
def sideStep (other : String) (m : Manager) (e : Event) : Option (Manager × List IceBody) :=
  match e with
  | .startConnect k => if k = other then m.step e else none
  | .put _ _ _ | .worker _ _ => m.step e
  | .closePeer _ | .cancel _ | .handleSignal _ _ => none

/-- One step of the session between the keys `ka` and `kb`. -/
def Session.step (ka kb : String) (s : Session) : SessionEvent → Option Session
  | .a e => (sideStep kb s.a e).map fun out => { s with a := out.1, toB := s.toB ++ out.2 }
  | .b e => (sideStep ka s.b e).map fun out => { s with b := out.1, toA := s.toA ++ out.2 }
  | .deliverA =>
    match s.toA with
    | body :: rest => some { s with a := s.a.handleSignal kb (some body), toA := rest }
    | [] => none
  | .deliverB =>
    match s.toB with
    | body :: rest => some { s with b := s.b.handleSignal ka (some body), toB := rest }
    | [] => none

/-! ## The logs -/

/-- The OFFER that a step of the controller sends, with the entry its attempt runs on. -/
def offerMade (m : Manager) : Event → List (PeerConnId × Exchange)
  | .worker x (.gathered own _) =>
    match (m.workers x).map Worker.phase with
    | some (.gathering pc) => [(pc, own)]
    | _ => []
  | _ => []

/-- The ANSWER that a step of the other side sends, with the OFFER it responds to. -/
def answerMade (m : Manager) : Event → List (Exchange × Exchange)
  | .worker x (.receive _) =>
    match (m.workers x).map Worker.phase with
    | some (.waitOffer pc own) => ((m.conns pc).offerCh.map fun ex => (own, ex)).toList
    | _ => []
  | _ => []

/-- The credentials that an attempt draws. -/
def drawn : Event → List Exchange
  | .worker _ (.gathered own _) => [own]
  | _ => []

/-- A session with its logs. -/
structure Logged where
  session : Session
  offers : List (PeerConnId × Exchange) := []
  answers : List (Exchange × Exchange) := []
  used : List Exchange := []

/-- One step, logged. -/
def loggedStep (ka kb : String) (s : Logged) (e : SessionEvent) : Option Logged :=
  (s.session.step ka kb e).map fun session =>
    match e with
    | .a e => { s with
        session
        offers := s.offers ++ offerMade s.session.a e
        used := s.used ++ drawn e }
    | .b e => { s with
        session
        answers := s.answers ++ answerMade s.session.b e
        used := s.used ++ drawn e }
    | _ => { s with session }

/-- The session before anything happened. -/
def Logged.new (ka kb : String) : Logged :=
  { session := { a := { selfKey := ka }, b := { selfKey := kb } } }

/-- Every attempt draws credentials that no attempt had before. -/
def DrawsUnused (s : Logged) : SessionEvent → Prop
  | .a e | .b e => ∀ own ∈ drawn e, own ∉ s.used
  | _ => True

instance (s : Logged) : (e : SessionEvent) → Decidable (DrawsUnused s e)
  | .a e => inferInstanceAs (Decidable (∀ own ∈ drawn e, own ∉ s.used))
  | .b e => inferInstanceAs (Decidable (∀ own ∈ drawn e, own ∉ s.used))
  | .deliverA => isTrue trivial
  | .deliverB => isTrue trivial

/-- An attempt of the controller that dials does so with an ANSWER to its own OFFER, and to
    no other. -/
def Agreed (s : Logged) : Prop :=
  ∀ x w pc own remote, s.session.a.workers x = some w → w.phase = .dialing pc own remote →
    (remote, own) ∈ s.answers ∧ ∀ ex, (remote, ex) ∈ s.answers → ex = own

/-- `ex` answers an OFFER that was sent for the entry. -/
def AnswersEntry (offers : List (PeerConnId × Exchange)) (answers : List (Exchange × Exchange))
    (pc : PeerConnId) (ex : Exchange) : Prop :=
  ∃ offer, (ex, offer) ∈ answers ∧ (pc, offer) ∈ offers

/-- An ANSWER reaches the controller while the entry of the attempt it answers is in the
    map. -/
def InTime (kb : String) (s : Logged) : SessionEvent → Prop
  | .deliverA => ∀ ex rest pc, s.session.toA = { type := .answer, exchange := some ex } :: rest →
      s.session.a.peers kb = some pc → AnswersEntry s.offers s.answers pc ex
  | _ => True

instance (offers : List (PeerConnId × Exchange)) (answers : List (Exchange × Exchange))
    (pc : PeerConnId) (ex : Exchange) : Decidable (AnswersEntry offers answers pc ex) :=
  decidable_of_iff (∃ p ∈ answers, p.1 = ex ∧ (pc, p.2) ∈ offers)
    ⟨fun ⟨p, hp, hex, hoff⟩ => ⟨p.2, hex ▸ hp, hoff⟩,
      fun ⟨offer, hans, hoff⟩ => ⟨(ex, offer), hans, rfl, hoff⟩⟩

/-- Whether a delivery is in time can be computed. -/
instance (kb : String) (s : Logged) : (e : SessionEvent) → Decidable (InTime kb s e)
  | .deliverA =>
    decidable_of_iff (∀ body ∈ s.session.toA.head?, ∀ pc ∈ s.session.a.peers kb,
        body.type = .answer → ∀ ex ∈ body.exchange, AnswersEntry s.offers s.answers pc ex) (by
      constructor
      · intro h ex rest pc hqueue hpc
        exact h _ (by rw [hqueue]; rfl) pc hpc rfl ex rfl
      · rintro h ⟨type, exchange⟩ hbody pc hpc rfl ex rfl
        obtain ⟨rest, hqueue⟩ := List.head?_eq_some_iff.mp hbody
        exact h ex rest pc hqueue hpc)
  | .a _ => isTrue trivial
  | .b _ => isTrue trivial
  | .deliverB => isTrue trivial

variable {ka kb k : String} {m m' : Manager} {x : Ctx} {w : Worker} {e : WorkerEvent}
  {out : List IceBody} {offers : List (PeerConnId × Exchange)}
  {answers : List (Exchange × Exchange)} {used : List Exchange}

/-! ## One worker on each side -/

/-- A manager that is never told to close the peer `k`, and knows no other, has one worker
    at most. -/
structure Solo (k : String) (m : Manager) : Prop where
  alone : ∀ x y w w', m.workers x = some w → m.workers y = some w' → x = y
  untracked : m.peers k = none → ∀ x, m.workers x = none
  keys : ∀ x w, m.workers x = some w → w.peerKey = k

/-- Changing the phase of a worker keeps it the only one. -/
private theorem Solo.of_set (h : Solo k m) (hw : m.workers x = some w) {phase : RunPhase}
    (hset : m'.workers = m.workers.set x { w with phase })
    (hpeers : m'.peers k = none → m.peers k = none) : Solo k m' := by
  -- every worker was there before, for the same peer
  have hold : ∀ y w', m'.workers y = some w' → ∃ w'', m.workers y = some w'' ∧
      w'.peerKey = w''.peerKey := by
    intro y w' hw'
    rw [hset] at hw'
    rcases PMap.set_eq_some _ hw' with ⟨rfl, rfl⟩ | ⟨-, hw'⟩
    · exact ⟨w, hw, rfl⟩
    · exact ⟨w', hw', rfl⟩
  constructor
  · intro y z w₁ w₂ hy hz
    obtain ⟨_, hy, -⟩ := hold y w₁ hy
    obtain ⟨_, hz, -⟩ := hold z w₂ hz
    exact h.alone y z _ _ hy hz
  · intro hnone
    exact absurd (h.untracked (hpeers hnone) x) (by simp [hw])
  · intro y w' hy
    obtain ⟨w'', hy, hkey⟩ := hold y w' hy
    exact hkey.trans (h.keys y w'' hy)

/-- So does every step of it. -/
theorem Solo.worker (h : Solo k m) (hw : m.workers x = some w)
    (hmoves : Manager.Moves m x w e m' out) : Solo k m' := by
  cases hmoves with
  | replace hphase =>
    refine h.of_set hw rfl fun hnone => ?_
    simp [Manager.move, Manager.replaceEntry, h.keys x w hw] at hnone
  | _ => exact h.of_set hw rfl id

/-- `StartConnect` makes a worker only where there was none. -/
theorem Solo.startConnect (h : Solo k m) : Solo k (m.startConnect k) := by
  unfold Manager.startConnect
  split
  · exact h
  · rename_i hnone
    -- the peer was not tracked, so there was no worker
    have hnew : ∀ y w, (m.track k).workers y = some w → y = m.nextCtx ∧ w.peerKey = k := by
      intro y w hw
      rcases PMap.set_eq_some _ hw with ⟨rfl, rfl⟩ | ⟨-, hw⟩
      · exact ⟨rfl, rfl⟩
      · rw [h.untracked hnone y] at hw
        cases hw
    constructor
    · intro y z w₁ w₂ hy hz
      exact (hnew y w₁ hy).1.trans (hnew z w₂ hz).1.symm
    · intro hpeers
      simp [Manager.track] at hpeers
    · intro y w hw
      exact (hnew y w hw).2

/-- A message to be delivered makes no worker. -/
theorem Solo.prepare (h : Solo k m) (type : BodyType) (ex : Exchange) :
    Solo k (m.prepare k type ex) := by
  unfold Manager.prepare
  split
  · exact ⟨h.alone, h.untracked, h.keys⟩
  · exact h

/-- `HandleSignal` makes a worker only where there was none. -/
theorem Solo.handleSignal (h : Solo k m) (body : Option IceBody) :
    Solo k (m.handleSignal k body) := by
  unfold Manager.handleSignal
  split
  · exact h.startConnect.prepare _ _
  · exact h.prepare _ _
  · exact h

/-- What a side does on its own: it starts connecting, a call of `HandleSignal` ends or its
    worker goes on. -/
private theorem sideStep_cases {e : Event} (h : sideStep k m e = some (m', out)) :
    (e = .startConnect k ∧ m' = m.startConnect k) ∨
    (∃ pc type ex, e = .put pc type ex ∧ (pc, type, ex) ∈ m.puts ∧ m' = m.put pc type ex) ∨
    (∃ x w we, e = .worker x we ∧ m.workers x = some w ∧ Manager.Moves m x w we m' out) := by
  cases e with
  | startConnect k' =>
    simp only [sideStep] at h
    split at h
    · -- a side connects to its one peer
      rename_i hk
      subst hk
      obtain ⟨rfl, -⟩ := Prod.mk.inj (Option.some.inj h)
      exact .inl ⟨rfl, rfl⟩
    · cases h
  | put pc type ex =>
    simp only [sideStep, Manager.step] at h
    split at h
    · rename_i hmem
      obtain ⟨rfl, -⟩ := Prod.mk.inj (Option.some.inj h)
      exact .inr (.inl ⟨pc, type, ex, rfl, hmem, rfl⟩)
    · cases h
  | worker x we =>
    obtain ⟨w, hw, h⟩ := Option.bind_eq_some_iff.mp h
    exact .inr (.inr ⟨x, w, we, rfl, hw, Manager.workerStep_moves h⟩)
  -- the other events are not the side's own
  | _ => cases h

/-! ## The controller -/

/-- No OFFER was sent for the entry. -/
def Unoffered (offers : List (PeerConnId × Exchange)) (pc : PeerConnId) : Prop :=
  ∀ ex, (pc, ex) ∉ offers

/-- What the logs say about a worker of the controller at a point of its loop: one OFFER at
    most is sent for an entry, its own. -/
def OfferState (kb : String) (m : Manager) (offers : List (PeerConnId × Exchange))
    (answers : List (Exchange × Exchange)) : RunPhase → Prop
  | .top | .waiting => ∀ pc, m.peers kb = some pc → Unoffered offers pc
  | .gathering pc => pc < m.nextConn ∧ Unoffered offers pc
  | .waitAnswer pc own => ∀ ex, (pc, ex) ∈ offers → ex = own
  | .waitOffer _ _ => False
  | .dialing _ own remote => (remote, own) ∈ answers
  | _ => True

/-- After the dial nothing is required of the entry. -/
private theorem offerState_quiet {phase : RunPhase} (h : phase.quiet = true) :
    OfferState kb m offers answers phase := by
  cases phase with
  | connected pc | returned pc | alive pc | tracked pc => trivial
  | _ => cases h

/-- The controller against the logs. -/
structure ControllerInv (ka kb : String) (m : Manager) (offers : List (PeerConnId × Exchange))
    (answers : List (Exchange × Exchange)) : Prop where
  solo : Solo kb m
  self : m.selfKey = ka
  entry : ∀ pc, m.peers kb = some pc → pc < m.nextConn
  alloc : ∀ pc ex, (pc, ex) ∈ offers → pc < m.nextConn
  phase : ∀ x w, m.workers x = some w → OfferState kb m offers answers w.phase
  chan : ∀ pc ex, (m.conns pc).answerCh = some ex → AnswersEntry offers answers pc ex
  puts : ∀ pc ex, (pc, BodyType.answer, ex) ∈ m.puts → AnswersEntry offers answers pc ex

/-- At the start there is nothing to agree on. -/
private theorem controllerInv_new (ka kb : String) :
    ControllerInv ka kb { selfKey := ka } [] [] := by
  refine ⟨?_, rfl, ?_, ?_, ?_, ?_, ?_⟩
  · constructor <;> simp
  all_goals simp

namespace ControllerInv

/-- The entry that is allocated next has no OFFER. -/
private theorem unoffered_next (h : ControllerInv ka kb m offers answers) :
    Unoffered offers m.nextConn :=
  fun ex hmem => Nat.lt_irrefl _ (h.alloc _ ex hmem)

/-- More ANSWERs do no harm. -/
private theorem more_answers (h : ControllerInv ka kb m offers answers)
    (more : List (Exchange × Exchange)) : ControllerInv ka kb m offers (answers ++ more) := by
  have hmore : ∀ pc ex, AnswersEntry offers answers pc ex →
      AnswersEntry offers (answers ++ more) pc ex := by
    rintro pc ex ⟨offer, hans, hoff⟩
    exact ⟨offer, List.mem_append_left _ hans, hoff⟩
  refine ⟨h.solo, h.self, h.entry, h.alloc, ?_, ?_, ?_⟩
  · intro x w hw
    have hstate := h.phase x w hw
    -- only a dialling worker points at an ANSWER
    cases hphase : w.phase with
    | dialing pc own remote =>
      rw [hphase] at hstate
      exact List.mem_append_left _ hstate
    | _ =>
      rw [hphase] at hstate
      exact hstate
  · exact fun pc ex hch => hmore pc ex (h.chan pc ex hch)
  · exact fun pc ex hput => hmore pc ex (h.puts pc ex hput)

/-- The worker goes on and the logs stay. -/
theorem move (h : ControllerInv ka kb m offers answers) (hw : m.workers x = some w)
    {phase : RunPhase} (hphase : OfferState kb m offers answers phase) :
    ControllerInv ka kb (m.move x w phase) offers answers := by
  refine ⟨h.solo.of_set hw rfl id, h.self, h.entry, h.alloc, ?_, h.chan, h.puts⟩
  intro y w' hw'
  rcases PMap.set_eq_some _ hw' with ⟨-, rfl⟩ | ⟨-, hw'⟩
  · exact hphase
  · exact h.phase y w' hw'

/-- The channels change, and hold no exchange they should not. -/
private theorem with_conns (h : ControllerInv ka kb m offers answers)
    {conns : PeerConnId → PeerConn}
    {puts : List (PeerConnId × BodyType × Exchange)}
    (hchan : ∀ pc ex, (conns pc).answerCh = some ex → AnswersEntry offers answers pc ex)
    (hputs : ∀ pc ex, (pc, BodyType.answer, ex) ∈ puts → AnswersEntry offers answers pc ex) :
    ControllerInv ka kb { m with conns, puts } offers answers :=
  ⟨⟨h.solo.alone, h.solo.untracked, h.solo.keys⟩, h.self, h.entry, h.alloc, h.phase, hchan,
    hputs⟩

/-- A message put into a channel was one to be put. -/
theorem put (h : ControllerInv ka kb m offers answers) {pc : PeerConnId} {type : BodyType}
    {ex : Exchange} (hput : (pc, type, ex) ∈ m.puts) :
    ControllerInv ka kb (m.put pc type ex) offers answers := by
  refine h.with_conns ?_ fun pc' ex' hmem => h.puts pc' ex' (List.mem_of_mem_erase hmem)
  intro pc' ex' hch
  by_cases hpc : pc' = pc
  · subst hpc
    rw [Function.update_self] at hch
    cases type with
    -- a channel holds one message: the new one goes in if it is empty
    | answer =>
      rcases Option.or_eq_some_iff.mp hch with hold | ⟨-, hnew⟩
      · exact h.chan pc' ex' hold
      · obtain rfl := Option.some.inj hnew
        exact h.puts pc' ex hput
    | _ => exact h.chan pc' ex' hch
  · rw [Function.update_of_ne hpc] at hch
    exact h.chan pc' ex' hch

/-- Taking the answer empties its channel. -/
theorem take (h : ControllerInv ka kb m offers answers) (pc : PeerConnId) :
    ControllerInv ka kb (m.take pc .answer) offers answers := by
  refine h.with_conns ?_ h.puts
  intro pc' ex' hch
  by_cases hpc : pc' = pc
  · subst hpc
    simp at hch
  · rw [Function.update_of_ne hpc] at hch
    exact h.chan pc' ex' hch

/-- A new entry has empty channels. -/
private theorem chan_update (h : ControllerInv ka kb m offers answers) (x : Ctx) (pc : PeerConnId)
    (ex : Exchange)
    (hch : (Function.update m.conns m.nextConn { cancel := x } pc).answerCh = some ex) :
    AnswersEntry offers answers pc ex := by
  by_cases hpc : pc = m.nextConn
  · subst hpc
    simp at hch
  · rw [Function.update_of_ne hpc] at hch
    exact h.chan pc ex hch

/-- A new entry has no OFFER yet. -/
theorem startConnect (h : ControllerInv ka kb m offers answers) :
    ControllerInv ka kb (m.startConnect kb) offers answers := by
  have hsolo := h.solo.startConnect
  unfold Manager.startConnect at hsolo ⊢
  split at hsolo
  · exact h
  · rename_i hnone
    refine ⟨hsolo, h.self, ?_, ?_, ?_, fun pc ex hch => h.chan_update _ pc ex hch, h.puts⟩
    · intro pc hpc
      -- the entry is the one just made, whose number is new
      obtain rfl : m.nextConn = pc := by simpa [Manager.track] using hpc
      exact Nat.lt_succ_self _
    · exact fun pc ex hmem => Nat.lt_succ_of_lt (h.alloc pc ex hmem)
    · intro y w hw
      rcases PMap.set_eq_some _ hw with ⟨-, rfl⟩ | ⟨-, hw⟩
      · intro pc hpc
        obtain rfl : m.nextConn = pc := by simpa [Manager.track] using hpc
        exact h.unoffered_next
      · -- no other worker: the peer was not tracked
        rw [h.solo.untracked hnone y] at hw
        cases hw

/-- A message to be put answers the entry that it is put to. -/
theorem prepare (h : ControllerInv ka kb m offers answers) {type : BodyType} {ex : Exchange}
    (hex : type = .answer → ∀ pc, m.peers kb = some pc → AnswersEntry offers answers pc ex) :
    ControllerInv ka kb (m.prepare kb type ex) offers answers := by
  unfold Manager.prepare
  split
  · rename_i pc hpc
    refine h.with_conns h.chan ?_
    intro pc' ex' hmem
    rcases List.mem_append.mp hmem with hold | hnew
    · exact h.puts pc' ex' hold
    · -- the one new message is for the tracked entry
      obtain ⟨rfl, rfl, rfl⟩ : pc' = pc ∧ BodyType.answer = type ∧ ex' = ex := by
        simpa using hnew
      exact hex rfl pc' hpc
  · exact h

/-- An answer that arrives is put to the entry of the moment. -/
theorem handleSignal (h : ControllerInv ka kb m offers answers) {body : IceBody}
    (hex : ∀ ex pc, body = { type := .answer, exchange := some ex } → m.peers kb = some pc →
      AnswersEntry offers answers pc ex) :
    ControllerInv ka kb (m.handleSignal kb (some body)) offers answers := by
  unfold Manager.handleSignal
  split
  · exact h.startConnect.prepare fun htype => by cases htype
  · rename_i ex hbody
    exact h.prepare fun _ pc hpc => hex ex pc (Option.some.inj hbody) hpc
  · exact h

/-- The entry that replaces another one has no OFFER yet. -/
theorem replaceEntry (h : ControllerInv ka kb m offers answers) (hw : m.workers x = some w)
    (pc : PeerConnId) :
    ControllerInv ka kb ((m.replaceEntry w.peerKey pc).move x w .waiting) offers answers := by
  have hkey := h.solo.keys x w hw
  have hnext : ∀ pc', (m.replaceEntry w.peerKey pc).peers kb = some pc' → pc' = m.nextConn := by
    intro pc' hpc'
    simpa [Manager.replaceEntry, hkey, eq_comm] using hpc'
  refine ⟨?_, h.self, ?_, ?_, ?_, fun pc' ex hch => h.chan_update _ pc' ex hch, h.puts⟩
  · refine h.solo.of_set hw rfl fun hnone => ?_
    simp [Manager.move, Manager.replaceEntry, hkey] at hnone
  · intro pc' hpc'
    rw [hnext pc' hpc']
    exact Nat.lt_succ_self _
  · exact fun pc' ex hmem => Nat.lt_succ_of_lt (h.alloc pc' ex hmem)
  · intro y w' hw'
    -- there is no other worker
    rcases PMap.set_eq_some _ hw' with ⟨-, rfl⟩ | ⟨hne, hw'⟩
    · intro pc' hpc'
      rw [hnext pc' hpc']
      exact h.unoffered_next
    · exact absurd (h.solo.alone y x w' w hw' hw) hne

/-- The attempt sends its OFFER, the first one for its entry. -/
theorem offer (h : ControllerInv ka kb m offers answers) (hw : m.workers x = some w)
    {pc : PeerConnId} (hphase : w.phase = .gathering pc) (own : Exchange) :
    ControllerInv ka kb (m.move x w (.waitAnswer pc own)) (offers ++ [(pc, own)]) answers := by
  have hstate := h.phase x w hw
  rw [hphase] at hstate
  obtain ⟨hlt, hun⟩ := hstate
  have hmore : ∀ pc' ex, AnswersEntry offers answers pc' ex →
      AnswersEntry (offers ++ [(pc, own)]) answers pc' ex := by
    rintro pc' ex ⟨offer, hans, hoff⟩
    exact ⟨offer, hans, List.mem_append_left _ hoff⟩
  refine ⟨h.solo.of_set hw rfl id, h.self, h.entry, ?_, ?_,
    fun pc' ex hch => hmore pc' ex (h.chan pc' ex hch),
    fun pc' ex hput => hmore pc' ex (h.puts pc' ex hput)⟩
  · intro pc' ex hmem
    rcases List.mem_append.mp hmem with hold | hnew
    · exact h.alloc pc' ex hold
    · obtain ⟨rfl, -⟩ : pc' = pc ∧ ex = own := by simpa using hnew
      exact hlt
  · intro y w' hw'
    rcases PMap.set_eq_some _ hw' with ⟨-, rfl⟩ | ⟨hne, hw'⟩
    · intro ex hmem
      rcases List.mem_append.mp hmem with hold | hnew
      · -- the entry had no OFFER, so the new one is its only one
        exact absurd hold (hun ex)
      · exact (Prod.mk.inj (List.mem_singleton.mp hnew)).2
    · exact absurd (h.solo.alone y x w' w hw' hw) hne

private theorem offerMade_silent (h : e.silent = true) : offerMade m (.worker x e) = [] := by
  cases e with
  | gathered own sent => cases h
  | _ => rfl

/-- The OFFER is made for the entry that was gathered for. -/
private theorem offerMade_gathered (hw : m.workers x = some w) {pc : PeerConnId}
    (hphase : w.phase = .gathering pc) (own : Exchange) (sent : Bool) :
    offerMade m (.worker x (.gathered own sent)) = [(pc, own)] := by
  simp only [offerMade, hw, Option.map_some, hphase]

/-- A step of the controller's worker. -/
theorem worker (hlt : ka < kb) (h : ControllerInv ka kb m offers answers)
    (hw : m.workers x = some w) (hmoves : Manager.Moves m x w e m' out) :
    ControllerInv ka kb m' (offers ++ offerMade m (.worker x e)) answers := by
  have hkey := h.solo.keys x w hw
  have hstate := h.phase x w hw
  cases hmoves with
  | start hphase hpc =>
    rw [hphase] at hstate
    rw [hkey] at hpc
    rw [offerMade_silent rfl, List.append_nil]
    exact h.move hw ⟨h.entry _ hpc, hstate _ hpc⟩
  | offer hphase _ =>
    rw [offerMade_gathered hw hphase]
    exact h.offer hw hphase _
  | await _ hctl =>
    -- the smaller key is the controller
    simp [Manager.isController, h.self, hkey, hlt] at hctl
  | dial hphase hex =>
    rw [hphase] at hstate
    -- what is on the channel answers an OFFER for this entry, and there is one only
    obtain ⟨offer, hans, hoff⟩ := h.chan _ _ hex
    obtain rfl := hstate offer hoff
    rw [show offerMade m (.worker x (.receive _)) = [] from rfl, List.append_nil]
    exact (h.take _).move hw hans
  | answer hphase _ =>
    rw [hphase] at hstate
    exact hstate.elim
  | walk hsilent hquiet _ =>
    rw [offerMade_silent hsilent, List.append_nil]
    exact h.move hw (offerState_quiet hquiet)
  | exit hsilent _ _ =>
    rw [offerMade_silent hsilent, List.append_nil]
    exact h.move hw trivial
  | replace hphase =>
    rw [offerMade_silent rfl, List.append_nil]
    exact h.replaceEntry hw _
  | again hphase =>
    rw [hphase] at hstate
    rw [offerMade_silent rfl, List.append_nil]
    exact h.move hw hstate

/-- A step of the controller's side. -/
private theorem side (hlt : ka < kb) (h : ControllerInv ka kb m offers answers) {e : Event}
    (hs : sideStep kb m e = some (m', out)) :
    ControllerInv ka kb m' (offers ++ offerMade m e) answers := by
  rcases sideStep_cases hs with ⟨rfl, rfl⟩ | ⟨pc, type, ex, rfl, hput, rfl⟩ |
    ⟨x, w, we, rfl, hw, hmoves⟩
  · rw [show offerMade m (.startConnect kb) = [] from rfl, List.append_nil]
    exact h.startConnect
  · rw [show offerMade m (.put pc type ex) = [] from rfl, List.append_nil]
    exact h.put hput
  · exact h.worker hlt hw hmoves

end ControllerInv

/-! ## The controlled side -/

/-- The other side against the logs: an ANSWER is sent once, with credentials of its own. -/
structure ControlledInv (ka : String) (m : Manager) (answers : List (Exchange × Exchange))
    (used : List Exchange) : Prop where
  solo : Solo ka m
  waits : ∀ x w pc own, m.workers x = some w → w.phase = .waitOffer pc own →
    own ∈ used ∧ ∀ ex, (own, ex) ∉ answers
  drawn : ∀ own ex, (own, ex) ∈ answers → own ∈ used
  unique : ∀ own ex ex', (own, ex) ∈ answers → (own, ex') ∈ answers → ex = ex'

private theorem controlledInv_new (ka kb : String) : ControlledInv ka { selfKey := kb } [] [] := by
  refine ⟨?_, ?_, ?_, ?_⟩
  · constructor <;> simp
  all_goals simp

namespace ControlledInv

/-- More parameters in use do no harm. -/
private theorem more_used (h : ControlledInv ka m answers used) (more : List Exchange) :
    ControlledInv ka m answers (used ++ more) := by
  refine ⟨h.solo, ?_, fun own ex hmem => List.mem_append_left _ (h.drawn own ex hmem), h.unique⟩
  intro x w pc own hw hphase
  obtain ⟨hused, hun⟩ := h.waits x w pc own hw hphase
  exact ⟨List.mem_append_left _ hused, hun⟩

/-- A step after which no worker waits for an OFFER that did not before. -/
private theorem of_waits (h : ControlledInv ka m answers used) (hsolo : Solo ka m')
    (hwaits : ∀ x w pc own, m'.workers x = some w → w.phase = .waitOffer pc own →
      m.workers x = some w) : ControlledInv ka m' answers used :=
  ⟨hsolo, fun x w pc own hw hphase => h.waits x w pc own (hwaits x w pc own hw hphase) hphase,
    h.drawn, h.unique⟩

/-- The worker goes on to a point where it does not wait for an OFFER. -/
theorem move (h : ControlledInv ka m answers used) (hw : m.workers x = some w)
    (hmoves : Manager.Moves m x w e m' out) {phase : RunPhase}
    (hset : m'.workers = m.workers.set x { w with phase })
    (hphase : ∀ pc own, phase ≠ .waitOffer pc own) : ControlledInv ka m' answers used := by
  refine h.of_waits (h.solo.worker hw hmoves) ?_
  intro y w' pc own hw' hwait
  rw [hset] at hw'
  rcases PMap.set_eq_some _ hw' with ⟨-, rfl⟩ | ⟨-, hw'⟩
  · exact absurd hwait (hphase pc own)
  · exact hw'

/-- A new worker does not wait for an OFFER yet. -/
theorem startConnect (h : ControlledInv ka m answers used) :
    ControlledInv ka (m.startConnect ka) answers used := by
  refine h.of_waits h.solo.startConnect ?_
  intro y w pc own hw hwait
  unfold Manager.startConnect at hw
  split at hw
  · exact hw
  · rcases PMap.set_eq_some _ hw with ⟨-, rfl⟩ | ⟨-, hw⟩
    · cases hwait
    · exact hw

/-- A message to be put changes no worker. -/
theorem prepare (h : ControlledInv ka m answers used) (type : BodyType) (ex : Exchange) :
    ControlledInv ka (m.prepare ka type ex) answers used := by
  refine h.of_waits (h.solo.prepare type ex) ?_
  intro y w pc own hw _
  unfold Manager.prepare at hw
  split at hw <;> exact hw

/-- A message that arrives changes no worker that waits. -/
theorem handleSignal (h : ControlledInv ka m answers used) (body : Option IceBody) :
    ControlledInv ka (m.handleSignal ka body) answers used := by
  unfold Manager.handleSignal
  split
  · exact h.startConnect.prepare _ _
  · exact h.prepare _ _
  · exact h

/-- The attempt draws fresh credentials and waits for an OFFER. -/
theorem await (h : ControlledInv ka m answers used) (hw : m.workers x = some w)
    (pc : PeerConnId) {own : Exchange} (hfresh : own ∉ used) :
    ControlledInv ka (m.move x w (.waitOffer pc own)) answers (used ++ [own]) := by
  have hmore := h.more_used [own]
  refine ⟨h.solo.of_set hw rfl id, ?_, hmore.drawn, h.unique⟩
  intro y w' pc' own' hw' hwait
  rcases PMap.set_eq_some _ hw' with ⟨-, rfl⟩ | ⟨-, hw'⟩
  · obtain ⟨-, rfl⟩ := RunPhase.waitOffer.inj hwait
    exact ⟨by simp, fun ex hmem => hfresh (h.drawn own ex hmem)⟩
  · exact hmore.waits y w' pc' own' hw' hwait

/-- The attempt answers an OFFER. -/
theorem answer (h : ControlledInv ka m answers used) (hw : m.workers x = some w)
    {pc : PeerConnId} {own : Exchange} (hphase : w.phase = .waitOffer pc own) (ex : Exchange) :
    ControlledInv ka ((m.take pc .offer).move x w (.dialing pc own ex)) (answers ++ [(own, ex)])
      used := by
  obtain ⟨hused, hun⟩ := h.waits x w pc own hw hphase
  have hcases : ∀ own' ex', (own', ex') ∈ answers ++ [(own, ex)] →
      (own', ex') ∈ answers ∨ (own' = own ∧ ex' = ex) := by
    intro own' ex' hmem
    simpa using hmem
  refine ⟨h.solo.of_set hw rfl id, ?_, ?_, ?_⟩
  · intro y w' pc' own' hw' hwait
    rcases PMap.set_eq_some _ hw' with ⟨-, rfl⟩ | ⟨hne, hw'⟩
    · cases hwait
    · exact absurd (h.solo.alone y x w' w hw' hw) hne
  · intro own' ex' hmem
    rcases hcases own' ex' hmem with hold | ⟨rfl, -⟩
    · exact h.drawn own' ex' hold
    · exact hused
  · intro own' ex₁ ex₂ hmem₁ hmem₂
    -- the new ANSWER has credentials that were in none before
    rcases hcases own' ex₁ hmem₁ with hold₁ | ⟨rfl, rfl⟩ <;>
      rcases hcases _ ex₂ hmem₂ with hold₂ | ⟨heq, rfl⟩
    · exact h.unique own' ex₁ ex₂ hold₁ hold₂
    · exact absurd (heq ▸ hold₁) (hun ex₁)
    · exact absurd hold₂ (hun ex₂)
    · rfl

private theorem answerMade_silent (h : e.silent = true) : answerMade m (.worker x e) = [] := by
  cases e with
  | receive sent => cases h
  | _ => rfl

private theorem drawn_silent (h : e.silent = true) : Spec.drawn (.worker x e) = [] := by
  cases e with
  | gathered own sent => cases h
  | _ => rfl

/-- With nothing made and nothing drawn, the logs stay as they are. -/
theorem silent (h : ControlledInv ka m' answers used) (hsilent : e.silent = true) :
    ControlledInv ka m' (answers ++ answerMade m (.worker x e))
      (used ++ Spec.drawn (.worker x e)) := by
  rw [answerMade_silent hsilent, drawn_silent hsilent, List.append_nil, List.append_nil]
  exact h

/-- A step of the controlled side's worker. -/
theorem worker (h : ControlledInv ka m answers used) (hw : m.workers x = some w)
    (hfresh : ∀ own ∈ Spec.drawn (.worker x e), own ∉ used)
    (hmoves : Manager.Moves m x w e m' out) :
    ControlledInv ka m' (answers ++ answerMade m (.worker x e))
      (used ++ Spec.drawn (.worker x e)) := by
  have hmoves' := hmoves
  cases hmoves with
  | start | replace | again =>
    exact (h.move hw hmoves' rfl (by simp)).silent rfl
  | offer =>
    rw [show answerMade m (.worker x (.gathered _ _)) = [] from rfl, List.append_nil]
    exact (h.move hw hmoves' rfl (by simp)).more_used _
  | await =>
    rw [show answerMade m (.worker x (.gathered _ _)) = [] from rfl, List.append_nil]
    exact h.await hw _ (hfresh _ (List.mem_singleton.mpr rfl))
  -- on the controlled side no ANSWER is received
  | dial hphase =>
    have hnone : ∀ sent, answerMade m (.worker x (.receive sent)) = [] := by
      intro sent
      simp only [answerMade, hw, Option.map_some, hphase]
    rw [hnone, List.append_nil, show Spec.drawn (.worker x (.receive _)) = [] from rfl,
      List.append_nil]
    exact h.move hw hmoves' rfl (by simp)
  | @answer _ own ex _ hphase hex =>
    have hmade : ∀ sent, answerMade m (.worker x (.receive sent)) = [(own, ex)] := by
      intro sent
      simp only [answerMade, hw, Option.map_some, hphase, hex, Option.toList_some]
    rw [hmade, show Spec.drawn (.worker x (.receive _)) = [] from rfl, List.append_nil]
    exact h.answer hw hphase ex
  | walk hsilent hquiet _ =>
    refine (h.move hw hmoves' rfl ?_).silent hsilent
    rintro pc own rfl
    cases hquiet
  | exit hsilent _ _ => exact (h.move hw hmoves' rfl (by simp)).silent hsilent

/-- A step of the controlled side. -/
private theorem side (h : ControlledInv ka m answers used) {e : Event}
    (hfresh : ∀ own ∈ Spec.drawn e, own ∉ used) (hs : sideStep ka m e = some (m', out)) :
    ControlledInv ka m' (answers ++ answerMade m e) (used ++ Spec.drawn e) := by
  rcases sideStep_cases hs with ⟨rfl, rfl⟩ | ⟨pc, type, ex, rfl, hput, rfl⟩ |
    ⟨x, w, we, rfl, hw, hmoves⟩
  · simp only [answerMade, Spec.drawn, List.append_nil]
    exact h.startConnect
  · simp only [answerMade, Spec.drawn, List.append_nil]
    exact ⟨⟨h.solo.alone, h.solo.untracked, h.solo.keys⟩, h.waits, h.drawn, h.unique⟩
  · exact h.worker hw hfresh hmoves

end ControlledInv

/-! ## Whole sessions -/

/-- Both sides against the logs. -/
structure SessionInv (ka kb : String) (s : Logged) : Prop where
  controller : ControllerInv ka kb s.session.a s.offers s.answers
  controlled : ControlledInv ka s.session.b s.answers s.used

/-- Every event keeps both invariants. -/
private theorem sessionInv_step (hlt : ka < kb) {s s' : Logged} {e : SessionEvent}
    (hok : DrawsUnused s e ∧ InTime kb s e) (h : SessionInv ka kb s)
    (hs : loggedStep ka kb s e = some s') : SessionInv ka kb s' := by
  obtain ⟨session, hsession, rfl⟩ := Option.map_eq_some_iff.mp hs
  cases e with
  | a e =>
    obtain ⟨⟨m', out⟩, hside, rfl⟩ := Option.map_eq_some_iff.mp hsession
    exact ⟨h.controller.side hlt hside, h.controlled.more_used _⟩
  | b e =>
    obtain ⟨⟨m', out⟩, hside, rfl⟩ := Option.map_eq_some_iff.mp hsession
    exact ⟨h.controller.more_answers _, h.controlled.side hok.1 hside⟩
  | deliverA =>
    -- the condition is on the delivery to the controller
    simp only [Session.step] at hsession
    split at hsession
    · rename_i body rest hqueue
      obtain rfl := Option.some.inj hsession
      refine ⟨h.controller.handleSignal ?_, h.controlled⟩
      rintro ex pc rfl hpc
      exact hok.2 ex rest pc hqueue hpc
    · cases hsession
  | deliverB =>
    simp only [Session.step] at hsession
    split at hsession
    · obtain rfl := Option.some.inj hsession
      exact ⟨h.controller, h.controlled.handleSignal _⟩
    · cases hsession

/-- A controller that dials has an ANSWER to its own OFFER. -/
private theorem SessionInv.agreed {s : Logged} (h : SessionInv ka kb s) : Agreed s := by
  intro x w pc own remote hw hphase
  have hstate := h.controller.phase x w hw
  rw [hphase] at hstate
  exact ⟨hstate, fun ex hmem => h.controlled.unique remote ex own hmem hstate⟩

/-- In every session in which each ANSWER reaches the controller while the entry of the
    attempt it answers is in the map, the controller dials with ANSWERs to the OFFER of the
    same attempt only. -/
theorem dials_with_own_answer (hlt : ka < kb) {es : List SessionEvent}
    (hfresh : ExecAlong (loggedStep ka kb) DrawsUnused (Logged.new ka kb) es)
    (hintime : ExecAlong (loggedStep ka kb) (InTime kb) (Logged.new ka kb) es) :
    Throughout (loggedStep ka kb) Agreed (Logged.new ka kb) es := by
  have hinv : Throughout (loggedStep ka kb) (SessionInv ka kb) (Logged.new ka kb) es :=
    (hfresh.and hintime).throughout (fun _ _ _ hok h hs => sessionInv_step hlt hok h hs)
      ⟨controllerInv_new ka kb, controlledInv_new ka kb⟩
  exact hinv.imp fun _ h => h.agreed

/-- Both sides start, the controller's OFFER `x₁` is with the other side, which waits for
    it with the credentials `y₁`. -/
def offeredRun : List SessionEvent :=
  [.a (.startConnect "B"), .b (.startConnect "A"), .a (.worker 0 .top),
    .a (.worker 0 (.gathered { ufrag := "x1" } true)), .b (.worker 0 .top),
    .b (.worker 0 (.gathered { ufrag := "y1" } true)), .deliverB,
    .b (.put 0 .offer { ufrag := "x1" })]

/-- The controller's attempt times out before the ANSWER arrives; the next one finds it on
    its channel. -/
def lateRun : List SessionEvent :=
  offeredRun ++ [.a (.worker 0 .leave), .a (.worker 0 .checkDone), .a (.worker 0 .checkTracked),
    .a (.worker 0 .replace), .b (.worker 0 (.receive true)), .deliverA,
    .a (.put 1 .answer { ufrag := "y1" }), .a (.worker 0 .retry), .a (.worker 0 .top),
    .a (.worker 0 (.gathered { ufrag := "x2" } true)), .a (.worker 0 (.receive false))]

/-- The second attempt dials with the ANSWER to the first one's OFFER. -/
theorem lateRun_mismatched :
    ExecAlong (loggedStep "A" "B") DrawsUnused (Logged.new "A" "B") lateRun ∧
    (exec (loggedStep "A" "B") (Logged.new "A" "B") lateRun).map
        (fun s => (s.session.a.workers 0, s.answers)) =
      some (some { peerKey := "B", phase := .dialing 1 { ufrag := "x2" } { ufrag := "y1" } },
        [({ ufrag := "y1" }, { ufrag := "x1" })]) ∧
    ¬ Throughout (loggedStep "A" "B") Agreed (Logged.new "A" "B") lateRun := by
  -- the ANSWER to the first OFFER is taken for one to the second
  have hend : (exec (loggedStep "A" "B") (Logged.new "A" "B") lateRun).map
      (fun s => (s.session.a.workers 0, s.answers)) =
    some (some { peerKey := "B", phase := .dialing 1 { ufrag := "x2" } { ufrag := "y1" } },
      [({ ufrag := "y1" }, { ufrag := "x1" })]) := by
    decide +kernel
  refine ⟨by decide +kernel, hend, ?_⟩
  intro h
  obtain ⟨s, hs, hstate⟩ := Option.map_eq_some_iff.mp hend
  obtain ⟨hworker, hanswers⟩ := Prod.mk.inj hstate
  have hown := (h.last hs 0 _ _ _ _ hworker rfl).1
  rw [hanswers] at hown
  exact absurd hown (by decide)

/-- The ANSWER arrives while the controller waits for it. -/
def timelyRun : List SessionEvent :=
  offeredRun ++ [.b (.worker 0 (.receive true)), .deliverA,
    .a (.put 0 .answer { ufrag := "y1" }), .a (.worker 0 (.receive false))]

/-- A run in which the ANSWER arrives in time. -/
theorem timelyRun_dials_with_own_answer :
    ((exec (loggedStep "A" "B") (Logged.new "A" "B") timelyRun).bind
        fun s => s.session.a.workers 0) =
      some { peerKey := "B", phase := .dialing 0 { ufrag := "x1" } { ufrag := "y1" } } ∧
    "A" < "B" ∧
    ExecAlong (loggedStep "A" "B") DrawsUnused (Logged.new "A" "B") timelyRun ∧
    ExecAlong (loggedStep "A" "B") (InTime "B") (Logged.new "A" "B") timelyRun ∧
    Throughout (loggedStep "A" "B") Agreed (Logged.new "A" "B") timelyRun := by
  have hlt : "A" < "B" := by decide
  have hfresh : ExecAlong (loggedStep "A" "B") DrawsUnused (Logged.new "A" "B") timelyRun := by
    decide +kernel
  have hintime : ExecAlong (loggedStep "A" "B") (InTime "B") (Logged.new "A" "B") timelyRun := by
    decide +kernel
  exact ⟨by decide +kernel, hlt, hfresh, hintime, dials_with_own_answer hlt hfresh hintime⟩

end Blinex.Spec
