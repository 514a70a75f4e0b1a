import Mathlib.Logic.Function.Basic
import Mathlib.Tactic.Common
import Blinex.ForStd.PMap
import Blinex.Native.Messages

/-!
# `client/internal/ice/manager.go`

The `Manager` with its retry workers, as a machine. A step is a section under the mutex, or
what a goroutine does on its own between two of them; the calls in flight are part of the
state. Timers may fire at any time and pion's agent may fail at any time, so the lengths of
the timeouts and of the backoff do not appear, and neither do the agent and its candidates
beyond the credentials that are exchanged. The contexts that callers of `StartConnect` pass
are taken to stay open; what `ClosePeer` cancels is the context derived from them.
-/

namespace Blinex.Native.Ice

open Signalv1 (BodyType)

/-- `iceExchange`. -/
structure Exchange where
  ufrag : String := ""
  pwd : String := ""
  candidates : List String := []
deriving DecidableEq

/-- A `signalv1.Body` as `HandleSignal` reads it: `exchange` is what `json.Unmarshal` makes
    of the payload. -/
structure IceBody where
  type : BodyType
  exchange : Option Exchange
deriving DecidableEq

/-- A `*peerConn`. -/
abbrev PeerConnId := Nat

/-- A context with its cancel function. -/
abbrev Ctx := Nat

/-- `peerConn`; its channels hold one exchange. -/
structure PeerConn where
  offerCh : Option Exchange := none
  answerCh : Option Exchange := none
  cancel : Ctx := 0
deriving DecidableEq

/-- `select { case ch <- ex: default: }` on the channel of that type. -/
def PeerConn.put (c : PeerConn) (type : BodyType) (ex : Exchange) : PeerConn :=
  match type with
  | .offer => { c with offerCh := c.offerCh.or (some ex) }
  | .answer => { c with answerCh := c.answerCh.or (some ex) }
  | _ => c

/-- An exchange put on a channel leaves the cancel function alone. -/
@[simp] theorem PeerConn.put_cancel (c : PeerConn) (type : BodyType) (ex : Exchange) :
    (c.put type ex).cancel = c.cancel := by
  unfold put
  split <;> rfl

/-- Where a `runPeerWithRetry` is. `own` are the credentials of the attempt, `remote` the
    ones it received. -/
inductive RunPhase where
  /-- At the head of the loop. -/
  | top
  /-- In `runPeer`, before any signaling. -/
  | gathering (pc : PeerConnId)
  /-- The OFFER is sent. -/
  | waitAnswer (pc : PeerConnId) (own : Exchange)
  /-- The other side will send the OFFER. -/
  | waitOffer (pc : PeerConnId) (own : Exchange)
  /-- In `Dial` or `Accept`. -/
  | dialing (pc : PeerConnId) (own remote : Exchange)
  /-- Holding the connection. -/
  | connected (pc : PeerConnId)
  /-- `runPeer` returned. -/
  | returned (pc : PeerConnId)
  /-- The context was not done. -/
  | alive (pc : PeerConnId)
  /-- The peer was still tracked. -/
  | tracked (pc : PeerConnId)
  /-- Waiting for the backoff. -/
  | waiting
  | done
deriving DecidableEq

/-- A goroutine in `runPeerWithRetry`. -/
structure Worker where
  peerKey : String
  phase : RunPhase := .top
deriving DecidableEq

/-- `Manager`, what its calls in flight still have to do, and its workers, each under the
    context it was started with. -/
structure Manager where
  selfKey : String
  peers : PMap String PeerConnId := PMap.empty
  /-- The `peerConn`s allocated so far. -/
  conns : PeerConnId → PeerConn := fun _ => {}
  nextConn : PeerConnId := 0
  nextCtx : Ctx := 0
  cancelled : Ctx → Bool := fun _ => false
  /-- `ClosePeer` calls that are about to call this cancel function. -/
  closing : List Ctx := []
  /-- `HandleSignal` calls that are about to put this exchange on that channel. -/
  puts : List (PeerConnId × BodyType × Exchange) := []
  workers : PMap Ctx Worker := PMap.empty

namespace Manager

/-! ## The calls -/

/-- A new entry with a worker of its own; the goroutine may take its first step much
    later. -/
def track (m : Manager) (peerKey : String) : Manager :=
  { m with
    peers := m.peers.set peerKey m.nextConn
    conns := Function.update m.conns m.nextConn { cancel := m.nextCtx }
    nextConn := m.nextConn + 1
    nextCtx := m.nextCtx + 1
    workers := m.workers.set m.nextCtx { peerKey } }

/-- `StartConnect`. -/
def startConnect (m : Manager) (peerKey : String) : Manager :=
  match m.peers peerKey with
  | some _ => m
  | none => m.track peerKey

/-- The locked section of `ClosePeer`. -/
def closePeer (m : Manager) (peerKey : String) : Manager :=
  match m.peers peerKey with
  | some pc =>
    { m with peers := m.peers.delete peerKey, closing := (m.conns pc).cancel :: m.closing }
  | none => m

/-- The end of `ClosePeer`. -/
def cancel (m : Manager) (x : Ctx) : Manager :=
  { m with cancelled := Function.update m.cancelled x true, closing := m.closing.erase x }

/-- The call is about to put `ex` on a channel of the entry in the map. -/
def prepare (m : Manager) (peerKey : String) (type : BodyType) (ex : Exchange) : Manager :=
  match m.peers peerKey with
  | some pc => { m with puts := m.puts ++ [(pc, type, ex)] }
  | none => m

/-- The locked section of `HandleSignal`. An OFFER from an untracked peer starts a worker,
    as `StartConnect` does. -/
def handleSignal (m : Manager) (peerKey : String) (body : Option IceBody) : Manager :=
  match body with
  | some { type := .offer, exchange := some ex } =>
    (m.startConnect peerKey).prepare peerKey .offer ex
  | some { type := .answer, exchange := some ex } => m.prepare peerKey .answer ex
  | _ => m

/-- The end of `HandleSignal`. -/
def put (m : Manager) (pc : PeerConnId) (type : BodyType) (ex : Exchange) : Manager :=
  { m with
    conns := Function.update m.conns pc ((m.conns pc).put type ex)
    puts := m.puts.erase (pc, type, ex) }

end Manager

/-! ## The workers -/

/-- What a `runPeerWithRetry` does next. -/
inductive WorkerEvent where
  /-- Read the entry at the head of the loop. -/
  | top
  /-- `runPeer` has the credentials of this attempt; the controller sends its OFFER.
      Whether `Send` succeeds is not looked at. -/
  | gathered (own : Exchange) (sent : Bool)
  /-- `runPeer` takes the exchange it waits for; the controlled side sends its ANSWER. -/
  | receive (sent : Bool)
  /-- `Dial` or `Accept` succeeds. -/
  | connect
  /-- `runPeer` returns. -/
  | leave
  | checkDone
  | checkTracked
  | replace
  /-- The backoff is over. -/
  | retry
  /-- The context is done before that. -/
  | stop
deriving DecidableEq

/-- One step of a manager. -/
inductive Event where
  | startConnect (peerKey : String)
  | closePeer (peerKey : String)
  | cancel (x : Ctx)
  | handleSignal (peerKey : String) (body : Option IceBody)
  | put (pc : PeerConnId) (type : BodyType) (ex : Exchange)
  | worker (x : Ctx) (e : WorkerEvent)
deriving DecidableEq

namespace Manager

/-- `isController`. -/
def isController (m : Manager) (peerKey : String) : Bool := m.selfKey < peerKey

/-- The worker goes on. -/
def move (m : Manager) (x : Ctx) (w : Worker) (phase : RunPhase) : Manager :=
  { m with workers := m.workers.set x { w with phase } }

/-- A message is sent, or lost. -/
def signal (type : BodyType) (ex : Exchange) (sent : Bool) : List IceBody :=
  if sent then [{ type, exchange := some ex }] else []

/-- `m.peers[peerKey] = newPeerConn(pc.cancel)`. -/
def replaceEntry (m : Manager) (peerKey : String) (pc : PeerConnId) : Manager :=
  { m with
    peers := m.peers.set peerKey m.nextConn
    conns := Function.update m.conns m.nextConn { cancel := (m.conns pc).cancel }
    nextConn := m.nextConn + 1 }

/-- The attempt takes what is on its channel. -/
def take (m : Manager) (pc : PeerConnId) (type : BodyType) : Manager :=
  { m with conns := Function.update m.conns pc (match type with
      | .answer => { m.conns pc with answerCh := none }
      | _ => { m.conns pc with offerCh := none }) }

/-- `runPeerWithRetry` and the `runPeer` in it, with what they send. -/
def workerStep (m : Manager) (x : Ctx) (w : Worker) (e : WorkerEvent) :
    Option (Manager × List IceBody) :=
  match e, w.phase with
  -- the loop ends when the entry is gone
  | .top, .top =>
    match m.peers w.peerKey with
    | some pc => some (m.move x w (.gathering pc), [])
    | none => some (m.move x w .done, [])
  -- the side with the smaller key makes the offer
  | .gathered own sent, .gathering pc =>
    if m.isController w.peerKey then
      some (m.move x w (.waitAnswer pc own), signal .offer own sent)
    else some (m.move x w (.waitOffer pc own), [])
  | .receive _, .waitAnswer pc own =>
    match (m.conns pc).answerCh with
    | some ex => some ((m.take pc .answer).move x w (.dialing pc own ex), [])
    | none => none
  | .receive sent, .waitOffer pc own =>
    match (m.conns pc).offerCh with
    | some ex => some ((m.take pc .offer).move x w (.dialing pc own ex), signal .answer own sent)
    | none => none
  | .connect, .dialing pc _ _ => some (m.move x w (.connected pc), [])
  -- every wait of an attempt can end in an error
  | .leave, .gathering pc => some (m.move x w (.returned pc), [])
  | .leave, .waitAnswer pc _ => some (m.move x w (.returned pc), [])
  | .leave, .waitOffer pc _ => some (m.move x w (.returned pc), [])
  | .leave, .dialing pc _ _ => some (m.move x w (.returned pc), [])
  -- a connection is held until the context is done
  | .leave, .connected pc =>
    if m.cancelled x then some (m.move x w (.returned pc), []) else none
  -- after an attempt the two checks and the replacement are separate steps
  | .checkDone, .returned pc =>
    some (m.move x w (if m.cancelled x then .done else .alive pc), [])
  | .checkTracked, .alive pc =>
    some (m.move x w (if (m.peers w.peerKey).isSome then .tracked pc else .done), [])
  | .replace, .tracked pc => some ((m.replaceEntry w.peerKey pc).move x w .waiting, [])
  | .retry, .waiting => some (m.move x w .top, [])
  | .stop, .waiting => if m.cancelled x then some (m.move x w .done, []) else none
  | _, _ => none

/-- One step, with the messages it sends. -/
def step (m : Manager) : Event → Option (Manager × List IceBody)
  | .startConnect k => some (m.startConnect k, [])
  | .closePeer k => some (m.closePeer k, [])
  | .cancel x => if x ∈ m.closing then some (m.cancel x, []) else none
  | .handleSignal k body => some (m.handleSignal k body, [])
  | .put pc type ex =>
    if (pc, type, ex) ∈ m.puts then some (m.put pc type ex, []) else none
  | .worker x e => (m.workers x).bind fun w => m.workerStep x w e

/-! ## What a worker can do -/

end Manager

/-- The event exchanges nothing with the other side. -/
def WorkerEvent.silent : WorkerEvent → Bool
  | .gathered _ _ | .receive _ => false
  | _ => true

/-- Between an exchange and the next entry. -/
def RunPhase.quiet : RunPhase → Bool
  | .connected _ | .returned _ | .alive _ | .tracked _ => true
  | _ => false

namespace Manager

/-- The transitions of `workerStep`; those that only walk on, and those that end the
    worker, are taken together. -/
inductive Moves (m : Manager) (x : Ctx) (w : Worker) :
    WorkerEvent → Manager → List IceBody → Prop where
  | start {pc : PeerConnId} : w.phase = .top → m.peers w.peerKey = some pc →
      Moves m x w .top (m.move x w (.gathering pc)) []
  | offer {pc : PeerConnId} {own : Exchange} {sent : Bool} : w.phase = .gathering pc →
      m.isController w.peerKey = true →
      Moves m x w (.gathered own sent) (m.move x w (.waitAnswer pc own)) (signal .offer own sent)
  | await {pc : PeerConnId} {own : Exchange} {sent : Bool} : w.phase = .gathering pc →
      m.isController w.peerKey = false →
      Moves m x w (.gathered own sent) (m.move x w (.waitOffer pc own)) []
  | dial {pc : PeerConnId} {own ex : Exchange} {sent : Bool} : w.phase = .waitAnswer pc own →
      (m.conns pc).answerCh = some ex →
      Moves m x w (.receive sent) ((m.take pc .answer).move x w (.dialing pc own ex)) []
  | answer {pc : PeerConnId} {own ex : Exchange} {sent : Bool} : w.phase = .waitOffer pc own →
      (m.conns pc).offerCh = some ex →
      Moves m x w (.receive sent) ((m.take pc .offer).move x w (.dialing pc own ex))
        (signal .answer own sent)
  | walk {e : WorkerEvent} {phase : RunPhase} : e.silent = true → phase.quiet = true →
      w.phase ≠ .done → Moves m x w e (m.move x w phase) []
  | exit {e : WorkerEvent} : e.silent = true → w.phase ≠ .done →
      m.cancelled x = true ∨ m.peers w.peerKey = none → Moves m x w e (m.move x w .done) []
  | replace {pc : PeerConnId} : w.phase = .tracked pc →
      Moves m x w .replace ((m.replaceEntry w.peerKey pc).move x w .waiting) []
  | again : w.phase = .waiting → Moves m x w .retry (m.move x w .top) []

/-- Every step of a worker is one of the moves. -/
theorem workerStep_moves {m m' : Manager} {x : Ctx} {w : Worker} {e : WorkerEvent}
    {out : List IceBody} (h : m.workerStep x w e = some (m', out)) : Moves m x w e m' out := by
  unfold workerStep at h
  split at h
  · -- one case for each pair of an event and a phase, in the order of the step
    rename_i hphase
    split at h <;> obtain ⟨rfl, rfl⟩ := Prod.mk.inj (Option.some.inj h)
    · rename_i hpc
      exact .start hphase hpc
    · rename_i hnone
      exact .exit rfl (by simp [hphase]) (.inr hnone)
  · rename_i hphase
    split at h <;> obtain ⟨rfl, rfl⟩ := Prod.mk.inj (Option.some.inj h)
    · rename_i hctl
      exact .offer hphase hctl
    · rename_i hctl
      exact .await hphase (Bool.eq_false_iff.mpr hctl)
  · rename_i hphase
    split at h
    · rename_i hex
      obtain ⟨rfl, rfl⟩ := Prod.mk.inj (Option.some.inj h)
      exact .dial hphase hex
    · cases h
  · rename_i hphase
    split at h
    · rename_i hex
      obtain ⟨rfl, rfl⟩ := Prod.mk.inj (Option.some.inj h)
      exact .answer hphase hex
    · cases h
  -- `connect` and the four ways out of an attempt before it holds a connection
  iterate 5
    · rename_i hphase
      obtain ⟨rfl, rfl⟩ := Prod.mk.inj (Option.some.inj h)
      exact .walk rfl rfl (by simp [hphase])
  · rename_i hphase
    split at h
    · obtain ⟨rfl, rfl⟩ := Prod.mk.inj (Option.some.inj h)
      exact .walk rfl rfl (by simp [hphase])
    · cases h
  · rename_i hphase
    obtain ⟨rfl, rfl⟩ := Prod.mk.inj (Option.some.inj h)
    split
    · rename_i hdone
      exact .exit rfl (by simp [hphase]) (.inl hdone)
    · exact .walk rfl rfl (by simp [hphase])
  · rename_i hphase
    obtain ⟨rfl, rfl⟩ := Prod.mk.inj (Option.some.inj h)
    split
    · exact .walk rfl rfl (by simp [hphase])
    · rename_i hnone
      exact .exit rfl (by simp [hphase]) (.inr (by simpa using hnone))
  · rename_i hphase
    obtain ⟨rfl, rfl⟩ := Prod.mk.inj (Option.some.inj h)
    exact .replace hphase
  · rename_i hphase
    obtain ⟨rfl, rfl⟩ := Prod.mk.inj (Option.some.inj h)
    exact .again hphase
  · rename_i hphase
    split at h
    · rename_i hdone
      obtain ⟨rfl, rfl⟩ := Prod.mk.inj (Option.some.inj h)
      exact .exit rfl (by simp [hphase]) (.inl hdone)
    · cases h
  · cases h

end Manager

end Blinex.Native.Ice
