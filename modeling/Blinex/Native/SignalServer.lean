import Blinex.ForStd.PMap
import Blinex.ForStd.Run
import Blinex.Native.Messages

/-!
# `signal/internal/server`: the signal server

Every open stream has a `Send` handler in its own goroutine; they share the
routing table, the pending queues and the drop log under one lock. `Phase` is
where a handler stands between two atomic actions: a critical section, a `Recv`, or
a `Send` on some stream (serialised per stream by `peerStream.mu`). `handlerStep` is
the code between them and `step` lets any handler take its next action.

`Held`, `received`, `written` and `registered` are history: the server never reads
them.
-/

namespace Blinex.Native.Signal

open Signalv1 (Message)

/-- Streams are compared by identity. -/
abbrev StreamId := Nat

/-- A message with the stream it was received on. -/
structure Held where
  src : StreamId
  msg : Message
deriving DecidableEq

/-- Nanoseconds in `time.Second`. -/
def second : Nat := 1000000000

/-- `const pendingTTL`. -/
def pendingTTL : Nat := 15 * second

/-- `const pendingPerPeer`. -/
def pendingPerPeer : Nat := 32

/-- `const dropLogEvery`. -/
def dropLogEvery : Nat := 30 * second

/-- `pendingQueue`; `queuedAt` is its `at`, when the newest message was queued. -/
structure PendingQueue where
  msgs : List Held := []
  queuedAt : Nat := 0

/-- `Server`. -/
structure Server where
  streams : PMap String StreamId := PMap.empty
  pending : PMap String PendingQueue := PMap.empty
  dropLog : PMap String Nat := PMap.empty

namespace Server

/-- `takePendingLocked`. -/
def takePendingLocked (s : Server) (now : Nat) (peerKey : String) : List Held × Server :=
  match s.pending peerKey with
  | none => ([], s)
  | some q =>
    -- taken or too old, the queue is gone
    let s := { s with pending := s.pending.delete peerKey }
    if pendingTTL < now - q.queuedAt then ([], s) else (q.msgs, s)

/-- `expirePendingLocked`; each binding is tested on its own, so the iteration
    order is immaterial. -/
def expirePendingLocked (s : Server) (now : Nat) : Server :=
  { s with pending := fun k =>
      (s.pending k).filter fun q => !decide (pendingTTL < now - q.queuedAt) }

/-- `handleAbsentTarget`. -/
def handleAbsentTarget (s : Server) (now : Nat) (h : Held) : Server :=
  let key := h.msg.remoteKey
  if h.msg.bodyType = .relay then
    -- relay data is dropped; only the time of the last log line is kept
    let shouldLog :=
      match s.dropLog key with
      | none => true
      | some last => decide (dropLogEvery ≤ now - last)
    if shouldLog then { s with dropLog := s.dropLog.set key now } else s
  else
    let s := s.expirePendingLocked now
    let msgs := ((s.pending key).getD {}).msgs
    -- a full queue drops its oldest message, and every message restarts the clock
    let msgs := if pendingPerPeer ≤ msgs.length then msgs.drop 1 else msgs
    { s with pending := s.pending.set key { msgs := msgs ++ [h], queuedAt := now } }

/-- The first critical section of `Send`: registers the stream and takes what is
    held for it. -/
def register (s : Server) (now : Nat) (peerKey : String) (self : StreamId) :
    List Held × Server :=
  { s with streams := s.streams.set peerKey self }.takePendingLocked now peerKey

/-- The deferred function of `Send`: only its own registration is removed. -/
def unregister (s : Server) (peerKey : String) (self : StreamId) : Server :=
  if peerKey ≠ "" ∧ s.streams peerKey = some self then
    { s with streams := s.streams.delete peerKey }
  else s

end Server

/-! ## Handlers -/

/-- The gRPC codes `Send` returns. -/
inductive Code where
  | invalidArgument | permissionDenied | internal
deriving DecidableEq, Repr

/-- A gRPC error status. -/
structure Status where
  code : Code
  message : String
deriving DecidableEq, Repr

/-- Where a handler stands. -/
inductive Phase where
  /-- In `stream.Recv`. -/
  | recv
  /-- The first message passed its checks; about to take the lock. -/
  | register (m : Message)
  /-- About to send the next of the held messages to its own stream. -/
  | deliver (m : Message) (queued : List Held)
  /-- About to look the target up. -/
  | lookup (m : Message)
  /-- No target; about to call `handleAbsentTarget`. -/
  | absent (m : Message)
  /-- About to send to the target. -/
  | forward (m : Message) (target : StreamId)
  /-- Returning; the deferred function has not run. -/
  | closing (res : Option Status)
  | done (res : Option Status)
deriving DecidableEq

/-- The handler has returned. -/
def Phase.isDone : Phase → Bool
  | .done _ => true
  | _ => false

/-- The local state of a `Send` handler. `authKey` is what `auth.KeyFromContext`
    returns, `none` when no interceptor ran. -/
structure Handler where
  authKey : Option String
  peerKey : String := ""
  phase : Phase := .recv
deriving DecidableEq

/-- `if msg.RemoteKey == "" { continue }`. -/
def afterChecks (m : Message) : Phase := if m.remoteKey = "" then .recv else .lookup m

/-- The loop over the held messages; what follows it when none is left. -/
def delivering (m : Message) (queued : List Held) : Phase :=
  if queued = [] then afterChecks m else .deliver m queued

/-- `return status.Error(code, message)`. -/
def Handler.fail (h : Handler) (code : Code) (message : String) : Handler :=
  { h with phase := .closing (some ⟨code, message⟩) }

/-- The checks on a received message. -/
def Handler.received (h : Handler) (m : Message) : Handler :=
  if h.peerKey = "" then
    if m.key = "" then h.fail .invalidArgument "first message must set key"
    else if h.authKey ≠ none ∧ h.authKey ≠ some m.key then
      h.fail .permissionDenied "key does not match authenticated identity"
    else { h with peerKey := m.key, phase := .register m }
  else if m.key ≠ h.peerKey then h.fail .permissionDenied "key changed mid-stream"
  else { h with phase := afterChecks m }

/-- What a handler does next; the environment chooses messages and whether a
    write goes through. -/
inductive Action where
  | recv (m : Message)
  /-- `Recv` ends: `io.EOF` or an error. -/
  | recvEnd (err : Option String)
  | register
  | deliver (ok : Bool)
  | lookup
  | absent
  | forward (ok : Bool)
  | close
deriving DecidableEq

/-- The effect of one action of a handler. -/
structure Effect where
  handler : Handler
  server : Server
  received : List Held := []
  written : List (StreamId × Held) := []
  registered : List (String × StreamId) := []

/-- One action of the handler of stream `self`, `none` if it is not at that point
    of `Send`. -/
def handlerStep (s : Server) (now : Nat) (self : StreamId) (h : Handler) (a : Action) :
    Option Effect :=
  match h.phase, a with
  | .recv, .recv m => some { handler := h.received m, server := s, received := [⟨self, m⟩] }
  | .recv, .recvEnd err =>
    let res := err.map fun e => (⟨.internal, "recv error: " ++ e⟩ : Status)
    some { handler := { h with phase := .closing res }, server := s }
  | .register m, .register =>
    let (queued, s) := s.register now h.peerKey self
    some { handler := { h with phase := delivering m queued }, server := s,
           registered := [(h.peerKey, self)] }
  | .deliver m (q :: queued), .deliver ok =>
    if ok then
      some { handler := { h with phase := delivering m queued }, server := s,
             written := [(self, q)] }
    -- `break`: what is left of the held messages is lost
    else some { handler := { h with phase := afterChecks m }, server := s }
  | .lookup m, .lookup =>
    match s.streams m.remoteKey with
    | none => some { handler := { h with phase := .absent m }, server := s }
    | some target => some { handler := { h with phase := .forward m target }, server := s }
  | .absent m, .absent =>
    some { handler := { h with phase := .recv }, server := s.handleAbsentTarget now ⟨self, m⟩ }
  | .forward m target, .forward ok =>
    some { handler := { h with phase := .recv }, server := s,
           written := if ok then [(target, ⟨self, m⟩)] else [] }
  | .closing res, .close =>
    some { handler := { h with phase := .done res }, server := s.unregister h.peerKey self }
  | _, _ => none

/-! ## The server with all its handlers -/

/-- The whole system. The logs are newest first. -/
structure State where
  server : Server := {}
  now : Nat := 0
  handlers : PMap StreamId Handler := PMap.empty
  received : List Held := []
  written : List (StreamId × Held) := []
  registered : List (String × StreamId) := []

/-- A new stream, a handler's next action, or time passing. -/
inductive Event where
  | open (id : StreamId) (authKey : Option String)
  | act (id : StreamId) (a : Action)
  | tick (d : Nat)

/-- One event of an interleaving. -/
def step (s : State) : Event → Option State
  -- a stream is opened once
  | .open id authKey =>
    match s.handlers id with
    | none => some { s with handlers := s.handlers.set id { authKey } }
    | some _ => none
  | .act id a =>
    match s.handlers id with
    | none => none
    | some h =>
      -- each handler keeps its own place, and the record of what was read and written grows
      (handlerStep s.server s.now id h a).map fun e =>
        { s with
          server := e.server
          handlers := s.handlers.set id e.handler
          received := e.received ++ s.received
          written := e.written ++ s.written
          registered := e.registered ++ s.registered }
  | .tick d => some { s with now := s.now + d }

end Blinex.Native.Signal
