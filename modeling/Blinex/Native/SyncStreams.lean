import Blinex.Native.GrpcHandlers

/-!
# `management/internal/grpcserver`: `Sync` streams and `notifyAll`

Every `Sync` handler runs in its own goroutine, and so does every request that
changes an account and then calls `notifyAll`. They meet in the store, in the table
of subscribers under `subsMu` and in the one-slot channels. A handler's `Phase` is
where it stands between two atomic actions; a `notifyAll` holds the read lock from
its first subscriber to its last, and `registerSub` and `unregisterSub` wait for it.

Writes that nobody is told of (`touchLastSeen`, a new public address, `deletePeer`) are `quiet`.
What the deferred function of `Sync` does after `unregisterSub` is a write followed
by `notifyAll`, like any other.

`writes`, `versions`, `registered`, the numbers in a `Phase` and `Writer.version` are
history: the server never reads them.
-/

namespace Blinex.Native.Management.Streams

/-- A handler with its `syncSub` and its channel. -/
abbrev StreamId := Nat

/-- A response, with how many writes the store had seen when its peers and its rules
    were read. -/
structure Sent where
  resp : Managementv1.SyncResponse
  peersAt : Nat
  rulesAt : Nat
deriving DecidableEq

/-- Where a `Sync` handler stands. -/
inductive Phase where
  /-- `GetPeer` has answered; about to call `registerSub`. -/
  | opening
  /-- In `send`, about to list the peers. -/
  | readPeers
  /-- In `send`, about to list the rules. -/
  | readRules (peers : List Domain.Peer) (peersAt : Nat)
  /-- In `stream.Send`. -/
  | sending (out : Sent)
  /-- In the `select`. -/
  | waiting
  /-- Returning; the deferred function has not run. -/
  | closing (res : Option Status)
  | done (res : Option Status)
deriving DecidableEq

/-- The local state of a `Sync` handler. -/
structure Stream where
  key : String
  accountID : String
  phase : Phase := .opening
  last : Option Sent := none
deriving DecidableEq

/-- `return status.Errorf(codes.Internal, ...)` after a failed `send`. -/
def Stream.fail (st : Stream) (e : String) : Stream :=
  let what := if st.last.isNone then "initial sync failed: " else "sync push failed: "
  { st with phase := .closing (some ⟨.internal, what ++ e⟩) }

/-- Where a request that ends in `notifyAll` stands. -/
inductive WriterPhase where
  /-- The store is written. -/
  | wrote
  /-- In the loop of `notifyAll`, with the keys still to visit. -/
  | notifying (rest : List String)
  /-- `notifyAll` has returned. -/
  | notified
deriving DecidableEq

/-- A request that writes and notifies. -/
structure Writer where
  accountID : String
  version : Nat
  phase : WriterPhase := .wrote
deriving DecidableEq

/-- The whole system. `readers` are the requests that hold `subsMu` for reading. -/
structure State where
  store : Store
  subs : PMap String SyncSub := PMap.empty
  tokens : StreamId → Bool := fun _ => false
  readers : List Nat := []
  streams : PMap StreamId Stream := PMap.empty
  writers : PMap Nat Writer := PMap.empty
  writes : Nat := 0
  versions : PMap Nat Store
  registered : List (String × StreamId) := []

/-- The server before the first event. -/
def start (store : Store) : State where
  store
  versions := PMap.empty.set 0 store

/-- What a handler does next; the environment chooses orders and errors. -/
inductive Action where
  | register
  | readPeers (order : List String) (err : Option String)
  | readRules (order : List String) (now : Int) (err : Option String)
  | send (err : Option String)
  /-- `<-sub.ch`. -/
  | take
  /-- `<-stream.Context().Done()`. -/
  | cancel
  | close

namespace State

/-- The store after a write. -/
def write (s : State) (store : Store) : State :=
  { s with store, writes := s.writes + 1, versions := s.versions.set (s.writes + 1) store }

/-- A handler moves on. -/
def setStream (s : State) (id : StreamId) (st : Stream) : State :=
  { s with streams := s.streams.set id st }

/-- `registerSub`. -/
def register (s : State) (id : StreamId) (st : Stream) : State :=
  { s with
    subs := registerSub s.subs st.key ⟨id, st.accountID⟩
    registered := (st.key, id) :: s.registered }

/-- `unregisterSub`. -/
def unregister (s : State) (st : Stream) : State :=
  { s with subs := unregisterSub s.subs st.key }

/-- The body of the loop of `notifyAll`: a full channel stays as it is. -/
def signal (s : State) (accountID key : String) : State :=
  match s.subs key with
  | none => s
  | some sub =>
    if sub.accountID ≠ accountID then s
    else { s with tokens := fun id => s.tokens id || id == sub.stream }

/-- A writer moves on. -/
def setWriter (s : State) (pid : Nat) (w : Writer) : State :=
  { s with writers := s.writers.set pid w }

end State

/-- One action of the handler of stream `id`, `none` if it is not at that point of
    `Sync` or has to wait. -/
def streamStep (network : String) (s : State) (id : StreamId) (st : Stream) (a : Action) :
    Option State :=
  match st.phase, a with
  | .opening, .register =>
    -- `registerSub` needs the write lock, which `notifyAll` holds for reading
    if s.readers ≠ [] then none
    else some ((s.register id st).setStream id { st with phase := .readPeers })
  | .readPeers, .readPeers _ (some e) => some (s.setStream id (st.fail ("listing peers: " ++ e)))
  | .readPeers, .readPeers order none =>
    let peers := s.store.getPeersByAccount st.accountID order
    some (s.setStream id { st with phase := .readRules peers s.writes })
  | .readRules .., .readRules _ _ (some e) =>
    some (s.setStream id (st.fail ("listing rules: " ++ e)))
  -- peers and rules are read one after the other, and the store may change in between
  | .readRules peers peersAt, .readRules order now none =>
    let rules := getRulesByAccount s.store.rules.rows st.accountID order
    let resp := buildSyncResponse network now peers rules st.key
    some (s.setStream id { st with phase := .sending ⟨resp, peersAt, s.writes⟩ })
  | .sending _, .send (some e) => some (s.setStream id (st.fail e))
  | .sending out, .send none =>
    some (s.setStream id { st with phase := .waiting, last := some out })
  | .waiting, .take =>
    -- the token is taken, so that later notifications leave a new one
    if s.tokens id then
      some ({ s with tokens := fun x => s.tokens x && x != id }.setStream id
        { st with phase := .readPeers })
    else none
  | .waiting, .cancel => some (s.setStream id { st with phase := .closing none })
  | .closing res, .close =>
    if s.readers ≠ [] then none
    else some ((s.unregister st).setStream id { st with phase := .done res })
  | _, _ => none

/-- One action of a request that notifies, after its write. -/
inductive Notify where
  /-- `RLock`, and the order that the `range` will take. -/
  | lock (order : List String)
  | next
  | unlock

/-- One action of the writer `pid`. -/
def writerStep (s : State) (pid : Nat) (w : Writer) (a : Notify) : Option State :=
  match w.phase, a with
  | .wrote, .lock order =>
    some ({ s with readers := pid :: s.readers }.setWriter pid
      { w with phase := .notifying order })
  | .notifying (key :: rest), .next =>
    some ((s.signal w.accountID key).setWriter pid { w with phase := .notifying rest })
  | .notifying [], .unlock =>
    some ({ s with readers := s.readers.filter (· ≠ pid) }.setWriter pid
      { w with phase := .notified })
  | _, _ => none

/-- What can happen next. -/
inductive Event where
  /-- A `Sync` call has passed its checks and read its peer. -/
  | open (id : StreamId) (key accountID : String)
  | act (id : StreamId) (a : Action)
  | write (pid : Nat) (accountID : String) (store : Store)
  | quiet (store : Store)
  | notify (pid : Nat) (a : Notify)

/-- One event of an interleaving. -/
def step (network : String) (s : State) : Event → Option State
  | .open id key accountID =>
    match s.streams id with
    | none => some (s.setStream id { key, accountID })
    | some _ => none
  | .act id a =>
    match s.streams id with
    | none => none
    | some st => streamStep network s id st a
  | .write pid accountID store =>
    -- a write is followed by its notification, in a step of its own
    match s.writers pid with
    | none => some ((s.write store).setWriter pid { accountID, version := s.writes + 1 })
    | some _ => none
  | .quiet store => some (s.write store)
  | .notify pid a =>
    match s.writers pid with
    | none => none
    | some w => writerStep s pid w a

/-- The orders in an event are ones that `range` may take. -/
def ValidOrders (s : State) : Event → Prop
  | .act _ (.readPeers order none) => PMap.RangeOrder s.store.peers.rows order
  | .act _ (.readRules order _ none) => PMap.RangeOrder s.store.rules.rows order
  | .notify _ (.lock order) => PMap.RangeOrder s.subs order
  | _ => True

end Blinex.Native.Management.Streams
