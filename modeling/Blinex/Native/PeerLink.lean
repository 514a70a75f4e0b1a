import Mathlib.Data.Int.Order.Basic
import Mathlib.Tactic.SplitIfs
import Blinex.ForStd.PMap

/-!
# `client/internal/peerlink/link.go`

First `probeState`, which is free of timers and locks; then `Link`, whose read loops,
probe loops and `Write` calls run concurrently, as a machine whose steps are what the
code does between two points where another goroutine may get in. Times are nanoseconds
since 1970.
-/

namespace Blinex.Native

/-! ## `probeState` -/

/-- `probeTimeout`. -/
def probeTimeout : Int := 10 * 1000000000

/-- `upgradeThreshold`. -/
def upgradeThreshold : Nat := 3

/-- `minUpgradeBackoff`. -/
def minUpgradeBackoff : Int := 15 * 1000000000

/-- `maxUpgradeBackoff`. -/
def maxUpgradeBackoff : Int := 5 * 60 * 1000000000

/-- `backoffResetAfter`. -/
def backoffResetAfter : Int := 2 * 60 * 1000000000

/-- The zero `time.Time`, the beginning of year 1. -/
def zeroTime : Int := -62135596800 * 1000000000

/-- `probeState`. -/
structure ProbeState where
  consecutiveGood : Nat := 0
  seenPong : Int := 0
  backoff : Int := minUpgradeBackoff
  nextUpgrade : Int := zeroTime
  promotedAt : Int := zeroTime
  direct : Bool := false
deriving DecidableEq

/-- What `observe` returns. -/
structure Decision where
  promote : Bool := false
  demote : Bool := false
  retryIn : Int := 0
deriving DecidableEq

namespace ProbeState

/-- The tick is `answered`. -/
def answered (p : ProbeState) (pong now : Int) : Bool :=
  pong ≠ 0 && pong ≠ p.seenPong && now - pong < probeTimeout

/-- The backoff of a demotion, forgiven after a long stable time. -/
def retryBackoff (p : ProbeState) (now : Int) : Int :=
  if p.promotedAt ≠ zeroTime ∧ backoffResetAfter ≤ now - p.promotedAt then minUpgradeBackoff
  else p.backoff

/-- `consecutiveGood` after the tick. -/
def good (p : ProbeState) (pong now : Int) : Nat :=
  if p.answered pong now then p.consecutiveGood + 1 else 0

/-- `observe`. -/
def observe (p : ProbeState) (pong now : Int) : Decision × ProbeState :=
  let q := { p with seenPong := pong, consecutiveGood := p.good pong now }
  if p.direct then
    -- an answered probe keeps the path
    if p.answered pong now then ({}, q)
    else
      let retryIn := p.retryBackoff now
      ({ demote := true, retryIn },
        -- the wait before the next promotion is doubled, up to its maximum
        { q with
          direct := false
          nextUpgrade := now + retryIn
          backoff := if maxUpgradeBackoff < retryIn * 2 then maxUpgradeBackoff else retryIn * 2 })
  else if upgradeThreshold ≤ p.good pong now ∧ p.nextUpgrade < now then
    ({ promote := true }, { q with direct := true, promotedAt := now })
  else ({}, q)

variable {p : ProbeState} {pong now : Int}

/-- A direct path whose probes are answered is kept. -/
theorem observe_stay (hd : p.direct = true) (ha : p.answered pong now = true) :
    p.observe pong now = ({}, { p with seenPong := pong, consecutiveGood := p.good pong now }) := by
  simp [observe, hd, ha]

/-- A direct path whose probe was not answered is given up, and the wait is doubled. -/
theorem observe_demote (hd : p.direct = true) (ha : p.answered pong now = false) :
    p.observe pong now = ({ demote := true, retryIn := p.retryBackoff now },
      { p with
        seenPong := pong
        consecutiveGood := p.good pong now
        direct := false
        nextUpgrade := now + p.retryBackoff now
        backoff := min (p.retryBackoff now * 2) maxUpgradeBackoff }) := by
  have hmin : (if maxUpgradeBackoff < p.retryBackoff now * 2 then maxUpgradeBackoff
      else p.retryBackoff now * 2) = min (p.retryBackoff now * 2) maxUpgradeBackoff := by omega
  simp [observe, hd, ha, hmin]

/-- Enough answers in a row, once the wait is over, promote the path. -/
theorem observe_promote (hd : p.direct = false) (hg : upgradeThreshold ≤ p.good pong now)
    (hn : p.nextUpgrade < now) :
    p.observe pong now = ({ promote := true }, { p with
      seenPong := pong
      consecutiveGood := p.good pong now
      direct := true
      promotedAt := now }) := by
  simp [observe, hd, hg, hn]

theorem observe_wait (hd : p.direct = false)
    (hw : ¬ (upgradeThreshold ≤ p.good pong now ∧ p.nextUpgrade < now)) :
    p.observe pong now = ({}, { p with seenPong := pong, consecutiveGood := p.good pong now }) := by
  simp [observe, hd, hw]

/-- The four ways a tick can go. -/
theorem observe_cases (p : ProbeState) (pong now : Int) :
    (p.direct = true ∧ p.answered pong now = true) ∨
    (p.direct = true ∧ p.answered pong now = false) ∨
    (p.direct = false ∧ upgradeThreshold ≤ p.good pong now ∧ p.nextUpgrade < now) ∨
    (p.direct = false ∧ ¬ (upgradeThreshold ≤ p.good pong now ∧ p.nextUpgrade < now)) := by
  cases p.direct <;> cases p.answered pong now <;> simp <;> omega

/-- The pong that was looked at is remembered. -/
@[simp] theorem observe_seenPong (p : ProbeState) (pong now : Int) :
    (p.observe pong now).2.seenPong = pong := by
  unfold observe
  split_ifs <;> rfl

/-- The answers in a row are counted whatever is decided. -/
@[simp] theorem observe_consecutiveGood (p : ProbeState) (pong now : Int) :
    (p.observe pong now).2.consecutiveGood = p.good pong now := by
  unfold observe
  split_ifs <;> rfl

theorem observe_promotes_iff :
    (p.observe pong now).1.promote = true ↔
      p.direct = false ∧ upgradeThreshold ≤ p.good pong now ∧ p.nextUpgrade < now := by
  unfold observe
  split_ifs <;> simp_all

theorem observe_demotes_iff :
    (p.observe pong now).1.demote = true ↔ p.direct = true ∧ p.answered pong now = false := by
  unfold observe
  split_ifs <;> simp_all

/-- When the path is direct afterwards: it was promoted, or it was kept. -/
theorem observe_direct_iff :
    (p.observe pong now).2.direct = true ↔
      (p.observe pong now).1.promote = true ∨
        (p.direct = true ∧ p.answered pong now = true) := by
  unfold observe
  split_ifs <;> simp_all

/-- The direct state goes with a streak. -/
theorem observe_direct_good (hp : p.direct = true → upgradeThreshold ≤ p.consecutiveGood)
    (hd : (p.observe pong now).2.direct = true) : upgradeThreshold ≤ p.good pong now := by
  rcases observe_direct_iff.mp hd with hprom | ⟨hdir, hans⟩
  · exact (observe_promotes_iff.mp hprom).2.1
  · have hle := hp hdir
    simp only [good, hans, ↓reduceIte]
    omega

/-- What is reported after a demotion is the wait before it was doubled. -/
theorem observe_retryIn (hd : (p.observe pong now).1.demote = true) :
    (p.observe pong now).1.retryIn = p.retryBackoff now := by
  obtain ⟨hdir, hans⟩ := observe_demotes_iff.mp hd
  rw [observe_demote hdir hans]

end ProbeState

/-! ## `Link` -/

/-- An ICE connection, by a number that no other one has. -/
abbrev Conn := Nat

/-- Where a call of `Write` is. -/
inductive WritePhase where
  /-- `useICE` was true, `iceConn` not yet read. -/
  | loaded
  /-- About to write to the connection. -/
  | sending (c : Conn)
  /-- Written to the connection without an error. -/
  | sentDirect (c : Conn)
  /-- Left to `relayConn`. -/
  | relay
deriving DecidableEq

/-- Where an `iceReadLoop` is. -/
inductive ReadPhase where
  | reading
  /-- After a read error, `useICE` reverted. -/
  | exiting
  | done
deriving DecidableEq

/-- Where a `probeLoop` is. -/
inductive TickPhase where
  /-- In the `select`. -/
  | idle
  /-- A tick; `iceConn` was this connection. -/
  | checked
  /-- The ping could not be written. -/
  | failed
  /-- The ping was written. -/
  | pinged
  /-- `observe` returned. -/
  | decided (d : Decision)
  | done
deriving DecidableEq

/-- A `probeLoop` with its `st`. -/
structure Prober where
  st : ProbeState := {}
  phase : TickPhase := .idle
deriving DecidableEq

/-- The fields of `Link` that change, its goroutines and the calls of `Write`. -/
structure Link where
  iceConn : Option Conn := none
  useICE : Bool := false
  lastPong : Int := 0
  closed : Bool := false
  /-- The calls of `Close` that have not yet stored `useICE`. -/
  closing : Nat := 0
  readers : PMap Conn ReadPhase := PMap.empty
  probers : PMap Conn Prober := PMap.empty
  writes : PMap Nat WritePhase := PMap.empty

/-- What an `iceReadLoop` can do next. Pings it answers and packets it injects do not
    touch the link. -/
inductive ReadEvent where
  /-- Read a pong, at `now`. -/
  | pong (now : Int)
  /-- Get a read error and revert to the relay. -/
  | error
  /-- Give its connection up. -/
  | exit
deriving DecidableEq

/-- What a `probeLoop` can do next. -/
inductive ProbeEvent where
  /-- Take a tick and read `iceConn`. -/
  | tick
  /-- Write the ping. -/
  | ping (ok : Bool)
  /-- Revert to the relay after a failed ping and leave. -/
  | giveUp
  /-- Load `lastPong` and call `observe` at `now`. -/
  | observe (now : Int)
  /-- Act on what `observe` returned. -/
  | switch
  /-- See that the link is closed. -/
  | stop
deriving DecidableEq

/-- What a call of `Write` can do next. -/
inductive WriteEvent where
  /-- Load `useICE`. -/
  | start
  /-- Read `iceConn`. -/
  | load
  /-- Write to the connection. -/
  | send (ok : Bool)
deriving DecidableEq

/-- A step of one of the goroutines. -/
inductive LinkEvent where
  /-- `SetICEConn`, each call with a connection of its own. -/
  | setICEConn (c : Conn)
  | read (c : Conn) (e : ReadEvent)
  | probe (c : Conn) (e : ProbeEvent)
  | write (w : Nat) (e : WriteEvent)
  /-- `Close` closes the channel and clears `iceConn`. -/
  | close
  /-- `Close` stores `useICE`. -/
  | closeStore
deriving DecidableEq

namespace Link

/-- `iceReadLoop`. -/
def readStep (l : Link) (c : Conn) : ReadEvent → Option Link
  | .pong now => if l.readers c = some .reading then some { l with lastPong := now } else none
  -- a read error turns the direct path off at once; the connection is cleared when the loop exits
  | .error =>
    if l.readers c = some .reading then
      some { l with useICE := false, readers := l.readers.set c .exiting }
    else none
  | .exit =>
    if l.readers c = some .exiting then
      some { l with
        iceConn := if l.iceConn = some c then none else l.iceConn
        readers := l.readers.set c .done }
    else none

/-- `useICE` after `probeLoop` acted on the decision. -/
def switched (useICE : Bool) (d : Decision) : Bool :=
  if d.promote then true else if d.demote then false else useICE

/-- `probeLoop`: where it is next and what becomes of `useICE`. -/
def probeNext (l : Link) (c : Conn) (p : Prober) : ProbeEvent → Option (Prober × Bool)
  | .tick =>
    -- a prober whose connection was replaced leaves
    if p.phase = .idle then
      some ({ p with phase := if l.iceConn = some c then .checked else .done }, l.useICE)
    else none
  | .ping ok =>
    if p.phase = .checked then
      some ({ p with phase := if ok then .pinged else .failed }, l.useICE)
    else none
  | .giveUp => if p.phase = .failed then some ({ p with phase := .done }, false) else none
  | .observe now =>
    if p.phase = .pinged then
      some ({ st := (p.st.observe l.lastPong now).2
              phase := .decided (p.st.observe l.lastPong now).1 }, l.useICE)
    else none
  | .switch =>
    match p.phase with
    -- the decision is acted on whatever happened to the link since `observe`
    | .decided d => some ({ p with phase := .idle }, switched l.useICE d)
    | _ => none
  | .stop =>
    if p.phase = .idle ∧ l.closed = true then some ({ p with phase := .done }, l.useICE) else none

/-- `Write`. -/
def writeNext (l : Link) (w : Nat) : WriteEvent → Option WritePhase
  | .start =>
    -- `useICE` and `iceConn` are loaded one after the other
    if l.writes w = none then some (if l.useICE then .loaded else .relay) else none
  | .load =>
    if l.writes w = some .loaded then
      some (match l.iceConn with
        | some c => .sending c
        | none => .relay)
    else none
  | .send ok =>
    match l.writes w with
    | some (.sending c) => some (if ok then .sentDirect c else .relay)
    | _ => none

/-- One step of the link. -/
def step (l : Link) : LinkEvent → Option Link
  | .setICEConn c =>
    -- this closes the old connection: its `iceReadLoop` is going to get an error
    if l.probers c = none then
      some { l with
        iceConn := some c
        readers := l.readers.set c .reading
        probers := l.probers.set c {} }
    else none
  | .read c e => l.readStep c e
  | .probe c e =>
    (l.probers c).bind fun p => (l.probeNext c p e).map fun out =>
      { l with probers := l.probers.set c out.1, useICE := out.2 }
  | .write w e =>
    (l.writeNext w e).map fun phase => { l with writes := l.writes.set w phase }
  | .close => some { l with closed := true, iceConn := none, closing := l.closing + 1 }
  | .closeStore =>
    if l.closing = 0 then none else some { l with useICE := false, closing := l.closing - 1 }

end Link

end Blinex.Native
