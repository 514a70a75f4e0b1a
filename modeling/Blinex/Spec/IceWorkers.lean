import Blinex.ForStd.Run
import Blinex.Native.IceManager

/-!
# The ICE manager's entries and its workers

An entry of `Manager.peers` stands for the worker whose cancel function it carries. The
retry loop replaces its entry in a section of its own, after it has looked that there is
one; a `ClosePeer` in between is undone by the replacement, and the entry it leaves behind
belongs to a worker that is about to exit. Where the entry that is replaced carries the same
cancel function as the one that replaces it, entries and workers match.
-/

namespace Blinex.Spec

open Blinex.Native.Ice
open Blinex.Native.Signalv1 (BodyType)

/-- One step of the manager. -/
def iceStep (m : Manager) (e : Event) : Option Manager := (m.step e).map Prod.fst

/-- A worker for `k` runs under the context `x`, which is not cancelled. -/
def Running (m : Manager) (k : String) (x : Ctx) : Prop :=
  ∃ w, m.workers x = some w ∧ w.peerKey = k ∧ w.phase ≠ .done ∧ m.cancelled x = false

/-- A peer is tracked exactly if one worker runs for it. -/
def EntriesMatch (m : Manager) : Prop :=
  ∀ k, (m.peers k).isSome = true ↔ ∃! x, Running m k x

/-- Where no worker runs for a peer, `StartConnect` starts one. -/
def Startable (m : Manager) : Prop :=
  ∀ k, (∀ x, ¬ Running m k x) →
    ∃ m' x, iceStep m (.startConnect k) = some m' ∧ m.workers x = none ∧ Running m' k x

/-- No call is in flight and no worker is between two sections of an iteration. -/
def Quiescent (m : Manager) : Prop :=
  m.closing = [] ∧ m.puts = [] ∧
    ∀ x w, m.workers x = some w → ∀ pc, w.phase ≠ .returned pc ∧ w.phase ≠ .alive pc ∧
      w.phase ≠ .tracked pc

/-- The entry that the retry loop replaces carries the cancel function that it puts into the
    new one. -/
def CarriesCancel (m : Manager) : Event → Prop
  | .worker x .replace => ∀ w pc, m.workers x = some w → w.phase = .tracked pc →
      ∃ pc', m.peers w.peerKey = some pc' ∧ (m.conns pc').cancel = (m.conns pc).cancel
  | _ => True

/-! ## The invariant -/

/-- What holds between entries and workers. -/
structure IceInv (m : Manager) : Prop where
  connAlloc : ∀ k pc, m.peers k = some pc → pc < m.nextConn
  ctxAlloc : ∀ x, m.nextCtx ≤ x → m.workers x = none ∧ m.cancelled x = false ∧ x ∉ m.closing
  /-- An entry carries the cancel function of a worker for its key that goes on. -/
  tracked : ∀ k pc, m.peers k = some pc →
    m.cancelled (m.conns pc).cancel = false ∧ (m.conns pc).cancel ∉ m.closing ∧
    ∃ w, m.workers (m.conns pc).cancel = some w ∧ w.peerKey = k ∧ w.phase ≠ .done
  /-- A worker that goes on is cancelled, about to be, or has its entry. -/
  owned : ∀ x w, m.workers x = some w → w.phase ≠ .done →
    m.cancelled x = true ∨ x ∈ m.closing ∨
      ∃ pc, m.peers w.peerKey = some pc ∧ (m.conns pc).cancel = x

private theorem iceInv_new (selfKey : String) : IceInv { selfKey } := by
  constructor <;> simp

variable {m m' : Manager} {k : String} {x : Ctx} {w : Worker}

/-- The invariant does not look into the channels. -/
theorem IceInv.congr (h : IceInv m) {conns : PeerConnId → PeerConn}
    {puts : List (PeerConnId × BodyType × Exchange)}
    (hconns : ∀ pc, (conns pc).cancel = (m.conns pc).cancel) :
    IceInv { m with conns, puts } := by
  constructor
  · exact h.connAlloc
  · exact h.ctxAlloc
  · intro k pc hpc
    simp only [hconns]
    exact h.tracked k pc hpc
  · intro x w hw hgo
    simp only [hconns]
    exact h.owned x w hw hgo

/-- A worker goes on, or exits while it is cancelled or untracked. -/
theorem IceInv.move (h : IceInv m) (hw : m.workers x = some w) (hgo : w.phase ≠ .done)
    {phase : RunPhase}
    (hexit : phase = .done → m.cancelled x = true ∨ m.peers w.peerKey = none) :
    IceInv (m.move x w phase) := by
  constructor
  · exact h.connAlloc
  · intro y hy
    obtain ⟨hnone, hrest⟩ := h.ctxAlloc y hy
    have hne : y ≠ x := by
      rintro rfl
      rw [hw] at hnone
      cases hnone
    exact ⟨(PMap.set_ne _ _ hne).trans hnone, hrest⟩
  · intro k pc hpc
    obtain ⟨hopen, hclosing, w', hw', hkey, hgo'⟩ := h.tracked k pc hpc
    refine ⟨hopen, hclosing, ?_⟩
    -- the worker of an entry does not exit: its context is open and its key is tracked
    by_cases heq : (m.conns pc).cancel = x
    · have hww : w' = w := Option.some.inj (hw'.symm.trans (heq ▸ hw))
      subst hww
      refine ⟨{ w' with phase }, ?_, hkey, ?_⟩
      · show m.workers.set x _ (m.conns pc).cancel = _
        rw [heq, PMap.set_self]
      · intro hdone
        rcases hexit hdone with hcan | hnone
        · rw [← heq, hopen] at hcan
          cases hcan
        · rw [hkey, show m.peers k = some pc from hpc] at hnone
          cases hnone
    · exact ⟨w', (PMap.set_ne _ _ heq).trans hw', hkey, hgo'⟩
  · intro y w' hw' hgo'
    rcases PMap.set_eq_some _ hw' with ⟨rfl, rfl⟩ | ⟨-, hold⟩
    · exact h.owned y w hw hgo
    · exact h.owned y w' hold hgo'

/-- Entries that were allocated keep their `peerConn` when a new one is. -/
private theorem IceInv.conns_update (h : IceInv m) {pc : PeerConnId} (hpc : m.peers k = some pc)
    (c : PeerConn) : Function.update m.conns m.nextConn c pc = m.conns pc := by
  have hlt := h.connAlloc k pc hpc
  exact Function.update_of_ne (Nat.ne_of_lt hlt) _ _

/-! ## The calls -/

/-- Tracking a key that has no entry adds an entry and its worker. -/
theorem IceInv.track (h : IceInv m) (hnone : m.peers k = none) : IceInv (m.track k) := by
  obtain ⟨hfree, hopen, hclosing⟩ := h.ctxAlloc m.nextCtx (Nat.le_refl _)
  constructor
  · -- the new entry has a new ID and a new context
    intro k' pc hpc
    rcases PMap.set_eq_some _ hpc with ⟨-, rfl⟩ | ⟨-, hpc⟩
    · exact Nat.lt_succ_self _
    · exact Nat.lt_succ_of_lt (h.connAlloc k' pc hpc)
  · intro y hy
    obtain ⟨hnone, hrest⟩ := h.ctxAlloc y (Nat.le_of_succ_le hy)
    exact ⟨(PMap.set_ne _ _ (Nat.ne_of_gt hy)).trans hnone, hrest⟩
  · intro k' pc hpc
    rcases PMap.set_eq_some _ hpc with ⟨rfl, rfl⟩ | ⟨-, hpc⟩
    · simp only [Manager.track, Function.update_self, PMap.set_self]
      exact ⟨hopen, hclosing, _, rfl, rfl, by simp⟩
    · obtain ⟨hopen', hclosing', w, hw, hkey, hgo⟩ := h.tracked k' pc hpc
      have hctx : (m.conns pc).cancel ≠ m.nextCtx := by
        intro heq
        rw [heq, hfree] at hw
        cases hw
      simp only [Manager.track, h.conns_update hpc, PMap.set_ne _ _ hctx]
      exact ⟨hopen', hclosing', w, hw, hkey, hgo⟩
  · intro y w hw hgo
    rcases PMap.set_eq_some _ hw with ⟨rfl, rfl⟩ | ⟨-, hw⟩
    · exact .inr (.inr ⟨m.nextConn, PMap.set_self _ _ _, by simp [Manager.track]⟩)
    · rcases h.owned y w hw hgo with hcan | hclo | ⟨pc, hpc, heq⟩
      · exact .inl hcan
      · exact .inr (.inl hclo)
      · -- an older worker for `k` had no entry, so this one is for another key
        have hne : w.peerKey ≠ k := by
          rintro rfl
          rw [hnone] at hpc
          cases hpc
        refine .inr (.inr ⟨pc, (PMap.set_ne _ _ hne).trans hpc, ?_⟩)
        simp only [Manager.track, h.conns_update hpc]
        exact heq

/-- `StartConnect` tracks a key at most once. -/
theorem IceInv.startConnect (h : IceInv m) (k : String) : IceInv (m.startConnect k) := by
  unfold Manager.startConnect
  split
  · exact h
  · rename_i hnone
    exact h.track hnone

/-- `ClosePeer` takes the entry away and leaves its context to be cancelled. -/
theorem IceInv.closePeer (h : IceInv m) (k : String) : IceInv (m.closePeer k) := by
  unfold Manager.closePeer
  split
  · rename_i pc hpc
    obtain ⟨-, -, w₀, hw₀, hkey₀, -⟩ := h.tracked k pc hpc
    constructor
    · intro k' pc' hpc'
      exact h.connAlloc k' pc' (PMap.delete_eq_some _ hpc').2
    · intro y hy
      obtain ⟨hnone, hopen, hclosing⟩ := h.ctxAlloc y hy
      refine ⟨hnone, hopen, ?_⟩
      rintro (_ | ⟨_, hmem⟩)
      · rw [hw₀] at hnone
        cases hnone
      · exact hclosing hmem
    · intro k' pc' hpc'
      obtain ⟨hne, hpc'⟩ := PMap.delete_eq_some _ hpc'
      obtain ⟨hopen, hclosing, w, hw, hkey, hgo⟩ := h.tracked k' pc' hpc'
      refine ⟨hopen, ?_, w, hw, hkey, hgo⟩
      -- the two entries belong to different workers
      intro hmem
      rcases List.mem_cons.mp hmem with heq | hmem
      · rw [heq, hw₀] at hw
        obtain rfl := Option.some.inj hw
        exact hne (hkey.symm.trans hkey₀)
      · exact hclosing hmem
    · intro y w hw hgo
      rcases h.owned y w hw hgo with hcan | hclo | ⟨pc', hpc', heq⟩
      · exact .inl hcan
      · exact .inr (.inl (List.mem_cons_of_mem _ hclo))
      · -- the worker of `k` owned the entry that is gone
        by_cases hkey : w.peerKey = k
        · rw [hkey, hpc] at hpc'
          obtain rfl := Option.some.inj hpc'
          exact .inr (.inl (List.mem_cons.mpr (.inl heq.symm)))
        · exact .inr (.inr ⟨pc', (PMap.delete_ne _ hkey).trans hpc', heq⟩)
  · exact h

/-- Cancelling a context that waits for it. -/
theorem IceInv.cancel (h : IceInv m) (hx : x ∈ m.closing) : IceInv (m.cancel x) := by
  constructor
  · exact h.connAlloc
  · intro y hy
    obtain ⟨hnone, hopen, hclosing⟩ := h.ctxAlloc y hy
    -- a context that is not in use yet waits for no cancel
    have hne : y ≠ x := by
      rintro rfl
      exact hclosing hx
    exact ⟨hnone, (Function.update_of_ne hne _ _).trans hopen,
      fun hmem => hclosing (List.mem_of_mem_erase hmem)⟩
  · intro k pc hpc
    obtain ⟨hopen, hclosing, hworker⟩ := h.tracked k pc hpc
    -- nor does that of a connection that is still in the map
    have hne : (m.conns pc).cancel ≠ x := by
      intro heq
      exact hclosing (heq ▸ hx)
    exact ⟨(Function.update_of_ne hne _ _).trans hopen,
      fun hmem => hclosing (List.mem_of_mem_erase hmem), hworker⟩
  · intro y w hw hgo
    -- the worker of `x` is cancelled now
    by_cases hy : y = x
    · subst hy
      exact .inl (Function.update_self _ _ _)
    · rcases h.owned y w hw hgo with hcan | hclo | hpc
      · exact .inl ((Function.update_of_ne hy _ _).trans hcan)
      · exact .inr (.inl ((List.mem_erase_of_ne hy).mpr hclo))
      · exact .inr (.inr hpc)

/-- A message to be delivered changes no entry. -/
theorem IceInv.prepare (h : IceInv m) (k : String) (type : BodyType)
    (ex : Exchange) : IceInv (m.prepare k type ex) := by
  unfold Manager.prepare
  split
  · exact h.congr fun _ => rfl
  · exact h

/-- `HandleSignal` starts at most one worker, and only for an offer. -/
theorem IceInv.handleSignal (h : IceInv m) (k : String) (body : Option IceBody) :
    IceInv (m.handleSignal k body) := by
  unfold Manager.handleSignal
  split
  · exact (h.startConnect k).prepare k _ _
  · exact h.prepare k _ _
  · exact h

/-- Putting a message into a channel keeps what the invariant reads. -/
theorem IceInv.put (h : IceInv m) (pc : PeerConnId) (type : BodyType)
    (ex : Exchange) : IceInv (m.put pc type ex) := by
  refine h.congr fun pc' => ?_
  by_cases hpc : pc' = pc
  · subst hpc
    simp
  · simp [hpc]

/-! ## The workers -/

/-- So does taking one out. -/
theorem IceInv.take (h : IceInv m) (pc : PeerConnId) (type : BodyType) :
    IceInv (m.take pc type) := by
  refine h.congr fun pc' => ?_
  by_cases hpc : pc' = pc
  · subst hpc
    rw [Function.update_self]
    split <;> rfl
  · rw [Function.update_of_ne hpc]

/-- Replacing an entry by one with the same context keeps its worker. -/
theorem IceInv.replaceEntry (h : IceInv m) {pc pc' : PeerConnId} (hpc' : m.peers k = some pc')
    (heq : (m.conns pc').cancel = (m.conns pc).cancel) : IceInv (m.replaceEntry k pc) := by
  constructor
  · intro k' p hp
    rcases PMap.set_eq_some _ hp with ⟨-, rfl⟩ | ⟨-, hp⟩
    · exact Nat.lt_succ_self _
    · exact Nat.lt_succ_of_lt (h.connAlloc k' p hp)
  · exact h.ctxAlloc
  · intro k' p hp
    rcases PMap.set_eq_some _ hp with ⟨rfl, rfl⟩ | ⟨-, hp⟩
    · simp only [Manager.replaceEntry, Function.update_self, ← heq]
      exact h.tracked _ pc' hpc'
    · simp only [Manager.replaceEntry, h.conns_update hp]
      exact h.tracked k' p hp
  · intro y w hw hgo
    rcases h.owned y w hw hgo with hcan | hclo | ⟨p, hp, hy⟩
    · exact .inl hcan
    · exact .inr (.inl hclo)
    · refine .inr (.inr ?_)
      -- the old entry and the new one share the context, so the owner is the same
      by_cases hkey : w.peerKey = k
      · rw [hkey, hpc'] at hp
        obtain rfl := Option.some.inj hp
        refine ⟨m.nextConn, by simp [Manager.replaceEntry, hkey], ?_⟩
        simp only [Manager.replaceEntry, Function.update_self, ← heq]
        exact hy
      · refine ⟨p, (PMap.set_ne _ _ hkey).trans hp, ?_⟩
        simp only [Manager.replaceEntry, h.conns_update hp]
        exact hy

/-- A step of a worker. -/
theorem IceInv.worker (h : IceInv m) {e : WorkerEvent} {out : List IceBody}
    (hok : CarriesCancel m (.worker x e)) (hw : m.workers x = some w)
    (hmoves : Manager.Moves m x w e m' out) : IceInv m' := by
  cases hmoves with
  | start hphase _ | offer hphase _ | await hphase _ | again hphase =>
    exact h.move hw (by simp [hphase]) (by simp)
  | dial hphase _ | answer hphase _ =>
    exact (h.take _ _).move hw (by simp [hphase]) (by simp)
  | walk _ hquiet hgo =>
    refine h.move hw hgo ?_
    rintro rfl
    cases hquiet
  | exit _ hgo hexit => exact h.move hw hgo fun _ => hexit
  | replace hphase =>
    -- the only step that needs the condition
    obtain ⟨pc', hpc', heq⟩ := hok w _ hw hphase
    exact (h.replaceEntry hpc' heq).move hw (by simp [hphase]) (by simp)

/-- Every event keeps the invariant, a replacement under its condition. -/
theorem IceInv.step (h : IceInv m) {e : Event} {out : List IceBody} (hok : CarriesCancel m e)
    (hs : m.step e = some (m', out)) : IceInv m' := by
  cases e with
  | startConnect k =>
    obtain ⟨rfl, -⟩ := Prod.mk.inj (Option.some.inj hs)
    exact h.startConnect k
  | closePeer k =>
    obtain ⟨rfl, -⟩ := Prod.mk.inj (Option.some.inj hs)
    exact h.closePeer k
  | cancel x =>
    simp only [Manager.step] at hs
    split at hs
    · rename_i hx
      obtain ⟨rfl, -⟩ := Prod.mk.inj (Option.some.inj hs)
      exact h.cancel hx
    · cases hs
  | handleSignal k body =>
    obtain ⟨rfl, -⟩ := Prod.mk.inj (Option.some.inj hs)
    exact h.handleSignal k body
  | put pc type ex =>
    simp only [Manager.step] at hs
    split at hs
    · obtain ⟨rfl, -⟩ := Prod.mk.inj (Option.some.inj hs)
      exact h.put pc type ex
    · cases hs
  | worker x e =>
    -- the worker's own moves
    obtain ⟨w, hw, hs⟩ := Option.bind_eq_some_iff.mp hs
    exact h.worker hok hw (Manager.workerStep_moves hs)

/-- `IceInv.step` without the messages that the event sends. -/
private theorem iceInv_step {e : Event} (hok : CarriesCancel m e) (h : IceInv m)
    (hs : iceStep m e = some m') : IceInv m' := by
  obtain ⟨⟨_, out⟩, hstep, rfl⟩ := Option.map_eq_some_iff.mp hs
  exact h.step hok hstep

/-! ## Entries and workers match -/

/-- With no `ClosePeer` in between, the running worker of a key is the one its entry
    stands for. -/
private theorem IceInv.running_iff (h : IceInv m) (hclosing : m.closing = []) :
    Running m k x ↔ ∃ pc, m.peers k = some pc ∧ (m.conns pc).cancel = x := by
  constructor
  · rintro ⟨w, hw, rfl, hgo, hopen⟩
    rcases h.owned x w hw hgo with hcan | hclo | hpc
    · exact absurd (hopen.symm.trans hcan) Bool.false_ne_true
    · rw [hclosing] at hclo
      cases hclo
    · exact hpc
  · rintro ⟨pc, hpc, rfl⟩
    obtain ⟨hopen, -, w, hw, hkey, hgo⟩ := h.tracked k pc hpc
    exact ⟨w, hw, hkey, hgo, hopen⟩

/-- With nothing left to cancel, the entries are the keys with a running worker. -/
private theorem IceInv.entriesMatch (h : IceInv m) (hclosing : m.closing = []) :
    EntriesMatch m := by
  intro k
  simp only [h.running_iff hclosing]
  cases hpc : m.peers k with
  | none => simp [ExistsUnique]
  | some pc => simp

/-- With nothing left to cancel, a key without a worker can be started. -/
private theorem IceInv.startable (h : IceInv m) (hclosing : m.closing = []) : Startable m := by
  intro k hno
  have hnone : m.peers k = none := by
    cases hpc : m.peers k with
    | none => rfl
    | some pc => exact absurd ((h.running_iff hclosing).mpr ⟨pc, hpc, rfl⟩) (hno _)
  obtain ⟨hfree, hopen, -⟩ := h.ctxAlloc m.nextCtx (Nat.le_refl _)
  have hstart : m.startConnect k = m.track k := by simp [Manager.startConnect, hnone]
  refine ⟨m.track k, m.nextCtx, ?_, hfree, { peerKey := k }, PMap.set_self _ _ _, rfl, ?_, hopen⟩
  · simp [iceStep, Manager.step, hstart]
  · simp

/-- Where every replacement carries over the cancel function of the entry it replaces,
    whatever else is interleaved, the tracked peers are those with a running worker whenever
    no `ClosePeer` is between its section and its cancel; and a peer without one can be
    started anew. -/
theorem entries_match_workers {selfKey : String} {es : List Event}
    (hok : ExecAlong iceStep CarriesCancel { selfKey } es) :
    Throughout iceStep (fun m => m.closing = [] → EntriesMatch m ∧ Startable m)
      { selfKey } es := by
  have hinv : Throughout iceStep IceInv { selfKey } es :=
    hok.throughout (fun _ _ _ hcond hinv hs => iceInv_step hcond hinv hs) (iceInv_new selfKey)
  exact hinv.imp fun m h hclosing => ⟨h.entriesMatch hclosing, h.startable hclosing⟩

/-- An attempt fails, and the retry loop has looked that the peer is still tracked. -/
def failedAttempt : List Event :=
  [.startConnect "K", .worker 0 .top, .worker 0 .leave, .worker 0 .checkDone,
    .worker 0 .checkTracked]

/-- The peer is closed right then; the loop puts an entry back and its worker exits. -/
def undoneClose : List Event :=
  failedAttempt ++ [.closePeer "K", .cancel 0, .worker 0 .replace, .worker 0 .stop]

/-- The only worker of the run has exited. -/
private theorem undoneClose_worker_done {m : Manager}
    (hm : exec iceStep { selfKey := "A" } undoneClose = some m) (hw : m.workers x = some w) :
    w.phase = .done := by
  obtain rfl := Option.some.inj hm
  by_cases hx : x = 0
  · subst hx
    obtain rfl := Option.some.inj hw
    rfl
  · repeat replace hw := (PMap.set_ne _ _ hx).symm.trans hw
    cases hw

/-- The entry stays without a worker, and `StartConnect` does nothing. -/
theorem undoneClose_leaves_entry :
    ∃ m, exec iceStep { selfKey := "A" } undoneClose = some m ∧ Quiescent m ∧
      ¬ EntriesMatch m ∧ iceStep m (.startConnect "K") = some m := by
  -- the replacement puts back the entry that `ClosePeer` had removed
  obtain ⟨m, hm⟩ : ∃ m, exec iceStep { selfKey := "A" } undoneClose = some m := ⟨_, rfl⟩
  have hidle : m.closing = [] ∧ m.puts = [] := by
    obtain rfl := Option.some.inj hm
    exact ⟨rfl, rfl⟩
  have hpeers : m.peers "K" = some 1 := by
    obtain rfl := Option.some.inj hm
    rfl
  refine ⟨m, hm, ⟨hidle.1, hidle.2, ?_⟩, ?_, ?_⟩
  · intro x w hw pc
    simp [undoneClose_worker_done hm hw]
  · intro hmatch
    obtain ⟨x, ⟨w, hw, -, hgo, -⟩, -⟩ := (hmatch "K").mp (by simp [hpeers])
    exact hgo (undoneClose_worker_done hm hw)
  · simp [iceStep, Manager.step, Manager.startConnect, hpeers]

/-- Two attempts fail, the peer is closed, its worker exits and the peer is started anew. -/
def restartedRun : List Event :=
  failedAttempt ++ [.worker 0 .replace, .worker 0 .retry, .worker 0 .top, .closePeer "K",
    .cancel 0, .worker 0 .leave, .worker 0 .checkDone, .startConnect "K"]

/-- The one replacement of the run keeps the context. -/
private theorem restartedRun_carriesCancel :
    ExecAlong iceStep CarriesCancel { selfKey := "A" } restartedRun := by
  repeat' first | exact trivial | refine ExecAlong.cons rfl ?_ ?_
  -- the one replacement
  intro w pc hw hpc
  obtain rfl := Option.some.inj hw
  obtain rfl := RunPhase.tracked.inj hpc
  exact ⟨0, rfl, rfl⟩

/-- A restart in the course of a run: the second worker belongs to the third entry. -/
theorem restartedRun_entries_match :
    (∃ m, exec iceStep { selfKey := "A" } restartedRun = some m ∧ m.peers "K" = some 2 ∧
      Running m "K" 1 ∧ m.closing = []) ∧
    ExecAlong iceStep CarriesCancel { selfKey := "A" } restartedRun ∧
    Throughout iceStep (fun m => m.closing = [] → EntriesMatch m ∧ Startable m)
      { selfKey := "A" } restartedRun :=
  ⟨⟨_, rfl, rfl, ⟨_, rfl, rfl, by simp, rfl⟩, rfl⟩, restartedRun_carriesCancel,
    entries_match_workers restartedRun_carriesCancel⟩

end Blinex.Spec
