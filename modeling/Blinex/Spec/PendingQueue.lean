import Mathlib.Data.List.DropRight
import Blinex.Spec.SignalPending

/-!
# What a pending queue holds

`recent` says it from the calls alone: the signaling for a key after the last time its queue
was taken and after the last silence of more than `pendingTTL`. A queue holds the newest of it
(`Tracks`). The sweep of old queues runs whenever signaling for any key is queued; it can only
remove a queue whose newest message is too old to be taken or continued anyway.
-/

namespace Blinex.Native.Signal

/-! ## The calls -/

/-- The calls that touch the queues, with their time. -/
inductive PendingCall where
  | absent (now : Nat) (x : Held)
  | take (now : Nat) (peerKey : String)
deriving DecidableEq

namespace PendingCall

/-- The time of the call. -/
def now : PendingCall → Nat
  | absent t _ => t
  | take t _ => t

/-- The call takes the queue of `k`. -/
def takes (k : String) : PendingCall → Bool
  | absent _ _ => false
  | take _ k' => k' = k

/-- The signaling for `k` that the call brings. -/
def arrival (k : String) : PendingCall → Option (Nat × Held)
  | absent t x => if x.msg.bodyType ≠ .relay ∧ x.msg.remoteKey = k then some (t, x) else none
  | take _ _ => none

end PendingCall

/-- What a call leaves behind. -/
def pendingStep (s : Server) : PendingCall → Server
  | .absent now x => s.handleAbsentTarget now x
  | .take now k => (s.takePendingLocked now k).2

/-- The messages after the last gap of more than `pendingTTL`. -/
def afterLastGap : List (Nat × Held) → List (Nat × Held)
  | [] => []
  | m :: ms =>
    if (m :: ms).IsChain (fun a b => b.1 - a.1 ≤ pendingTTL) then m :: ms else afterLastGap ms

/-- The signaling for `k` since its queue was last taken and since the last gap in it. -/
def recent (k : String) (calls : List PendingCall) : List (Nat × Held) :=
  afterLastGap ((calls.rtakeWhile fun c => !c.takes k).filterMap (PendingCall.arrival k))

/-- The last `min(32, n)` of a list. -/
def newest (l : List Held) : List Held := l.drop (l.length - min pendingPerPeer l.length)

/-! ## The history -/

/-- `m` comes after the gap, or continues the messages `l`. -/
def continued (l : List (Nat × Held)) (m : Nat × Held) : List (Nat × Held) :=
  if ∀ a ∈ l.getLast?, m.1 - a.1 ≤ pendingTTL then l ++ [m] else [m]

/-- Messages without a gap are kept whole. -/
private theorem afterLastGap_of_isChain {l : List (Nat × Held)}
    (h : l.IsChain fun a b => b.1 - a.1 ≤ pendingTTL) : afterLastGap l = l := by
  cases l with
  | nil => rfl
  | cons m ms => rw [afterLastGap, if_pos h]

/-- One more message continues the run or starts a new one. -/
private theorem afterLastGap_concat (l : List (Nat × Held)) (m : Nat × Held) :
    afterLastGap (l ++ [m]) = continued (afterLastGap l) m := by
  induction l with
  | nil => simp [afterLastGap, continued]
  | cons a l ih =>
    have happend : (a :: (l ++ [m])).IsChain (fun a b => b.1 - a.1 ≤ pendingTTL) ↔
        (a :: l).IsChain (fun a b => b.1 - a.1 ≤ pendingTTL) ∧
          ∀ b ∈ (a :: l).getLast?, m.1 - b.1 ≤ pendingTTL := by
      rw [← List.cons_append, List.isChain_append]
      simp
    rw [List.cons_append, afterLastGap]
    -- a gap before `m` is somewhere in the list, or right at its end
    by_cases hchain : (a :: l).IsChain fun a b => b.1 - a.1 ≤ pendingTTL
    · rw [afterLastGap_of_isChain hchain]
      by_cases hlast : ∀ b ∈ (a :: l).getLast?, m.1 - b.1 ≤ pendingTTL
      · rw [if_pos (happend.mpr ⟨hchain, hlast⟩), continued, if_pos hlast, List.cons_append]
      · -- the gap is right before `m`
        have htail : l.IsChain fun a b => b.1 - a.1 ≤ pendingTTL := hchain.tail
        rw [if_neg fun h => hlast (happend.mp h).2, ih, afterLastGap_of_isChain htail,
          continued, continued, if_neg hlast]
        cases l with
        | nil => rfl
        | cons b l =>
          rw [List.getLast?_cons_cons] at hlast
          exact if_neg hlast
    · rw [if_neg fun h => hchain (happend.mp h).1, ih]
      conv_rhs => rw [afterLastGap, if_neg hchain]

/-- One more call: a take starts anew, a message for `k` continues. -/
private theorem recent_concat (k : String) (calls : List PendingCall) (c : PendingCall) :
    recent k (calls ++ [c]) =
      if c.takes k then []
      else match c.arrival k with
        | none => recent k calls
        | some m => continued (recent k calls) m := by
  unfold recent
  -- a take cuts the history off
  cases htakes : c.takes k with
  | true =>
    rw [List.rtakeWhile_concat_neg _ _ _ (by simp [htakes])]
    rfl
  | false =>
    rw [List.rtakeWhile_concat_pos _ _ _ (by simp [htakes]), List.filterMap_append]
    cases harr : c.arrival k with
    | none => simp [harr]
    | some m => simp [harr, afterLastGap_concat]

/-- The messages after the last gap are among all of them. -/
private theorem mem_afterLastGap {l : List (Nat × Held)} {m : Nat × Held} (h : m ∈ afterLastGap l) :
    m ∈ l := by
  induction l with
  | nil => exact h
  | cons a l ih =>
    rw [afterLastGap] at h
    split at h
    · exact h
    · exact List.mem_cons_of_mem a (ih h)

/-- Only signaling for `k` is recent. -/
private theorem mem_recent {k : String} {calls : List PendingCall} {m : Nat × Held}
    (h : m ∈ recent k calls) : m.2.msg.bodyType ≠ .relay ∧ m.2.msg.remoteKey = k := by
  obtain ⟨c, _, hc⟩ := List.mem_filterMap.mp (mem_afterLastGap h)
  cases c with
  | take t k' => cases hc
  | absent t x =>
    rw [PendingCall.arrival] at hc
    split at hc
    · rename_i hx
      obtain rfl := Option.some.inj hc
      exact hx
    · cases hc

/-! ## One queue -/

/-- The expiry test spares the queue. -/
def spared (now : Nat) (q : PendingQueue) : Bool := !decide (pendingTTL < now - q.queuedAt)

/-- The queue after a message, as `handleAbsentTarget` leaves it. -/
def pushed (o : Option PendingQueue) (now : Nat) (x : Held) : PendingQueue :=
  let msgs := ((o.filter (spared now)).getD {}).msgs
  { msgs := (if pendingPerPeer ≤ msgs.length then msgs.drop 1 else msgs) ++ [x], queuedAt := now }

/-- The queue `o` of a key at the time `now` holds the newest of the messages `l`, or it is
    gone and they are too old. -/
def Tracks (o : Option PendingQueue) (l : List (Nat × Held)) (now : Nat) : Prop :=
  match o with
  | some q => (∃ x, l.getLast? = some (q.queuedAt, x)) ∧ q.msgs = newest (l.map Prod.snd)
  | none => ∀ m ∈ l.getLast?, pendingTTL < now - m.1

/-- A full queue drops its oldest message for the new one. -/
private theorem newest_concat (l : List Held) (x : Held) :
    (if pendingPerPeer ≤ (newest l).length then (newest l).drop 1 else newest l) ++ [x] =
      newest (l ++ [x]) := by
  have hcap : pendingPerPeer = 32 := rfl
  unfold newest
  rw [List.length_append, List.length_singleton, List.length_drop]
  by_cases hfull : 32 ≤ l.length
  · rw [if_pos (by omega), List.drop_drop, List.drop_append_of_le_length (by omega)]
    congr 2
    omega
  · rw [if_neg (by omega), List.drop_append_of_le_length (by omega)]
    congr 2
    omega

/-- Time that passes does no harm. -/
theorem Tracks.later {o : Option PendingQueue} {l : List (Nat × Held)} {t now : Nat}
    (h : Tracks o l t) (hle : t ≤ now) : Tracks o l now := by
  cases o with
  | some q => exact h
  | none =>
    intro m hm
    have hold := h m hm
    omega

/-- The sweep removes a queue whose last message is too old. -/
private theorem Tracks.sweep {o : Option PendingQueue} {l : List (Nat × Held)} {t now : Nat}
    (h : Tracks o l t) (hle : t ≤ now) : Tracks (o.filter (spared now)) l now := by
  cases o with
  | none =>
    intro m hm
    -- what was too old before still is
    have hold := h m hm
    omega
  | some q =>
    obtain ⟨⟨x, hlast⟩, hmsgs⟩ := h
    rw [Option.filter_some]
    split
    · exact ⟨⟨x, hlast⟩, hmsgs⟩
    · rename_i hexpired
      -- the last message is the newest one
      intro m hm
      rw [hlast, Option.mem_some_iff] at hm
      rw [← hm]
      simpa only [spared, Bool.not_eq_true, Bool.not_eq_false', decide_eq_true_eq] using hexpired

/-- A message is added to the queue, or to a new one after the sweep. -/
theorem Tracks.push {o : Option PendingQueue} {l : List (Nat × Held)} {t now : Nat}
    (h : Tracks o l t) (hle : t ≤ now) (x : Held) :
    Tracks (some (pushed o now x)) (continued l (now, x)) now := by
  have hswept := h.sweep hle
  unfold pushed
  cases hq : o.filter (spared now) with
  | none =>
    -- gone: either there were no messages or the gap is before this one
    rw [hq] at hswept
    have hsingle : continued l (now, x) = [(now, x)] := by
      unfold continued
      cases hl : l.getLast? with
      | none =>
        rw [List.getLast?_eq_none_iff.mp hl]
        rfl
      | some m =>
        have hgap := hswept m hl
        rw [if_neg]
        intro hall
        have hshort := hall m rfl
        dsimp only at hshort
        omega
    rw [hsingle]
    exact ⟨⟨x, rfl⟩, rfl⟩
  -- the queue was spared, so its last message is not too old for the new one
  | some q =>
    rw [hq] at hswept
    obtain ⟨⟨y, hlast⟩, hmsgs⟩ := hswept
    have hspared : spared now q = true := (Option.filter_eq_some_iff.mp hq).2
    have hcont : continued l (now, x) = l ++ [(now, x)] := by
      rw [continued, if_pos]
      intro m hm
      rw [hlast, Option.mem_some_iff] at hm
      rw [← hm]
      simpa [spared] using hspared
    rw [hcont]
    refine ⟨⟨x, List.getLast?_concat⟩, ?_⟩
    rw [List.map_append]
    simp only [Option.getD_some, hmsgs]
    exact newest_concat _ _

/-! ## One call -/

/-- A message for an absent target is put into the queue of the target. -/
private theorem pending_absent_self {s : Server} {now : Nat} {x : Held}
    (hx : x.msg.bodyType ≠ .relay) :
    (s.handleAbsentTarget now x).pending x.msg.remoteKey =
      some (pushed (s.pending x.msg.remoteKey) now x) := by
  unfold Server.handleAbsentTarget
  rw [if_neg hx]
  exact PMap.set_self _ _ _

/-- The other queues are swept. -/
private theorem pending_absent_ne {s : Server} {now : Nat} {x : Held} {k : String}
    (hx : x.msg.bodyType ≠ .relay) (hk : k ≠ x.msg.remoteKey) :
    (s.handleAbsentTarget now x).pending k = (s.pending k).filter (spared now) := by
  unfold Server.handleAbsentTarget
  rw [if_neg hx]
  exact PMap.set_ne _ _ hk

/-- Taken or too old, the queue is gone. -/
private theorem pending_take_self (s : Server) (now : Nat) (k : String) :
    (s.takePendingLocked now k).2.pending k = none := by
  unfold Server.takePendingLocked
  split
  · assumption
  · dsimp only
    split <;> exact PMap.delete_self _ _

/-- Taking one queue keeps the others. -/
private theorem pending_take_ne {s : Server} {now : Nat} {k k' : String} (h : k' ≠ k) :
    (s.takePendingLocked now k).2.pending k' = s.pending k' := by
  unfold Server.takePendingLocked
  split
  · rfl
  · dsimp only
    split <;> exact PMap.delete_ne _ h

/-- One call keeps the queue and the history together. -/
private theorem tracks_step {s : Server} {calls : List PendingCall} {c : PendingCall} {k : String}
    {t : Nat} (h : Tracks (s.pending k) (recent k calls) t) (ht : t ≤ c.now) :
    Tracks ((pendingStep s c).pending k) (recent k (calls ++ [c])) c.now := by
  rw [recent_concat]
  cases c with
  | take now k' =>
    by_cases hk : k' = k
    · subst hk
      simp only [pendingStep, pending_take_self, PendingCall.takes, decide_true, ↓reduceIte]
      intro m hm
      cases hm
    · simp only [pendingStep, pending_take_ne (Ne.symm hk), PendingCall.takes, hk, decide_false,
        Bool.false_eq_true, ↓reduceIte, PendingCall.arrival]
      exact h.later ht
  | absent now x =>
    simp only [pendingStep, PendingCall.takes, Bool.false_eq_true, ↓reduceIte]
    -- a message of the relay is not kept, and nothing is swept for it
    by_cases hx : x.msg.bodyType = .relay
    · simp only [Server.pending_handleAbsentTarget_relay hx, PendingCall.arrival, hx, ne_eq,
        not_true_eq_false, false_and, ↓reduceIte]
      exact h.later ht
    · by_cases hk : x.msg.remoteKey = k
      · subst hk
        simp only [pending_absent_self hx, PendingCall.arrival, ne_eq, hx, not_false_eq_true,
          and_self, ↓reduceIte]
        exact h.push ht x
      · simp only [pending_absent_ne hx (Ne.symm hk), PendingCall.arrival, hk, and_false,
          ↓reduceIte]
        exact h.sweep ht

/-- The queues after any calls of a new server. -/
private theorem tracks_run {calls : List PendingCall}
    (hclock : (calls.map PendingCall.now).Pairwise (· ≤ ·)) {now : Nat}
    (hnow : ∀ c ∈ calls, c.now ≤ now) (k : String) :
    Tracks ((calls.foldl pendingStep {}).pending k) (recent k calls) now := by
  -- the clock bounds the calls so far by the last one
  induction calls using List.reverseRecOn generalizing now with
  | nil =>
    intro m hm
    cases hm
  | append_singleton calls c ih =>
    rw [List.map_append, List.pairwise_append] at hclock
    have hbefore : ∀ c' ∈ calls, c'.now ≤ c.now := by
      intro c' hc'
      exact hclock.2.2 _ (List.mem_map_of_mem hc') _ List.mem_cons_self
    rw [List.foldl_append]
    exact (tracks_step (ih hclock.1 hbefore) (Nat.le_refl _)).later
      (hnow c (List.mem_append_right _ List.mem_cons_self))

/-- **The pending queue holds exactly the newest signaling.** After any calls with times that
    do not go back, taking the queue of `k` returns the newest of the recent messages in their
    order, or nothing if the last of them is too old, and leaves no queue for `k`. -/
theorem take_pending_exact (calls : List PendingCall)
    (hclock : (calls.map PendingCall.now).Pairwise (· ≤ ·)) (now : Nat)
    (hnow : ∀ c ∈ calls, c.now ≤ now) (k : String) :
    ((calls.foldl pendingStep {}).takePendingLocked now k).1 =
        (if ∃ m ∈ (recent k calls).getLast?, pendingTTL < now - m.1 then []
         else newest ((recent k calls).map Prod.snd)) ∧
      ((calls.foldl pendingStep {}).takePendingLocked now k).2.pending k = none ∧
      ∀ k' q x, (calls.foldl pendingStep {}).pending k' = some q → x ∈ q.msgs →
        x.msg.bodyType ≠ .relay := by
  refine ⟨?_, pending_take_self _ _ _, ?_⟩
  · have htracks := tracks_run hclock hnow k
    unfold Server.takePendingLocked
    cases hq : (calls.foldl pendingStep {}).pending k with
    | none =>
      rw [hq] at htracks
      dsimp only
      split
      · rfl
      · -- no queue, and the last message not too old: there was none
        rename_i hnone
        cases hl : (recent k calls).getLast? with
        | none =>
          rw [List.getLast?_eq_none_iff.mp hl]
          rfl
        | some m => exact absurd ⟨m, hl, htracks m hl⟩ hnone
    | some q =>
      rw [hq] at htracks
      obtain ⟨⟨x, hlast⟩, hmsgs⟩ := htracks
      simp only [hlast, Option.mem_some_iff, exists_eq_left']
      split
      · rfl
      · exact hmsgs
  · intro k' q x hq hx
    have htracks := tracks_run hclock hnow k'
    rw [hq] at htracks
    rw [htracks.2] at hx
    obtain ⟨m, hm, rfl⟩ := List.mem_map.mp (List.mem_of_mem_drop hx)
    exact (mem_recent hm).1

/-- An offer, then twenty seconds of nothing but relay data, then another offer and a candidate;
    a message for somebody else sweeps the first one away in between. -/
def gapCalls : List PendingCall :=
  [.absent 0 ⟨1, { key := "A", remoteKey := "B" }⟩,
   .absent (16 * second) ⟨1, { key := "A", remoteKey := "B", body := some { type := .relay } }⟩,
   .absent (17 * second) ⟨1, { key := "A", remoteKey := "C" }⟩,
   .absent (20 * second) ⟨1, { key := "A", remoteKey := "B" }⟩,
   .absent (21 * second) ⟨1, { key := "A", remoteKey := "B", body := some { type := .candidate } }⟩]

/-- The messages after the gap are taken. -/
theorem gapCalls_taken :
    ((gapCalls.foldl pendingStep {}).takePendingLocked (30 * second) "B").1 =
      [⟨1, { key := "A", remoteKey := "B" }⟩,
       ⟨1, { key := "A", remoteKey := "B", body := some { type := .candidate } }⟩] :=
  (take_pending_exact gapCalls (by decide +kernel) (30 * second) (by decide +kernel) "B").1.trans
    (by decide +kernel)

end Blinex.Native.Signal
