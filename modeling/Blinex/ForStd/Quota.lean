import Mathlib.Data.Set.Card
import Mathlib.Logic.Function.Basic

/-!
# A quota that is checked first and charged later

A worker is admitted while fewer than `limit` units are charged, then spends one unit or leaves,
and charges what it has spent in a step of its own. With at most `k` workers between their check
and their charge, fewer than `limit + k` units are spent between two resets (`Within.spent_lt`).
-/

namespace Quota

/-- Where a worker is. -/
inductive Phase where
  | idle
  | admitted
  | owing
deriving DecidableEq

/-- `charged` is the counter, `spent` what was really spent since the last reset. -/
structure State (W : Type*) where
  phase : W → Phase
  charged : Nat
  spent : Nat

variable {W : Type*} {limit k : Nat}

/-! ## Counting workers -/

/-- The workers in a phase. -/
def State.at (s : State W) (q : Phase) : Set W := {w | s.phase w = q}

/-- The workers between their check and their charge. -/
def State.busy (s : State W) : Set W := {w | s.phase w ≠ .idle}

/-- No more than `k` workers are busy. -/
def AtMostBusy (k : Nat) (s : State W) : Prop := s.busy.encard ≤ k

/-- Those who are busy are admitted or owing. -/
private theorem State.busy_eq (s : State W) : s.busy = s.at .admitted ∪ s.at .owing := by
  ext w
  cases h : s.phase w <;> simp [busy, State.at, h]

/-- A phase other than idle has finitely many workers in it. -/
theorem AtMostBusy.finite {s : State W} (h : AtMostBusy k s) {q : Phase} (hq : q ≠ .idle) :
    (s.at q).Finite := by
  have hfin : s.busy.Finite := Set.finite_of_encard_le_coe h
  refine hfin.subset fun w hw => ?_
  show s.phase w ≠ .idle
  rw [show s.phase w = q from hw]
  exact hq

/-- The admitted and the owing workers are at most `k` together. -/
private theorem AtMostBusy.ncard_le {s : State W} (h : AtMostBusy k s) :
    (s.at .admitted).ncard + (s.at .owing).ncard ≤ k := by
  have hdisj : Disjoint (s.at .admitted) (s.at .owing) := by
    refine Set.disjoint_left.mpr fun w hw hw' => ?_
    have h := hw.symm.trans hw'
    cases h
  have hle : s.busy.ncard ≤ k := (Set.encard_le_coe_iff_finite_ncard_le.mp h).2
  rw [State.busy_eq, Set.ncard_union_eq hdisj (h.finite nofun) (h.finite nofun)] at hle
  exact hle

section Move

variable [DecidableEq W]

/-- The worker goes to another phase. -/
def State.move (s : State W) (w : W) (q : Phase) : State W :=
  { s with phase := Function.update s.phase w q }

variable {s : State W} {w : W} {q q' : Phase}

/-- A worker that moves to where it is changes nothing. -/
theorem State.move_self (hw : s.phase w = q) : s.move w q = s := by
  rw [move, ← hw, Function.update_eq_self]

/-- The phase that a worker enters has one more in it. -/
private theorem State.ncard_entered (hw : s.phase w ≠ q) (hfin : (s.at q).Finite) :
    ((s.move w q).at q).ncard = (s.at q).ncard + 1 := by
  have hinsert : (s.move w q).at q = insert w (s.at q) := by
    ext x
    by_cases hx : x = w <;> simp [move, State.at, hx]
  have hmem : w ∉ s.at q := hw
  rw [hinsert, Set.ncard_insert_of_notMem hmem hfin]

/-- The phase that a worker leaves has one less in it. -/
private theorem State.ncard_left (hw : s.phase w = q) (hne : q' ≠ q) (hfin : (s.at q).Finite) :
    ((s.move w q').at q).ncard + 1 = (s.at q).ncard := by
  have hdiff : (s.move w q').at q = s.at q \ {w} := by
    ext x
    by_cases hx : x = w <;> simp [move, State.at, hx, hne]
  have hmem : w ∈ s.at q := hw
  rw [hdiff, Set.ncard_sdiff_singleton_add_one hmem hfin]

/-- A phase that a worker neither leaves nor enters keeps its count. -/
private theorem State.ncard_same (hw : s.phase w ≠ q) (hne : q' ≠ q) :
    ((s.move w q').at q).ncard = (s.at q).ncard := by
  have hsame : (s.move w q').at q = s.at q := by
    ext x
    by_cases hx : x = w <;> simp [move, State.at, hx, hne, hw]
  rw [hsame]

/-! ## The steps -/

/-- One step of one worker, or a reset. -/
inductive Step (limit : Nat) (s : State W) : State W → Prop
  | enter (w : W) (h : s.phase w = .idle) (hroom : s.charged < limit) :
    Step limit s (s.move w .admitted)
  | leave (w : W) (h : s.phase w = .admitted) : Step limit s (s.move w .idle)
  | spend (w : W) (h : s.phase w = .admitted) :
    Step limit s { s.move w .owing with spent := s.spent + 1 }
  | charge (w : W) (h : s.phase w = .owing) :
    Step limit s { s.move w .idle with charged := s.charged + 1 }
  | reset : Step limit s { s with charged := 0, spent := 0 }

/-- What is spent and not charged is owed, and there is room for all that are admitted. -/
structure Within (limit k : Nat) (s : State W) : Prop where
  accounted : s.spent ≤ s.charged + (s.at .owing).ncard
  room : s.spent + (s.at .admitted).ncard < limit + k

/-- The charged units bound the spent ones, so an admission finds room for all that are busy. -/
theorem Within.step {s s' : State W} (hlimit : 0 < limit) (h : Within limit k s)
    (hbusy : AtMostBusy k s) (hbusy' : AtMostBusy k s') (hstep : Step limit s s') :
    Within limit k s' := by
  have hle := hbusy.ncard_le
  have hle' := hbusy'.ncard_le
  have hadmitted : (s.at .admitted).Finite := hbusy.finite (by decide)
  have howing : (s.at .owing).Finite := hbusy.finite (by decide)
  obtain ⟨hacc, hroom⟩ := h
  -- each step moves one worker, or resets the charge
  cases hstep with
  | enter w hw hcharged =>
    have hsame : ((s.move w .admitted).at .owing).ncard = (s.at .owing).ncard :=
      State.ncard_same (by rw [hw]; decide) (by decide)
    refine ⟨?_, ?_⟩
    · show s.spent ≤ s.charged + ((s.move w .admitted).at .owing).ncard
      omega
    · -- spent < limit + owing, and those owing or admitted are at most k
      show s.spent + ((s.move w .admitted).at .admitted).ncard < limit + k
      omega
  | leave w hw =>
    have hsame : ((s.move w .idle).at .owing).ncard = (s.at .owing).ncard :=
      State.ncard_same (by rw [hw]; decide) (by decide)
    have hleft : ((s.move w .idle).at .admitted).ncard + 1 = (s.at .admitted).ncard :=
      State.ncard_left hw (by decide) hadmitted
    refine ⟨?_, ?_⟩
    · show s.spent ≤ s.charged + ((s.move w .idle).at .owing).ncard
      omega
    · show s.spent + ((s.move w .idle).at .admitted).ncard < limit + k
      omega
  | spend w hw =>
    -- the worker was admitted and is owing now: what it spends is matched by what it owes
    have hentered : ((s.move w .owing).at .owing).ncard = (s.at .owing).ncard + 1 :=
      State.ncard_entered (by rw [hw]; decide) howing
    have hleft : ((s.move w .owing).at .admitted).ncard + 1 = (s.at .admitted).ncard :=
      State.ncard_left hw (by decide) hadmitted
    refine ⟨?_, ?_⟩
    · show s.spent + 1 ≤ s.charged + ((s.move w .owing).at .owing).ncard
      omega
    · show s.spent + 1 + ((s.move w .owing).at .admitted).ncard < limit + k
      omega
  | charge w hw =>
    have hleft : ((s.move w .idle).at .owing).ncard + 1 = (s.at .owing).ncard :=
      State.ncard_left hw (by decide) howing
    have hsame : ((s.move w .idle).at .admitted).ncard = (s.at .admitted).ncard :=
      State.ncard_same (by rw [hw]; decide) (by decide)
    refine ⟨?_, ?_⟩
    · show s.spent ≤ s.charged + 1 + ((s.move w .idle).at .owing).ncard
      omega
    · show s.spent + ((s.move w .idle).at .admitted).ncard < limit + k
      omega
  | reset =>
    -- those who were admitted before the reset still spend after it
    refine ⟨Nat.zero_le _, ?_⟩
    have hadm : (s.at .admitted).ncard ≤ k := by omega
    exact Nat.add_lt_add_of_lt_of_le hlimit hadm

end Move

/-- Fewer than `limit + k` units are spent. -/
theorem Within.spent_lt {s : State W} (h : Within limit k s) : s.spent < limit + k :=
  Nat.lt_of_le_of_lt (Nat.le_add_right _ _) h.room

end Quota
