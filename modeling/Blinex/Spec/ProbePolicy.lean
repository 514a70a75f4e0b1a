import Mathlib.Data.List.Induction
import Mathlib.Tactic.Common
import Blinex.Native.PeerLink

/-!
# When the probes move traffic onto the direct path and off it

The policy of `probeState.observe` in terms of the history of its ticks: which ticks were
answered, which moved the path, and how long a demotion keeps it on the relay.
-/

namespace Blinex.Spec

open Blinex.Native

/-- One call `observe(pong, now)`. -/
structure Tick where
  pong : Int
  now : Int
deriving DecidableEq

/-- A move of the path, with its time and, for a demotion, the `retryIn` it reports. -/
inductive Switch where
  | promote (time : Int)
  | demote (time retryIn : Int)
deriving DecidableEq

/-- The moves a decision taken at `now` makes. -/
def switchesOf (d : Decision) (now : Int) : List Switch :=
  if d.promote then [.promote now] else if d.demote then [.demote now d.retryIn] else []

/-- The probe state with the moves made so far, newest first. -/
structure ProbeLog where
  st : ProbeState := {}
  switches : List Switch := []
deriving DecidableEq

/-- One tick. -/
def ProbeLog.tick (l : ProbeLog) (t : Tick) : ProbeLog :=
  { st := (l.st.observe t.pong t.now).2
    switches := switchesOf (l.st.observe t.pong t.now).1 t.now ++ l.switches }

/-- The log after a sequence of ticks from `newProbeState`. -/
def probeLog (es : List Tick) : ProbeLog := es.foldl ProbeLog.tick {}

/-- What `observe` decides at `t` after the ticks `es`. -/
def decisionAt (es : List Tick) (t : Tick) : Decision :=
  ((probeLog es).st.observe t.pong t.now).1

/-! ## The policy, in terms of the history -/

/-- The pong value of the previous tick; 0 before the first one. -/
def lastPong (es : List Tick) : Int := (es.getLast?.map Tick.pong).getD 0

/-- After `es`, the tick `t` is answered: a pong that is new and less than 10 s old. -/
def Answered (es : List Tick) (t : Tick) : Prop :=
  t.pong ≠ 0 ∧ t.pong ≠ lastPong es ∧ t.now - t.pong < 10 * 1000000000

/-- Promotions and demotions alternate and the oldest is a promotion (newest first). -/
def Alternating : List Switch → Prop
  | [] => True
  | .promote _ :: rest => (∀ p rest', rest ≠ .promote p :: rest') ∧ Alternating rest
  | .demote _ _ :: rest => (∃ p rest', rest = .promote p :: rest') ∧ Alternating rest

/-- The time and `retryIn` of the latest demotion. -/
def lastDemotion : List Switch → Option (Int × Int)
  | [] => none
  | .promote _ :: rest => lastDemotion rest
  | .demote d r :: _ => some (d, r)

/-- The path was promoted by one of the ticks and every tick since was answered. -/
def DirectSince (es : List Tick) : Prop :=
  ∃ before p since, es = before ++ p :: since ∧ (decisionAt before p).promote = true ∧
    ∀ mid s rest, since = mid ++ s :: rest → Answered (before ++ p :: mid) s

/-- What the policy asks of the decision at `t` after the ticks `es`. -/
structure ProbePolicy (es : List Tick) (t : Tick) : Prop where
  alternating : Alternating (probeLog (es ++ [t])).switches
  promotion : (decisionAt es t).promote = true →
    (∃ es' a b, es = es' ++ [a, b] ∧ Answered es' a ∧ Answered (es' ++ [a]) b) ∧
    Answered es t ∧
    ∀ d r, lastDemotion (probeLog es).switches = some (d, r) → d + r < t.now
  -- one probe without an answer is enough
  demotion : (decisionAt es t).demote = true ↔ DirectSince es ∧ ¬ Answered es t
  firstRetry : (decisionAt es t).demote = true → lastDemotion (probeLog es).switches = none →
    (decisionAt es t).retryIn = 15 * 1000000000
  stableRetry : ∀ p rest, (decisionAt es t).demote = true →
    (probeLog es).switches = .promote p :: rest → 2 * 60 * 1000000000 ≤ t.now - p →
    (decisionAt es t).retryIn = 15 * 1000000000
  otherRetry : ∀ p rest d r, (decisionAt es t).demote = true →
    (probeLog es).switches = .promote p :: rest → t.now - p < 2 * 60 * 1000000000 →
    lastDemotion rest = some (d, r) →
    (decisionAt es t).retryIn = min (2 * r) (5 * 60 * 1000000000)
  retryRange : (decisionAt es t).demote = true →
    15 * 1000000000 ≤ (decisionAt es t).retryIn ∧
    (decisionAt es t).retryIn ≤ 5 * 60 * 1000000000

/-! ## One tick -/

private theorem probeLog_concat (es : List Tick) (t : Tick) :
    probeLog (es ++ [t]) = (probeLog es).tick t := by
  simp [probeLog]

/-- The state remembers the answer of the last tick. -/
private theorem seenPong_probeLog (es : List Tick) : (probeLog es).st.seenPong = lastPong es := by
  rcases List.eq_nil_or_concat' es with rfl | ⟨es', t, rfl⟩
  · rfl
  · simp [probeLog_concat, ProbeLog.tick, lastPong]

private theorem answered_iff (es : List Tick) (t : Tick) :
    (probeLog es).st.answered t.pong t.now = true ↔ Answered es t := by
  simp only [ProbeState.answered, seenPong_probeLog, Bool.and_eq_true, decide_eq_true_eq, and_assoc]
  rfl

private theorem not_answered_iff (es : List Tick) (t : Tick) :
    (probeLog es).st.answered t.pong t.now = false ↔ ¬ Answered es t := by
  rw [← answered_iff, Bool.not_eq_true]

/-- A streak of `n + 1` ends with an answered tick after a streak of `n`. -/
private theorem succ_le_good_iff (es : List Tick) (t : Tick) (n : Nat) :
    n + 1 ≤ (probeLog es).st.good t.pong t.now ↔
      Answered es t ∧ n ≤ (probeLog es).st.consecutiveGood := by
  unfold ProbeState.good
  split
  · rename_i hans
    simp [(answered_iff es t).mp hans]
  · rename_i hans
    simp [mt (answered_iff es t).mpr hans]

/-- The answers that are counted are those of the last ticks. -/
private theorem succ_le_consecutiveGood {es : List Tick} {n : Nat}
    (h : n + 1 ≤ (probeLog es).st.consecutiveGood) :
    ∃ es' t, es = es' ++ [t] ∧ Answered es' t ∧ n ≤ (probeLog es').st.consecutiveGood := by
  rcases List.eq_nil_or_concat' es with rfl | ⟨es', t, rfl⟩
  · simp [probeLog] at h
  · simp only [probeLog_concat, ProbeLog.tick, ProbeState.observe_consecutiveGood] at h
    exact ⟨es', t, rfl, (succ_le_good_iff es' t n).mp h⟩

/-! ## What the state remembers of the history -/

/-- The state of the probes read off the moves made so far, none of them after `now`. -/
structure ProbeInv (l : ProbeLog) (now : Int) : Prop where
  alternating : Alternating l.switches
  direct : l.st.direct = true ↔ ∃ p rest, l.switches = .promote p :: rest
  promoted : ∀ p rest, l.switches = .promote p :: rest →
    l.st.promotedAt = p ∧ zeroTime < p ∧ p ≤ now
  undemoted : lastDemotion l.switches = none →
    l.st.backoff = minUpgradeBackoff ∧ l.st.nextUpgrade = zeroTime
  demoted : ∀ d r, lastDemotion l.switches = some (d, r) →
    l.st.backoff = min (r * 2) maxUpgradeBackoff ∧ l.st.nextUpgrade = d + r ∧
    zeroTime < d ∧ minUpgradeBackoff ≤ r ∧ r ≤ maxUpgradeBackoff

variable {l : ProbeLog} {now : Int} {t : Tick}

/-- Time that passes does no harm. -/
theorem ProbeInv.mono {now' : Int} (h : ProbeInv l now) (hle : now ≤ now') :
    ProbeInv l now' := by
  refine ⟨h.alternating, h.direct, ?_, h.undemoted, h.demoted⟩
  intro p rest hp
  obtain ⟨hat, hpos, hle'⟩ := h.promoted p rest hp
  exact ⟨hat, hpos, by omega⟩

/-- The time of the next promotion is never before the zero time. -/
private theorem ProbeInv.zeroTime_le_nextUpgrade (h : ProbeInv l now) :
    zeroTime ≤ l.st.nextUpgrade := by
  cases hd : lastDemotion l.switches with
  | none => exact Int.le_of_eq (h.undemoted hd).2.symm
  | some dr =>
    obtain ⟨-, hnext, hpos, hmin, -⟩ := h.demoted dr.1 dr.2 hd
    simp only [minUpgradeBackoff] at hmin
    omega

/-- The backoff in force is the shortest one or the one after the last demotion's. -/
private theorem ProbeInv.backoff_range (h : ProbeInv l now) :
    minUpgradeBackoff ≤ l.st.backoff ∧ l.st.backoff ≤ maxUpgradeBackoff := by
  cases hd : lastDemotion l.switches with
  | none =>
    rw [(h.undemoted hd).1]
    decide
  | some dr =>
    obtain ⟨hb, -, -, hmin, -⟩ := h.demoted dr.1 dr.2 hd
    simp only [minUpgradeBackoff, maxUpgradeBackoff] at hmin hb ⊢
    omega

/-- A path promoted at `p` is sent back for the shortest time once it was stable for two
    minutes, and for the backoff in force otherwise. -/
private theorem ProbeInv.retryBackoff_eq (h : ProbeInv l now) {p : Int} {rest : List Switch}
    (hp : l.switches = .promote p :: rest) (n : Int) :
    l.st.retryBackoff n =
      if backoffResetAfter ≤ n - p then minUpgradeBackoff else l.st.backoff := by
  obtain ⟨hat, hpos, -⟩ := h.promoted p rest hp
  have hne : p ≠ zeroTime := by omega
  simp [ProbeState.retryBackoff, hat, hne]

/-- The wait after a demotion is within its bounds. -/
private theorem ProbeInv.retryBackoff_range (h : ProbeInv l now) (n : Int) :
    minUpgradeBackoff ≤ l.st.retryBackoff n ∧ l.st.retryBackoff n ≤ maxUpgradeBackoff := by
  unfold ProbeState.retryBackoff
  split
  · decide
  · exact h.backoff_range

/-! ## The invariant over a run -/

/-- At the start nothing has switched. -/
private theorem probeInv_init (now : Int) : ProbeInv {} now where
  alternating := trivial
  direct := by simp
  promoted := by simp
  undemoted := fun _ => ⟨rfl, rfl⟩
  demoted := by simp [lastDemotion]

/-- A promotion follows a demotion, or is the first switch. -/
private theorem ProbeInv.step_promote (h : ProbeInv l now) (hd : l.st.direct = false)
    (hg : upgradeThreshold ≤ l.st.good t.pong t.now) (hn : l.st.nextUpgrade < t.now) :
    ProbeInv (l.tick t) t.now := by
  have hrelay : ∀ p rest, l.switches ≠ .promote p :: rest := by
    intro p rest hp
    rw [h.direct.mpr ⟨p, rest, hp⟩] at hd
    exact Bool.noConfusion hd
  -- so the promotion is later than the zero time, which `observe` reads as never promoted
  have hz := h.zeroTime_le_nextUpgrade
  simp only [ProbeLog.tick, ProbeState.observe_promote hd hg hn, switchesOf, ↓reduceIte,
    List.singleton_append]
  refine ⟨⟨hrelay, h.alternating⟩, by simp, ?_, h.undemoted, h.demoted⟩
  intro p rest hp
  obtain ⟨hp, -⟩ := List.cons.inj hp
  rw [← Switch.promote.inj hp]
  exact ⟨rfl, by omega, Int.le_refl _⟩

/-- A demotion follows a promotion. -/
private theorem ProbeInv.step_demote (h : ProbeInv l now) (hle : now ≤ t.now)
    (hd : l.st.direct = true)
    (ha : l.st.answered t.pong t.now = false) : ProbeInv (l.tick t) t.now := by
  obtain ⟨p, rest, hp⟩ := h.direct.mp hd
  obtain ⟨-, hpos, hpn⟩ := h.promoted p rest hp
  have hrange := h.retryBackoff_range t.now
  simp only [ProbeLog.tick, ProbeState.observe_demote hd ha, switchesOf, Bool.false_eq_true,
    ↓reduceIte, List.singleton_append]
  refine ⟨⟨⟨p, rest, hp⟩, h.alternating⟩, by simp, by simp, by simp [lastDemotion], ?_⟩
  intro d r hdr
  obtain ⟨rfl, rfl⟩ := Prod.mk.inj (Option.some.inj hdr)
  exact ⟨rfl, rfl, by omega, hrange.1, hrange.2⟩

/-- A tick that moves nothing only counts. -/
private theorem ProbeInv.step_quiet (h : ProbeInv l now) (hle : now ≤ t.now)
    (hq : l.st.observe t.pong t.now =
      ({}, { l.st with seenPong := t.pong, consecutiveGood := l.st.good t.pong t.now })) :
    ProbeInv (l.tick t) t.now := by
  obtain ⟨halt, hdir, hprom, hund, hdem⟩ := h.mono hle
  simp only [ProbeLog.tick, hq, switchesOf, Bool.false_eq_true, ↓reduceIte, List.nil_append]
  exact ⟨halt, hdir, hprom, hund, hdem⟩

/-- Every tick keeps the invariant. -/
theorem ProbeInv.step (h : ProbeInv l now) (hle : now ≤ t.now) : ProbeInv (l.tick t) t.now := by
  rcases l.st.observe_cases t.pong t.now with ⟨hd, ha⟩ | ⟨hd, ha⟩ | ⟨hd, hg, hn⟩ | ⟨hd, hw⟩
  · exact h.step_quiet hle (ProbeState.observe_stay hd ha)
  · exact h.step_demote hle hd ha
  · exact h.step_promote hd hg hn
  · exact h.step_quiet hle (ProbeState.observe_wait hd hw)

/-- The calls come with times that never go back. -/
def TimesOrdered (es : List Tick) : Prop := (es.map Tick.now).Pairwise (· ≤ ·)

instance (es : List Tick) : Decidable (TimesOrdered es) :=
  inferInstanceAs (Decidable (List.Pairwise _ _))

/-- One more tick is in order if it is the latest. -/
private theorem timesOrdered_concat {es : List Tick} :
    TimesOrdered (es ++ [t]) ↔ TimesOrdered es ∧ ∀ e ∈ es, e.now ≤ t.now := by
  simp [TimesOrdered, List.pairwise_append]

/-- The invariant after every run. -/
private theorem probeInv_run {es : List Tick} (hes : TimesOrdered es)
    (hnow : ∀ e ∈ es, e.now ≤ now) :
    ProbeInv (probeLog es) now := by
  -- from the last tick backwards: its time bounds those of the ticks before it
  induction es using List.reverseRecOn generalizing now with
  | nil => exact probeInv_init now
  | append_singleton es t ih =>
    obtain ⟨hes', hle⟩ := timesOrdered_concat.mp hes
    rw [probeLog_concat]
    exact ((ih hes' hle).step (Int.le_refl _)).mono (hnow t (by simp))

/-! ## Direct since a promotion -/

/-- All ticks since are answered if all but the last are, and the last is. -/
private theorem answers_concat {before since : List Tick} {p : Tick} :
    (∀ mid s rest, since ++ [t] = mid ++ s :: rest → Answered (before ++ p :: mid) s) ↔
      (∀ mid s rest, since = mid ++ s :: rest → Answered (before ++ p :: mid) s) ∧
        Answered (before ++ p :: since) t := by
  constructor
  · intro h
    exact ⟨fun mid s rest hs => h mid s (rest ++ [t]) (by simp [hs]), h since t [] rfl⟩
  · rintro ⟨hold, hnew⟩ mid s rest hs
    -- the tick is the last one, or one of those before it
    rcases List.eq_nil_or_concat' rest with rfl | ⟨rest', x, rfl⟩
    · obtain ⟨rfl, ht⟩ := List.append_inj' hs rfl
      rw [← (List.cons.inj ht).1]
      exact hnew
    · rw [← List.cons_append, ← List.append_assoc] at hs
      exact hold mid s rest' (List.append_inj' hs rfl).1

/-- The path is direct after a promotion, and stays so while there are answers. -/
private theorem directSince_concat {es : List Tick} :
    DirectSince (es ++ [t]) ↔
      (decisionAt es t).promote = true ∨ (DirectSince es ∧ Answered es t) := by
  constructor
  · rintro ⟨before, p, since, hes, hp, hans⟩
    -- the promotion is the last tick, or lies before it
    rcases List.eq_nil_or_concat' since with rfl | ⟨since', s, rfl⟩
    · obtain ⟨rfl, ht⟩ := List.append_inj' hes rfl
      rw [(List.cons.inj ht).1]
      exact .inl hp
    · rw [← List.cons_append, ← List.append_assoc] at hes
      obtain ⟨rfl, ht⟩ := List.append_inj' hes rfl
      obtain ⟨hold, hnew⟩ := answers_concat.mp hans
      rw [(List.cons.inj ht).1]
      exact .inr ⟨⟨before, p, since', rfl, hp, hold⟩, hnew⟩
  · rintro (hp | ⟨⟨before, p, since, rfl, hp, hans⟩, ht⟩)
    · exact ⟨es, t, [], rfl, hp, by simp⟩
    · exact ⟨before, p, since ++ [t], by simp, hp, answers_concat.mpr ⟨hans, ht⟩⟩

/-- The flag `direct` means what its name says. -/
private theorem direct_iff_directSince (es : List Tick) :
    (probeLog es).st.direct = true ↔ DirectSince es := by
  induction es using List.reverseRecOn with
  | nil => simp [probeLog, DirectSince]
  | append_singleton es t ih =>
    rw [directSince_concat, ← ih, ← answered_iff, probeLog_concat]
    exact ProbeState.observe_direct_iff

/-! ## The policy -/

/-- A promotion comes with the third answer in a row. -/
private theorem promotion_after_three {es : List Tick} (hp : (decisionAt es t).promote = true) :
    (∃ es' a b, es = es' ++ [a, b] ∧ Answered es' a ∧ Answered (es' ++ [a]) b) ∧
      Answered es t := by
  -- the streak of three, taken apart from its end
  obtain ⟨-, hgood, -⟩ := ProbeState.observe_promotes_iff.mp hp
  obtain ⟨ht, htwo⟩ := (succ_le_good_iff es t 2).mp hgood
  obtain ⟨es₁, b, rfl, hb, hone⟩ := succ_le_consecutiveGood htwo
  obtain ⟨es₂, a, rfl, ha, -⟩ := succ_le_consecutiveGood hone
  exact ⟨⟨es₂, a, b, by simp, ha, hb⟩, ht⟩

/-- A demotion comes with the first probe that is not answered. -/
private theorem demotion_iff (es : List Tick) (t : Tick) :
    (decisionAt es t).demote = true ↔ DirectSince es ∧ ¬ Answered es t := by
  rw [← direct_iff_directSince, ← not_answered_iff]
  exact ProbeState.observe_demotes_iff

/-- A demotion finds the promotion it undoes on top of the moves. -/
private theorem ProbeInv.promote_on_top {es : List Tick} (h : ProbeInv (probeLog es) now)
    (hd : (decisionAt es t).demote = true) :
    ∃ p rest, (probeLog es).switches = .promote p :: rest :=
  h.direct.mp (ProbeState.observe_demotes_iff.mp hd).1

/-- Whatever pongs are observed at whatever times, as long as the times do not go back,
    every tick follows the policy. -/
theorem observe_follows_policy (es : List Tick) (t : Tick) (hes : TimesOrdered (es ++ [t])) :
    ProbePolicy es t := by
  obtain ⟨hes', hle⟩ := timesOrdered_concat.mp hes
  have hinv : ProbeInv (probeLog es) t.now := probeInv_run hes' hle
  refine ⟨?_, ?_, demotion_iff es t, ?_, ?_, ?_, ?_⟩
  · rw [probeLog_concat]
    exact (hinv.step (Int.le_refl _)).alternating
  · intro hp
    obtain ⟨hearlier, ht⟩ := promotion_after_three hp
    refine ⟨hearlier, ht, ?_⟩
    intro d r hdr
    rw [← (hinv.demoted d r hdr).2.1]
    exact (ProbeState.observe_promotes_iff.mp hp).2.2
  · -- without a demotion so far, the wait is the shortest one either way
    intro hd hnone
    obtain ⟨p, rest, hp⟩ := hinv.promote_on_top hd
    rw [decisionAt, ProbeState.observe_retryIn hd, hinv.retryBackoff_eq hp,
      (hinv.undemoted hnone).1, ite_self]
    rfl
  · intro p rest hd hp hlong
    rw [decisionAt, ProbeState.observe_retryIn hd, hinv.retryBackoff_eq hp]
    exact if_pos hlong
  · -- the path did not last, so the wait doubles
    intro p rest d r hd hp hshort hdr
    have hlast : lastDemotion (probeLog es).switches = some (d, r) := by
      rw [hp]
      exact hdr
    have hreset : ¬ backoffResetAfter ≤ t.now - p := by
      simp only [backoffResetAfter]
      omega
    rw [decisionAt, ProbeState.observe_retryIn hd, hinv.retryBackoff_eq hp, if_neg hreset,
      (hinv.demoted d r hlast).1, Int.mul_comm]
    rfl
  · intro hd
    rw [decisionAt, ProbeState.observe_retryIn hd]
    exact hinv.retryBackoff_range t.now

/-- Three answered ticks, a missed one, three answered again until the 15 s are over. -/
def flappingRun : List Tick :=
  [⟨1, 3000000000⟩, ⟨4000000000, 6000000000⟩, ⟨7000000000, 9000000000⟩,
    ⟨7000000000, 12000000000⟩, ⟨20000000000, 21000000000⟩, ⟨23000000000, 24000000000⟩,
    ⟨26000000000, 28000000000⟩]

/-- The miss after the second promotion costs 30 s. -/
theorem flappingRun_follows_policy :
    TimesOrdered (flappingRun ++ [⟨26000000000, 31000000000⟩]) ∧
    (probeLog (flappingRun ++ [⟨26000000000, 31000000000⟩])).switches =
      [.demote 31000000000 30000000000, .promote 28000000000,
        .demote 12000000000 15000000000, .promote 9000000000] ∧
    ProbePolicy flappingRun ⟨26000000000, 31000000000⟩ :=
  ⟨by decide, by decide, observe_follows_policy flappingRun _ (by decide)⟩

end Blinex.Spec
