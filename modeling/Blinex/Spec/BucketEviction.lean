import Blinex.ForStd.Run
import Blinex.Spec.LoginRate

/-!
# Idle buckets are evicted unseen

The limiter as it is and one that keeps all its buckets are run side by side. Their buckets
differ as soon as one is evicted, but their levels do not: a bucket goes only when five idle
minutes have filled it, and a key without a bucket starts full.
-/

namespace Blinex.Spec

open Blinex.Native

/-- One call of the limiter that never evicts. -/
def keepStep (r : RateLimiter) (c : AllowCall) : Bool × RateLimiter := allowKeeping r c.key c.now

/-- Both limiters are sound at the time `t`, and every key has the same level in both from
    then on. -/
structure SameLevels (r r' : RateLimiter) (t : ℚ) : Prop where
  evicting : BucketsSound r t
  keeping : BucketsSound r' t
  level : ∀ key t', t ≤ t' → tokenLevel key r t' = tokenLevel key r' t'

/-- The level of a key after a call that left the bucket `b`. -/
private theorem tokenLevel_set (r : RateLimiter) (k key : String) (b : TokenBucket) (t : ℚ) :
    tokenLevel key { r with buckets := r.buckets.set k b } t =
      if k = key then min rlCapacity (b.tokens + (t - seconds b.lastTime) * rlRate)
      else tokenLevel key r t := by
  by_cases hk : k = key
  · subst hk
    simp only [tokenLevel, PMap.set_self, ↓reduceIte]
  · simp only [tokenLevel, PMap.set_ne _ _ (Ne.symm hk), hk, ↓reduceIte]

/-- The same level gives the same answer. -/
theorem SameLevels.answer {r r' : RateLimiter} {t : ℚ} {c : AllowCall} (h : SameLevels r r' t)
    (ht : t ≤ c.time) : (allowStep r c).1 = (keepStep r' c).1 := by
  obtain ⟨-, -, -, -, -, hiff⟩ := allow_spec c.key h.evicting ht
  obtain ⟨-, -, -, -, -, hiff'⟩ := allowKeeping_spec c.key (h.keeping.later ht)
  rw [h.level c.key (seconds c.now) ht, ← hiff'] at hiff
  exact Bool.eq_iff_iff.mpr hiff

/-- A call leaves the two limiters with the same levels. -/
theorem SameLevels.step {r r' : RateLimiter} {t : ℚ} {c : AllowCall} (h : SameLevels r r' t)
    (ht : t ≤ c.time) : SameLevels (allowStep r c).2 (keepStep r' c).2 c.time := by
  have hanswer : (r.allow c.key c.now).1 = (allowKeeping r' c.key c.now).1 := h.answer ht
  have hkeep := h.keeping.later ht
  obtain ⟨b, heq, hlast, hlow, hpaid, -⟩ := allow_spec c.key h.evicting ht
  obtain ⟨b', heq', hlast', hlow', hpaid', -⟩ := allowKeeping_spec c.key hkeep
  -- what is left of the level is the same in both buckets
  have htokens : b.tokens = b'.tokens := by
    rw [h.level c.key (seconds c.now) ht, ← hpaid', hanswer] at hpaid
    exact add_right_cancel hpaid
  refine ⟨allowStep_sound h.evicting ht, ?_, ?_⟩
  · rw [keepStep, heq']
    apply hkeep.set hlow' _ (by rw [hlast']; exact le_refl _)
    have hcap := tokenLevel_le c.key r' (seconds c.now)
    rw [← hpaid'] at hcap
    split at hcap <;> linarith
  · intro key t' ht'
    rw [allowStep, keepStep, heq, heq', tokenLevel_set, tokenLevel_set]
    split
    · rw [htokens, hlast, hlast']
    · -- another key: the eviction did not change its level
      rw [evictIdle_level h.evicting (show seconds c.now ≤ t' from ht') key]
      exact h.level key t' (le_trans ht ht')

/-- **Eviction cannot be observed.** On any calls with times that do not go back, the limiter
    answers every call as it would without the periodic eviction. -/
theorem eviction_unobservable (start : Int) (calls : List AllowCall)
    (hclock : (calls.map AllowCall.now).Pairwise (· ≤ ·)) :
    outputs allowStep (newRateLimiter start) calls =
      outputs keepStep (newRateLimiter start) calls := by
  obtain ⟨t, ht⟩ := exists_start hclock
  have hempty : SameLevels (newRateLimiter start) (newRateLimiter start) t :=
    ⟨newRateLimiter_sound start t, newRateLimiter_sound start t, fun _ _ _ => rfl⟩
  exact outputs_eq_of_sim (fun _ _ _ _ h hle => h.answer hle) (fun _ _ _ _ h hle => h.step hle)
    hempty (times_pairwise hclock) ht

/-- Six calls for one key, one for another after six minutes, which evicts the first bucket,
    and six more for the first key. -/
def evictingCalls : List AllowCall :=
  List.replicate 6 ⟨"10.1.1.1", 0⟩ ++
    [⟨"10.2.2.2", 360000000000⟩] ++ List.replicate 6 ⟨"10.1.1.1", 360000000000⟩

/-- With the bucket or without it, five of the six pass again. -/
theorem evictingCalls_unobservable :
    outputs allowStep (newRateLimiter 0) evictingCalls =
      outputs keepStep (newRateLimiter 0) evictingCalls ∧
    outputs keepStep (newRateLimiter 0) evictingCalls =
      [true, true, true, true, true, false, true, true, true, true, true, true, false] ∧
    (((evictingCalls.take 7).foldl (fun r c => (allowStep r c).2) (newRateLimiter 0)).buckets
      "10.1.1.1").isNone = true ∧
    (((evictingCalls.take 7).foldl (fun r c => (keepStep r c).2) (newRateLimiter 0)).buckets
      "10.1.1.1").isSome = true :=
  ⟨eviction_unobservable 0 evictingCalls (by decide), by decide +kernel, by decide +kernel,
    by decide +kernel⟩

end Blinex.Spec
