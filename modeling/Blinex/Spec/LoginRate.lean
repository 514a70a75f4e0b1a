import Mathlib.Tactic.NormNum
import Blinex.ForStd.Metered
import Blinex.Native.RateLimit

/-!
# How many logins a source address gets through

The tokens of a key, refilled up to the present, are a level in the sense of `Metered`: a
granted call takes one. A key without a bucket has the full capacity; so has one whose bucket
is evicted, because in the five idle minutes before that it was refilled to the brim.
-/

namespace Blinex.Spec

open Blinex.Native

/-- A call of `Allow`. -/
structure AllowCall where
  key : String
  now : Int
deriving DecidableEq

/-- One call. -/
def allowStep (r : RateLimiter) (c : AllowCall) : Bool × RateLimiter := r.allow c.key c.now

/-- The time of a call, in seconds. -/
def AllowCall.time (c : AllowCall) : ℚ := seconds c.now

/-- How many calls for `key` with times from `a` to `a + T` return true. -/
def allowedIn (r : RateLimiter) (calls : List AllowCall) (key : String) (a T : ℚ) : Nat :=
  Metered.grantedIn allowStep AllowCall.time (fun c => c.key = key) a (a + T) r calls

/-- The tokens that a call for the key would find at the time `t`. -/
def tokenLevel (key : String) (r : RateLimiter) (t : ℚ) : ℚ :=
  match r.buckets key with
  | none => rlCapacity
  | some b => min rlCapacity (b.tokens + (t - seconds b.lastTime) * rlRate)

/-- The buckets hold between nothing and the capacity, and are not from the future. -/
def BucketsSound (r : RateLimiter) (t : ℚ) : Prop :=
  ∀ key b, r.buckets key = some b → 0 ≤ b.tokens ∧ b.tokens ≤ rlCapacity ∧ seconds b.lastTime ≤ t

private theorem seconds_sub (a b : Int) : seconds (a - b) = seconds a - seconds b := by
  simp only [seconds, Int.cast_sub, sub_div]

private theorem seconds_le {a b : Int} (h : a ≤ b) : seconds a ≤ seconds b := by
  unfold seconds
  have hcast : (a : ℚ) ≤ b := Int.cast_le.mpr h
  linarith

/-! ## One bucket -/

/-- A refill adds the rate over the time that passed, up to the capacity. -/
private theorem refill_tokens (b : TokenBucket) (now : Int) :
    (RateLimiter.refill b now).tokens =
      min rlCapacity (b.tokens + (seconds now - seconds b.lastTime) * rlRate) := by
  rw [← seconds_sub]
  simp only [RateLimiter.refill]
  split
  · rename_i hover
    rw [min_eq_left (le_of_lt hover)]
  · rename_i hunder
    rw [min_eq_right (not_lt.mp hunder)]

/-- Refilled tokens are not negative and at most the capacity. -/
private theorem refill_sound {b : TokenBucket} {now : Int} (htokens : 0 ≤ b.tokens)
    (hlast : seconds b.lastTime ≤ seconds now) :
    0 ≤ (RateLimiter.refill b now).tokens ∧ (RateLimiter.refill b now).tokens ≤ rlCapacity := by
  have hrate : (0 : ℚ) ≤ (seconds now - seconds b.lastTime) * rlRate := by
    unfold rlRate
    linarith
  rw [refill_tokens]
  refine ⟨le_min ?_ ?_, min_le_left _ _⟩
  · norm_num [rlCapacity]
  · linarith

/-! ## Eviction -/

/-- What is left of a bucket after the eviction: itself, or nothing if it was full again. -/
private theorem evictIdle_buckets (r : RateLimiter) (now : Int) (key : String) :
    (r.evictIdle now).buckets key = r.buckets key ∨
      (r.evictIdle now).buckets key = none ∧
        ∀ b, r.buckets key = some b → 300 < seconds now - seconds b.lastTime := by
  unfold RateLimiter.evictIdle
  split
  · cases hb : r.buckets key with
    | none => exact .inl (by simp [hb])
    | some b =>
      -- a bucket goes when it was idle for five minutes
      by_cases hidle : 5 * 60 * 1000000000 < now - b.lastTime
      · right
        refine ⟨by simp only [hb, Option.filter_some, hidle, not_true_eq_false, decide_false,
          Bool.false_eq_true, ↓reduceIte], ?_⟩
        intro b' hb'
        obtain rfl := Option.some.inj hb'
        have hcast : ((5 * 60 * 1000000000 : Int) : ℚ) < ((now - b.lastTime : Int) : ℚ) :=
          Int.cast_lt.mpr hidle
        rw [← seconds_sub]
        unfold seconds
        push_cast at hcast ⊢
        linarith
      · left
        simp only [hb, Option.filter_some, hidle, not_false_eq_true, decide_true, ↓reduceIte]
  · exact .inl rfl

/-- Eviction changes no level: a bucket that old is full again. -/
theorem evictIdle_level {r : RateLimiter} {t t' : ℚ} {now : Int} (h : BucketsSound r t)
    (ht' : seconds now ≤ t') (key : String) :
    tokenLevel key (r.evictIdle now) t' = tokenLevel key r t' := by
  rcases evictIdle_buckets r now key with hsame | ⟨hnone, hidle⟩
  · simp only [tokenLevel, hsame]
  · cases hb : r.buckets key with
    | none => simp only [tokenLevel, hnone, hb]
    | some b =>
      -- five minutes at the rate fill the bucket
      have htokens := (h key b hb).1
      have hlong := hidle b hb
      simp only [tokenLevel, hnone, hb]
      rw [min_eq_left]
      unfold rlCapacity rlRate
      linarith

/-- The buckets that stay are sound. -/
private theorem evictIdle_sound {r : RateLimiter} {t : ℚ} {now : Int} (h : BucketsSound r t) :
    BucketsSound (r.evictIdle now) t := by
  intro key b hb
  rcases evictIdle_buckets r now key with hsame | ⟨hnone, -⟩
  · exact h key b (hsame ▸ hb)
  · rw [hnone] at hb
    cases hb

/-! ## One call -/

theorem BucketsSound.later {r : RateLimiter} {t t' : ℚ} (h : BucketsSound r t) (hle : t ≤ t') :
    BucketsSound r t' := by
  intro key b hb
  obtain ⟨hlow, hhigh, hlast⟩ := h key b hb
  exact ⟨hlow, hhigh, by linarith⟩

/-- Storing one more sound bucket. -/
theorem BucketsSound.set {r : RateLimiter} {t : ℚ} {key : String} {b : TokenBucket}
    (h : BucketsSound r t) (hlow : 0 ≤ b.tokens) (hhigh : b.tokens ≤ rlCapacity)
    (hlast : seconds b.lastTime ≤ t) :
    BucketsSound { r with buckets := r.buckets.set key b } t := by
  intro key' b' hb'
  rcases PMap.set_eq_some _ hb' with ⟨-, rfl⟩ | ⟨-, hold⟩
  · exact ⟨hlow, hhigh, hlast⟩
  · exact h key' b' hold

/-- `Allow` without the eviction at its start. -/
def allowKeeping (r : RateLimiter) (key : String) (now : Int) : Bool × RateLimiter :=
  match r.buckets key with
  | none =>
    let b := { tokens := rlCapacity - 1, lastTime := now }
    (true, { r with buckets := r.buckets.set key b })
  | some b =>
    let b := RateLimiter.refill b now
    if b.tokens < 1 then (false, { r with buckets := r.buckets.set key b })
    else (true, { r with buckets := r.buckets.set key { b with tokens := b.tokens - 1 } })

/-- A call evicts and then answers from what was kept. -/
private theorem allow_eq_allowKeeping (r : RateLimiter) (key : String) (now : Int) :
    r.allow key now = allowKeeping (r.evictIdle now) key now := rfl

/-- A call is granted when its key has a token, and takes it from the level. -/
theorem allowKeeping_spec {r : RateLimiter} {now : Int} (key : String)
    (h : BucketsSound r (seconds now)) :
    ∃ b, (allowKeeping r key now).2 = { r with buckets := r.buckets.set key b } ∧
      b.lastTime = now ∧ 0 ≤ b.tokens ∧
      b.tokens + (if (allowKeeping r key now).1 then 1 else 0) = tokenLevel key r (seconds now) ∧
      ((allowKeeping r key now).1 = true ↔ 1 ≤ tokenLevel key r (seconds now)) := by
  rcases Option.eq_none_or_eq_some (r.buckets key) with hb | ⟨b, hb⟩
  · simp only [allowKeeping, tokenLevel, hb]
    -- a new bucket: the capacity, less the token of this call
    refine ⟨_, rfl, rfl, ?_, ?_, ?_⟩
    · norm_num [rlCapacity]
    · simp only [↓reduceIte]
      ring
    · norm_num [rlCapacity]
  · obtain ⟨hlow, -, hlast⟩ := h key b hb
    simp only [allowKeeping, tokenLevel, hb, ← refill_tokens]
    by_cases hone : (RateLimiter.refill b now).tokens < 1
    · simp only [hone, ↓reduceIte]
      refine ⟨_, rfl, rfl, (refill_sound hlow hlast).1, ?_, ?_⟩
      · simp only [Bool.false_eq_true, ↓reduceIte, add_zero]
      · simp only [Bool.false_eq_true, false_iff, not_le, hone]
    · simp only [hone, ↓reduceIte]
      have hone' : 1 ≤ (RateLimiter.refill b now).tokens := not_lt.mp hone
      refine ⟨_, rfl, rfl, ?_, ?_, ?_⟩
      · show 0 ≤ (RateLimiter.refill b now).tokens - 1
        linarith
      · show (RateLimiter.refill b now).tokens - 1 + 1 = _
        ring
      · simp only [hone']

/-- Every call evicts, and takes what it grants from the level of its key. -/
theorem allow_spec {r : RateLimiter} {now : Int} {t : ℚ} (key : String) (h : BucketsSound r t)
    (ht : t ≤ seconds now) :
    ∃ b, (r.allow key now).2 =
        { r.evictIdle now with buckets := (r.evictIdle now).buckets.set key b } ∧
      b.lastTime = now ∧ 0 ≤ b.tokens ∧
      b.tokens + (if (r.allow key now).1 then 1 else 0) = tokenLevel key r (seconds now) ∧
      ((r.allow key now).1 = true ↔ 1 ≤ tokenLevel key r (seconds now)) := by
  have hevict : BucketsSound (r.evictIdle now) (seconds now) := (evictIdle_sound h).later ht
  rw [← evictIdle_level h (le_refl _) key, allow_eq_allowKeeping]
  exact allowKeeping_spec key hevict

/-- A level is at most the capacity. -/
theorem tokenLevel_le (key : String) (r : RateLimiter) (t : ℚ) :
    tokenLevel key r t ≤ rlCapacity := by
  unfold tokenLevel
  split
  · exact le_refl _
  · exact min_le_left _ _

/-- A level is not negative. -/
private theorem tokenLevel_nonneg {key : String} {r : RateLimiter} {t : ℚ} (h : BucketsSound r t) :
    0 ≤ tokenLevel key r t := by
  unfold tokenLevel
  split
  · norm_num [rlCapacity]
  · rename_i b hb
    obtain ⟨hlow, -, hlast⟩ := h key b hb
    refine le_min (by norm_num [rlCapacity]) ?_
    unfold rlRate
    linarith

/-- A token takes twelve seconds. -/
private theorem tokenLevel_grows {key : String} {r : RateLimiter} {t t' : ℚ} (hle : t ≤ t') :
    tokenLevel key r t' ≤ tokenLevel key r t + rlRate * (t' - t) := by
  have hgrowth : 0 ≤ rlRate * (t' - t) := by
    unfold rlRate
    linarith
  unfold tokenLevel
  split
  · linarith
  · rename_i b hb
    rw [← min_add_add_right]
    refine min_le_min (by linarith) ?_
    linarith

/-- A call keeps the buckets sound. -/
theorem allowStep_sound {r : RateLimiter} {c : AllowCall} {t : ℚ} (h : BucketsSound r t)
    (ht : t ≤ c.time) : BucketsSound (allowStep r c).2 c.time := by
  obtain ⟨b, heq, hlast, hlow, hpaid, -⟩ := allow_spec c.key h ht
  have hlevel := tokenLevel_le c.key r (seconds c.now)
  rw [allowStep, heq]
  apply ((evictIdle_sound h).later ht).set hlow
  · split at hpaid <;> linarith
  · rw [hlast]
    exact le_refl _

/-- A call that is allowed pays with one token of its key, and no other key pays. -/
private theorem allowStep_pays {key : String} {r : RateLimiter} {c : AllowCall} {t : ℚ}
    (h : BucketsSound r t) (ht : t ≤ c.time) :
    tokenLevel key (allowStep r c).2 c.time +
        (if (allowStep r c).1 && decide (c.key = key) then 1 else 0) ≤
      tokenLevel key r c.time := by
  obtain ⟨b, heq, hlast, hlow, hpaid, -⟩ := allow_spec c.key h ht
  rw [allowStep, heq]
  by_cases hkey : c.key = key
  · subst hkey
    -- the bucket was touched at this time, so its level is at most what it holds
    have hafter : tokenLevel c.key
        { r.evictIdle c.now with buckets := (r.evictIdle c.now).buckets.set c.key b } c.time ≤
          b.tokens := by
      simp only [tokenLevel, PMap.set_self, AllowCall.time, hlast, sub_self, zero_mul, add_zero]
      exact min_le_right _ _
    simp only [decide_true, Bool.and_true]
    rw [show tokenLevel c.key r c.time = _ from hpaid.symm]
    linarith
  · -- another key has the bucket it had, or had a full one evicted
    have hother : tokenLevel key
        { r.evictIdle c.now with buckets := (r.evictIdle c.now).buckets.set c.key b } c.time =
          tokenLevel key (r.evictIdle c.now) c.time := by
      simp only [tokenLevel, PMap.set_ne _ _ (Ne.symm hkey)]
    rw [hother, show tokenLevel key (r.evictIdle c.now) c.time = _ from
      evictIdle_level h (le_refl _) key]
    simp [hkey, AllowCall.time]

/-! ## Any window -/

theorem newRateLimiter_sound (start : Int) (t : ℚ) : BucketsSound (newRateLimiter start) t := by
  intro key b hb
  cases hb

/-- The times of the calls are in order if the clock is. -/
theorem times_pairwise {calls : List AllowCall}
    (hclock : (calls.map AllowCall.now).Pairwise (· ≤ ·)) :
    (calls.map AllowCall.time).Pairwise (· ≤ ·) := by
  rw [List.pairwise_map] at hclock ⊢
  exact hclock.imp fun hle => seconds_le hle

/-- A run starts with its first call. -/
theorem exists_start {calls : List AllowCall}
    (hclock : (calls.map AllowCall.now).Pairwise (· ≤ ·)) :
    ∃ t : ℚ, ∀ c ∈ calls, t ≤ c.time := by
  have htimes := times_pairwise hclock
  cases calls with
  | nil => exact ⟨0, fun c hc => absurd hc List.not_mem_nil⟩
  | cons c calls =>
    refine ⟨c.time, fun c' hc' => ?_⟩
    rcases List.mem_cons.mp hc' with rfl | hc'
    · exact le_refl _
    · exact (List.pairwise_cons.mp htimes).1 _ (List.mem_map_of_mem hc')

/-- The limiter is a meter of each key. -/
private theorem allow_metered (key : String) :
    Metered allowStep AllowCall.time (fun c => c.key = key) BucketsSound (tokenLevel key)
      rlCapacity rlRate where
  rate_nonneg := by norm_num [rlRate]
  later := fun _ _ _ h hle => h.later hle
  keeps := fun _ _ _ h ht => allowStep_sound h ht
  nonneg := fun _ _ h => tokenLevel_nonneg h
  le_cap := fun r t _ => tokenLevel_le key r t
  grows := fun _ _ _ _ hle => tokenLevel_grows hle
  pays := fun _ _ _ h ht => allowStep_pays h ht

/-- **Login rate bound.** Over any calls with times that do not go back, in every window of
    `T` seconds at most `5 + T / 12` calls for a key return true. -/
theorem login_rate_bound (start : Int) (calls : List AllowCall)
    (hclock : (calls.map AllowCall.now).Pairwise (· ≤ ·)) (key : String) (a T : ℚ) (hT : 0 ≤ T) :
    (allowedIn (newRateLimiter start) calls key a T : ℚ) ≤ 5 + T / 12 := by
  obtain ⟨t, ht⟩ := exists_start hclock
  have hbound := (allow_metered key).window_bound (newRateLimiter_sound start t)
    (times_pairwise hclock) ht (show a ≤ a + T by linarith)
  calc (allowedIn (newRateLimiter start) calls key a T : ℚ)
      ≤ rlCapacity + rlRate * (a + T - a) := hbound
    _ = 5 + T / 12 := by
      unfold rlCapacity rlRate
      ring

/-- Six calls at once and one twelve seconds later: five of the six pass, and the last. -/
theorem login_rate_bound_tight :
    let calls := List.replicate 6 ⟨"10.1.1.1", 0⟩ ++ [⟨"10.1.1.1", 12000000000⟩]
    allowedIn (newRateLimiter 0) calls "10.1.1.1" 0 12 = 6 ∧
      (allowedIn (newRateLimiter 0) calls "10.1.1.1" 0 12 : ℚ) ≤ 5 + 12 / 12 :=
  ⟨by decide +kernel, login_rate_bound 0 _ (by decide) "10.1.1.1" 0 12 (by norm_num)⟩

end Blinex.Spec
