import Mathlib.Algebra.Order.Ring.Rat
import Mathlib.Tactic.Linarith
import Mathlib.Tactic.Ring

/-!
# Metered machines

A machine that grants or refuses its inputs is metered if it has a level which is never
negative and never above a capacity, which grows in time with a bounded rate, and from which
every counted grant takes one. Then in no window of time can it grant more than the capacity
and what grows in the window (`Metered.window_bound`), whatever came before.
-/

variable {σ ι : Type*}

/-- The inputs of a run that are granted, in order. -/
def granted (step : σ → ι → Bool × σ) : σ → List ι → List ι
  | _, [] => []
  | s, e :: es => (if (step s e).1 then [e] else []) ++ granted step (step s e).2 es

/-- `level s t` bounds what the machine can still grant of the inputs with `counts` in the
    state `s` at the time `t`. `Inv s t` says that `s` is a state the machine can be in at
    `t`. -/
structure Metered (step : σ → ι → Bool × σ) (time : ι → ℚ) (counts : ι → Bool)
    (Inv : σ → ℚ → Prop) (level : σ → ℚ → ℚ) (cap rate : ℚ) : Prop where
  rate_nonneg : 0 ≤ rate
  later : ∀ s t t', Inv s t → t ≤ t' → Inv s t'
  keeps : ∀ s e t, Inv s t → t ≤ time e → Inv (step s e).2 (time e)
  nonneg : ∀ s t, Inv s t → 0 ≤ level s t
  le_cap : ∀ s t, Inv s t → level s t ≤ cap
  grows : ∀ s t t', Inv s t → t ≤ t' → level s t' ≤ level s t + rate * (t' - t)
  pays : ∀ s e t, Inv s t → t ≤ time e →
    level (step s e).2 (time e) + (if (step s e).1 && counts e then 1 else 0) ≤ level s (time e)

namespace Metered

variable {step : σ → ι → Bool × σ} {time : ι → ℚ} {counts : ι → Bool}
  {Inv : σ → ℚ → Prop} {level : σ → ℚ → ℚ} {cap rate : ℚ}

/-- How many counted inputs with times from `a` to `b` are granted. -/
def grantedIn (step : σ → ι → Bool × σ) (time : ι → ℚ) (counts : ι → Bool) (a b : ℚ) (s : σ)
    (es : List ι) : Nat :=
  ((granted step s es).filter fun e => counts e && (a ≤ time e && time e ≤ b)).length

/-- The count of a run, by its first event. -/
private theorem grantedIn_cons (a b : ℚ) (s : σ) (e : ι) (es : List ι) :
    grantedIn step time counts a b s (e :: es) =
      (if (step s e).1 && (counts e && (a ≤ time e && time e ≤ b)) then 1 else 0) +
        grantedIn step time counts a b (step s e).2 es := by
  -- the filter splits at the first event, which is granted or not
  unfold grantedIn
  rw [granted, List.filter_append, List.length_append]
  congr 1
  cases (step s e).1 with
  | false => rfl
  | true =>
    simp only [↓reduceIte, List.filter_cons, List.filter_nil, Bool.true_and]
    split <;> rfl

/-- After the window nothing counts. -/
private theorem grantedIn_after {a b : ℚ} {es : List ι} (hes : ∀ e ∈ es, b < time e) (s : σ) :
    grantedIn step time counts a b s es = 0 := by
  induction es generalizing s with
  | nil => rfl
  | cons e es ih =>
    have he : b < time e := hes e List.mem_cons_self
    rw [grantedIn_cons, ih fun e' he' => hes e' (List.mem_cons_of_mem _ he')]
    simp [not_le.mpr he]

/-- From a time in the window on, what is granted comes from the level and its growth. -/
private theorem grantedIn_le_level (h : Metered step time counts Inv level cap rate) {a b t : ℚ}
    {s : σ} {es : List ι} (hs : Inv s t) (hes : (es.map time).Pairwise (· ≤ ·))
    (ht : ∀ e ∈ es, t ≤ time e) (htb : t ≤ b) :
    (grantedIn step time counts a b s es : ℚ) ≤ level s t + rate * (b - t) := by
  induction es generalizing s t with
  | nil =>
    have hlevel := h.nonneg s t hs
    have hgrowth : 0 ≤ rate * (b - t) := mul_nonneg h.rate_nonneg (by linarith)
    have hzero : (grantedIn step time counts a b s [] : ℚ) = 0 := Nat.cast_zero
    linarith
  | cons e es ih =>
    rw [List.map_cons, List.pairwise_cons] at hes
    have hte : t ≤ time e := ht e List.mem_cons_self
    have hlater : ∀ e' ∈ es, time e ≤ time e' := fun e' he' =>
      hes.1 (time e') (List.mem_map_of_mem he')
    by_cases heb : time e ≤ b
    · have hrest := ih (h.keeps s e t hs hte) hes.2 hlater heb
      have hpays := h.pays s e t hs hte
      have hgrows := h.grows s t (time e) hs hte
      have hone : ((if (step s e).1 && (counts e && (a ≤ time e && time e ≤ b)) then 1 else 0 :
          Nat) : ℚ) ≤ if (step s e).1 && counts e then 1 else 0 := by
        cases (step s e).1 <;> cases counts e <;> cases decide (a ≤ time e) <;>
          cases decide (time e ≤ b) <;> simp
      rw [grantedIn_cons, Nat.cast_add]
      -- the grant is paid from the level at `time e`, which grew from the one at `t`
      have hsum : rate * (b - t) = rate * (time e - t) + rate * (b - time e) := by ring
      linarith
    · have hafter : ∀ e' ∈ e :: es, b < time e' := by
        -- the event comes after the window, and so do all that follow it
        intro e' he'
        rcases List.mem_cons.mp he' with rfl | he'
        · exact not_le.mp heb
        · exact lt_of_lt_of_le (not_le.mp heb) (hlater e' he')
      have hlevel := h.nonneg s t hs
      have hgrowth : 0 ≤ rate * (b - t) := mul_nonneg h.rate_nonneg (by linarith)
      rw [grantedIn_after hafter, Nat.cast_zero]
      linarith

/-- In every window the grants are bounded by the capacity and the growth. -/
theorem window_bound (h : Metered step time counts Inv level cap rate) {a b t : ℚ} {s : σ}
    {es : List ι} (hs : Inv s t) (hes : (es.map time).Pairwise (· ≤ ·))
    (ht : ∀ e ∈ es, t ≤ time e) (hab : a ≤ b) :
    (grantedIn step time counts a b s es : ℚ) ≤ cap + rate * (b - a) := by
  have hgrowth : 0 ≤ rate * (b - a) := mul_nonneg h.rate_nonneg (by linarith)
  -- on the run, up to the first event of the window
  induction es generalizing s t with
  | nil =>
    have hzero : (grantedIn step time counts a b s [] : ℚ) = 0 := Nat.cast_zero
    have hlevel := h.nonneg s t hs
    have hcap := h.le_cap s t hs
    linarith
  | cons e es ih =>
    have hte : t ≤ time e := ht e List.mem_cons_self
    have hpair : (time e :: es.map time).Pairwise (· ≤ ·) := hes
    have hlater : ∀ e' ∈ e :: es, time e ≤ time e' := by
      intro e' he'
      rcases List.mem_cons.mp he' with rfl | he'
      · exact le_refl _
      · exact (List.pairwise_cons.mp hpair).1 (time e') (List.mem_map_of_mem he')
    by_cases hae : a ≤ time e
    · -- the window begins here: of the past only the level is left, which is at most `cap`
      have hs' := h.later s t (time e) hs hte
      have hcap := h.le_cap s (time e) hs'
      by_cases heb : time e ≤ b
      · have hbound := h.grantedIn_le_level hs' (a := a) hes hlater heb
        have hshort : rate * (b - time e) ≤ rate * (b - a) :=
          mul_le_mul_of_nonneg_left (by linarith) h.rate_nonneg
        linarith
      · have hzero : grantedIn step time counts a b s (e :: es) = 0 :=
          grantedIn_after (fun e' he' => lt_of_lt_of_le (not_le.mp heb) (hlater e' he')) s
        have hlevel := h.nonneg s (time e) hs'
        rw [hzero, Nat.cast_zero]
        linarith
    · -- the event comes before the window and does not count
      have hskip : ¬ ((step s e).1 && (counts e && (a ≤ time e && time e ≤ b))) = true := by
        simp [hae]
      rw [grantedIn_cons, if_neg hskip, Nat.zero_add]
      exact ih (h.keeps s e t hs hte) (List.pairwise_cons.mp hpair).2
        fun e' he' => hlater e' (List.mem_cons_of_mem _ he')

end Metered
