import Mathlib.Data.List.AList
import Mathlib.Data.List.Induction
import Blinex.ForStd.Run

/-!
# Tables that forget

A table of the times at which keys were last touched. It has a capacity, and a touch
that finds it full clears it first; it has a time to live, and a lookup that finds an
entry older than that removes it. `check_iff` reads the answer of a lookup off the
history: it depends on the latest touch of the key and on whether the table was full at
a touch since, and on no other lookup.

Events are of any type. `touches` and `checks` say which key they touch or look up, if
any, and `time` when; `ttl` and `cap` are the limits.
-/

/-- Keys with the time of their last touch. -/
abbrev ExpiringTable (K : Type*) := AList fun _ : K => Int

namespace ExpiringTable

variable {K ε : Type*} [DecidableEq K] (ttl : Int) (cap : Nat)

/-- How many keys the table holds. -/
def size (t : ExpiringTable K) : Nat := t.keys.length

/-- Notes the time, in an empty table if this one is full. -/
def touch (t : ExpiringTable K) (k : K) (now : Int) : ExpiringTable K :=
  (if cap ≤ size t then ∅ else t).insert k now

/-- Whether the key was touched in time; if it was too long ago, it is removed. -/
def check (t : ExpiringTable K) (k : K) (now : Int) : Bool × ExpiringTable K :=
  match t.lookup k with
  | none => (false, t)
  | some seen => if ttl < now - seen then (false, t.erase k) else (true, t)

/-! ## One operation -/

/-- A new entry takes one place at most: an old entry of the key is replaced. -/
private theorem size_insert_le (t : ExpiringTable K) (k : K) (now : Int) :
    size (t.insert k now) ≤ size t + 1 := by
  rw [size, AList.keys_insert, List.length_cons]
  exact Nat.succ_le_succ List.length_erase_le

private theorem size_erase_le (t : ExpiringTable K) (k : K) : size (t.erase k) ≤ size t := by
  rw [size, AList.keys_erase]
  exact List.length_erase_le

/-- A touch keeps the table within its capacity: a full table is emptied first. -/
private theorem size_touch_le {t : ExpiringTable K} (hcap : 0 < cap) (h : size t ≤ cap) (k : K)
    (now : Int) : size (touch cap t k now) ≤ cap := by
  unfold touch
  split
  · have hone := size_insert_le (∅ : ExpiringTable K) k now
    have hzero : size (∅ : ExpiringTable K) = 0 := rfl
    omega
  · have hinsert := size_insert_le t k now
    omega

/-- A check keeps the table within its capacity, since it can only erase. -/
private theorem size_check_le {t : ExpiringTable K} (h : size t ≤ cap) (k : K) (now : Int) :
    size (check ttl t k now).2 ≤ cap := by
  unfold check
  split
  · exact h
  · split
    · exact Nat.le_trans (size_erase_le t k) h
    · exact h

/-- The key touched last is in the table, with the time of the touch. -/
theorem lookup_touch_self (t : ExpiringTable K) (k : K) (now : Int) :
    (touch cap t k now).lookup k = some now := AList.lookup_insert _

/-- A touch of another key leaves the entry, unless it clears the table. -/
theorem lookup_touch_ne {t : ExpiringTable K} {k k' : K} (hne : k ≠ k') (now : Int) :
    (touch cap t k' now).lookup k = if cap ≤ size t then none else t.lookup k := by
  rw [touch, AList.lookup_insert_ne hne]
  split <;> rfl

/-- A check invents nothing: what is found after it was there before it. -/
theorem lookup_of_lookup_check {t : ExpiringTable K} {k k' : K} {now seen : Int}
    (h : (check ttl t k' now).2.lookup k = some seen) : t.lookup k = some seen := by
  unfold check at h
  split at h
  · exact h
  · split at h
    · -- the entry checked has expired and goes; that of another key stays
      by_cases hkk : k = k'
      · rw [hkk, AList.lookup_erase] at h
        cases h
      · rwa [AList.lookup_erase_ne hkk] at h
    · exact h

/-- A lookup only removes what is too old. -/
private theorem lookup_check_of_lookup {t : ExpiringTable K} {k k' : K} {now seen : Int}
    (h : t.lookup k = some seen) (hfresh : ¬ttl < now - seen) :
    (check ttl t k' now).2.lookup k = some seen := by
  unfold check
  split
  · exact h
  · rename_i seen' hk'
    -- only an expired entry is erased, and that of `k` is fresh
    split
    · rename_i hold
      have hkk : k ≠ k' := by
        rintro rfl
        rw [h] at hk'
        rw [Option.some.inj hk'] at hfresh
        exact hfresh hold
      rwa [AList.lookup_erase_ne hkk]
    · exact h

/-! ## Runs -/

variable (time : ε → Int) (touches checks : ε → Option K)

/-- What an event does to the table. -/
def step (t : ExpiringTable K) (e : ε) : ExpiringTable K :=
  match touches e with
  | some k => touch cap t k (time e)
  | none =>
    match checks e with
    | some k => (check ttl t k (time e)).2
    | none => t

/-- The table after a history that starts with an empty one. -/
def after (es : List ε) : ExpiringTable K := es.foldl (step ttl cap time touches checks) ∅

/-- A run goes on from the table that another one has left. -/
theorem foldl_after (es later : List ε) :
    later.foldl (step ttl cap time touches checks) (after ttl cap time touches checks es) =
      after ttl cap time touches checks (es ++ later) :=
  List.foldl_append.symm

private theorem after_concat (es : List ε) (e : ε) :
    after ttl cap time touches checks (es ++ [e]) =
      step ttl cap time touches checks (after ttl cap time touches checks es) e :=
  (foldl_after ttl cap time touches checks es [e]).symm

/-- No event takes the table beyond its capacity. -/
private theorem size_step_le (hcap : 0 < cap) {t : ExpiringTable K} (h : size t ≤ cap) (e : ε) :
    size (step ttl cap time touches checks t e) ≤ cap := by
  unfold step
  split
  · exact size_touch_le cap hcap h _ _
  · split
    · exact size_check_le ttl cap h _ _
    · exact h

/-- The table never outgrows its capacity. -/
theorem size_after_le (hcap : 0 < cap) (es : List ε) :
    size (after ttl cap time touches checks es) ≤ cap := by
  induction es using List.reverseRecOn with
  | nil => exact Nat.zero_le _
  | append_singleton es e ih =>
    rw [after_concat]
    exact size_step_le ttl cap time touches checks hcap ih e

/-- The event does not clear the table it finds. -/
def RoomFor (t : ExpiringTable K) (e : ε) : Prop := touches e ≠ none → size t < cap

/-- The latest touch of the key was `e`, and no touch since then found a full table. -/
def LatestTouch (k : K) (e : ε) (es : List ε) : Prop :=
  ∃ before later, es = before ++ e :: later ∧ touches e = some k ∧
    (∀ e' ∈ later, touches e' ≠ some k) ∧
    Along (step ttl cap time touches checks) (RoomFor cap touches)
      (after ttl cap time touches checks (before ++ [e])) later

/-- One more event. -/
private theorem latestTouch_concat {k : K} {e e' : ε} {es : List ε} :
    LatestTouch ttl cap time touches checks k e (es ++ [e']) ↔
      (e = e' ∧ touches e' = some k) ∨
      (touches e' ≠ some k ∧ RoomFor cap touches (after ttl cap time touches checks es) e' ∧
        LatestTouch ttl cap time touches checks k e es) := by
  constructor
  · -- forwards, by whether the touch is the last event of the run
    rintro ⟨before, later, heq, hk, hno, hroom⟩
    rcases List.eq_nil_or_concat' later with rfl | ⟨later, e'', rfl⟩
    · left
      have hlast := (List.cons.inj (List.append_inj' heq rfl).2).1
      exact ⟨hlast.symm, hlast ▸ hk⟩
    · right
      rw [← List.cons_append, ← List.append_assoc] at heq
      obtain ⟨hes, hlast⟩ := List.append_inj' heq rfl
      obtain rfl := (List.cons.inj hlast).1
      rw [Along.concat_iff] at hroom
      refine ⟨hno e' (List.mem_append_right _ List.mem_cons_self), ?_, before, later, hes, hk,
        fun x hx => hno x (List.mem_append_left _ hx), hroom.1⟩
      have hlast := hroom.2
      rw [foldl_after, List.append_assoc] at hlast
      rw [hes]
      exact hlast
  · rintro (⟨rfl, hk⟩ | ⟨hne, hroom, before, later, rfl, hk, hno, halong⟩)
    · -- backwards: the events after the touch are none, or those of the shorter run and `e'`
      exact ⟨es, [], rfl, hk, fun x hx => absurd hx List.not_mem_nil, trivial⟩
    · refine ⟨before, later ++ [e'], by simp, hk, fun x hx => ?_, Along.concat_iff.mpr ⟨halong, ?_⟩⟩
      · rcases List.mem_append.mp hx with hx | hx
        · exact hno x hx
        · rw [List.mem_singleton.mp hx]
          exact hne
      · rw [foldl_after, List.append_assoc]
        exact hroom

/-- An entry of the table is the latest touch of its key. -/
private theorem latestTouch_of_lookup {k : K} {es : List ε} {seen : Int}
    (h : (after ttl cap time touches checks es).lookup k = some seen) :
    ∃ e, LatestTouch ttl cap time touches checks k e es ∧ time e = seen := by
  -- on the run from its end: only the last event can have changed the entry
  induction es using List.reverseRecOn with
  | nil => cases h
  | append_singleton es e ih =>
    rw [after_concat] at h
    -- an entry that the event has left alone
    have hold (hne : touches e ≠ some k)
        (hroom : RoomFor cap touches (after ttl cap time touches checks es) e)
        (h : (after ttl cap time touches checks es).lookup k = some seen) :
        ∃ e', LatestTouch ttl cap time touches checks k e' (es ++ [e]) ∧ time e' = seen := by
      obtain ⟨e', hlatest, htime⟩ := ih h
      exact ⟨e', (latestTouch_concat ..).mpr (.inr ⟨hne, hroom, hlatest⟩), htime⟩
    unfold step at h
    split at h
    · -- the event touches a key: the one looked up, or another, which empties a full table
      rename_i k' hk'
      by_cases hkk : k = k'
      · subst hkk
        rw [lookup_touch_self] at h
        exact ⟨e, (latestTouch_concat ..).mpr (.inl ⟨rfl, hk'⟩), Option.some.inj h⟩
      · rw [lookup_touch_ne cap hkk] at h
        split at h
        · cases h
        · rename_i hroom
          refine hold ?_ (fun _ => Nat.lt_of_not_le hroom) h
          rw [hk']
          exact fun heq => hkk (Option.some.inj heq).symm
    · -- the event touches nothing, and a check can only take the entry away
      rename_i hnone
      have hne : touches e ≠ some k := by
        rw [hnone]
        exact (Option.some_ne_none k).symm
      have hroom : RoomFor cap touches (after ttl cap time touches checks es) e :=
        fun hsome => absurd hnone hsome
      split at h
      · exact hold hne hroom (lookup_of_lookup_check ttl h)
      · exact hold hne hroom h

/-- The latest touch of a key is in the table until it is too old. -/
private theorem lookup_of_latestTouch {k : K} {e : ε} {es : List ε}
    (h : LatestTouch ttl cap time touches checks k e es)
    (hfresh : ∀ e' ∈ es, ¬ttl < time e' - time e) :
    (after ttl cap time touches checks es).lookup k = some (time e) := by
  induction es using List.reverseRecOn with
  | nil =>
    obtain ⟨before, later, heq, _⟩ := h
    exact absurd heq (by simp)
  | append_singleton es e' ih =>
    rw [after_concat]
    rcases (latestTouch_concat ..).mp h with ⟨rfl, hk⟩ | ⟨hne, hroom, hlatest⟩
    · simp only [step, hk, lookup_touch_self]
    · have hbefore := ih hlatest fun x hx => hfresh x (List.mem_append_left _ hx)
      have hlast := hfresh e' (List.mem_append_right _ List.mem_cons_self)
      unfold step
      -- another key is touched, and there is room, so the table was not emptied
      split
      · rename_i k' hk'
        have hkk : k ≠ k' := by
          rintro rfl
          exact hne hk'
        have hsize : ¬cap ≤ size (after ttl cap time touches checks es) := by
          refine Nat.not_le_of_lt (hroom ?_)
          rw [hk']
          exact Option.some_ne_none k'
        -- a check finds the entry fresh
        rw [lookup_touch_ne cap hkk, if_neg hsize, hbefore]
      · split
        · exact lookup_check_of_lookup ttl hbefore hlast
        · exact hbefore

/-- **What a lookup answers.** With a clock that does not go back, a key is found exactly
    when its latest touch is not too old and no touch since then found a full table. -/
theorem check_iff {k : K} {es : List ε} {now : Int} (hclock : ∀ e ∈ es, time e ≤ now) :
    (check ttl (after ttl cap time touches checks es) k now).1 = true ↔
      ∃ e, LatestTouch ttl cap time touches checks k e es ∧ now - time e ≤ ttl := by
  constructor
  · -- a check that succeeds has found a fresh entry, and an entry comes from a touch
    intro h
    unfold check at h
    split at h
    · cases h
    · rename_i seen hlookup
      split at h
      · cases h
      · rename_i hfresh
        obtain ⟨e, hlatest, htime⟩ := latestTouch_of_lookup ttl cap time touches checks hlookup
        exact ⟨e, hlatest, by omega⟩
  · rintro ⟨e, hlatest, hfresh⟩
    -- the clock bounds the times of the run, so the entry was fresh at each check
    have hlookup := lookup_of_latestTouch ttl cap time touches checks hlatest fun e' he' => by
      have hle := hclock e' he'
      omega
    have hkeep : ¬ttl < now - time e := by omega
    simp only [check, hlookup, hkeep, if_false]

end ExpiringTable
