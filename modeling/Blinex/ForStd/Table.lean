import Mathlib.Data.List.Perm.Basic
import Blinex.ForStd.PMap

/-!
# Tables

A `Table key` is a finite map whose rows are filed under their own key, as a
primary key or `m[v.Key] = v` leave it. Rows that satisfy a predicate (those of
one owner, say) can be compared between two maps (`PMap.AgreeOn`) and listed in an
order the runtime chooses (`PMap.select`).
-/

namespace PMap

variable {K V : Type*}

/-! ## Agreement on some rows -/

/-- The two maps have the same rows among those that satisfy `p`. -/
def AgreeOn (p : V → Prop) (m m' : PMap K V) : Prop :=
  ∀ k v, p v → (m k = some v ↔ m' k = some v)

theorem AgreeOn.refl (p : V → Prop) (m : PMap K V) : AgreeOn p m m := fun _ _ _ => Iff.rfl

theorem AgreeOn.trans {p : V → Prop} {m m' m'' : PMap K V} (h : AgreeOn p m m')
    (h' : AgreeOn p m' m'') : AgreeOn p m m'' := fun k v hv => (h k v hv).trans (h' k v hv)

/-- Under a key, one map has a row with `p` exactly when the other has the same. -/
private theorem AgreeOn.filter_eq {p : V → Prop} [DecidablePred p] {m m' : PMap K V}
    (h : AgreeOn p m m') (k : K) :
    (m k).filter (fun v => decide (p v)) = (m' k).filter (fun v => decide (p v)) := by
  apply Option.ext
  intro v
  simp only [Option.filter_eq_some_iff, decide_eq_true_eq]
  exact and_congr_left fun hv => h k v hv

/-- Maps that agree on some rows are equal once the others are left out. -/
theorem AgreeOn.filter_bool_eq {p : V → Bool} {m m' : PMap K V}
    (h : AgreeOn (fun v => p v = true) m m') (k : K) : (m k).filter p = (m' k).filter p := by
  have heq := h.filter_eq k
  simpa only [Bool.decide_eq_true] using heq

/-- A row of the second map without `p`: the first has no row with `p` there. -/
theorem AgreeOn.not_of_some {p : V → Prop} {m m' : PMap K V} (h : AgreeOn p m m') {k : K} {v : V}
    (hk : m' k = some v) (hv : ¬ p v) : ∀ w, m k = some w → ¬ p w := by
  intro w hw hpw
  have hw' : m' k = some w := (h k w hpw).mp hw
  rw [hk] at hw'
  exact hv (Option.some.inj hw' ▸ hpw)

/-- A key that one map does not bind has none of these rows in the other. -/
theorem AgreeOn.not_of_none {p : V → Prop} {m m' : PMap K V} (h : AgreeOn p m m') {k : K}
    (hk : m' k = none) : ∀ w, m k = some w → ¬ p w := by
  intro w hw hpw
  exact Option.some_ne_none w (((h k w hpw).mp hw).symm.trans hk)

section Updates

variable [DecidableEq K] {p : V → Prop} {m m' : PMap K V} {k : K}

/-- Neither the new row nor what the first map has in its place is compared. -/
theorem AgreeOn.set {v : V} (h : AgreeOn p m m') (hk : ∀ w, m k = some w → ¬ p w)
    (hv : ¬ p v) : AgreeOn p m (m'.set k v) := by
  intro x w hw
  by_cases hx : x = k
  · subst hx
    rw [set_self]
    constructor
    · intro hm
      exact absurd hw (hk w hm)
    · intro hvw
      exact absurd (Option.some.inj hvw ▸ hw) hv
  · rw [set_ne _ _ hx]
    exact h x w hw

/-- A row that is none of these may be deleted. -/
theorem AgreeOn.delete (h : AgreeOn p m m') (hk : ∀ w, m k = some w → ¬ p w) :
    AgreeOn p m (m'.delete k) := by
  intro x w hw
  by_cases hx : x = k
  · subst hx
    rw [delete_self]
    constructor
    · intro hm
      exact absurd hw (hk w hm)
    · intro hnone
      cases hnone
  · rw [delete_ne _ hx]
    exact h x w hw

end Updates

/-! ## Orders -/

variable [DecidableEq K]

/-- A map with one more assignment still has an order. -/
theorem RangeOrder.set {m : PMap K V} {order : List K} (h : RangeOrder m order) (k : K) (v : V) :
    ∃ order', RangeOrder (m.set k v) order' := by
  have hbound (x : K) : m.set k v x ≠ none ↔ x = k ∨ m x ≠ none := by
    by_cases hx : x = k
    · simp only [hx, set_self, ne_eq, reduceCtorEq, not_false_eq_true, true_or]
    · simp only [set_ne _ _ hx, hx, false_or]
  by_cases hk : k ∈ order
  · -- a key that was bound keeps its place
    refine ⟨order, h.nodup, fun x => ?_⟩
    rw [hbound, ← h.mem_iff x]
    constructor
    · exact .inr
    · intro hx
      rcases hx with rfl | hx
      · exact hk
      · exact hx
  · refine ⟨k :: order, List.nodup_cons.mpr ⟨hk, h.nodup⟩, fun x => ?_⟩
    rw [hbound, List.mem_cons, h.mem_iff x]

/-- After a deletion the order goes on without the key. -/
theorem RangeOrder.delete {m : PMap K V} {order : List K} (h : RangeOrder m order) (k : K) :
    RangeOrder (m.delete k) (order.filter (· ≠ k)) := by
  refine ⟨h.nodup.filter _, fun x => ?_⟩
  rw [List.mem_filter, h.mem_iff x, decide_eq_true_eq]
  by_cases hx : x = k
  · simp only [hx, delete_self, ne_eq, not_true_eq_false, and_false]
  · simp only [delete_ne _ hx, ne_eq, hx, not_false_eq_true, and_true]

/-! ## Selecting rows -/

/-- The rows that satisfy `p`, as a `range` in the given order collects them. -/
def select (p : V → Bool) (m : PMap K V) (order : List K) : List V :=
  (order.filterMap m).filter p

omit [DecidableEq K] in
/-- The rows selected are those bound rows that pass the test. -/
theorem mem_select {p : V → Bool} {m : PMap K V} {order : List K} (h : RangeOrder m order) (v : V) :
    v ∈ select p m order ↔ (∃ k, m k = some v) ∧ p v = true := by
  simp only [select, List.mem_filter, List.mem_filterMap]
  refine and_congr_left fun _ => ⟨?_, ?_⟩
  · rintro ⟨k, _, hk⟩
    exact ⟨k, hk⟩
  · rintro ⟨k, hk⟩
    exact ⟨k, (h.mem_iff k).mpr (by rw [hk]; exact nofun), hk⟩

omit [DecidableEq K] in
/-- A selection looks at each key once. -/
private theorem select_eq_filterMap (p : V → Bool) (m : PMap K V) (order : List K) :
    select p m order = order.filterMap fun k => (m k).filter p := by
  simp only [select]
  induction order with
  | nil => rfl
  | cons k order ih =>
    cases hk : m k with
    | none => simp only [List.filterMap_cons, hk, Option.filter_none, ih]
    | some v =>
      simp only [List.filterMap_cons, hk, Option.filter_some, List.filter_cons, ih]
      split <;> rfl

omit [DecidableEq K] in
/-- Only the keys with a selected row matter. -/
private theorem select_filter (p : V → Bool) (m : PMap K V) (order : List K) :
    select p m (order.filter fun k => ((m k).filter p).isSome) = select p m order := by
  simp only [select_eq_filterMap]
  induction order with
  | nil => rfl
  | cons k order ih =>
    cases hk : (m k).filter p with
    | none =>
      simp only [List.filter_cons, hk, Option.isSome_none, Bool.false_eq_true, ↓reduceIte,
        List.filterMap_cons, ih]
    | some v =>
      simp only [List.filter_cons, hk, Option.isSome_some, ↓reduceIte, List.filterMap_cons, ih]

omit [DecidableEq K] in
/-- Two maps with the same selected rows: what one may list, the other may list. -/
theorem AgreeOn.exists_order {p : V → Bool} {m m' : PMap K V} {order order' : List K}
    (hagree : AgreeOn (fun v => p v = true) m m') (h : RangeOrder m order)
    (h' : RangeOrder m' order') :
    ∃ o, RangeOrder m' o ∧ select p m' o = select p m order := by
  have hfilter (k : K) : (m k).filter p = (m' k).filter p := hagree.filter_bool_eq k
  -- the selected keys in the first order, then the others in the second
  let sel : K → Bool := fun k => ((m k).filter p).isSome
  refine ⟨order.filter sel ++ order'.filter (fun k => !sel k), ⟨?_, fun k => ?_⟩, ?_⟩
  · -- no key is in both parts
    refine (h.nodup.filter _).append (h'.nodup.filter _) fun k hk hk' => ?_
    have hs := (List.mem_filter.mp hk).2
    have hs' := (List.mem_filter.mp hk').2
    simp only [hs, Bool.not_true, Bool.false_eq_true] at hs'
  · simp only [List.mem_append, List.mem_filter, h.mem_iff k, h'.mem_iff k, Bool.not_eq_eq_eq_not,
      Bool.not_true]
    cases hsel : sel k with
    | true =>
      -- a selected row is in both maps
      have hm : ((m k).filter p).isSome = true := hsel
      have hm' : ((m' k).filter p).isSome = true := hfilter k ▸ hm
      have hne : m k ≠ none := by
        intro hnone
        rw [hnone] at hm
        exact absurd hm Bool.false_ne_true
      have hne' : m' k ≠ none := by
        intro hnone
        rw [hnone] at hm'
        exact absurd hm' Bool.false_ne_true
      simp only [hne, hne', ne_eq, not_false_eq_true, and_self, Bool.true_eq_false, and_false,
        or_false]
    | false =>
      simp only [Bool.false_eq_true, and_false, ne_eq, and_true, false_or]
  · -- only the first part is selected, and the maps agree on it
    have hsel' : sel = fun k => ((m' k).filter p).isSome := by
      funext k
      simp only [sel, hfilter k]
    have hsame : select p m' (order.filter sel) = select p m (order.filter sel) := by
      simp only [select_eq_filterMap]
      apply List.filterMap_congr
      intro k _
      exact (hfilter k).symm
    have hrest : select p m' (order'.filter fun k => !sel k) = [] := by
      rw [← select_filter, List.filter_filter, hsel']
      simp only [Bool.and_not_self, List.filter_false]
      rfl
    calc select p m' (order.filter sel ++ order'.filter fun k => !sel k)
        = select p m' (order.filter sel) ++ select p m' (order'.filter fun k => !sel k) := by
          simp only [select, List.filterMap_append, List.filter_append]
      _ = select p m order := by
          rw [hsame, hrest, List.append_nil, select_filter]

end PMap

/-- A finite map with every row under its own key. -/
structure Table {K V : Type*} (key : V → K) where
  rows : PMap K V
  keyed : ∀ k v, rows k = some v → key v = k
  finite : ∃ order, PMap.RangeOrder rows order

namespace Table

variable {K V : Type*} {key : V → K}

/-- The table without rows. -/
def empty : Table key where
  rows := PMap.empty
  keyed _ _ h := nomatch h
  finite := ⟨[], .empty⟩

variable [DecidableEq K]

/-- Inserts a row or replaces the one with its key. -/
def save (t : Table key) (v : V) : Table key where
  rows := t.rows.set (key v) v
  keyed k w h := by
    rcases PMap.set_eq_some _ h with ⟨rfl, rfl⟩ | ⟨_, h⟩
    · rfl
    · exact t.keyed k w h
  finite := t.finite.elim fun _ h => h.set _ _

/-- Removes the row with the given key. -/
def delete (t : Table key) (k : K) : Table key where
  rows := t.rows.delete k
  keyed x w h := t.keyed x w (PMap.delete_eq_some _ h).2
  finite := t.finite.elim fun _ h => ⟨_, h.delete k⟩

omit [DecidableEq K] in
/-- Converts every row, under the key it has. -/
def map {W : Type*} {key' : W → K} (t : Table key) (f : V → W) (hf : ∀ v, key' (f v) = key v) :
    Table key' where
  rows k := (t.rows k).map f
  keyed k w h := by
    obtain ⟨v, hv, rfl⟩ := Option.map_eq_some_iff.mp h
    rw [hf]
    exact t.keyed k v hv
  finite := t.finite.elim fun order h =>
    ⟨order, h.nodup, fun k => by rw [h.mem_iff, ne_eq, ne_eq, Option.map_eq_none_iff]⟩

/-- The rows after a save. -/
@[simp] theorem save_rows (t : Table key) (v : V) : (t.save v).rows = t.rows.set (key v) v := rfl

/-- Saving a row that is there changes nothing. -/
theorem save_eq_self {t : Table key} {v : V} (h : t.rows (key v) = some v) : t.save v = t := by
  obtain ⟨rows, keyed, finite⟩ := t
  have hrows : rows.set (key v) v = rows := PMap.set_eq_self h
  simp only [save, hrows]

/-- The rows after a deletion. -/
@[simp] theorem delete_rows (t : Table key) (k : K) : (t.delete k).rows = t.rows.delete k := rfl

end Table
