import Mathlib.Data.List.Nodup
import Mathlib.Data.Set.Card

/-!
# Partial maps and logs of edits

A Go `map[K]V` is modelled by the partial function it denotes. Only `range`
depends on more than that function: it visits the keys in an unspecified
order, so a model of a `range` loop takes the order as an argument and
`RangeOrder` says which orders the runtime may choose.

The second half is about loops that edit a map one entry at a time. An `Edit`
erases some bindings and then writes some; `applyAll_eq_some_iff` says what a
key is bound to after a whole log of edits: the last write that no later edit
touches, or the initial binding if no edit touches it at all.
-/

/-- A finite map, as the partial function it denotes. -/
abbrev PMap (K V : Type*) := K → Option V

namespace PMap

variable {K V : Type*}

/-- The map without bindings. -/
def empty : PMap K V := fun _ => none

/-- The empty map binds nothing. -/
@[simp] theorem empty_apply (k : K) : (empty : PMap K V) k = none := rfl

variable [DecidableEq K]

/-- `m[k] = v`. -/
def set (m : PMap K V) (k : K) (v : V) : PMap K V :=
  fun x => if x = k then some v else m x

/-- `delete(m, k)`. -/
def delete (m : PMap K V) (k : K) : PMap K V :=
  fun x => if x = k then none else m x

/-- The key that was set has the new value. -/
@[simp] theorem set_self (m : PMap K V) (k : K) (v : V) : m.set k v k = some v := by
  simp only [set, ↓reduceIte]

theorem set_ne (m : PMap K V) (v : V) {k x : K} (h : x ≠ k) : m.set k v x = m x := by
  simp only [set, h, ↓reduceIte]

/-- A deleted key is unbound. -/
@[simp] theorem delete_self (m : PMap K V) (k : K) : m.delete k k = none := by
  simp only [delete, ↓reduceIte]

theorem delete_ne (m : PMap K V) {k x : K} (h : x ≠ k) : m.delete k x = m x := by
  simp only [delete, h, ↓reduceIte]

/-- What a map binds after a deletion it bound before, under another key. -/
theorem delete_eq_some (m : PMap K V) {k x : K} {v : V} (h : m.delete k x = some v) :
    x ≠ k ∧ m x = some v := by
  simp only [delete] at h
  split at h
  · exact nomatch h
  · rename_i hne
    exact ⟨hne, h⟩

/-- Setting a value that is there changes nothing. -/
theorem set_eq_self {m : PMap K V} {k : K} {v : V} (h : m k = some v) : m.set k v = m := by
  funext x
  by_cases hx : x = k
  · rw [hx, set_self, h]
  · rw [set_ne _ _ hx]

/-- What a map binds after an assignment: the new value, or what it bound before. -/
theorem set_eq_some (m : PMap K V) {k x : K} {v w : V} (h : m.set k v x = some w) :
    (x = k ∧ v = w) ∨ (x ≠ k ∧ m x = some w) := by
  simp only [set] at h
  split at h
  · rename_i heq
    exact .inl ⟨heq, Option.some.inj h⟩
  · rename_i hne
    exact .inr ⟨hne, h⟩

/-! ## The bound keys -/

/-- The keys of a map; `len(m)` is their number. -/
def domain {K V : Type*} (m : PMap K V) : Set K := {k | m k ≠ none}

theorem domain_empty {K V : Type*} : (empty : PMap K V).domain = ∅ := by
  ext k
  simp [domain]

theorem domain_set (m : PMap K V) (k : K) (v : V) :
    (m.set k v).domain = insert k m.domain := by
  ext x
  simp only [domain, set, Set.mem_ofPred_eq, Set.mem_insert_iff]
  split <;> simp [*]

/-- A deletion unbinds its key and no other. -/
theorem domain_delete (m : PMap K V) (k : K) : (m.delete k).domain = m.domain \ {k} := by
  ext x
  simp only [domain, delete, Set.mem_ofPred_eq, Set.mem_sdiff, Set.mem_singleton_iff]
  split <;> simp [*]

/-- A key that was free adds one to the count. -/
theorem ncard_domain_set {m : PMap K V} (hfin : m.domain.Finite) {k : K} (hk : m k = none)
    (v : V) : (m.set k v).domain.ncard = m.domain.ncard + 1 := by
  have hnew : k ∉ m.domain := fun hmem => hmem hk
  rw [domain_set, Set.ncard_insert_of_notMem hnew hfin]

/-- A deletion takes one from the count if its key was bound. -/
theorem ncard_domain_delete {m : PMap K V} (hfin : m.domain.Finite) (k : K) :
    (m.delete k).domain.ncard + (if (m k).isSome then 1 else 0) = m.domain.ncard := by
  rw [domain_delete]
  by_cases hk : (m k).isSome
  · rw [if_pos hk]
    exact Set.ncard_sdiff_singleton_add_one (Option.isSome_iff_ne_none.mp hk) hfin
  · rw [if_neg hk, Set.sdiff_singleton_eq_self]
    · rfl
    · exact fun hmem => hk (Option.isSome_iff_ne_none.mpr hmem)

/-! ## Indexing a list -/

/-- The map built by `for _, v := range l { m[key(v)] = v }`: the last element
    with a key wins. -/
def index (key : V → K) (l : List V) : PMap K V :=
  l.foldl (fun m v => m.set (key v) v) empty

/-- What is found in a filled map was put there from the list, or was there before. -/
private theorem foldl_set_eq_some (key : V → K) (l : List V) (m : PMap K V) {k : K} {v : V}
    (h : l.foldl (fun m v => m.set (key v) v) m k = some v) :
    (v ∈ l ∧ key v = k) ∨ m k = some v := by
  induction l generalizing m with
  | nil => exact .inr h
  | cons a l ih =>
    rcases ih (m.set (key a) a) h with ⟨hv, hk⟩ | hm
    · exact .inl ⟨List.mem_cons_of_mem _ hv, hk⟩
    · rcases set_eq_some m hm with ⟨hk, rfl⟩ | ⟨_, hm⟩
      · exact .inl ⟨List.mem_cons_self, hk.symm⟩
      · exact .inr hm

/-- What an index is bound to comes from the list, under its own key. -/
theorem index_eq_some (key : V → K) (l : List V) {k : K} {v : V}
    (h : index key l k = some v) : v ∈ l ∧ key v = k := by
  rcases foldl_set_eq_some key l empty h with hv | hm
  · exact hv
  · exact nomatch hm

/-- A key that the list has, or that was bound before, is bound in the filled map. -/
private theorem foldl_set_ne_none (key : V → K) (l : List V) (m : PMap K V) {k : K}
    (h : (∃ v ∈ l, key v = k) ∨ m k ≠ none) :
    l.foldl (fun m v => m.set (key v) v) m k ≠ none := by
  induction l generalizing m with
  | nil =>
    rcases h with ⟨v, hv, _⟩ | hm
    · exact nomatch hv
    · exact hm
  | cons a l ih =>
    apply ih (m.set (key a) a)
    -- the key is the one set now, or it is left to the rest of the list
    rcases h with ⟨v, hv, hk⟩ | hm
    · rcases List.mem_cons.mp hv with rfl | hv
      · subst hk
        exact .inr (by rw [set_self]; exact nofun)
      · exact .inl ⟨v, hv, hk⟩
    · by_cases hk : k = key a
      · subst hk
        exact .inr (by rw [set_self]; exact nofun)
      · exact .inr (by rw [set_ne _ _ hk]; exact hm)

/-- A key is unbound in an index exactly when no element carries it. -/
theorem index_eq_none_iff (key : V → K) (l : List V) (k : K) :
    index key l k = none ↔ ∀ v ∈ l, key v ≠ k := by
  constructor
  · intro h v hv hk
    exact foldl_set_ne_none key l empty (.inl ⟨v, hv, hk⟩) h
  · intro h
    cases hi : index key l k with
    | none => rfl
    | some v =>
      have ⟨hv, hk⟩ := index_eq_some key l hi
      exact absurd hk (h v hv)

/-- With distinct keys an index holds exactly the elements of the list. -/
theorem index_eq_some_iff (key : V → K) {l : List V} (hnd : (l.map key).Nodup) {k : K} {v : V} :
    index key l k = some v ↔ v ∈ l ∧ key v = k := by
  refine ⟨index_eq_some key l, fun ⟨hv, hk⟩ => ?_⟩
  cases hi : index key l k with
  | none => exact absurd hk ((index_eq_none_iff key l k).mp hi v hv)
  | some w =>
    obtain ⟨hw, hwk⟩ := index_eq_some key l hi
    rw [List.inj_on_of_nodup_map hnd hw hv (hwk.trans hk.symm)]

/-! ## Iteration order -/

/-- The orders in which `range m` may visit the keys of `m`: each bound key
    exactly once. -/
structure RangeOrder (m : PMap K V) (order : List K) : Prop where
  nodup : order.Nodup
  mem_iff : ∀ k, k ∈ order ↔ m k ≠ none

omit [DecidableEq K] in
/-- The empty map is ranged over in no steps. -/
theorem RangeOrder.empty : RangeOrder (PMap.empty : PMap K V) [] :=
  ⟨List.nodup_nil, fun k => by simp⟩

/-- A map of one key is ranged over in one step. -/
theorem RangeOrder.singleton (k : K) (v : V) : RangeOrder (PMap.empty.set k v) [k] := by
  refine ⟨List.nodup_singleton _, fun x => ?_⟩
  by_cases hx : x = k
  · simp only [hx, set_self, List.mem_singleton, ne_eq, reduceCtorEq, not_false_eq_true]
  · simp only [set_ne _ _ hx, hx, List.mem_singleton, empty_apply, ne_eq, not_true_eq_false]

/-- The list's own order is one that `range` may take over its index. -/
theorem RangeOrder.index (key : V → K) {l : List V} (hnd : (l.map key).Nodup) :
    RangeOrder (PMap.index key l) (l.map key) := by
  refine ⟨hnd, fun k => ?_⟩
  rw [ne_eq, index_eq_none_iff]
  simp only [List.mem_map, not_forall, not_not, exists_prop]

/-! ## Edits -/

/-- One edit of a map: it drops the bindings `erase` names, then adds those of
    `write`. -/
structure Edit (K V : Type*) where
  erase : K → V → Bool
  write : K → Option V

namespace Edit

variable {K V : Type*}

/-- The map after the edit. -/
def apply (e : Edit K V) (m : PMap K V) : PMap K V := fun k =>
  match e.write k with
  | some v => some v
  | none => (m k).filter fun v => !e.erase k v

/-- The edit leaves the binding of `k` to `v` alone. -/
def Keeps (e : Edit K V) (k : K) (v : V) : Prop :=
  e.write k = none ∧ e.erase k v = false

/-- What an edit leaves under a key: what it writes there, or an old value that it keeps. -/
private theorem apply_eq_some_iff (e : Edit K V) (m : PMap K V) (k : K) (v : V) :
    e.apply m k = some v ↔ e.write k = some v ∨ (m k = some v ∧ e.Keeps k v) := by
  unfold apply Keeps
  cases hw : e.write k with
  | some w => simp
  | none =>
    simp only [Option.filter_eq_some_iff, Bool.not_eq_eq_eq_not, Bool.not_true, reduceCtorEq,
      true_and, false_or]

/-- An edit that writes a key decides it. -/
theorem apply_of_write {e : Edit K V} {k : K} {v : V} (m : PMap K V) (h : e.write k = some v) :
    e.apply m k = some v := by
  simp only [apply, h]

/-- An edit that neither writes nor erases a key leaves it alone. -/
theorem apply_of_keep {e : Edit K V} {k : K} (m : PMap K V) (hw : e.write k = none)
    (he : ∀ v, e.erase k v = false) : e.apply m k = m k := by
  simp only [apply, hw]
  cases m k <;> simp [he]

/-- An edit that erases whatever a key holds unbinds it. -/
theorem apply_of_erase {e : Edit K V} {k : K} (m : PMap K V) (hw : e.write k = none)
    (he : ∀ v, e.erase k v = true) : e.apply m k = none := by
  simp only [apply, hw]
  cases m k <;> simp [he]

/-- The map after a log of edits, oldest first. -/
def applyAll (es : List (Edit K V)) (m : PMap K V) : PMap K V :=
  es.foldl (fun m e => e.apply m) m

/-- No edits change nothing. -/
@[simp] theorem applyAll_nil (m : PMap K V) : applyAll [] m = m := rfl

/-- The first edit is applied first. -/
@[simp] theorem applyAll_cons (e : Edit K V) (es : List (Edit K V)) (m : PMap K V) :
    applyAll (e :: es) m = applyAll es (e.apply m) := rfl

/-- Edits that do not touch `k`. -/
theorem applyAll_of_keep {es : List (Edit K V)} {k : K} (m : PMap K V)
    (h : ∀ e ∈ es, e.write k = none ∧ ∀ v, e.erase k v = false) : applyAll es m k = m k := by
  induction es generalizing m with
  | nil => rfl
  | cons e es ih =>
    obtain ⟨hwrite, herase⟩ := h e List.mem_cons_self
    rw [applyAll_cons, ih _ fun e' he' => h e' (List.mem_cons_of_mem _ he')]
    exact apply_of_keep m hwrite herase

/-- Edits that at `k` write `v` or nothing: it is there if one of them writes it. -/
theorem applyAll_of_write {es : List (Edit K V)} {k : K} {v : V} (m : PMap K V)
    (h : ∀ e ∈ es, e.write k = some v ∨ e.write k = none ∧ ∀ w, e.erase k w = false)
    (hwrite : ∃ e ∈ es, e.write k = some v) : applyAll es m k = some v := by
  -- on the edits; a later write decides, so the first one matters only when there is none
  induction es generalizing m with
  | nil =>
    obtain ⟨e, he, _⟩ := hwrite
    exact absurd he List.not_mem_nil
  | cons e es ih =>
    have htail : ∀ e' ∈ es, e'.write k = some v ∨ e'.write k = none ∧ ∀ w, e'.erase k w = false :=
      fun e' he' => h e' (List.mem_cons_of_mem _ he')
    rw [applyAll_cons]
    by_cases hlater : ∃ e' ∈ es, e'.write k = some v
    · exact ih _ htail hlater
    · -- the first edit wrote the value, and none of the others touches it
      have hkeep : ∀ e' ∈ es, e'.write k = none ∧ ∀ w, e'.erase k w = false := fun e' he' =>
        (htail e' he').resolve_left fun hw => hlater ⟨e', he', hw⟩
      obtain ⟨e', he', hw⟩ := hwrite
      rcases List.mem_cons.mp he' with rfl | he'
      · rw [applyAll_of_keep _ hkeep, apply_of_write m hw]
      · exact absurd ⟨e', he', hw⟩ hlater

theorem applyAll_append (es fs : List (Edit K V)) (m : PMap K V) :
    applyAll (es ++ fs) m = applyAll fs (applyAll es m) :=
  List.foldl_append

/-- Edits that neither erase a binding nor write another value over it preserve it. -/
theorem applyAll_preserves {es : List (Edit K V)} {m : PMap K V} {k : K} {v : V}
    (h : ∀ e ∈ es, e.erase k v = false ∧ ∀ w, e.write k = some w → w = v) (hm : m k = some v) :
    applyAll es m k = some v := by
  induction es generalizing m with
  | nil => exact hm
  | cons e es ih =>
    have ⟨herase, hwrite⟩ := h e List.mem_cons_self
    rw [applyAll_cons]
    refine ih (fun e' he' => h e' (List.mem_cons_of_mem _ he')) ?_
    -- the first edit leaves the same binding, by writing it again or by keeping it
    cases hw : e.write k with
    | some w => rw [apply_of_write m hw, hwrite w hw]
    | none => exact (apply_eq_some_iff e m k v).mpr (.inr ⟨hm, hw, herase⟩)

/-- Some edit of the log writes `v` to `k` and no later edit touches that
    binding. -/
def LastWrite (es : List (Edit K V)) (k : K) (v : V) : Prop :=
  ∃ l₁ e l₂, es = l₁ ++ e :: l₂ ∧ e.write k = some v ∧ ∀ e' ∈ l₂, e'.Keeps k v

theorem LastWrite.nil (k : K) (v : V) : ¬ LastWrite ([] : List (Edit K V)) k v := by
  rintro ⟨l₁, e, l₂, h, _⟩
  exact absurd h.symm (by simp)

/-- The last write is that of the first edit, which all others keep, or one after it. -/
private theorem lastWrite_cons (e : Edit K V) (es : List (Edit K V)) (k : K) (v : V) :
    LastWrite (e :: es) k v ↔
      (e.write k = some v ∧ ∀ e' ∈ es, e'.Keeps k v) ∨ LastWrite es k v := by
  constructor
  · rintro ⟨l₁, e₁, l₂, h, hw, hk⟩
    -- the last write is the head, or lies in the tail
    cases l₁ with
    | nil =>
      simp only [List.nil_append, List.cons.injEq] at h
      obtain ⟨rfl, rfl⟩ := h
      exact .inl ⟨hw, hk⟩
    | cons a l₁ =>
      simp only [List.cons_append, List.cons.injEq] at h
      obtain ⟨rfl, rfl⟩ := h
      exact .inr ⟨l₁, e₁, l₂, rfl, hw, hk⟩
  · rintro (⟨hw, hk⟩ | ⟨l₁, e₁, l₂, rfl, hw, hk⟩)
    · exact ⟨[], e, es, rfl, hw, hk⟩
    · exact ⟨e :: l₁, e₁, l₂, rfl, hw, hk⟩

/-- What a key is bound to after a log of edits. -/
theorem applyAll_eq_some_iff (es : List (Edit K V)) (m : PMap K V) (k : K) (v : V) :
    applyAll es m k = some v ↔
      LastWrite es k v ∨ (m k = some v ∧ ∀ e ∈ es, e.Keeps k v) := by
  induction es generalizing m with
  | nil =>
    simp only [applyAll_nil, LastWrite.nil, false_or, List.not_mem_nil, false_implies,
      implies_true, and_true]
  | cons e es ih =>
    rw [applyAll_cons, ih, apply_eq_some_iff, lastWrite_cons]
    simp only [List.forall_mem_cons]
    tauto

/-- The same for a log that is written down as a list of operations. -/
theorem applyAll_map_eq_some_iff {ι : Type*} (f : ι → Edit K V) (l : List ι) (m : PMap K V)
    (k : K) (v : V) :
    applyAll (l.map f) m k = some v ↔
      (∃ l₁ a l₂, l = l₁ ++ a :: l₂ ∧ (f a).write k = some v ∧ ∀ b ∈ l₂, (f b).Keeps k v) ∨
      (m k = some v ∧ ∀ a ∈ l, (f a).Keeps k v) := by
  rw [applyAll_eq_some_iff]
  refine or_congr ⟨?_, ?_⟩ (by simp only [List.forall_mem_map])
  · rintro ⟨es₁, e, es₂, heq, hw, hkeep⟩
    obtain ⟨l₁, l', rfl, rfl, hrest⟩ := List.map_eq_append_iff.mp heq
    obtain ⟨a, l₂, rfl, rfl, rfl⟩ := List.map_eq_cons_iff.mp hrest
    exact ⟨l₁, a, l₂, rfl, hw, List.forall_mem_map.mp hkeep⟩
  · rintro ⟨l₁, a, l₂, rfl, hw, hkeep⟩
    exact ⟨l₁.map f, f a, l₂.map f, by simp, hw, List.forall_mem_map.mpr hkeep⟩

end Edit

end PMap
