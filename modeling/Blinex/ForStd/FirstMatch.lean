import Mathlib.Data.List.Perm.Basic
import Mathlib.Order.Lattice

/-!
# First-match decision lists

An ordered list of entries in which the first entry that matches decides, and
a default decides when none does. This is the shape of packet filters, access
control lists and rewrite rules alike, so nothing here mentions what an entry
is.

- `firstMatch_flatMap`: replacing each entry by a block of entries with the
  same verdict keeps every decision, provided the block matches when the entry
  does. Blocks may be empty and may overlap.
- `firstMatch_filterMap`: dropping entries that never match keeps every decision.
- `sorted_firstMatch_eq_iff`: when entries are sorted by a key and ties come in
  any order, the decision is determined exactly when the matching entries of
  least key agree.
-/

variable {α β γ κ : Type*}

/-- The verdict of the first entry of `l` that matches, or `dflt`. -/
def firstMatch (hit : α → Bool) (verdict : α → β) (dflt : β) (l : List α) : β :=
  ((l.find? hit).map verdict).getD dflt

section Basic

variable (hit : α → Bool) (verdict : α → β) (dflt : β)

/-- An empty list leaves the default. -/
@[simp] theorem firstMatch_nil : firstMatch hit verdict dflt [] = dflt := rfl

theorem firstMatch_cons (a : α) (l : List α) :
    firstMatch hit verdict dflt (a :: l) =
      if hit a then verdict a else firstMatch hit verdict dflt l := by
  simp only [firstMatch, List.find?_cons]
  cases hit a <;> rfl

theorem firstMatch_of_find?_eq_some {l : List α} {a : α} (h : l.find? hit = some a) :
    firstMatch hit verdict dflt l = verdict a := by
  simp only [firstMatch, h, Option.map_some, Option.getD_some]

private theorem firstMatch_of_find?_eq_none {l : List α} (h : l.find? hit = none) :
    firstMatch hit verdict dflt l = dflt := by
  simp only [firstMatch, h, Option.map_none, Option.getD_none]

/-- Two lists in a row: the second one is the default of the first. -/
theorem firstMatch_append (l₁ l₂ : List α) :
    firstMatch hit verdict dflt (l₁ ++ l₂) =
      firstMatch hit verdict (firstMatch hit verdict dflt l₂) l₁ := by
  induction l₁ with
  | nil => rfl
  | cons a l₁ ih => rw [List.cons_append, firstMatch_cons, firstMatch_cons, ih]

/-- A verdict is reached through the first match, or through the default when
    nothing matches. -/
theorem firstMatch_eq_iff (l : List α) (b : β) :
    firstMatch hit verdict dflt l = b ↔
      (∃ l₁ a l₂, l = l₁ ++ a :: l₂ ∧ hit a = true ∧ (∀ x ∈ l₁, hit x = false) ∧
        verdict a = b) ∨
      ((∀ x ∈ l, hit x = false) ∧ dflt = b) := by
  induction l with
  | nil => simp
  | cons x l ih =>
    rw [firstMatch_cons]
    split
    · -- `x` itself decides; no longer split can put a match before it
      rename_i hx
      constructor
      · intro hb
        exact .inl ⟨[], x, l, rfl, hx, nofun, hb⟩
      · rintro (⟨l₁, a, l₂, heq, _, hl₁, hb⟩ | ⟨hall, _⟩)
        · cases l₁ with
          | nil =>
            obtain ⟨rfl, rfl⟩ := List.cons.inj heq
            exact hb
          | cons y l₁ =>
            obtain ⟨rfl, rfl⟩ := List.cons.inj heq
            exact absurd hx (by simp [hl₁ x List.mem_cons_self])
        · exact absurd hx (by simp [hall x List.mem_cons_self])
    · -- `x` is passed over: it joins the entries before the match
      rename_i hx
      have hx' : hit x = false := by simpa using hx
      rw [ih]
      constructor
      · rintro (⟨l₁, a, l₂, rfl, ha, hl₁, hb⟩ | ⟨hall, hb⟩)
        · exact .inl ⟨x :: l₁, a, l₂, rfl, ha, List.forall_mem_cons.mpr ⟨hx', hl₁⟩, hb⟩
        · exact .inr ⟨List.forall_mem_cons.mpr ⟨hx', hall⟩, hb⟩
      · rintro (⟨l₁, a, l₂, heq, ha, hl₁, hb⟩ | ⟨hall, hb⟩)
        · cases l₁ with
          | nil =>
            obtain ⟨rfl, rfl⟩ := List.cons.inj heq
            exact absurd ha hx
          | cons y l₁ =>
            obtain ⟨rfl, rfl⟩ := List.cons.inj heq
            exact .inl ⟨l₁, a, l₂, rfl, ha, (List.forall_mem_cons.mp hl₁).2, hb⟩
        · exact .inr ⟨(List.forall_mem_cons.mp hall).2, hb⟩

/-- Two lists of entries that match and decide alike, entry by entry, reach the
    same verdict. -/
theorem firstMatch_congr {hit' : α → Bool} {verdict' : α → β} {l : List α}
    (hhit : ∀ a ∈ l, hit a = hit' a) (hv : ∀ a ∈ l, hit a = true → verdict a = verdict' a) :
    firstMatch hit verdict dflt l = firstMatch hit' verdict' dflt l := by
  induction l with
  | nil => rfl
  | cons a l ih =>
    rw [firstMatch_cons, firstMatch_cons, ← hhit a List.mem_cons_self]
    split
    · rename_i h
      exact hv a List.mem_cons_self h
    · exact ih (fun b hb => hhit b (List.mem_cons_of_mem _ hb))
        (fun b hb => hv b (List.mem_cons_of_mem _ hb))

/-- A block whose entries all have one verdict decides like a single entry that
    matches when some entry of the block does. -/
private theorem firstMatch_block (b : List α) {v : β} (hv : ∀ a ∈ b, verdict a = v) :
    firstMatch hit verdict dflt b = if b.any hit then v else dflt := by
  induction b with
  | nil => rfl
  | cons a b ih =>
    rw [firstMatch_cons, List.any_cons, ih fun x hx => hv x (List.mem_cons_of_mem _ hx)]
    cases ha : hit a with
    | true => simp [hv a List.mem_cons_self]
    | false => simp

/-- Expanding every entry into a block of entries with its verdict, which match
    together exactly when the entry does, changes no decision. -/
theorem firstMatch_flatMap (expand : γ → List α) {hit' : γ → Bool} {verdict' : γ → β}
    {l : List γ} (hhit : ∀ c ∈ l, (expand c).any hit = hit' c)
    (hv : ∀ c ∈ l, ∀ a ∈ expand c, verdict a = verdict' c) :
    firstMatch hit verdict dflt (l.flatMap expand) = firstMatch hit' verdict' dflt l := by
  induction l with
  | nil => rfl
  | cons c l ih =>
    rw [List.flatMap_cons, firstMatch_append, firstMatch_cons,
      firstMatch_block _ _ _ _ (hv c List.mem_cons_self), hhit c List.mem_cons_self,
      ih (fun d hd => hhit d (List.mem_cons_of_mem _ hd))
        (fun d hd => hv d (List.mem_cons_of_mem _ hd))]

/-- Translating the entries one by one, and dropping those that have no
    translation, changes no decision if what is dropped never matches. -/
theorem firstMatch_filterMap (f : γ → Option α) {hit' : γ → Bool} {verdict' : γ → β}
    {l : List γ} (hdrop : ∀ c ∈ l, f c = none → hit' c = false)
    (hkeep : ∀ c ∈ l, ∀ a, f c = some a → hit a = hit' c ∧ verdict a = verdict' c) :
    firstMatch hit verdict dflt (l.filterMap f) = firstMatch hit' verdict' dflt l := by
  induction l with
  | nil => rfl
  | cons c l ih =>
    have ih' := ih (fun d hd => hdrop d (List.mem_cons_of_mem _ hd))
      (fun d hd => hkeep d (List.mem_cons_of_mem _ hd))
    -- an entry that is dropped matches nothing, one that is kept matches the same
    cases hf : f c with
    | none =>
      rw [List.filterMap_cons_none hf, firstMatch_cons, hdrop c List.mem_cons_self hf, ih']
      rfl
    | some a =>
      obtain ⟨ha, hva⟩ := hkeep c List.mem_cons_self a hf
      rw [List.filterMap_cons_some hf, firstMatch_cons, firstMatch_cons, ha, hva, ih']

/-- A mapped list, with the tests pulled back. -/
theorem firstMatch_map (f : γ → α) (l : List γ) :
    firstMatch hit verdict dflt (l.map f) = firstMatch (hit ∘ f) (verdict ∘ f) dflt l := by
  induction l with
  | nil => rfl
  | cons c l ih => rw [List.map_cons, firstMatch_cons, firstMatch_cons, ih]; rfl

/-- Dropping entries beforehand is the same as never matching them. -/
theorem firstMatch_filter (keep : α → Bool) (l : List α) :
    firstMatch hit verdict dflt (l.filter keep) =
      firstMatch (fun a => keep a && hit a) verdict dflt l := by
  induction l with
  | nil => rfl
  | cons a l ih =>
    rw [List.filter_cons, firstMatch_cons, ← ih]
    cases hk : keep a with
    | true => simp only [↓reduceIte, firstMatch_cons, Bool.true_and]
    | false => simp only [Bool.false_eq_true, ↓reduceIte, Bool.false_and]

end Basic

/-! ## Entries sorted by a key -/

section Sorted

variable [LinearOrder κ] (key : α → κ)

/-- `l` lists the entries of `s` in ascending key order, ties in any order. -/
structure SortedRun (s l : List α) : Prop where
  perm : l.Perm s
  sorted : l.Pairwise fun a b => key a ≤ key b

/-- `a` is a matching entry of `s` with the least key of all matching entries. -/
structure Leads (hit : α → Bool) (s : List α) (a : α) : Prop where
  mem : a ∈ s
  matched : hit a = true
  least : ∀ b ∈ s, hit b = true → key a ≤ key b

variable {key} {hit : α → Bool} {s : List α}

/-- The first match of a sorted list has the least key of all matches. -/
private theorem SortedRun.leads {l : List α} (hl : SortedRun key s l) {a : α}
    (h : l.find? hit = some a) : Leads key hit s a := by
  rw [List.find?_eq_some_iff_append] at h
  obtain ⟨ha, l₁, l₂, rfl, hbefore⟩ := h
  refine ⟨hl.perm.subset (by simp), ha, fun b hb hhb => ?_⟩
  have hb' : b ∈ l₁ ++ a :: l₂ := hl.perm.symm.subset hb
  rw [List.mem_append, List.mem_cons] at hb'
  -- before `a` nothing matches, after it the keys are no smaller
  rcases hb' with hb' | rfl | hb'
  · exact absurd hhb (by simpa using hbefore b hb')
  · exact le_refl _
  · exact (List.pairwise_append.mp hl.sorted).2.1 |> List.rel_of_pairwise_cons <| hb'

/-- The comparison of keys is transitive, as `List.mergeSort` wants it. -/
private theorem keyLE_trans (a b c : α) (hab : decide (key a ≤ key b) = true)
    (hbc : decide (key b ≤ key c) = true) : decide (key a ≤ key c) = true := by
  simp only [decide_eq_true_eq] at hab hbc ⊢
  exact le_trans hab hbc

/-- The comparison of keys is total, as `List.mergeSort` wants it. -/
private theorem keyLE_total (a b : α) :
    (decide (key a ≤ key b) || decide (key b ≤ key a)) = true := by
  simpa only [Bool.or_eq_true, decide_eq_true_eq] using le_total (key a) (key b)

/-- Stable sorting gives a sorted run. -/
theorem SortedRun.mergeSort {l : List α} (hl : l.Perm s) :
    SortedRun key s (l.mergeSort fun a b => decide (key a ≤ key b)) := by
  refine ⟨(List.mergeSort_perm _ _).trans hl, ?_⟩
  refine (List.pairwise_mergeSort keyLE_trans keyLE_total l).imp fun h => ?_
  exact of_decide_eq_true h

/-- Stable sorting keeps a matching entry of least key in front of its ties, so
    when it comes first it is the first match. -/
theorem Leads.find?_mergeSort_cons {a : α} {l : List α} (h : Leads key hit (a :: l) a) :
    ((a :: l).mergeSort fun a b => decide (key a ≤ key b)).find? hit = some a := by
  obtain ⟨m₁, m₂, heq, hrest, hlt⟩ :=
    List.mergeSort_cons (@keyLE_trans _ _ _ key) keyLE_total a l
  rw [heq, List.find?_eq_some_iff_append]
  refine ⟨h.matched, m₁, m₂, rfl, fun b hb => ?_⟩
  -- everything sorted before `a` has a smaller key, so it cannot match
  have hbl : b ∈ l.mergeSort fun a b => decide (key a ≤ key b) := by
    rw [hrest]
    exact List.mem_append_left _ hb
  have hnle : ¬ key a ≤ key b := by simpa using hlt b hb
  cases hhb : hit b with
  | false => rfl
  | true => exact absurd (h.least b (List.mem_cons_of_mem _ (List.mem_mergeSort.mp hbl)) hhb) hnle

/-- Leading depends on the entries only, not on their order. -/
private theorem Leads.of_perm {a : α} {t : List α} (h : Leads key hit s a) (hst : s.Perm t) :
    Leads key hit t a :=
  ⟨hst.subset h.mem, h.matched, fun b hb => h.least b (hst.symm.subset hb)⟩

/-- Every matching entry of least key is the first match of some sorted run. -/
private theorem Leads.exists_run {a : α} (h : Leads key hit s a) :
    ∃ l, SortedRun key s l ∧ l.find? hit = some a := by
  obtain ⟨l₁, l₂, rfl⟩ := List.append_of_mem h.mem
  -- move it to the front and sort stably
  exact ⟨_, SortedRun.mergeSort List.perm_middle.symm,
    (h.of_perm List.perm_middle).find?_mergeSort_cons⟩

/-- A sorted list decides by one of the matching entries of least key. -/
private theorem SortedRun.firstMatch_eq {l : List α} (hl : SortedRun key s l) (hit : α → Bool)
    (verdict : α → β) (dflt : β) :
    (∃ a, Leads key hit s a ∧ firstMatch hit verdict dflt l = verdict a) ∨
      ((∀ a ∈ s, hit a = false) ∧ firstMatch hit verdict dflt l = dflt) := by
  cases hf : l.find? hit with
  | some a => exact .inl ⟨a, hl.leads hf, firstMatch_of_find?_eq_some hit verdict dflt hf⟩
  | none =>
    refine .inr ⟨fun a ha => ?_, firstMatch_of_find?_eq_none hit verdict dflt hf⟩
    simpa using List.find?_eq_none.mp hf a (hl.perm.symm.subset ha)

/-- The verdict of a sorted list does not depend on how ties are ordered exactly
    when the matching entries of least key agree. -/
theorem sorted_firstMatch_eq_iff (verdict : α → β) (dflt : β) :
    (∀ l₁ l₂, SortedRun key s l₁ → SortedRun key s l₂ →
        firstMatch hit verdict dflt l₁ = firstMatch hit verdict dflt l₂) ↔
      ∀ a b, Leads key hit s a → Leads key hit s b → verdict a = verdict b := by
  constructor
  · -- each leader stands first in some sorted run, and all runs agree
    intro h a b ha hb
    have ⟨la, hla, hfa⟩ := ha.exists_run
    have ⟨lb, hlb, hfb⟩ := hb.exists_run
    have := h _ _ hla hlb
    rwa [firstMatch_of_find?_eq_some hit verdict dflt hfa,
      firstMatch_of_find?_eq_some hit verdict dflt hfb] at this
  · -- each run answers with a leader, or there is no match in either of them
    intro h l₁ l₂ h₁ h₂
    rcases h₁.firstMatch_eq hit verdict dflt with ⟨a, ha, ea⟩ | ⟨hn, e₁⟩
    · rcases h₂.firstMatch_eq hit verdict dflt with ⟨b, hb, eb⟩ | ⟨hn, _⟩
      · rw [ea, eb, h a b ha hb]
      · exact absurd ha.matched (by simp [hn a ha.mem])
    · rcases h₂.firstMatch_eq hit verdict dflt with ⟨b, hb, _⟩ | ⟨_, e₂⟩
      · exact absurd hb.matched (by simp [hn b hb.mem])
      · rw [e₁, e₂]

end Sorted
