import Mathlib.Data.Finset.Card
import Blinex.ForStd.Prog

/-!
# Counting semaphores

A program takes a slot by an operation that tells it whether it got one, and gives it back by
another. `Owes` says that along every path a program gives back what it has taken, and takes no
second slot before; it is checked for one program at a time. If every program obeys, then in any
interleaving the count is the number of the programs that owe a slot (`Balanced.step`): it never
passes the capacity, and a slot that is given back was there.
-/

namespace Semaphore

/-- What an operation with results in `R` is to the semaphore. -/
inductive Kind (R : Type) where
  | acquire (got : R → Bool)
  | release
  | other

variable {Op : Type} {Res : Op → Type} {α β σ ι : Type} {kind : (o : Op) → Kind (Res o)}

/-- Whatever the results are, a program that holds a slot or not, as `held` says, ends up holding
    one as `post` says of its result. -/
def Owes (kind : (o : Op) → Kind (Res o)) (post : α → Bool) : Bool → Prog Res α → Prop
  | held, .ret a => held = post a
  | held, .op o next =>
    match kind o with
    | .acquire got => held = false ∧ ∀ r, Owes kind post (got r) (next r)
    | .release => held = true ∧ ∀ r, Owes kind post false (next r)
    | .other => ∀ r, Owes kind post held (next r)

/-- A program about to acquire holds no slot, and owes one if it gets it. -/
private theorem owes_acquire {post : α → Bool} {held : Bool} {o : Op} {got : Res o → Bool}
    {next : Res o → Prog Res α} (h : kind o = .acquire got) :
    Owes kind post held (.op o next) ↔ held = false ∧ ∀ r, Owes kind post (got r) (next r) := by
  rw [Owes, h]

/-- A program about to release owes a slot, and none after that. -/
theorem owes_release {post : α → Bool} {held : Bool} {o : Op} {next : Res o → Prog Res α}
    (h : kind o = .release) :
    Owes kind post held (.op o next) ↔ held = true ∧ ∀ r, Owes kind post false (next r) := by
  rw [Owes, h]

/-- Another operation does not change what is owed. -/
theorem owes_other {post : α → Bool} {held : Bool} {o : Op} {next : Res o → Prog Res α}
    (h : kind o = .other) :
    Owes kind post held (.op o next) ↔ ∀ r, Owes kind post held (next r) := by
  rw [Owes, h]

/-- Sequencing: what the first program still owes is what the second one starts with. -/
theorem Owes.bind {post : α → Bool} {post' : β → Bool} {held : Bool} {p : Prog Res α}
    {f : α → Prog Res β} (hp : Owes kind post held p)
    (hf : ∀ a, Owes kind post' (post a) (f a)) : Owes kind post' held (p >>= f) := by
  induction p generalizing held with
  | ret a =>
    obtain rfl : held = post a := hp
    exact hf a
  | op o next ih =>
    rw [Prog.op_bind]
    -- the operation itself is the same in both programs
    cases hk : kind o with
    | acquire got =>
      rw [owes_acquire hk] at hp ⊢
      exact ⟨hp.1, fun r => ih r (hp.2 r)⟩
    | release =>
      rw [owes_release hk] at hp ⊢
      exact ⟨hp.1, fun r => ih r (hp.2 r)⟩
    | other =>
      rw [owes_other hk] at hp ⊢
      exact fun r => ih r (hp r)

/-- A program owes a slot or it does not. -/
private theorem Owes.not_both [∀ o, Nonempty (Res o)] {post : α → Bool} {p : Prog Res α}
    (h : Owes kind post true p) : ¬Owes kind post false p := by
  induction p with
  | ret a =>
    intro h'
    have heq : true = false := (show true = post a from h).trans (show false = post a from h').symm
    cases heq
  | op o next ih =>
    intro h'
    cases hk : kind o with
    -- each operation fixes what is owed before it, except the last kind, which passes it on
    | acquire got =>
      rw [owes_acquire hk] at h
      cases h.1
    | release =>
      rw [owes_release hk] at h'
      cases h'.1
    | other =>
      rw [owes_other hk] at h h'
      obtain ⟨r⟩ := (inferInstance : Nonempty (Res o))
      exact ih r (h r) (h' r)

/-- What the operations do to the count. -/
structure Counts (kind : (o : Op) → Kind (Res o)) (exec : (o : Op) → σ → Res o × σ)
    (count : σ → Nat) (cap : Nat) : Prop where
  acquire : ∀ o got s, kind o = .acquire got → got (exec o s).1 = decide (count s < cap) ∧
    count (exec o s).2 = if count s < cap then count s + 1 else count s
  release : ∀ o s, kind o = .release → count (exec o s).2 = count s - 1
  other : ∀ o s, kind o = .other → count (exec o s).2 = count s

/-- The programs that owe a slot. -/
def Owing (kind : (o : Op) → Kind (Res o)) (p : Pool Res α σ) (pid : Nat) : Prop :=
  ∃ q, p.procs pid = some q ∧ Owes kind (fun _ => false) true q

/-- The count is the number of the programs that owe a slot, and within the capacity. -/
structure Balanced (kind : (o : Op) → Kind (Res o)) (count : σ → Nat) (cap : Nat)
    (p : Pool Res α σ) : Prop where
  obeys : ∀ pid q, p.procs pid = some q → ∃ held, Owes kind (fun _ => false) held q
  counted : ∃ owing : Finset Nat, (∀ pid, pid ∈ owing ↔ Owing kind p pid) ∧
    owing.card = count p.state
  within : count p.state ≤ cap

/-- A slot that a program owes is counted. -/
theorem Balanced.pos {count : σ → Nat} {cap : Nat} {p : Pool Res α σ}
    (h : Balanced kind count cap p) {pid : Nat} (howing : Owing kind p pid) :
    0 < count p.state := by
  obtain ⟨owing, hmem, hcard⟩ := h.counted
  rw [← hcard]
  exact Finset.card_pos.mpr ⟨pid, (hmem pid).mpr howing⟩

section Step

variable [∀ o, Nonempty (Res o)] {exec : (o : Op) → σ → Res o × σ} {count : σ → Nat} {cap : Nat}
  {prog : ι → Prog Res α} {p p' : Pool Res α σ}

/-- A program at work owes a slot as its text says. -/
private theorem owing_iff {pid : Nat} {q : Prog Res α} {held : Bool} (hpid : p.procs pid = some q)
    (hq : Owes kind (fun _ => false) held q) : Owing kind p pid ↔ held = true := by
  simp only [Owing, hpid, Option.some.injEq, exists_eq_left']
  cases held with
  | true => exact ⟨fun _ => rfl, fun _ => hq⟩
  | false => exact ⟨fun howes => absurd hq howes.not_both, fun heq => by cases heq⟩

/-- One program moves from `was` to `held`, and the count with it. -/
theorem Balanced.set (h : Balanced kind count cap p) {pid : Nat} {q : Prog Res α} {s : σ}
    {log : List (Nat × Op)} {was held : Bool} (hwas : Owing kind p pid ↔ was = true)
    (hq : Owes kind (fun _ => false) held q)
    (hcount : count s + was.toNat = count p.state + held.toNat) (hle : count s ≤ cap) :
    Balanced kind count cap { state := s, procs := p.procs.set pid q, log } := by
  refine ⟨fun pid' q' hq' => ?_, ?_, hle⟩
  · rcases PMap.set_eq_some _ hq' with ⟨-, rfl⟩ | ⟨-, hq'⟩
    · exact ⟨held, hq⟩
    · exact h.obeys pid' q' hq'
  · -- of the set of those who owe, only `pid` may join it or leave it
    obtain ⟨owing, hmem, hcard⟩ := h.counted
    have hother : ∀ pid', pid' ≠ pid →
        (Owing kind { state := s, procs := p.procs.set pid q, log } pid' ↔ Owing kind p pid') := by
      intro pid' hne
      simp only [Owing, PMap.set_ne _ _ hne]
    have hself : Owing kind { state := s, procs := p.procs.set pid q, log } pid ↔ held = true :=
      owing_iff (PMap.set_self _ _ _) hq
    cases held with
    | true =>
      refine ⟨insert pid owing, fun pid' => ?_, ?_⟩
      · by_cases hpid : pid' = pid
        · subst hpid
          exact iff_of_true (Finset.mem_insert_self _ _) (hself.mpr rfl)
        · rw [Finset.mem_insert, or_iff_right hpid, hmem, hother pid' hpid]
      · cases was with
        | true =>
          rw [Finset.insert_eq_of_mem ((hmem pid).mpr (hwas.mpr rfl)), hcard]
          simpa using hcount.symm
        | false =>
          have hnot : pid ∉ owing := fun hin => by cases hwas.mp ((hmem pid).mp hin)
          rw [Finset.card_insert_of_notMem hnot, hcard]
          simpa using hcount.symm
    | false =>
      refine ⟨owing.erase pid, fun pid' => ?_, ?_⟩
      · by_cases hpid : pid' = pid
        · subst hpid
          exact iff_of_false (Finset.notMem_erase _ _) fun howing => by cases hself.mp howing
        · rw [Finset.mem_erase, and_iff_right hpid, hmem, hother pid' hpid]
      · cases was with
        | true =>
          have hin : pid ∈ owing := (hmem pid).mpr (hwas.mpr rfl)
          rw [Finset.card_erase_of_mem hin, hcard]
          exact Nat.sub_eq_of_eq_add hcount.symm
        | false =>
          have hnot : pid ∉ owing := fun hin => by cases hwas.mp ((hmem pid).mp hin)
          rw [Finset.erase_eq_of_notMem hnot, hcard]
          simpa using hcount.symm

/-- The balance is kept: a slot is counted exactly while one of the programs owes it. -/
theorem Balanced.step (hlaws : Counts kind exec count cap)
    (hprog : ∀ i, Owes kind (fun _ => false) false (prog i)) (h : Balanced kind count cap p)
    {ev : PoolEvent ι} (hstep : Pool.step exec prog p ev = some p') :
    Balanced kind count cap p' := by
  rcases Pool.step_cases hstep with ⟨pid, i, rfl, hfree, rfl⟩ | ⟨pid, o, next, rfl, hpid, rfl⟩
  · -- a new program owes nothing
    have hnot : Owing kind p pid ↔ false = true := by simp [Owing, hfree]
    exact h.set hnot (hprog i) rfl h.within
  · obtain ⟨held, hheld⟩ := h.obeys pid _ hpid
    have hwas := owing_iff hpid hheld
    have hwithin := h.within
    cases hk : kind o with
    | acquire got =>
      obtain ⟨rfl, hnext⟩ := (owes_acquire hk).mp hheld
      obtain ⟨hgot, hcount⟩ := hlaws.acquire o got p.state hk
      refine h.set hwas (hnext _) ?_ ?_
      · -- the slot is taken when there is room, and the program knows it
        rw [hcount, hgot]
        by_cases hroom : count p.state < cap <;> simp [hroom]
      · rw [hcount]
        split <;> omega
    | release =>
      obtain ⟨rfl, hnext⟩ := (owes_release hk).mp hheld
      -- the program owes a slot, so the count is not zero
      have hpos := h.pos (hwas.mpr rfl)
      have hcount := hlaws.release o p.state hk
      refine h.set hwas (hnext _) ?_ (by omega)
      simp only [hcount, Bool.toNat_true, Bool.toNat_false]
      omega
    | other =>
      have hcount := hlaws.other o p.state hk
      refine h.set hwas ((owes_other hk).mp hheld _) (by rw [hcount]) (by omega)

end Step

end Semaphore
