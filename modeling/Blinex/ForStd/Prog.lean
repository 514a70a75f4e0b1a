import Blinex.ForStd.PMap
import Blinex.ForStd.Run

/-!
# Programs over atomic operations

A `Prog` is a sequence of operations of some interface, each chosen from the
results of those before it. What an operation does to the shared state is left to
an interpreter `exec`, so one program has two semantics: run alone (`Prog.run`), or
interleaved with others operation by operation (`Pool`).

A `Contract` says what a program may assume of the result of each operation and
which operations it may perform. If the interpreter keeps an invariant under every
permitted operation and the results are then as assumed (`Contract.Keeps`), programs
that meet the contract keep the invariant, alone (`Prog.Meets.run`) and in any
interleaving (`Pool.AllMeet.step`).
-/

/-- A program that performs operations `o : Op` with results in `Res o` and returns
    an `α`. -/
inductive Prog {Op : Type} (Res : Op → Type) (α : Type) where
  | ret (a : α)
  | op (o : Op) (next : Res o → Prog Res α)

namespace Prog

variable {Op : Type} {Res : Op → Type} {α β σ : Type}

/-- Sequential composition. -/
def bind : Prog Res α → (α → Prog Res β) → Prog Res β
  | ret a, f => f a
  | op o next, f => op o fun r => (next r).bind f

instance : Monad (Prog Res) where
  pure := ret
  bind := bind

/-- A program that has returned hands its value on. -/
@[simp] theorem ret_bind (a : α) (f : α → Prog Res β) : (ret a : Prog Res α) >>= f = f a := rfl

/-- The operations come first. -/
@[simp] theorem op_bind (o : Op) (next : Res o → Prog Res α) (f : α → Prog Res β) :
    op o next >>= f = op o fun r => next r >>= f := rfl

/-! ## Running alone -/

/-- The result of a program that nothing interrupts, and the state it leaves. -/
def run (exec : (o : Op) → σ → Res o × σ) : Prog Res α → σ → α × σ
  | ret a, s => (a, s)
  | op o next, s => (next (exec o s).1).run exec (exec o s).2

variable {exec : (o : Op) → σ → Res o × σ}

/-- Returning leaves the state alone. -/
@[simp] theorem run_ret (a : α) (s : σ) : (ret a : Prog Res α).run exec s = (a, s) := rfl

/-- The same for `pure`. -/
@[simp] theorem run_pure (a : α) (s : σ) : (pure a : Prog Res α).run exec s = (a, s) := rfl

/-- An operation is executed, and the rest runs from where it leaves the state. -/
@[simp] theorem run_op (o : Op) (next : Res o → Prog Res α) (s : σ) :
    (op o next).run exec s = (next (exec o s).1).run exec (exec o s).2 := rfl

/-- Programs in sequence run in sequence. -/
@[simp] theorem run_bind (p : Prog Res α) (f : α → Prog Res β) (s : σ) :
    (p >>= f).run exec s = (f (p.run exec s).1).run exec (p.run exec s).2 := by
  -- on the program; every operation changes the state, so `s` is general
  induction p generalizing s with
  | ret a => rfl
  | op o next ih => exact ih (exec o s).1 (exec o s).2

end Prog

/-! ## Contracts -/

/-- What may be assumed of each result, and which operations are permitted. -/
structure Contract {Op : Type} (Res : Op → Type) where
  rely : (o : Op) → Res o → Prop
  guar : Op → Prop

namespace Prog

variable {Op : Type} {Res : Op → Type} {α β σ : Type} {c : Contract Res}

/-- As long as the results are as assumed, the program only performs permitted
    operations, and what it returns satisfies `post`. -/
def Meets (c : Contract Res) (post : α → Prop) : Prog Res α → Prop
  | ret a => post a
  | op o next => c.guar o ∧ ∀ r, c.rely o r → (next r).Meets c post

/-- Sequencing: the first program's postcondition is what the second one may use. -/
theorem Meets.bind {post : α → Prop} {post' : β → Prop} {p : Prog Res α} {f : α → Prog Res β}
    (hp : p.Meets c post) (hf : ∀ a, post a → (f a).Meets c post') : (p >>= f).Meets c post' := by
  induction p with
  | ret a => exact hf a hp
  | op o next ih => exact ⟨hp.1, fun r hr => ih r (hp.2 r hr)⟩

theorem Meets.imp {post post' : α → Prop} {p : Prog Res α} (hp : p.Meets c post)
    (h : ∀ a, post a → post' a) : p.Meets c post' := by
  induction p with
  | ret a => exact h a hp
  | op o next ih => exact ⟨hp.1, fun r hr => ih r (hp.2 r hr)⟩

/-- A program that assumes less and does less meets the wider contract. -/
theorem Meets.weaken {c' : Contract Res} {post : α → Prop} {p : Prog Res α} (hp : p.Meets c post)
    (hrely : ∀ o r, c'.rely o r → c.rely o r) (hguar : ∀ o, c.guar o → c'.guar o) :
    p.Meets c' post := by
  induction p with
  | ret a => exact hp
  | op o next ih => exact ⟨hguar o hp.1, fun r hr => ih r (hp.2 r (hrely o r hr))⟩

end Prog

/-- The interpreter keeps the invariant under the permitted operations and answers
    as the contract assumes. -/
def Contract.Keeps {Op : Type} {Res : Op → Type} {σ : Type} (c : Contract Res)
    (exec : (o : Op) → σ → Res o × σ) (Inv : σ → Prop) : Prop :=
  ∀ o s, Inv s → c.guar o → Inv (exec o s).2 ∧ c.rely o (exec o s).1

/-- A program that meets the contract keeps the invariant. -/
theorem Prog.Meets.run {Op : Type} {Res : Op → Type} {α σ : Type} {c : Contract Res}
    {exec : (o : Op) → σ → Res o × σ} {Inv : σ → Prop} (hk : c.Keeps exec Inv)
    {post : α → Prop} {p : Prog Res α} (hp : p.Meets c post) {s : σ} (hs : Inv s) :
    Inv (p.run exec s).2 ∧ post (p.run exec s).1 := by
  induction p generalizing s with
  | ret a => exact ⟨hs, hp⟩
  | op o next ih =>
    obtain ⟨hinv, hrely⟩ := hk o s hs hp.1
    exact ih _ (hp.2 _ hrely) hinv

/-! ## Interleaving -/

/-- Programs at work on a shared state. `log` is history: the operations performed,
    newest first. -/
structure Pool {Op : Type} (Res : Op → Type) (α σ : Type) where
  state : σ
  procs : PMap Nat (Prog Res α) := PMap.empty
  log : List (Nat × Op) := []

/-- A program starts, or one performs its next operation. -/
inductive PoolEvent (ι : Type) where
  | start (pid : Nat) (i : ι)
  | act (pid : Nat)

namespace Pool

variable {Op : Type} {Res : Op → Type} {α σ ι : Type}

/-- One event of an interleaving; `prog i` is the program that request `i` starts. -/
def step (exec : (o : Op) → σ → Res o × σ) (prog : ι → Prog Res α) (p : Pool Res α σ) :
    PoolEvent ι → Option (Pool Res α σ)
  | .start pid i =>
    match p.procs pid with
    | none => some { p with procs := p.procs.set pid (prog i) }
    | some _ => none
  | .act pid =>
    match p.procs pid with
    | some (.op o next) =>
      some { state := (exec o p.state).2
             procs := p.procs.set pid (next (exec o p.state).1)
             log := (pid, o) :: p.log }
    | _ => none

/-- The operation that a program at work performs next. -/
def nextOp (p : Pool Res α σ) (pid : Nat) : Option Op :=
  match p.procs pid with
  | some (.op o _) => some o
  | _ => none

/-- The operation that a program waits to execute. -/
theorem nextOp_eq_some {p : Pool Res α σ} {pid : Nat} {o : Op} {next : Res o → Prog Res α}
    (h : p.procs pid = some (.op o next)) : p.nextOp pid = some o := by
  rw [nextOp, h]

/-- What a program has returned. -/
def result (p : Pool Res α σ) (pid : Nat) : Option α :=
  match p.procs pid with
  | some (.ret a) => some a
  | _ => none

/-- A result is that of a program which has returned. -/
theorem result_eq_some {p : Pool Res α σ} {pid : Nat} {a : α} (h : p.result pid = some a) :
    p.procs pid = some (.ret a) := by
  unfold result at h
  split at h
  · rename_i hpid
    rw [hpid, Option.some.inj h]
  · exact absurd h nofun

variable {exec : (o : Op) → σ → Res o × σ} {prog : ι → Prog Res α}

/-- What a step can do: start a program under a free number, or execute the next operation of one.
    -/
theorem step_cases {p p' : Pool Res α σ} {ev : PoolEvent ι} (h : step exec prog p ev = some p') :
    (∃ pid i, ev = .start pid i ∧ p.procs pid = none ∧
      p' = { p with procs := p.procs.set pid (prog i) }) ∨
    (∃ pid o next, ev = .act pid ∧ p.procs pid = some (.op o next) ∧
      p' = { state := (exec o p.state).2
             procs := p.procs.set pid (next (exec o p.state).1)
             log := (pid, o) :: p.log }) := by
  cases ev with
  | start pid i =>
    simp only [step] at h
    -- the number is free
    split at h
    · exact .inl ⟨pid, i, rfl, ‹_›, (Option.some.inj h).symm⟩
    · cases h
  | act pid =>
    simp only [step] at h
    -- the program has an operation left
    split at h
    · exact .inr ⟨pid, _, _, rfl, ‹_›, (Option.some.inj h).symm⟩
    · cases h

/-! ### Programs that meet a contract -/

variable {c : Contract Res} {Inv : σ → Prop} {post : α → Prop}

/-- The invariant holds and every program at work meets the contract. -/
structure AllMeet (c : Contract Res) (Inv : σ → Prop) (post : α → Prop) (p : Pool Res α σ) :
    Prop where
  inv : Inv p.state
  meets : ∀ pid q, p.procs pid = some q → q.Meets c post

/-- A step keeps the invariant, and leaves everyone with a program that meets the contract. -/
theorem AllMeet.step {p p' : Pool Res α σ} {ev : PoolEvent ι} (hk : c.Keeps exec Inv)
    (hstart : ∀ pid i, ev = .start pid i → (prog i).Meets c post) (hp : AllMeet c Inv post p)
    (h : step exec prog p ev = some p') : AllMeet c Inv post p' := by
  rcases step_cases h with ⟨pid, i, rfl, _, rfl⟩ | ⟨pid, o, next, rfl, hpid, rfl⟩
  · -- a program starts, and the state is as it was
    refine ⟨hp.inv, fun q r hq => ?_⟩
    rcases PMap.set_eq_some _ hq with ⟨_, rfl⟩ | ⟨_, hq⟩
    · exact hstart pid i rfl
    · exact hp.meets q r hq
  · -- an operation keeps the invariant, and its answer is one that the rest may rely on
    obtain ⟨hguar, hnext⟩ := hp.meets pid _ hpid
    obtain ⟨hinv, hrely⟩ := hk o p.state hp.inv hguar
    refine ⟨hinv, fun q r hq => ?_⟩
    rcases PMap.set_eq_some _ hq with ⟨_, rfl⟩ | ⟨_, hq⟩
    · exact hnext _ hrely
    · exact hp.meets q r hq

end Pool

section One

variable {Op : Type} {Res : Op → Type} {α σ ι : Type} {interp : (o : Op) → σ → Res o × σ}
  {prog : ι → Prog Res α} {c : Contract Res} {post : α → Prop} {Q : σ → Prop}

/-- As long as every state answers as the contract assumes, a program that meets it only performs
    permitted operations, whatever the others do. -/
theorem Pool.log_of_meets (hrely : ∀ o s, Q s → c.rely o (interp o s).1) {p p' : Pool Res α σ}
    {evs : List (PoolEvent ι)} {pid : Nat} (hprog : ∀ i, .start pid i ∈ evs → (prog i).Meets c post)
    (hpid : ∀ q, p.procs pid = some q → q.Meets c post)
    (hrun : exec (Pool.step interp prog) p evs = some p')
    (hQ : Throughout (Pool.step interp prog) (fun p => Q p.state) p evs) {o : Op}
    (ho : (pid, o) ∈ p'.log) : (pid, o) ∈ p.log ∨ c.guar o := by
  -- on the run; the program at `pid` meets the contract in every state of it
  induction evs generalizing p with
  | nil =>
    obtain rfl := Option.some.inj hrun
    exact .inl ho
  | cons ev evs ih =>
    obtain ⟨p₁, hstep, hrest⟩ := exec_cons_eq_some hrun
    obtain ⟨hnow, hlater⟩ := hQ
    have hprogs : ∀ i, .start pid i ∈ evs → (prog i).Meets c post :=
      fun i hi => hprog i (List.mem_cons_of_mem _ hi)
    rcases Pool.step_cases hstep with ⟨pid', i, rfl, -, rfl⟩ | ⟨pid', o', next, rfl, hat, rfl⟩
    · -- a program starts, and the log is as it was
      have hmeets : ∀ q, p.procs.set pid' (prog i) pid = some q → q.Meets c post := by
        intro q hq
        rcases PMap.set_eq_some _ hq with ⟨rfl, rfl⟩ | ⟨-, hq⟩
        · exact hprog i List.mem_cons_self
        · exact hpid q hq
      have hlog := ih hprogs hmeets hrest (hlater _ hstep)
      exact hlog
    · have hmeets : ∀ q, p.procs.set pid' (next (interp o' p.state).1) pid = some q →
          q.Meets c post := by
        intro q hq
        rcases PMap.set_eq_some _ hq with ⟨rfl, rfl⟩ | ⟨-, hq⟩
        · exact (hpid _ hat).2 _ (hrely o' p.state hnow)
        · exact hpid q hq
      rcases ih hprogs hmeets hrest (hlater _ hstep) with hlog | hguar
      · -- the operation of this step, or one before it
        rcases List.mem_cons.mp hlog with heq | hlog
        · obtain ⟨rfl, rfl⟩ := Prod.mk.inj heq
          exact .inr (hpid _ hat).1
        · exact .inl hlog
      · exact .inr hguar

end One
