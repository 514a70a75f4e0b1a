import Blinex.ForStd.Prog

/-!
# Programs that crash

A crash ends a program between two of its operations and loses everything but the state
(`Prog.runFor`). `Prog.CrashSafe` is a triple with two postconditions: `crash` holds in every
state in which a crash may find the program, and `post` when it returns.
-/

namespace Prog

variable {Op : Type} {Res : Op → Type} {α β σ : Type}

/-- A run that a crash ends after `n` operations, unless the program has returned by then. -/
def runFor (exec : (o : Op) → σ → Res o × σ) : Prog Res α → Nat → σ → Option α × σ
  | ret a, _, s => (some a, s)
  | op _ _, 0, s => (none, s)
  | op o next, n + 1, s => (next (exec o s).1).runFor exec n (exec o s).2

/-- A crash leaves `crash`, and a return leaves `post`. -/
def CrashSafe (exec : (o : Op) → σ → Res o × σ) (crash : σ → Prop) (post : α → σ → Prop) :
    Prog Res α → σ → Prop
  | ret a, s => post a s
  | op o next, s => crash s ∧ (next (exec o s).1).CrashSafe exec crash post (exec o s).2

variable {exec : (o : Op) → σ → Res o × σ} {crash crash' : σ → Prop} {post : α → σ → Prop}

/-- Sequencing: what the first program leaves behind is where the second one starts. -/
theorem CrashSafe.bind {post' : β → σ → Prop} {p : Prog Res α} {f : α → Prog Res β} {s : σ}
    (hp : p.CrashSafe exec crash (fun a s' => (f a).CrashSafe exec crash post' s') s) :
    (p >>= f).CrashSafe exec crash post' s := by
  -- on the program; `s` is general because each operation changes the state
  induction p generalizing s with
  | ret a => exact hp
  | op o next ih => exact ⟨hp.1, ih _ hp.2⟩

/-- Weakening of the crash condition and of the postcondition. -/
theorem CrashSafe.imp {post' : α → σ → Prop} {p : Prog Res α} {s : σ}
    (hp : p.CrashSafe exec crash post s) (hcrash : ∀ s, crash s → crash' s)
    (hpost : ∀ a s, post a s → post' a s) : p.CrashSafe exec crash' post' s := by
  induction p generalizing s with
  | ret a => exact hpost a s hp
  | op o next ih => exact ⟨hcrash s hp.1, ih _ hp.2⟩

/-- Both ends of a run. -/
theorem CrashSafe.runFor {p : Prog Res α} {s : σ} (hp : p.CrashSafe exec crash post s) (n : Nat) :
    ((p.runFor exec n s).1 = none ∧ crash (p.runFor exec n s).2) ∨
      ∃ a, (p.runFor exec n s).1 = some a ∧ post a (p.runFor exec n s).2 := by
  induction p generalizing n s with
  | ret a => exact .inr ⟨a, rfl, hp⟩
  | op o next ih =>
    cases n with
    | zero => exact .inl ⟨rfl, hp.1⟩
    | succ n => exact ih _ hp.2 n

end Prog
