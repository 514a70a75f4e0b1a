import Blinex.ForStd.Fence

/-!
# Check, then spend

Programs that check a token with one operation and spend it with a later one can all pass
the check before the first of them spends. A `OneShot` describes such a token.
`OneShot.at_most_one` is what holds in every interleaving: if whoever has passed the check
has spent or given up before the next one checks, and spending works, at most one program
gets what the token is for.
-/

/-- A token: `check` looks at it and `spend` marks it `spent`, if it works. An answer that
    is `refused` makes a program give up. -/
structure OneShot {Op : Type} {Res : Op → Type} {σ : Type} (interp : (o : Op) → σ → Res o × σ)
    where
  always : σ → Prop
  spent : σ → Prop
  contract : Contract Res
  check : Op → Prop
  refused : (o : Op) → Res o → Prop
  spend : Op → Prop
  works : Op → Prop
  not_spend_of_check : ∀ o, check o → ¬ spend o
  keeps : contract.Keeps interp always
  keeps_spent : ∀ o s, always s → contract.guar o → spent s → spent (interp o s).2
  refused_of_spent : ∀ o s, always s → check o → spent s → refused o (interp o s).1
  spent_of_spend : ∀ o s, always s → contract.guar o → spend o → works o → spent (interp o s).2

namespace OneShot

variable {Op : Type} {Res : Op → Type} {α σ ι : Type} {interp : (o : Op) → σ → Res o × σ}
  (F : OneShot interp) {bad : α → Prop} {prog : ι → Prog Res α} {p p' : Pool Res α σ}
  {ev : PoolEvent ι}

/-- The program checks first. It gives up if that is refused, and spends before it returns
    anything that is not bad. -/
def Checks (bad : α → Prop) : Prog Res α → Prop
  | .ret a => bad a
  | .op o next => F.check o ∧ ∀ r, F.contract.rely o r →
    (next r).Commits F.contract.rely F.spend F.contract bad ∧
      (F.refused o r → ∃ a, next r = .ret a ∧ bad a)

/-- Everybody else who has checked is done or has spent when a program checks, and
    spending works. -/
def TakesTurns (p : Pool Res α σ) : PoolEvent ι → Prop
  | .start _ _ => True
  | .act pid => ∀ o, p.nextOp pid = some o →
    (F.check o → ∀ e ∈ p.log, F.check e.2 → e.1 ≠ pid →
      p.nextOp e.1 = none ∨ ∃ e' ∈ p.log, e'.1 = e.1 ∧ F.spend e'.2) ∧
    (F.spend o → F.works o)

/-- A program that has given up or has not done anything yet. -/
def Idle (bad : α → Prop) (p : Pool Res α σ) (pid : Nat) (q : Prog Res α) : Prop :=
  (∃ a, q = .ret a ∧ bad a) ∨ (F.Checks bad q ∧ ∀ e ∈ p.log, e.1 ≠ pid)

/-- Who has passed the check: nobody; a program that has not spent yet; or one that has. -/
inductive Phase (bad : α → Prop) (p : Pool Res α σ) : Prop where
  | idle (hidle : ∀ pid q, p.procs pid = some q → F.Idle bad p pid q)
  | held (pid₀ : Nat) (o : Op) (next : Res o → Prog Res α)
      (hheld : p.procs pid₀ = some (.op o next))
      (hcommits : (Prog.op o next).Commits F.contract.rely F.spend F.contract bad)
      (hchecked : ∃ e ∈ p.log, e.1 = pid₀ ∧ F.check e.2)
      (hunspent : ∀ e ∈ p.log, e.1 = pid₀ → ¬ F.spend e.2)
      (hidle : ∀ pid q, pid ≠ pid₀ → p.procs pid = some q → F.Idle bad p pid q)
  | spent (pid₀ : Nat) (hspent : F.spent p.state)
      (hidle : ∀ pid q, pid ≠ pid₀ → p.procs pid = some q → F.Idle bad p pid q)

/-- The invariant of an interleaving. -/
structure Inv (bad : α → Prop) (p : Pool Res α σ) : Prop where
  meet : p.AllMeet F.contract F.always fun _ => True
  started : ∀ e ∈ p.log, p.procs e.1 ≠ none
  phase : F.Phase bad p

variable {F}

/-- An idle program stays idle while another one acts. -/
theorem Idle.frame {pid pid' : Nat} {q : Prog Res α} {o : Op} (h : F.Idle bad p pid' q)
    (hne : pid ≠ pid') (hlog : p'.log = (pid, o) :: p.log) : F.Idle bad p' pid' q := by
  rcases h with hbad | ⟨hchecks, hnone⟩
  · exact .inl hbad
  · refine .inr ⟨hchecks, fun e he => ?_⟩
    rcases List.mem_cons.mp (hlog ▸ he) with rfl | he
    · exact hne
    · exact hnone e he

/-- What a program at work that is idle does next. -/
theorem Idle.checks {pid : Nat} {o : Op} {next : Res o → Prog Res α}
    (h : F.Idle bad p pid (.op o next)) :
    F.Checks bad (.op o next) ∧ ∀ e ∈ p.log, e.1 ≠ pid := by
  rcases h with ⟨a, hret, _⟩ | h
  · exact absurd hret nofun
  · exact h

/-- A program starts. -/
theorem Phase.start {pid : Nat} {q : Prog Res α} (hs : F.Inv bad p) (hq : F.Checks bad q)
    (hnew : p.procs pid = none) :
    F.Phase bad { p with procs := p.procs.set pid q } := by
  have hidle : F.Idle bad { p with procs := p.procs.set pid q } pid q :=
    .inr ⟨hq, fun e he heq => hs.started e he (heq ▸ hnew)⟩
  cases hs.phase with
  -- the new program is idle in every phase; it cannot be the holder, who was there before
  | idle hall =>
    refine .idle fun x r hr => ?_
    rcases PMap.set_eq_some _ hr with ⟨rfl, rfl⟩ | ⟨_, hr⟩
    · exact hidle
    · exact hall x r hr
  | held pid₀ o next hheld hcommits hchecked hunspent hall =>
    have hne : pid₀ ≠ pid := by
      rintro rfl
      exact absurd (hnew.symm.trans hheld) nofun
    refine .held pid₀ o next ((PMap.set_ne _ _ hne).trans hheld) hcommits hchecked hunspent
      fun x r hx hr => ?_
    rcases PMap.set_eq_some _ hr with ⟨rfl, rfl⟩ | ⟨_, hr⟩
    · exact hidle
    · exact hall x r hx hr
  | spent pid₀ hspent hall =>
    refine .spent pid₀ hspent fun x r hx hr => ?_
    rcases PMap.set_eq_some _ hr with ⟨rfl, rfl⟩ | ⟨_, hr⟩
    · exact hidle
    · exact hall x r hx hr

/-- The pool after a program has performed an operation. -/
def acted (interp : (o : Op) → σ → Res o × σ) (p : Pool Res α σ) (pid : Nat) (o : Op)
    (next : Res o → Prog Res α) : Pool Res α σ :=
  { state := (interp o p.state).2
    procs := p.procs.set pid (next (interp o p.state).1)
    log := (pid, o) :: p.log }

section Acted

variable {pid : Nat} {o : Op} {next : Res o → Prog Res α}

/-- The step of one program leaves the others idle. -/
private theorem idle_acted (hidle : ∀ x q, x ≠ pid → p.procs x = some q → F.Idle bad p x q) :
    ∀ x q, x ≠ pid → (acted interp p pid o next).procs x = some q →
      F.Idle bad (acted interp p pid o next) x q := by
  intro x q hx hq
  have hq' : p.procs x = some q := (PMap.set_ne _ _ hx).symm.trans hq
  exact (hidle x q hx hq').frame (Ne.symm hx) rfl

/-- Of the programs that passed the check none is left but, perhaps, this one. -/
private theorem Phase.of_commits (hidle : ∀ x q, x ≠ pid → p.procs x = some q → F.Idle bad p x q)
    (hcommits : (next (interp o p.state).1).Commits F.contract.rely F.spend F.contract bad)
    (hchecked : ∃ e ∈ (pid, o) :: p.log, e.1 = pid ∧ F.check e.2)
    (hunspent : ∀ e ∈ (pid, o) :: p.log, e.1 = pid → ¬ F.spend e.2) :
    F.Phase bad (acted interp p pid o next) := by
  have hself : (acted interp p pid o next).procs pid = some (next (interp o p.state).1) :=
    PMap.set_self ..
  cases hnext : next (interp o p.state).1 with
  -- it has returned before it spent, so with something bad
  | ret a =>
    rw [hnext] at hcommits hself
    refine .idle fun x q hq => ?_
    by_cases hx : x = pid
    · subst hx
      obtain rfl := Option.some.inj (hself.symm.trans hq)
      exact .inl ⟨a, rfl, hcommits⟩
    · exact idle_acted hidle x q hx hq
  | op o' next' =>
    rw [hnext] at hcommits hself
    exact .held pid o' next' hself hcommits hchecked hunspent (idle_acted hidle)

/-- A program performs an operation. -/
theorem Phase.act (hs : F.Inv bad p) (hturn : F.TakesTurns p (.act pid : PoolEvent ι))
    (hpid : p.procs pid = some (.op o next)) : F.Phase bad (acted interp p pid o next) := by
  obtain ⟨halways, hmeets⟩ := hs.meet
  obtain ⟨hguar, _⟩ := hmeets pid _ hpid
  have hrely := (F.keeps o p.state halways hguar).2
  obtain ⟨hcheck, hworks⟩ := hturn o (Pool.nextOp_eq_some hpid)
  cases hs.phase with
  | idle hall =>
    -- nobody holds the resource: the first operation of an idle program is its check
    obtain ⟨⟨hchecks, hnext⟩, hnone⟩ := (hall pid _ hpid).checks
    refine Phase.of_commits (fun x q _ hq => hall x q hq) (hnext _ hrely).1
      ⟨(pid, o), List.mem_cons_self, rfl, hchecks⟩ fun e he heq => ?_
    rcases List.mem_cons.mp he with rfl | he
    · exact F.not_spend_of_check o hchecks
    · exact absurd heq (hnone e he)
  | held pid₀ o₀ next₀ hheld hcommits hchecked hunspent hall =>
    by_cases hp : pid = pid₀
    · -- the holder acts: it spends, or it is still on its way
      subst hp
      obtain ⟨rfl, hnext⟩ := Prog.op.inj (Option.some.inj (hpid.symm.trans hheld))
      obtain rfl := eq_of_heq hnext
      by_cases hspend : F.spend o
      · exact .spent pid (F.spent_of_spend o _ halways hguar hspend (hworks hspend))
          (idle_acted hall)
      · obtain ⟨e, he, hchecked⟩ := hchecked
        rcases hcommits with ⟨hcommit, _⟩ | hcommits
        · exact absurd hcommit hspend
        · refine Phase.of_commits hall (hcommits _ hrely) ⟨e, List.mem_cons_of_mem _ he, hchecked⟩
            fun e' he' heq => ?_
          rcases List.mem_cons.mp he' with rfl | he'
          · exact hspend
          · exact hunspent e' he' heq
    · -- it is not the turn of anybody else
      obtain ⟨⟨hchecks, _⟩, _⟩ := (hall pid _ hp hpid).checks
      obtain ⟨e, he, rfl, hechecks⟩ := hchecked
      rcases hcheck hchecks e he hechecks (Ne.symm hp) with hdone | ⟨e', he', heq, hspend⟩
      · exact absurd ((Pool.nextOp_eq_some hheld).symm.trans hdone) nofun
      · exact absurd hspend (hunspent e' he' heq)
  | spent pid₀ hspent hall =>
    -- once spent, a check is refused, and the program returns something bad
    have hspent' := F.keeps_spent o p.state halways hguar hspent
    refine .spent pid₀ hspent' fun x q hx hq => ?_
    rcases PMap.set_eq_some _ hq with ⟨rfl, rfl⟩ | ⟨hne, hq⟩
    · obtain ⟨⟨hchecks, hnext⟩, _⟩ := (hall x _ hx hpid).checks
      exact .inl ((hnext _ hrely).2 (F.refused_of_spent o p.state halways hchecks hspent))
    · exact (hall x q hx hq).frame (Ne.symm hne) rfl

end Acted

/-- The invariant is kept by every event that takes turns. -/
theorem Inv.step (hs : F.Inv bad p) (hturn : F.TakesTurns p ev)
    (hstart : ∀ i, F.Checks bad (prog i) ∧ (prog i).Meets F.contract fun _ => True)
    (h : Pool.step interp prog p ev = some p') : F.Inv bad p' := by
  refine ⟨hs.meet.step F.keeps (fun _ i _ => (hstart i).2) h, ?_, ?_⟩
  · -- only programs that were started are in the log
    rcases Pool.step_cases h with ⟨pid, i, _, hnew, rfl⟩ | ⟨pid, o, next, _, hpid, rfl⟩
    · intro e he hnone
      by_cases hp : e.1 = pid
      · exact hs.started e he (hp ▸ hnew)
      · exact hs.started e he ((PMap.set_ne _ _ hp).symm.trans hnone)
    · intro e he hnone
      by_cases hp : e.1 = pid
      · rw [hp] at hnone
        exact absurd ((PMap.set_self ..).symm.trans hnone) nofun
      · rcases List.mem_cons.mp he with rfl | he
        · exact hp rfl
        · exact hs.started e he ((PMap.set_ne _ _ hp).symm.trans hnone)
  · rcases Pool.step_cases h with ⟨pid, i, rfl, hnew, rfl⟩ | ⟨pid, o, next, rfl, hpid, rfl⟩
    · exact Phase.start hs (hstart i).1 hnew
    · exact Phase.act hs hturn hpid

/-- At most one program gets what the token is for. -/
theorem at_most_one (F : OneShot interp)
    (hstart : ∀ i, F.Checks bad (prog i) ∧ (prog i).Meets F.contract fun _ => True) {s₀ : σ}
    (hs₀ : F.always s₀) {es : List (PoolEvent ι)}
    (hturns : ExecAlong (Pool.step interp prog) F.TakesTurns { state := s₀ } es)
    (h : exec (Pool.step interp prog) { state := s₀ } es = some p) {pid pid' : Nat} {a a' : α}
    (ha : p.result pid = some a) (hgood : ¬ bad a) (ha' : p.result pid' = some a')
    (hgood' : ¬ bad a') : pid = pid' := by
  -- the invariant holds along the run, and in its first state nobody has started
  have hrun : Throughout (Pool.step interp prog) (F.Inv bad) { state := s₀ } es := by
    refine hturns.throughout (fun s e s' hok hs hstep => hs.step hok hstart hstep)
      ⟨⟨hs₀, ?_⟩, ?_, ?_⟩
    · exact fun _ _ hq => absurd hq nofun
    · exact fun _ he => absurd he List.not_mem_nil
    · exact .idle fun _ _ hq => absurd hq nofun
  have hret := Pool.result_eq_some ha
  have hret' := Pool.result_eq_some ha'
  -- an idle program has not returned anything good
  have hbusy {x : Nat} {b : α} (hb : ¬ bad b) : ¬ F.Idle bad p x (.ret b) := by
    rintro (⟨b', hb', hbad⟩ | ⟨hbad, _⟩)
    · obtain rfl := Prog.ret.inj hb'
      exact hb hbad
    · exact hb hbad
  cases (hrun.last h).phase with
  | idle hall => exact absurd (hall pid _ hret) (hbusy hgood)
  | held pid₀ o next hheld _ _ _ hall =>
    have hne : pid ≠ pid₀ := by
      rintro rfl
      exact absurd (hret.symm.trans hheld) nofun
    exact absurd (hall pid _ hne hret) (hbusy hgood)
  -- only the one program that spent has returned something good
  | spent pid₀ _ hall =>
    have hself {x : Nat} {b : α} (hx : p.procs x = some (.ret b)) (hb : ¬ bad b) : x = pid₀ := by
      by_contra hne
      exact hbusy hb (hall x _ hne hx)
    rw [hself hret hgood, hself hret' hgood']

end OneShot
