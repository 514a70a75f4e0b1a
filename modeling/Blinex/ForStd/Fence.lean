import Blinex.ForStd.Prog

/-!
# Commits among readers

Programs that read a shared record, work on their copy and write it back undo whatever
was written in between. A `Fencing` describes what one of them, the committer, achieves
with one operation, and under which contract the others keep it: a contract that is about
the answers to certain reads. `Fencing.established` is what is left of "the last write
wins": if no other program at work has made such a read when the commit happens, the
goal holds from then on, in every interleaving.
-/

namespace Prog

variable {Op : Type} {Res : Op → Type} {α : Type}

/-- As long as the answers satisfy `base`, the program returns something `bad`, or commits
    and keeps to the contract from then on. -/
def Commits (base : (o : Op) → Res o → Prop) (commit : Op → Prop) (c : Contract Res)
    (bad : α → Prop) : Prog Res α → Prop
  | ret a => bad a
  | op o next =>
    (commit o ∧ ∀ r, base o r → (next r).Meets c fun _ => True) ∨
      ∀ r, base o r → (next r).Commits base commit c bad

/-- The result of a committing program may be mapped, so long as a bad result stays bad. -/
theorem Commits.map {β : Type} {base : (o : Op) → Res o → Prop} {commit : Op → Prop}
    {c : Contract Res} {bad : α → Prop} {bad' : β → Prop} {f : α → β} {p : Prog Res α}
    (hp : p.Commits base commit c bad) (hbad : ∀ a, bad a → bad' (f a)) :
    (p >>= fun a => pure (f a)).Commits base commit c bad' := by
  induction p with
  | ret a => exact hbad a hp
  | op o next ih =>
    -- it commits here, and all that follows is free, or it goes on towards the commit
    rcases hp with ⟨hcommit, hnext⟩ | hnext
    · exact .inl ⟨hcommit, fun r hr => (hnext r hr).bind fun _ _ => trivial⟩
    · exact .inr fun r hr => ih r (hnext r hr)

end Prog

/-- What a commit achieves, and what keeps it. `always` holds throughout and `base` of
    every answer; the contract assumes more only of the answers to `reads`. -/
structure Fencing {Op : Type} {Res : Op → Type} {σ : Type} (interp : (o : Op) → σ → Res o × σ) where
  always : σ → Prop
  goal : σ → Prop
  base : (o : Op) → Res o → Prop
  commit : Op → Prop
  reads : Op → Prop
  contract : Contract Res
  always_exec : ∀ o s, always s → always (interp o s).2 ∧ base o (interp o s).1
  commit_goal : ∀ o s, always s → commit o → goal (interp o s).2
  keeps : contract.Keeps interp fun s => always s ∧ goal s
  rely_of_base : ∀ o r, ¬ reads o → base o r → contract.rely o r

namespace Fencing

variable {Op : Type} {Res : Op → Type} {α σ ι : Type} {interp : (o : Op) → σ → Res o × σ}
  (F : Fencing interp) (pid₀ : Nat) {bad : α → Prop} {prog : ι → Prog Res α}
  {p p' : Pool Res α σ} {ev : PoolEvent ι}

/-- When the committer commits, no other program at work has made one of the reads. -/
def Clear (p : Pool Res α σ) : PoolEvent ι → Prop
  | .start _ _ => True
  | .act pid => pid = pid₀ → ∀ o, p.nextOp pid₀ = some o → F.commit o →
    ∀ e ∈ p.log, F.reads e.2 → e.1 ≠ pid₀ → p.nextOp e.1 = none

/-- The committer is a program that commits and the others keep to the contract. -/
def Starts (bad : α → Prop) (prog : ι → Prog Res α) : PoolEvent ι → Prop
  | .start pid i =>
    (pid = pid₀ → (prog i).Commits F.base F.commit F.contract bad) ∧
      (pid ≠ pid₀ → (prog i).Meets F.contract fun _ => True)
  | .act _ => True

/-- Before the commit: a program that has made none of the reads is still bound by the
    contract. -/
structure Before (bad : α → Prop) (p : Pool Res α σ) : Prop where
  always : F.always p.state
  others : ∀ pid q, pid ≠ pid₀ → p.procs pid = some q →
    (∃ o, F.reads o ∧ (pid, o) ∈ p.log) ∨ q.Meets F.contract fun _ => True
  self : ∀ q, p.procs pid₀ = some q → q.Commits F.base F.commit F.contract bad

/-- After the commit everybody is. -/
structure After (p : Pool Res α σ) : Prop where
  started : p.procs pid₀ ≠ none
  meet : p.AllMeet F.contract (fun s => F.always s ∧ F.goal s) fun _ => True

variable {F pid₀}

/-- After the commit a step keeps the goal: everyone left meets the contract. -/
theorem After.step (hs : F.After pid₀ p) (hstart : F.Starts pid₀ bad prog ev)
    (h : Pool.step interp prog p ev = some p') : F.After pid₀ p' := by
  refine ⟨?_, hs.meet.step F.keeps (fun pid i hev => ?_) h⟩
  · -- the committer has been started, and a pool forgets no program
    rcases Pool.step_cases h with ⟨pid, i, _, hnew, rfl⟩ | ⟨pid, o, next, _, hpid, rfl⟩
    · intro hnone
      by_cases hp : pid₀ = pid
      · subst hp
        exact hs.started hnew
      · exact hs.started ((PMap.set_ne _ _ hp).symm.trans hnone)
    · intro hnone
      by_cases hp : pid₀ = pid
      · subst hp
        exact absurd ((PMap.set_self ..).symm.trans hnone) nofun
      · exact hs.started ((PMap.set_ne _ _ hp).symm.trans hnone)
  · -- the committer is at work already
    subst hev
    refine hstart.2 fun hp => ?_
    rcases Pool.step_cases h with ⟨_, _, hev, hnew, _⟩ | ⟨_, _, _, hev, _, _⟩
    · obtain ⟨rfl, rfl⟩ := PoolEvent.start.inj hev
      exact hs.started (hp ▸ hnew)
    · exact absurd hev nofun

/-- The committer commits: whoever is still at work will read what it wrote. -/
theorem Before.commit {o : Op} {next : Res o → Prog Res α} (hs : F.Before pid₀ bad p)
    (hclear : F.Clear pid₀ p (.act pid₀ : PoolEvent ι)) (ho : p.procs pid₀ = some (.op o next))
    (hcommit : F.commit o) (hnext : ∀ r, F.base o r → (next r).Meets F.contract fun _ => True) :
    F.After pid₀ { state := (interp o p.state).2
                   procs := p.procs.set pid₀ (next (interp o p.state).1)
                   log := (pid₀, o) :: p.log } := by
  obtain ⟨halways, hbase⟩ := F.always_exec o p.state hs.always
  refine ⟨fun hnone => absurd ((PMap.set_self ..).symm.trans hnone) nofun,
    -- a program that read before the commit has nothing left to do; the others meet the contract
    ⟨halways, F.commit_goal o p.state hs.always hcommit⟩, fun pid q hq => ?_⟩
  rcases PMap.set_eq_some _ hq with ⟨_, rfl⟩ | ⟨hne, hq⟩
  · exact hnext _ hbase
  · rcases hs.others pid q hne hq with ⟨o', hreads, hlog⟩ | hmeets
    · have hdone : p.nextOp pid = none :=
        hclear rfl o (Pool.nextOp_eq_some ho) hcommit (pid, o') hlog hreads hne
      cases q with
      | ret a => trivial
      | op o'' next' => exact absurd ((Pool.nextOp_eq_some hq).symm.trans hdone) nofun
    · exact hmeets

/-- Before the commit a step leaves the pool there, or it is the commit. -/
theorem Before.step (hs : F.Before pid₀ bad p) (hstart : F.Starts pid₀ bad prog ev)
    (hclear : F.Clear pid₀ p ev) (h : Pool.step interp prog p ev = some p') :
    F.Before pid₀ bad p' ∨ F.After pid₀ p' := by
  rcases Pool.step_cases h with ⟨pid, i, rfl, hnew, rfl⟩ | ⟨pid, o, next, rfl, hpid, rfl⟩
  · -- a program starts
    refine .inl ⟨hs.always, fun x q hx hq => ?_, fun q hq => ?_⟩
    · rcases PMap.set_eq_some _ hq with ⟨rfl, rfl⟩ | ⟨_, hq⟩
      · exact .inr (hstart.2 hx)
      · exact hs.others x q hx hq
    · rcases PMap.set_eq_some _ hq with ⟨hx, rfl⟩ | ⟨_, hq⟩
      · exact hstart.1 hx.symm
      · exact hs.self q hq
  · obtain ⟨halways, hbase⟩ := F.always_exec o p.state hs.always
    by_cases hp : pid = pid₀
    · -- the committer acts: this is the commit, or it is still on its way
      subst hp
      rcases hs.self _ hpid with ⟨hcommit, hnext⟩ | hnext
      · exact .inr (hs.commit hclear hpid hcommit hnext)
      · refine .inl ⟨halways, fun x q hx hq => ?_, fun q hq => ?_⟩
        · have hq' := (PMap.set_ne _ _ hx).symm.trans hq
          rcases hs.others x q hx hq' with ⟨o', hreads, hlog⟩ | hmeets
          · exact .inl ⟨o', hreads, List.mem_cons_of_mem _ hlog⟩
          · exact .inr hmeets
        · obtain rfl := Option.some.inj ((PMap.set_self ..).symm.trans hq)
          exact hnext _ hbase
    · -- another program acts
      refine .inl ⟨halways, fun x q hx hq => ?_, fun q hq => ?_⟩
      · rcases PMap.set_eq_some _ hq with ⟨rfl, rfl⟩ | ⟨_, hq⟩
        · -- either this is one of the reads, or the contract covers the answer
          by_cases hreads : F.reads o
          · exact .inl ⟨o, hreads, List.mem_cons_self⟩
          · rcases hs.others x _ hx hpid with ⟨o', hreads', hlog⟩ | hmeets
            · exact .inl ⟨o', hreads', List.mem_cons_of_mem _ hlog⟩
            · exact .inr (hmeets.2 _ (F.rely_of_base o _ hreads hbase))
        · rcases hs.others x q hx hq with ⟨o', hreads, hlog⟩ | hmeets
          · exact .inl ⟨o', hreads, List.mem_cons_of_mem _ hlog⟩
          · exact .inr hmeets
      · exact hs.self q ((PMap.set_ne _ _ (Ne.symm hp)).symm.trans hq)

/-- In every interleaving in which the commit is clear, the goal holds once the committer
    has returned anything that is not bad. -/
theorem established (F : Fencing interp) (pid₀ : Nat) {s₀ : σ} (hs₀ : F.always s₀)
    {es : List (PoolEvent ι)} (hstart : ∀ ev ∈ es, F.Starts pid₀ bad prog ev)
    (hclear : ExecAlong (Pool.step interp prog) (F.Clear pid₀) { state := s₀ } es)
    (h : exec (Pool.step interp prog) { state := s₀ } es = some p) {a : α}
    (ha : p.result pid₀ = some a) (hgood : ¬ bad a) : F.goal p.state := by
  -- the pool is before or after the commit throughout the run
  have hrun : Throughout (Pool.step interp prog)
      (fun p => F.Before pid₀ bad p ∨ F.After pid₀ p) { state := s₀ } es := by
    refine (hclear.and_forall hstart).throughout (fun s e s' hok hs hstep => ?_) (.inl ?_)
    · rcases hs with hbefore | hafter
      · exact hbefore.step hok.2 hok.1 hstep
      · exact .inr (hafter.step hok.2 hstep)
    · exact ⟨hs₀, fun _ _ _ hq => absurd hq nofun, fun _ hq => absurd hq nofun⟩
  rcases hrun.last h with hbefore | hafter
  · -- a committer that returned without committing has returned something bad
    exact absurd (hbefore.self _ (Pool.result_eq_some ha)) hgood
  · exact hafter.meet.inv.2

end Fencing
