import Mathlib.Logic.Basic

/-!
# Runs of a transition system

Two shapes of machine. A partial one, `σ → ε → Option σ`, takes the events of an
interleaving and refuses those that are not enabled; `exec` runs it, `ExecAlong`
speaks of its steps and `Throughout` of its states. A total one,
`σ → ε → σ`, is a fold over its inputs; `Along` says that something holds at every
step of the fold, of the state before the step and the input. A total machine may also
answer its inputs (`outputs`).
-/

variable {σ ε : Type*}

/-! ## Partial steps -/

/-- The state after a sequence of events, if each was enabled in its turn. -/
def exec (step : σ → ε → Option σ) : σ → List ε → Option σ
  | s, [] => some s
  | s, e :: es => (step s e).bind fun s' => exec step s' es

/-- A run is its first step and the run from there. -/
theorem exec_cons_eq_some {step : σ → ε → Option σ} {s t : σ} {e : ε} {es : List ε}
    (h : exec step s (e :: es) = some t) :
    ∃ s', step s e = some s' ∧ exec step s' es = some t :=
  Option.bind_eq_some_iff.mp h

/-- What every enabled step keeps, every run keeps. -/
theorem exec_invariant {step : σ → ε → Option σ} {Inv : σ → Prop} {Ok : ε → Prop}
    (hstep : ∀ s e s', Ok e → Inv s → step s e = some s' → Inv s') {s t : σ} {es : List ε}
    (hok : ∀ e ∈ es, Ok e) (hs : Inv s) (h : exec step s es = some t) : Inv t := by
  induction es generalizing s with
  | nil =>
    obtain rfl := Option.some.inj h
    exact hs
  | cons e es ih =>
    obtain ⟨s', hse, hrest⟩ := exec_cons_eq_some h
    have hs' : Inv s' := hstep s e s' (hok e List.mem_cons_self) hs hse
    exact ih (fun e' he' => hok e' (List.mem_cons_of_mem _ he')) hs' hrest

/-- Events that change nothing may be left out of a run. -/
theorem exec_filterMap {ε' : Type*} {step : σ → ε → Option σ} {step' : σ → ε' → Option σ}
    {f : ε' → Option ε} (h : ∀ s e, step' s e = (f e).elim (some s) (step s)) (s : σ)
    (es : List ε') : exec step' s es = exec step s (es.filterMap f) := by
  induction es generalizing s with
  | nil => rfl
  | cons e es ih =>
    rw [exec, h]
    -- an event that is left out changes nothing
    cases he : f e with
    | none =>
      rw [List.filterMap_cons_none he]
      exact ih s
    | some e' =>
      rw [List.filterMap_cons_some he, exec, Option.elim_some]
      exact Option.bind_congr fun s' _ => ih s'

/-- `P` holds, at every enabled event of a run, of the state before it and of the
    event. -/
def ExecAlong (step : σ → ε → Option σ) (P : σ → ε → Prop) : σ → List ε → Prop
  | _, [] => True
  | s, e :: es => ∀ s', step s e = some s' → P s e ∧ ExecAlong step P s' es

instance ExecAlong.decidable {step : σ → ε → Option σ} {P : σ → ε → Prop}
    [∀ s e, Decidable (P s e)] : ∀ s es, Decidable (ExecAlong step P s es)
  | _, [] => isTrue trivial
  | s, e :: es =>
    match hse : step s e with
    | none => isTrue fun _ h => absurd (hse.symm.trans h) nofun
    | some s' =>
      have : Decidable (ExecAlong step P s' es) := ExecAlong.decidable s' es
      decidable_of_iff (P s e ∧ ExecAlong step P s' es)
        ⟨fun h _ h' => Option.some.inj (hse.symm.trans h') ▸ h, fun h => h s' hse⟩

/-- A condition along a run, from its first step and the rest. -/
theorem ExecAlong.cons {step : σ → ε → Option σ} {P : σ → ε → Prop} {s s' : σ} {e : ε}
    {es : List ε} (hse : step s e = some s') (he : P s e) (hes : ExecAlong step P s' es) :
    ExecAlong step P s (e :: es) := by
  intro t ht
  obtain rfl := Option.some.inj (hse.symm.trans ht)
  exact ⟨he, hes⟩

/-- What holds of each event in every state holds along the run. -/
theorem ExecAlong.of_forall {step : σ → ε → Option σ} {P : σ → ε → Prop} {es : List ε}
    (h : ∀ e ∈ es, ∀ s, P s e) (s : σ) : ExecAlong step P s es := by
  induction es generalizing s with
  | nil => trivial
  | cons e es ih =>
    intro s' _
    exact ⟨h e List.mem_cons_self s, ih (fun e' he' => h e' (List.mem_cons_of_mem _ he')) s'⟩

/-- Weakening of a condition along a run. -/
theorem ExecAlong.imp {step : σ → ε → Option σ} {P P' : σ → ε → Prop}
    (himp : ∀ s e, P s e → P' s e) {s : σ} {es : List ε} (h : ExecAlong step P s es) :
    ExecAlong step P' s es := by
  induction es generalizing s with
  | nil => trivial
  | cons e es ih =>
    intro s' hse
    obtain ⟨he, hes⟩ := h s' hse
    exact ⟨himp s e he, ih hes⟩

/-- A condition along a run and one on its events, together. -/
theorem ExecAlong.and_forall {step : σ → ε → Option σ} {P : σ → ε → Prop} {Q : ε → Prop} {s : σ}
    {es : List ε} (h : ExecAlong step P s es) (hQ : ∀ e ∈ es, Q e) :
    ExecAlong step (fun s e => P s e ∧ Q e) s es := by
  induction es generalizing s with
  | nil => trivial
  | cons e es ih =>
    intro s' hse
    obtain ⟨he, hes⟩ := h s' hse
    have hrest : ∀ e' ∈ es, Q e' := fun e' he' => hQ e' (List.mem_cons_of_mem _ he')
    exact ⟨⟨he, hQ e List.mem_cons_self⟩, ih hes hrest⟩

/-- Two conditions along one run. -/
theorem ExecAlong.and {step : σ → ε → Option σ} {P Q : σ → ε → Prop} {s : σ} {es : List ε}
    (hP : ExecAlong step P s es) (hQ : ExecAlong step Q s es) :
    ExecAlong step (fun s e => P s e ∧ Q s e) s es := by
  induction es generalizing s with
  | nil => trivial
  | cons e es ih =>
    intro s' hse
    obtain ⟨hp, hps⟩ := hP s' hse
    obtain ⟨hq, hqs⟩ := hQ s' hse
    exact ⟨⟨hp, hq⟩, ih hps hqs⟩

/-- What follows from the condition and from an invariant that it keeps holds at every
    step. -/
theorem ExecAlong.of_inv {step : σ → ε → Option σ} {P Q : σ → ε → Prop} {Inv : σ → Prop}
    (hstep : ∀ s e s', P s e → Inv s → step s e = some s' → Inv s')
    (himp : ∀ s e, P s e → Inv s → Q s e) {s : σ} {es : List ε} (hs : Inv s)
    (h : ExecAlong step P s es) : ExecAlong step Q s es := by
  induction es generalizing s with
  | nil => trivial
  | cons e es ih =>
    intro s' hse
    obtain ⟨he, hes⟩ := h s' hse
    exact ⟨himp s e he hs, ih (hstep s e s' he hs hse) hes⟩

/-- An invariant of the steps with `P` makes two conditions equivalent along a run if it does so
    at every single step. -/
theorem ExecAlong.congr {step : σ → ε → Option σ} {P Q : σ → ε → Prop} {Inv : σ → Prop}
    (hinv : ∀ s e s', Inv s → P s e → step s e = some s' → Inv s')
    (hiff : ∀ s e s', Inv s → step s e = some s' → (P s e ↔ Q s e)) {s : σ} {es : List ε}
    (hs : Inv s) : ExecAlong step P s es ↔ ExecAlong step Q s es := by
  -- on the run; the two conditions agree wherever the invariant holds
  induction es generalizing s with
  | nil => exact Iff.rfl
  | cons e es ih =>
    constructor
    · intro h s' hse
      obtain ⟨hp, hrest⟩ := h s' hse
      exact ⟨(hiff s e s' hs hse).mp hp, (ih (hinv s e s' hs hp hse)).mp hrest⟩
    · intro h s' hse
      obtain ⟨hq, hrest⟩ := h s' hse
      have hp := (hiff s e s' hs hse).mpr hq
      exact ⟨hp, (ih (hinv s e s' hs hp hse)).mpr hrest⟩

/-- The condition on the last event, in the state that the run before it has left. -/
theorem ExecAlong.last {step : σ → ε → Option σ} {P : σ → ε → Prop} {s t t' : σ} {e : ε}
    {es : List ε} (h : ExecAlong step P s (es ++ [e])) (hrun : exec step s es = some t)
    (he : step t e = some t') : P t e := by
  induction es generalizing s with
  | nil =>
    obtain rfl := Option.some.inj hrun
    exact (h t' he).1
  | cons e' es ih =>
    obtain ⟨s', hse, hrest⟩ := exec_cons_eq_some hrun
    exact ih (h s' hse).2 hrest

/-- `Q` holds of every state of a run, the first and the last included. -/
def Throughout (step : σ → ε → Option σ) (Q : σ → Prop) : σ → List ε → Prop
  | s, [] => Q s
  | s, e :: es => Q s ∧ ∀ s', step s e = some s' → Throughout step Q s' es

instance Throughout.decidable {step : σ → ε → Option σ} {Q : σ → Prop} [DecidablePred Q] :
    ∀ s es, Decidable (Throughout step Q s es)
  | s, [] => inferInstanceAs (Decidable (Q s))
  | s, e :: es =>
    match hse : step s e with
    | none => decidable_of_iff (Q s) ⟨fun h => ⟨h, fun _ h' => nomatch hse.symm.trans h'⟩, And.left⟩
    | some s' =>
      have : Decidable (Throughout step Q s' es) := Throughout.decidable s' es
      decidable_of_iff (Q s ∧ Throughout step Q s' es)
        ⟨fun h => ⟨h.1, fun _ h' => Option.some.inj (hse.symm.trans h') ▸ h.2⟩,
          fun h => ⟨h.1, h.2 s' hse⟩⟩

/-- The first state is one of the run. -/
theorem Throughout.head {step : σ → ε → Option σ} {Q : σ → Prop} {s : σ} {es : List ε}
    (h : Throughout step Q s es) : Q s := by
  cases es with
  | nil => exact h
  | cons e es => exact h.1

/-- What a step keeps whenever its condition is met holds in every state of a run
    that meets the condition throughout. -/
theorem ExecAlong.throughout {step : σ → ε → Option σ} {P : σ → ε → Prop} {Inv : σ → Prop}
    (hstep : ∀ s e s', P s e → Inv s → step s e = some s' → Inv s') {s : σ} {es : List ε}
    (hs : Inv s) (h : ExecAlong step P s es) : Throughout step Inv s es := by
  induction es generalizing s with
  | nil => exact hs
  | cons e es ih =>
    refine ⟨hs, fun s' hse => ?_⟩
    obtain ⟨he, hes⟩ := h s' hse
    exact ih (hstep s e s' he hs hse) hes

/-- What holds of every state holds before every event. -/
theorem Throughout.execAlong {step : σ → ε → Option σ} {Q : σ → Prop} {s : σ} {es : List ε}
    (h : Throughout step Q s es) : ExecAlong step (fun s _ => Q s) s es := by
  induction es generalizing s with
  | nil => trivial
  | cons e es ih => exact fun s' hse => ⟨h.1, ih (h.2 s' hse)⟩

theorem Throughout.imp {step : σ → ε → Option σ} {Q Q' : σ → Prop} (himp : ∀ s, Q s → Q' s)
    {s : σ} {es : List ε} (h : Throughout step Q s es) : Throughout step Q' s es := by
  induction es generalizing s with
  | nil => exact himp s h
  | cons e es ih => exact ⟨himp s h.1, fun s' hse => ih (h.2 s' hse)⟩

/-- Two properties that hold throughout one run. -/
theorem Throughout.and {step : σ → ε → Option σ} {Q Q' : σ → Prop} {s : σ} {es : List ε}
    (h : Throughout step Q s es) (h' : Throughout step Q' s es) :
    Throughout step (fun s => Q s ∧ Q' s) s es := by
  induction es generalizing s with
  | nil => exact ⟨h, h'⟩
  | cons e es ih => exact ⟨⟨h.1, h'.1⟩, fun s' hse => ih (h.2 s' hse) (h'.2 s' hse)⟩

/-- What holds throughout a run holds of the state it ends in. -/
theorem Throughout.last {step : σ → ε → Option σ} {Q : σ → Prop} {s t : σ} {es : List ε}
    (h : Throughout step Q s es) (hrun : exec step s es = some t) : Q t := by
  induction es generalizing s with
  | nil =>
    obtain rfl := Option.some.inj hrun
    exact h
  | cons e es ih =>
    obtain ⟨s', hse, hrest⟩ := exec_cons_eq_some hrun
    exact ih (h.2 s' hse) hrest

theorem exec_append (step : σ → ε → Option σ) (s : σ) (es es' : List ε) :
    exec step s (es ++ es') = (exec step s es).bind fun t => exec step t es' := by
  induction es generalizing s with
  | nil => rfl
  | cons e es ih => simp only [List.cons_append, exec, ih, Option.bind_assoc]

/-- A run passes through the state `t`. -/
def Visited (step : σ → ε → Option σ) (s : σ) (es : List ε) (t : σ) : Prop :=
  ∃ es₁ es₂, es = es₁ ++ es₂ ∧ exec step s es₁ = some t

/-- Before every event the run is in a state that it visits. -/
theorem ExecAlong.visited (step : σ → ε → Option σ) (s : σ) (es : List ε) :
    ExecAlong step (fun t _ => Visited step s es t) s es := by
  -- from every point of the run on, with what comes before it as the way there
  have hfrom (es₁ es₂ : List ε) (t : σ) (hes : es = es₁ ++ es₂) (ht : exec step s es₁ = some t) :
      ExecAlong step (fun t _ => Visited step s es t) t es₂ := by
    induction es₂ generalizing es₁ t with
    | nil => trivial
    | cons e es₂ ih =>
      intro t' hstep
      refine ⟨⟨es₁, e :: es₂, hes, ht⟩, ih (es₁ ++ [e]) t' ?_ ?_⟩
      · rw [hes, List.append_assoc, List.singleton_append]
      · rw [exec_append, ht, Option.bind_some, exec, hstep]
        rfl
  exact hfrom [] es s rfl rfl

/-- Some run leads from `s` to `t`, and `Q` holds of every state on the way. -/
def ReachesVia (step : σ → ε → Option σ) (Q : σ → Prop) (s t : σ) : Prop :=
  ∃ es, exec step s es = some t ∧ Throughout step Q s es

/-- A state is reached from itself. -/
theorem ReachesVia.refl {step : σ → ε → Option σ} {Q : σ → Prop} {s : σ} (h : Q s) :
    ReachesVia step Q s s := ⟨[], rfl, h⟩

/-- One step and then the rest of the way. -/
theorem ReachesVia.head {step : σ → ε → Option σ} {Q : σ → Prop} {s s' t : σ} {e : ε}
    (hse : step s e = some s') (hs : Q s) (h : ReachesVia step Q s' t) :
    ReachesVia step Q s t := by
  obtain ⟨es, hrun, hall⟩ := h
  refine ⟨e :: es, by rw [exec, hse]; exact hrun, hs, fun s'' hse' => ?_⟩
  obtain rfl := Option.some.inj (hse.symm.trans hse')
  exact hall

/-- Ways in a row. -/
theorem ReachesVia.trans {step : σ → ε → Option σ} {Q : σ → Prop} {s t u : σ}
    (hst : ReachesVia step Q s t) (htu : ReachesVia step Q t u) : ReachesVia step Q s u := by
  obtain ⟨es, hrun, hall⟩ := hst
  induction es generalizing s with
  | nil =>
    obtain rfl := Option.some.inj hrun
    exact htu
  | cons e es ih =>
    obtain ⟨s', hse, hrest⟩ := exec_cons_eq_some hrun
    exact .head hse hall.1 (ih hrest (hall.2 s' hse))

/-- If a step from a good state leads to a good state exactly when its condition is
    met, a run stays good exactly when its steps all meet the condition. -/
theorem throughout_iff {step : σ → ε → Option σ} {P : σ → ε → Prop} {Inv Q : σ → Prop}
    (hinv : ∀ s e s', Inv s → step s e = some s' → Inv s')
    (hstep : ∀ s e s', Inv s → Q s → step s e = some s' → (Q s' ↔ P s e)) {s : σ}
    {es : List ε} (hs : Inv s) (hq : Q s) : Throughout step Q s es ↔ ExecAlong step P s es := by
  -- on the run: while `Q` has held so far, the next event decides whether it goes on
  induction es generalizing s with
  | nil => exact iff_of_true hq trivial
  | cons e es ih =>
    constructor
    · intro h s' hse
      have hq' : Q s' := (h.2 s' hse).head
      have hP : P s e := (hstep s e s' hs hq hse).mp hq'
      exact ⟨hP, (ih (hinv s e s' hs hse) hq').mp (h.2 s' hse)⟩
    · intro h
      refine ⟨hq, fun s' hse => ?_⟩
      obtain ⟨hP, hes⟩ := h s' hse
      have hq' : Q s' := (hstep s e s' hs hq hse).mpr hP
      exact (ih (hinv s e s' hs hse) hq').mpr hes

/-! ## Total steps -/

/-- `P` holds of the state before every step of the fold and the input of that
    step. -/
def Along (step : σ → ε → σ) (P : σ → ε → Prop) : σ → List ε → Prop
  | _, [] => True
  | s, e :: es => P s e ∧ Along step P (step s e) es

/-- A condition along a run, by its last event. -/
theorem Along.concat_iff {step : σ → ε → σ} {P : σ → ε → Prop} {s : σ} {es : List ε} {e : ε} :
    Along step P s (es ++ [e]) ↔ Along step P s es ∧ P (es.foldl step s) e := by
  induction es generalizing s with
  | nil => exact ⟨fun h => ⟨trivial, h.1⟩, fun h => ⟨h.2, trivial⟩⟩
  | cons e' es ih =>
    rw [List.cons_append, Along, ih, Along, List.foldl_cons, and_assoc]

/-- The same, step by step. -/
theorem along_iff_forall {step : σ → ε → σ} {P : σ → ε → Prop} {s : σ} {es : List ε} :
    Along step P s es ↔
      ∀ before e later, es = before ++ e :: later → P (before.foldl step s) e := by
  induction es generalizing s with
  | nil =>
    refine iff_of_true trivial fun before e later h => ?_
    exact absurd h.symm (List.append_ne_nil_of_right_ne_nil _ (List.cons_ne_nil _ _))
  | cons e es ih =>
    rw [Along, ih]
    constructor
    · rintro ⟨he, hes⟩ before e' later heq
      -- the event is the first one, or one of the rest
      cases before with
      | nil =>
        obtain ⟨rfl, _⟩ := List.cons.inj heq
        exact he
      | cons b before =>
        obtain ⟨rfl, hrest⟩ := List.cons.inj heq
        exact hes before e' later hrest
    · intro h
      refine ⟨h [] e es rfl, fun before e' later heq => ?_⟩
      exact h (e :: before) e' later (by rw [heq, List.cons_append])

/-- Along a run of valid steps, an invariant of the steps with `P` makes two conditions
    equivalent if it does so at every single step. -/
theorem Along.congr {step : σ → ε → σ} {Valid P Q : σ → ε → Prop} {Inv : σ → Prop}
    (hinv : ∀ s e, Inv s → Valid s e → P s e → Inv (step s e))
    (hiff : ∀ s e, Inv s → Valid s e → (P s e ↔ Q s e)) {s : σ} {es : List ε} (hs : Inv s)
    (hvalid : Along step Valid s es) : Along step P s es ↔ Along step Q s es := by
  induction es generalizing s with
  | nil => exact Iff.rfl
  | cons e es ih =>
    -- valid events keep the invariant under which the two conditions agree
    obtain ⟨he, hes⟩ := hvalid
    have hone := hiff s e hs he
    constructor
    · rintro ⟨hp, hrest⟩
      exact ⟨hone.mp hp, (ih (hinv s e hs he hp) hes).mp hrest⟩
    · rintro ⟨hq, hrest⟩
      have hp := hone.mpr hq
      exact ⟨hp, (ih (hinv s e hs he hp) hes).mpr hrest⟩

/-- Along a run of valid steps from a state with an invariant of valid steps, what
    follows from both at every single step holds at every step. -/
theorem Along.of_inv {step : σ → ε → σ} {Valid P : σ → ε → Prop} {Inv : σ → Prop}
    (hinv : ∀ s e, Inv s → Valid s e → Inv (step s e))
    (himp : ∀ s e, Inv s → Valid s e → P s e) {s : σ} {es : List ε} (hs : Inv s)
    (hvalid : Along step Valid s es) : Along step P s es := by
  induction es generalizing s with
  | nil => trivial
  | cons e es ih =>
    obtain ⟨he, hes⟩ := hvalid
    exact ⟨himp s e hs he, ih (hinv s e hs he) hes⟩

/-! ## Steps with an output -/

section Outputs

variable {τ α T : Type*}

/-- What a machine answers to its inputs, in order. -/
def outputs (step : σ → ε → α × σ) : σ → List ε → List α
  | _, [] => []
  | s, e :: es => (step s e).1 :: outputs step (step s e).2 es

/-- Two machines answer alike if a relation between their states, which may depend on the time
    that has been reached, makes them answer the next input alike and is kept by it. -/
theorem outputs_eq_of_sim [LE T] {step : σ → ε → α × σ} {step' : τ → ε → α × τ} {time : ε → T}
    {Sim : σ → τ → T → Prop}
    (hanswer : ∀ s s' t e, Sim s s' t → t ≤ time e → (step s e).1 = (step' s' e).1)
    (hsim : ∀ s s' t e, Sim s s' t → t ≤ time e → Sim (step s e).2 (step' s' e).2 (time e))
    {s : σ} {s' : τ} {t : T} {es : List ε} (hs : Sim s s' t)
    (hclock : (es.map time).Pairwise (· ≤ ·)) (ht : ∀ e ∈ es, t ≤ time e) :
    outputs step s es = outputs step' s' es := by
  induction es generalizing s s' t with
  | nil => rfl
  | cons e es ih =>
    -- the clock moves on to the time of this event
    rw [List.map_cons, List.pairwise_cons] at hclock
    have hte : t ≤ time e := ht e List.mem_cons_self
    have hlater : ∀ e' ∈ es, time e ≤ time e' := fun e' he' =>
      hclock.1 (time e') (List.mem_map_of_mem he')
    rw [outputs, outputs, hanswer s s' t e hs hte, ih (hsim s s' t e hs hte) hclock.2 hlater]

end Outputs
