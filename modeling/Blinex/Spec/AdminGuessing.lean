import Blinex.ForStd.Quota
import Blinex.ForStd.Run
import Blinex.Native.AdminLogin

/-!
# Guessing the admin password

Between two resets ten failed logins from one address are charged, but more may be made: a
request that has passed the check is not charged until its credentials are compared. The pool of
logins is a quota of ten (`Quota`), so `k` overlapping requests get at most `9 + k` guesses, and
the ten that the code means are kept exactly if requests do not overlap.
-/

namespace Blinex.Native.Management

variable {cfg : AdminConfig} {ip : String}

/-- Logins and ticker turns at work on `loginAttempts`. -/
abbrev LoginPool := Pool LoginOp.Res LoginOutcome (PMap String Nat)

/-- One event of an interleaving. -/
abbrev LoginPool.step (cfg : AdminConfig) :
    LoginPool → PoolEvent LoginTask → Option LoginPool :=
  Pool.step (LoginOp.exec cfg) (LoginTask.program cfg)

/-- The step is a comparison, for a request from this address, that fails. -/
def LoginOp.fails (cfg : AdminConfig) (ip : String) : LoginOp → Bool
  | .compare ip' creds => ip' == ip && !cfg.accepts creds
  | _ => false

/-- The failed comparisons since the last reset; the newest step is the first. -/
def failedGuesses (cfg : AdminConfig) (ip : String) (log : List (Nat × LoginOp)) : Nat :=
  (log.takeWhile fun e => e.2 != .reset).countP fun e => e.2.fails cfg ip

/-- The request has read the attempts of its address, was not turned away, and has yet to
    compare its credentials or to charge the failure. -/
def InFlight (ip : String) (p : LoginPool) (pid : Nat) : Prop :=
  (∃ creds, p.nextOp pid = some (.compare ip creds)) ∨ p.nextOp pid = some (.charge ip)

/-- At most `k` requests from the address overlap. -/
def Overlap (ip : String) (k : Nat) (p : LoginPool) : Prop := {pid | InFlight ip p pid}.encard ≤ k

/-! ## The programs at work -/

/-- What is left of a task at some point. -/
inductive AtWork (cfg : AdminConfig) : Prog LoginOp.Res LoginOutcome → Prop
  | task (t : LoginTask) : AtWork cfg (t.program cfg)
  | creds (call : AdminLoginCall) (creds : AdminCredentials) :
    AtWork cfg (checkCredentials call creds)
  | charge (ip : String) (r : LoginOutcome) : AtWork cfg (.op (.charge ip) fun _ => .ret r)
  | done (r : LoginOutcome) : AtWork cfg (.ret r)

/-- `adminLogin` reads the attempts, unless it ends at once, and then ends or goes on with the
    credentials. -/
private theorem adminLogin_cases (cfg : AdminConfig) (call : AdminLoginCall) :
    (∃ r, adminLogin cfg call = .ret r) ∨
    ∃ next : Nat → Prog LoginOp.Res LoginOutcome,
      adminLogin cfg call = .op (.attempts call.ip) next ∧
      ∀ count, (∃ r, next count = .ret r) ∨
        count < 10 ∧ ∃ creds, next count = checkCredentials call creds := by
  -- the checks of the handler, in its order: password, attempts, body
  unfold adminLogin
  split
  · exact .inl ⟨_, rfl⟩
  · refine .inr ⟨_, rfl, fun count => ?_⟩
    dsimp only [Prog.bind]
    split
    · exact .inl ⟨_, rfl⟩
    · rename_i hcount
      split
      · exact .inl ⟨_, rfl⟩
      · exact .inr ⟨Nat.lt_of_not_le hcount, _, rfl⟩

/-- `checkCredentials` compares, and then ends or charges. -/
private theorem checkCredentials_cases (call : AdminLoginCall) (creds : AdminCredentials) :
    ∃ next : Bool → Prog LoginOp.Res LoginOutcome,
      checkCredentials call creds = .op (.compare call.ip creds) next ∧
      (∃ r, next true = .ret r) ∧ ∃ r, next false = .op (.charge call.ip) fun _ => .ret r := by
  refine ⟨_, rfl, ?_, _, rfl⟩
  dsimp only [Prog.bind, Bool.not_true]
  split
  · contradiction
  · split <;> exact ⟨_, rfl⟩

/-- Every program of the pool is such a rest. -/
def AllAtWork (cfg : AdminConfig) (p : LoginPool) : Prop :=
  ∀ pid q, p.procs pid = some q → AtWork cfg q

/-- The phase of the quota that a program is in. -/
def phaseOf (ip : String) : Option (Prog LoginOp.Res LoginOutcome) → Quota.Phase
  | some (.op (.compare ip' _) _) => if ip' = ip then .admitted else .idle
  | some (.op (.charge ip') _) => if ip' = ip then .owing else .idle
  | _ => .idle

/-- The pool as a quota of the address. -/
def quota (cfg : AdminConfig) (ip : String) (p : LoginPool) : Quota.State Nat where
  phase pid := phaseOf ip (p.procs pid)
  charged := (p.state ip).getD 0
  spent := failedGuesses cfg ip p.log

/-- A request of the address is in flight when its worker is not idle. -/
private theorem inFlight_iff {p : LoginPool} {pid : Nat} :
    InFlight ip p pid ↔ (quota cfg ip p).phase pid ≠ .idle := by
  simp only [InFlight, quota, Pool.nextOp]
  cases p.procs pid with
  | none => simp [phaseOf]
  | some q =>
    cases q with
    | ret a => simp [phaseOf]
    | op o next => cases o <;> simp [phaseOf]

/-- The requests that overlap are the busy workers. -/
private theorem Overlap.atMostBusy {p : LoginPool} {k : Nat} (h : Overlap ip k p) :
    Quota.AtMostBusy k (quota cfg ip p) := by
  have heq : {pid | InFlight ip p pid} = (quota cfg ip p).busy := Set.ext fun _ => inFlight_iff
  rw [Overlap, heq] at h
  exact h

/-! ## One step -/

private theorem failedGuesses_reset (pid : Nat) (log : List (Nat × LoginOp)) :
    failedGuesses cfg ip ((pid, .reset) :: log) = 0 := rfl

/-- The count goes up with each comparison that fails. -/
private theorem failedGuesses_cons {pid : Nat} {o : LoginOp} (ho : o ≠ .reset)
    (log : List (Nat × LoginOp)) :
    failedGuesses cfg ip ((pid, o) :: log) =
      failedGuesses cfg ip log + if o.fails cfg ip then 1 else 0 := by
  have hkeep : (o != .reset) = true := bne_iff_ne.mpr ho
  simp only [failedGuesses, List.takeWhile_cons, hkeep, ↓reduceIte, List.countP_cons]

/-- The pool after the program has performed an operation. -/
def LoginPool.acted (p : LoginPool) (pid : Nat) (o : LoginOp) (m : PMap String Nat)
    (q : Prog LoginOp.Res LoginOutcome) : LoginPool :=
  { state := m, procs := p.procs.set pid q, log := (pid, o) :: p.log }

/-- In the quota only the worker's phase and the two counters change. -/
private theorem quota_acted (p : LoginPool) (pid : Nat) (o : LoginOp) (m : PMap String Nat)
    (q : Prog LoginOp.Res LoginOutcome) :
    quota cfg ip (p.acted pid o m q) =
      { (quota cfg ip p).move pid (phaseOf ip (some q)) with
        charged := (m ip).getD 0
        spent := failedGuesses cfg ip ((pid, o) :: p.log) } := by
  have hphase : (fun x => phaseOf ip ((p.procs.set pid q) x)) =
      Function.update (fun x => phaseOf ip (p.procs x)) pid (phaseOf ip (some q)) := by
    funext x
    by_cases hx : x = pid
    · simp [hx]
    · simp [PMap.set_ne _ _ hx, hx]
  simp only [quota, LoginPool.acted, Quota.State.move, hphase]

/-- What a step of the pool is in the quota: one of its steps, or none. -/
def QuotaStep (cfg : AdminConfig) (ip : String) (p p' : LoginPool) : Prop :=
  quota cfg ip p' = quota cfg ip p ∨ Quota.Step 10 (quota cfg ip p) (quota cfg ip p')

section Act

variable {p : LoginPool} {pid : Nat}

/-- A step that leaves the counters alone moves the worker. -/
private theorem quota_moved {o : LoginOp} {q : Prog LoginOp.Res LoginOutcome} (ho : o ≠ .reset)
    (hfails : o.fails cfg ip = false) :
    quota cfg ip (p.acted pid o p.state q) = (quota cfg ip p).move pid (phaseOf ip (some q)) := by
  rw [quota_acted, failedGuesses_cons ho, hfails]
  rfl

/-- Reading the attempts: the request is admitted, or ends. -/
private theorem quotaStep_attempts {call : AdminLoginCall}
    {next : Nat → Prog LoginOp.Res LoginOutcome}
    (hpid : p.procs pid = some (.op (.attempts call.ip) next))
    (hnext : ∀ count, (∃ r, next count = .ret r) ∨
      count < 10 ∧ ∃ creds, next count = checkCredentials call creds) :
    QuotaStep cfg ip p
      (p.acted pid (.attempts call.ip) p.state (next ((p.state call.ip).getD 0))) := by
  have hidle : (quota cfg ip p).phase pid = .idle := congrArg (phaseOf ip) hpid
  rw [QuotaStep, quota_moved (o := .attempts call.ip) (by simp) rfl]
  rcases hnext ((p.state call.ip).getD 0) with ⟨r, hr⟩ | ⟨hcount, creds, hcreds⟩
  · rw [hr]
    exact .inl (Quota.State.move_self hidle)
  · rw [hcreds]
    -- a request from another address is idle in this quota
    by_cases hip : call.ip = ip
    · have hphase : phaseOf ip (some (checkCredentials call creds)) = .admitted := if_pos hip
      rw [hphase]
      rw [hip] at hcount
      exact .inr (.enter pid hidle hcount)
    · have hphase : phaseOf ip (some (checkCredentials call creds)) = .idle := if_neg hip
      rw [hphase]
      exact .inl (Quota.State.move_self hidle)

/-- Comparing the credentials: the request ends, or owes a charge. -/
private theorem quotaStep_compare {ip' : String} {creds : AdminCredentials}
    {next : Bool → Prog LoginOp.Res LoginOutcome}
    (hpid : p.procs pid = some (.op (.compare ip' creds) next))
    (hok : ∃ r, next true = .ret r) (hbad : ∃ r, next false = .op (.charge ip') fun _ => .ret r) :
    QuotaStep cfg ip p (p.acted pid (.compare ip' creds) p.state (next (cfg.accepts creds))) := by
  have hphase : (quota cfg ip p).phase pid = if ip' = ip then .admitted else .idle :=
    congrArg (phaseOf ip) hpid
  obtain ⟨r, hok⟩ := hok
  obtain ⟨r', hbad⟩ := hbad
  rw [QuotaStep, quota_acted, failedGuesses_cons (by simp)]
  -- a guess from the address: a wrong one is spent now and charged in the next step
  by_cases hip : ip' = ip
  · subst hip
    rw [if_pos rfl] at hphase
    cases haccepts : cfg.accepts creds with
    | true =>
      rw [hok]
      have hfails : (LoginOp.compare ip' creds).fails cfg ip' = false := by
        simp [LoginOp.fails, haccepts]
      rw [hfails]
      exact .inr (.leave pid hphase)
    | false =>
      rw [hbad]
      have hfails : (LoginOp.compare ip' creds).fails cfg ip' = true := by
        simp [LoginOp.fails, haccepts]
      have howing : phaseOf ip' (some (.op (.charge ip') fun _ => .ret r')) = .owing := if_pos rfl
      rw [hfails, howing]
      exact .inr (.spend pid hphase)
  · -- a request from another address
    rw [if_neg hip] at hphase
    have hfails : (LoginOp.compare ip' creds).fails cfg ip = false := by
      simp [LoginOp.fails, hip]
    have hidle : phaseOf ip (some (next (cfg.accepts creds))) = .idle := by
      cases cfg.accepts creds with
      | true => rw [hok]; rfl
      | false => rw [hbad]; exact if_neg hip
    rw [hfails, hidle]
    exact .inl (Quota.State.move_self hphase)

/-- Charging the failure. -/
private theorem quotaStep_charge {ip' : String} {r : LoginOutcome}
    (hpid : p.procs pid = some (.op (.charge ip') fun _ => .ret r)) :
    QuotaStep cfg ip p
      (p.acted pid (.charge ip') (p.state.set ip' ((p.state ip').getD 0 + 1)) (.ret r)) := by
  have hphase : (quota cfg ip p).phase pid = if ip' = ip then .owing else .idle :=
    congrArg (phaseOf ip) hpid
  rw [QuotaStep, quota_acted, failedGuesses_cons (by simp)]
  -- the charge pays for the guess; one from another address does not count here
  by_cases hip : ip' = ip
  · subst hip
    rw [if_pos rfl] at hphase
    rw [PMap.set_self]
    exact .inr (.charge pid hphase)
  · rw [if_neg hip] at hphase
    rw [PMap.set_ne _ _ (Ne.symm hip)]
    exact .inl (Quota.State.move_self hphase)

/-- The ticker clears the counts. -/
private theorem quotaStep_reset {r : LoginOutcome}
    (hpid : p.procs pid = some (.op .reset fun _ => .ret r)) :
    QuotaStep cfg ip p (p.acted pid .reset PMap.empty (.ret r)) := by
  have hidle : (quota cfg ip p).phase pid = .idle := congrArg (phaseOf ip) hpid
  rw [QuotaStep, quota_acted, failedGuesses_reset]
  have hmove : (quota cfg ip p).move pid (phaseOf ip (some (.ret r))) = quota cfg ip p :=
    Quota.State.move_self hidle
  rw [hmove]
  exact .inr .reset

end Act

/-- The rests of the tasks are again such rests, and each of their steps is one of the quota. -/
private theorem act_quotaStep {p : LoginPool} {pid : Nat} {o : LoginOp}
    {next : o.Res → Prog LoginOp.Res LoginOutcome} (hwork : AtWork cfg (.op o next))
    (hpid : p.procs pid = some (.op o next)) :
    AtWork cfg (next (o.exec cfg p.state).1) ∧
      QuotaStep cfg ip p
        (p.acted pid o (o.exec cfg p.state).2 (next (o.exec cfg p.state).1)) := by
  -- the rest is given up to its form, so its next operation has to be read off first
  generalize hq : (Prog.op o next : Prog LoginOp.Res LoginOutcome) = q at hwork
  -- one case for each place a handler can be at
  cases hwork with
  | task t =>
    cases t with
    | login call =>
      rcases adminLogin_cases cfg call with ⟨r, hlogin⟩ | ⟨next', hlogin, hnext⟩
      · cases hq.trans hlogin
      · cases hq.trans hlogin
        refine ⟨?_, quotaStep_attempts hpid hnext⟩
        rcases hnext ((p.state call.ip).getD 0) with ⟨r, hr⟩ | ⟨_, creds, hcreds⟩
        · exact hr ▸ .done r
        · exact hcreds ▸ .creds call creds
    | tick =>
      cases hq
      exact ⟨.done _, quotaStep_reset hpid⟩
  | creds call creds =>
    obtain ⟨next', hcheck, hok, hbad⟩ := checkCredentials_cases call creds
    cases hq.trans hcheck
    refine ⟨?_, quotaStep_compare hpid hok hbad⟩
    obtain ⟨r, hok⟩ := hok
    obtain ⟨r', hbad⟩ := hbad
    show AtWork cfg (next' (cfg.accepts creds))
    cases cfg.accepts creds with
    | true => exact hok ▸ .done r
    | false => exact hbad ▸ .charge call.ip r'
  | charge ip' r =>
    cases hq
    exact ⟨.done r, quotaStep_charge hpid⟩
  | done r => cases hq

/-! ## Whole runs -/

/-- A program that has just been started is idle. -/
private theorem phaseOf_program (cfg : AdminConfig) (ip : String) (t : LoginTask) :
    phaseOf ip (some (t.program cfg)) = .idle := by
  cases t with
  | login call =>
    show phaseOf ip (some (adminLogin cfg call)) = .idle
    rcases adminLogin_cases cfg call with ⟨r, hr⟩ | ⟨next, hnext, _⟩
    · rw [hr]
      rfl
    · rw [hnext]
      rfl
  | tick => rfl

/-- A task that starts has not been admitted. -/
private theorem quota_started {p : LoginPool} {pid : Nat} (hfree : p.procs pid = none)
    (t : LoginTask) :
    quota cfg ip { p with procs := p.procs.set pid (t.program cfg) } = quota cfg ip p := by
  have hphase : (fun x => phaseOf ip ((p.procs.set pid (t.program cfg)) x)) =
      fun x => phaseOf ip (p.procs x) := by
    funext x
    by_cases hx : x = pid
    · rw [hx, PMap.set_self, phaseOf_program, hfree]
      rfl
    · rw [PMap.set_ne _ _ hx]
  simp only [quota, hphase]

/-- Every step of the pool is one of the quota, or none. -/
private theorem step_quotaStep {p p' : LoginPool} {ev : PoolEvent LoginTask}
    (hwork : AllAtWork cfg p)
    (h : LoginPool.step cfg p ev = some p') : AllAtWork cfg p' ∧ QuotaStep cfg ip p p' := by
  rcases Pool.step_cases h with ⟨pid, t, rfl, hfree, rfl⟩ | ⟨pid, o, next, rfl, hpid, rfl⟩
  · refine ⟨fun x q hx => ?_, .inl (quota_started hfree t)⟩
    rcases PMap.set_eq_some _ hx with ⟨_, rfl⟩ | ⟨_, hx⟩
    · exact .task t
    · exact hwork x q hx
  · obtain ⟨hnext, hstep⟩ : _ ∧ QuotaStep cfg ip p _ := act_quotaStep (hwork pid _ hpid) hpid
    refine ⟨fun x q hx => ?_, hstep⟩
    rcases PMap.set_eq_some _ hx with ⟨_, rfl⟩ | ⟨_, hx⟩
    · exact hnext
    · exact hwork x q hx

/-- With at most `k` requests overlapping, fewer than `10 + k` guesses fail. -/
private theorem failedGuesses_lt {k : Nat} {p : LoginPool} {events : List (PoolEvent LoginTask)}
    (hwork : AllAtWork cfg p) (hwithin : Quota.Within 10 k (quota cfg ip p))
    (hover : Throughout (LoginPool.step cfg) (Overlap ip k) p events) :
    Throughout (LoginPool.step cfg) (fun p => failedGuesses cfg ip p.log < 10 + k) p events := by
  -- along the run every state is within the quota and has only rests of tasks at work
  induction events generalizing p with
  | nil => exact hwithin.spent_lt
  | cons ev events ih =>
    refine ⟨hwithin.spent_lt, fun p' hp' => ?_⟩
    obtain ⟨hwork', hstep⟩ : _ ∧ QuotaStep cfg ip p p' := step_quotaStep hwork hp'
    have hwithin' : Quota.Within 10 k (quota cfg ip p') := by
      rcases hstep with heq | hstep
      · rw [heq]
        exact hwithin
      · exact hwithin.step (by decide) hover.1.atMostBusy (hover.2 p' hp').head.atMostBusy hstep
    exact ih hwork' hwithin' (hover.2 p' hp')

/-- A bound on the overlap may be raised. -/
theorem Overlap.mono {k k' : Nat} {p : LoginPool} (h : Overlap ip k p) (hk : k ≤ k') :
    Overlap ip k' p := h.trans (by exact_mod_cast hk)

/-- Nothing runs and nothing is charged. -/
def LoginPool.initial : LoginPool := { state := PMap.empty }

private theorem allAtWork_initial : AllAtWork cfg LoginPool.initial := fun _ _ h => nomatch h

/-- At the start nothing has been spent. -/
private theorem within_initial (k : Nat) : Quota.Within 10 k (quota cfg ip LoginPool.initial) := by
  have hnone : (quota cfg ip LoginPool.initial).at .admitted = ∅ :=
    Set.eq_empty_of_forall_notMem fun _ h => nomatch h
  refine ⟨Nat.zero_le _, ?_⟩
  rw [hnone, Set.ncard_empty]
  show 0 + 0 < 10 + k
  omega

/-! ## Without a password -/

/-- Without a password no login gets past the first check. -/
def LoginDisabled (p : LoginPool) : Prop :=
  ∀ pid q, p.procs pid = some q → q = resetAttempts ∨ ∃ r, q = .ret r

/-- Without a password no request of any address is in flight. -/
private theorem LoginDisabled.overlap {p : LoginPool} (h : LoginDisabled p) : Overlap ip 0 p := by
  have hnone : {pid | InFlight ip p pid} = ∅ := by
    refine Set.eq_empty_of_forall_notMem fun pid hpid => ?_
    simp only [Set.mem_ofPred_eq, InFlight, Pool.nextOp] at hpid
    cases hq : p.procs pid with
    | none => simp [hq] at hpid
    | some q =>
      rcases h pid q hq with rfl | ⟨r, rfl⟩ <;> simp [hq, resetAttempts] at hpid
  rw [Overlap, hnone, Set.encard_empty]
  exact le_refl _

/-- Without a password a login returns at once, and the ticker only resets. -/
theorem LoginDisabled.step {p p' : LoginPool} {ev : PoolEvent LoginTask}
    (hnone : cfg.adminPassword = "") (h : LoginDisabled p)
    (hstep : LoginPool.step cfg p ev = some p') : LoginDisabled p' := by
  rcases Pool.step_cases hstep with ⟨pid, t, rfl, _, rfl⟩ | ⟨pid, o, next, rfl, hpid, rfl⟩
  · intro x q hx
    rcases PMap.set_eq_some _ hx with ⟨_, rfl⟩ | ⟨_, hx⟩
    · cases t with
      -- the missing password is checked first
      | login call => exact .inr ⟨_, if_pos hnone⟩
      | tick => exact .inl rfl
    · exact h x q hx
  · intro x q hx
    rcases PMap.set_eq_some _ hx with ⟨_, rfl⟩ | ⟨_, hx⟩
    · -- only the ticker has an operation left
      rcases h pid _ hpid with hreset | ⟨r, hr⟩
      · cases hreset
        exact .inr ⟨_, rfl⟩
      · cases hr
    · exact h x q hx

/-- Without a password this holds along every run. -/
private theorem loginDisabled_throughout (hnone : cfg.adminPassword = "")
    (events : List (PoolEvent LoginTask)) :
    Throughout (LoginPool.step cfg) LoginDisabled LoginPool.initial events :=
  ExecAlong.throughout (P := fun _ _ => True) (fun _ _ _ _ h hstep => h.step hnone hstep)
    (fun _ _ h => nomatch h) (.of_forall (fun _ _ _ => trivial) _)

/-! ## Two overlapping requests -/

section TwoRequests

variable (cfg : AdminConfig) (ip : String)

/-- A user name that is not the admin's. -/
def wrongCredentials : AdminCredentials := ⟨cfg.adminUser ++ "x", "x"⟩

/-- A login with it. -/
def wrongLogin : AdminLoginCall := { ip, body := .ok (wrongCredentials cfg) }

/-- The credentials tried below are wrong. -/
private theorem accepts_wrong : cfg.accepts (wrongCredentials cfg) = false := by
  have hne : cfg.adminUser ++ "x" ≠ cfg.adminUser := by
    intro h
    have hlen := congrArg String.length h
    simp at hlen
  simp [AdminConfig.accepts, wrongCredentials, hne]

/-- The body tried below has both fields. -/
private theorem bind_wrong :
    bindJSON (wrongLogin cfg ip).body AdminCredentials.required = .ok (wrongCredentials cfg) := by
  have hname : cfg.adminUser ++ "x" ≠ "" := by
    intro h
    have hlen := congrArg String.length h
    simp at hlen
  simp [bindJSON, wrongLogin, wrongCredentials, AdminCredentials.required, hname]

variable {cfg ip} {p : LoginPool} {pid : Nat}

/-- Between the two states only this program, and what it has done, differ. -/
structure Acts (cfg : AdminConfig) (ip : String) (pid : Nat) (q : Prog LoginOp.Res LoginOutcome)
    (charges guesses : Nat) (p p' : LoginPool) : Prop where
  now : p'.procs pid = some q
  others : ∀ x, x ≠ pid → p'.procs x = p.procs x
  charged : (p'.state ip).getD 0 = (p.state ip).getD 0 + charges
  guessed : failedGuesses cfg ip p'.log = failedGuesses cfg ip p.log + guesses

/-- What is left of the login once it is admitted, and once it has failed. -/
def pendingLogin (cfg : AdminConfig) (ip : String) : Prog LoginOp.Res LoginOutcome :=
  checkCredentials (wrongLogin cfg ip) (wrongCredentials cfg)

/-- A wrong guess that is still to be charged. -/
def chargingLogin (ip : String) : Prog LoginOp.Res LoginOutcome :=
  .op (.charge ip) fun _ => .ret (.refused (fail 401 "invalid credentials"))

/-- A login is started. -/
private theorem step_start (hfree : p.procs pid = none) :
    ∃ p', LoginPool.step cfg p (.start pid (.login (wrongLogin cfg ip))) = some p' ∧
      Acts cfg ip pid (adminLogin cfg (wrongLogin cfg ip)) 0 0 p p' := by
  refine ⟨{ p with procs := p.procs.set pid (adminLogin cfg (wrongLogin cfg ip)) }, ?_, ?_⟩
  · simp [LoginPool.step, Pool.step, hfree, LoginTask.program]
  · exact ⟨PMap.set_self .., fun x hx => PMap.set_ne _ _ hx, rfl, rfl⟩

private theorem step_act {o : LoginOp} {next : o.Res → Prog LoginOp.Res LoginOutcome}
    (hpid : p.procs pid = some (.op o next)) :
    LoginPool.step cfg p (.act pid) =
      some (p.acted pid o (o.exec cfg p.state).2 (next (o.exec cfg p.state).1)) := by
  simp [LoginPool.step, Pool.step, hpid, LoginPool.acted]

/-- What an operation other than a reset does to the counts of the address. -/
private theorem acts_acted (o : LoginOp) (ho : o ≠ .reset) (m : PMap String Nat)
    (q : Prog LoginOp.Res LoginOutcome) {charges guesses : Nat}
    (hm : (m ip).getD 0 = (p.state ip).getD 0 + charges)
    (hg : (if o.fails cfg ip then 1 else 0) = guesses) :
    Acts cfg ip pid q charges guesses p (p.acted pid o m q) :=
  ⟨PMap.set_self .., fun _ hx => PMap.set_ne _ _ hx, hm, hg ▸ failedGuesses_cons ho p.log⟩

/-- The login is admitted while fewer than ten failures are charged. -/
private theorem step_enter (hpassword : cfg.adminPassword ≠ "")
    (hpid : p.procs pid = some (adminLogin cfg (wrongLogin cfg ip)))
    (hroom : (p.state ip).getD 0 < 10) :
    ∃ p', LoginPool.step cfg p (.act pid) = some p' ∧
      Acts cfg ip pid (pendingLogin cfg ip) 0 0 p p' := by
  -- with a password and a complete body the handler asks for the attempts first
  have hlogin : adminLogin cfg (wrongLogin cfg ip) = .op (.attempts ip) fun count =>
      if 10 ≤ count then .ret (.refused (fail 429 "too many login attempts, try again later"))
      else pendingLogin cfg ip := by
    simp only [adminLogin, if_neg hpassword, bind_wrong, Prog.op_bind, Prog.ret_bind, pendingLogin]
    rfl
  rw [hlogin] at hpid
  refine ⟨_, step_act hpid, ?_⟩
  have hnext : (if 10 ≤ ((LoginOp.attempts ip).exec cfg p.state).1 then
      .ret (.refused (fail 429 "too many login attempts, try again later"))
      else pendingLogin cfg ip) = pendingLogin cfg ip := if_neg (Nat.not_le.mpr hroom)
  rw [hnext]
  exact acts_acted (.attempts ip) (by simp) _ _ rfl rfl

/-- The comparison fails. -/
private theorem step_fail (hpid : p.procs pid = some (pendingLogin cfg ip)) :
    ∃ p', LoginPool.step cfg p (.act pid) = some p' ∧
      Acts cfg ip pid (chargingLogin ip) 0 1 p p' := by
  have hfails : (LoginOp.compare ip (wrongCredentials cfg)).fails cfg ip = true := by
    -- the comparison fails and the charge is still to come
    simp [LoginOp.fails, accepts_wrong]
  have hlogin : pendingLogin cfg ip = .op (.compare ip (wrongCredentials cfg)) fun ok =>
      if !ok then chargingLogin ip else .ret (.token (issueAdminToken 0 "default")) := rfl
  rw [hlogin] at hpid
  refine ⟨_, step_act hpid, ?_⟩
  have hnext : (if !((LoginOp.compare ip (wrongCredentials cfg)).exec cfg p.state).1 then
      chargingLogin ip else .ret (.token (issueAdminToken 0 "default"))) = chargingLogin ip :=
    if_pos (congrArg not (accepts_wrong cfg))
  rw [hnext]
  exact acts_acted (.compare ip (wrongCredentials cfg)) (by simp) _ _ rfl (if_pos hfails)

/-- The failure is charged. -/
private theorem step_charge (hpid : p.procs pid = some (chargingLogin ip)) :
    ∃ p' r, LoginPool.step cfg p (.act pid) = some p' ∧ Acts cfg ip pid (.ret r) 1 0 p p' := by
  refine ⟨_, _, step_act hpid, acts_acted (.charge ip) (by simp) _ _ ?_ rfl⟩
  show ((p.state.set ip ((p.state ip).getD 0 + 1)) ip).getD 0 = (p.state ip).getD 0 + 1
  rw [PMap.set_self]
  rfl

/-- The only requests in flight are these two. -/
def OnlyTwo (ip : String) (pid : Nat) (p : LoginPool) : Prop :=
  ∀ x, x ≠ 0 → x ≠ pid → ¬ InFlight ip p x

/-- Two requests in flight overlap by two at most. -/
private theorem OnlyTwo.overlap (h : OnlyTwo ip pid p) : Overlap ip 2 p := by
  have hsub : {x | InFlight ip p x} ⊆ {0, pid} := by
    intro x hx
    by_contra hnot
    simp only [Set.mem_insert_iff, Set.mem_singleton_iff, not_or] at hnot
    exact h x hnot.1 hnot.2 hx
  calc {x | InFlight ip p x}.encard
      ≤ ({0, pid} : Set Nat).encard := Set.encard_le_encard hsub
    _ ≤ ({pid} : Set Nat).encard + 1 := Set.encard_insert_le _ _
    _ = 2 := by rw [Set.encard_singleton]; rfl

/-- What one of the two does does not concern the others. -/
private theorem OnlyTwo.acts {p' : LoginPool} {x charges guesses : Nat}
    {q : Prog LoginOp.Res LoginOutcome} (h : OnlyTwo ip pid p) (hx : x = 0 ∨ x = pid)
    (hacts : Acts cfg ip x q charges guesses p p') : OnlyTwo ip pid p' := by
  intro y hy0 hy hfly
  have hne : y ≠ x := by
    rcases hx with rfl | rfl <;> assumption
  refine h y hy0 hy ?_
  simpa only [InFlight, Pool.nextOp, hacts.others y hne] using hfly

/-- Request 0 has been admitted and waits, and `n` others have failed since, one after another. -/
structure Ready (cfg : AdminConfig) (ip : String) (n : Nat) (p : LoginPool) : Prop where
  waiting : p.procs 0 = some (pendingLogin cfg ip)
  fresh : ∀ x, n < x → p.procs x = none
  ended : ∀ x, x ≠ 0 → ¬ InFlight ip p x
  charged : (p.state ip).getD 0 = n
  guessed : failedGuesses cfg ip p.log = n

/-- The first request is started and admitted, and waits with its comparison. -/
private theorem ready_zero (hpassword : cfg.adminPassword ≠ "") :
    ∃ p, ReachesVia (LoginPool.step cfg) (Overlap ip 2) LoginPool.initial p ∧
      Ready cfg ip 0 p := by
  -- no number is in use yet
  have htwo : OnlyTwo ip 0 LoginPool.initial := by
    rintro x _ _ (⟨_, h⟩ | h) <;> cases h
  obtain ⟨p₁, hstart, h₁⟩ : ∃ p', LoginPool.step cfg LoginPool.initial
      (.start 0 (.login (wrongLogin cfg ip))) = some p' ∧ Acts cfg ip 0 _ 0 0 _ p' :=
    step_start rfl
  -- nothing is charged yet
  have hroom : (p₁.state ip).getD 0 < 10 := by
    rw [h₁.charged]
    show 0 + 0 < 10
    decide
  obtain ⟨p₂, henter, h₂⟩ := step_enter hpassword h₁.now hroom
  have htwo₁ := htwo.acts (.inl rfl) h₁
  have htwo₂ := htwo₁.acts (.inl rfl) h₂
  refine ⟨p₂, .head hstart htwo.overlap (.head henter htwo₁.overlap (.refl htwo₂.overlap)), ?_⟩
  refine ⟨h₂.now, fun x hx => ?_, fun x hx => htwo₂ x hx hx, ?_, ?_⟩
  · rw [h₂.others x hx.ne', h₁.others x hx.ne']
    rfl
  · rw [h₂.charged, h₁.charged]
    rfl
  · rw [h₂.guessed, h₁.guessed]
    rfl

/-- While request 0 waits, the next one fails and is charged. -/
theorem Ready.round {n : Nat} (hpassword : cfg.adminPassword ≠ "") (h : Ready cfg ip n p)
    (hn : n < 10) :
    ∃ p', ReachesVia (LoginPool.step cfg) (Overlap ip 2) p p' ∧ Ready cfg ip (n + 1) p' := by
  have htwo : OnlyTwo ip (n + 1) p := fun x hx _ => h.ended x hx
  obtain ⟨p₁, hstart, h₁⟩ : ∃ p', LoginPool.step cfg p
      (.start (n + 1) (.login (wrongLogin cfg ip))) = some p' ∧ Acts cfg ip (n + 1) _ 0 0 p p' :=
    step_start (h.fresh _ n.lt_succ_self)
  obtain ⟨p₂, henter, h₂⟩ := step_enter hpassword h₁.now (by rw [h₁.charged, h.charged]; exact hn)
  obtain ⟨p₃, hfail, h₃⟩ := step_fail h₂.now
  -- charged before the next one reads, so ten of these are admitted
  obtain ⟨p₄, r, hcharge, h₄⟩ : ∃ p' r, LoginPool.step cfg p₃ (.act (n + 1)) = some p' ∧
      Acts cfg ip (n + 1) (.ret r) 1 0 p₃ p' := step_charge h₃.now
  have htwo₁ := htwo.acts (.inr rfl) h₁
  have htwo₂ := htwo₁.acts (.inr rfl) h₂
  have htwo₃ := htwo₂.acts (.inr rfl) h₃
  have htwo₄ := htwo₃.acts (.inr rfl) h₄
  have hothers : ∀ x, x ≠ n + 1 → p₄.procs x = p.procs x := by
    intro x hx
    rw [h₄.others x hx, h₃.others x hx, h₂.others x hx, h₁.others x hx]
  refine ⟨p₄, .head hstart htwo.overlap (.head henter htwo₁.overlap (.head hfail htwo₂.overlap
    (.head hcharge htwo₃.overlap (.refl htwo₄.overlap)))), ?_⟩
  refine ⟨?_, fun x hx => ?_, fun x hx => ?_, ?_, ?_⟩
  · rw [hothers 0 (by omega)]
    exact h.waiting
  · rw [hothers x (by omega)]
    exact h.fresh x (by omega)
  · by_cases hxn : x = n + 1
    · -- it has been answered
      rintro (⟨_, hfly⟩ | hfly) <;> simp [Pool.nextOp, hxn, h₄.now] at hfly
    · exact htwo₄ x hx hxn
  · rw [h₄.charged, h₃.charged, h₂.charged, h₁.charged, h.charged]
  · rw [h₄.guessed, h₃.guessed, h₂.guessed, h₁.guessed, h.guessed]

/-- While it waits, up to ten more requests are admitted, fail and are charged. -/
private theorem ready_of_le {n : Nat} (hpassword : cfg.adminPassword ≠ "") (hn : n ≤ 10) :
    ∃ p, ReachesVia (LoginPool.step cfg) (Overlap ip 2) LoginPool.initial p ∧
      Ready cfg ip n p := by
  -- one round for each of the ten
  induction n with
  | zero => exact ready_zero hpassword
  | succ n ih =>
    obtain ⟨p, hreach, hready⟩ := ih (by omega)
    obtain ⟨p', hreach', hready'⟩ := hready.round hpassword (by omega)
    exact ⟨p', hreach.trans hreach', hready'⟩

/-- After ten others the waiting request makes the eleventh guess. -/
private theorem eleven_guesses (hpassword : cfg.adminPassword ≠ "") :
    ∃ p, ReachesVia (LoginPool.step cfg) (Overlap ip 2) LoginPool.initial p ∧
      failedGuesses cfg ip p.log = 11 := by
  obtain ⟨p, hreach, hready⟩ := ready_of_le (n := 10) hpassword (Nat.le_refl _)
  have htwo : OnlyTwo ip 0 p := fun x hx _ => hready.ended x hx
  obtain ⟨p', hfail, hacts⟩ := step_fail hready.waiting
  have htwo' := htwo.acts (.inl rfl) hacts
  refine ⟨p', hreach.trans (.head hfail htwo.overlap (.refl htwo'.overlap)), ?_⟩
  rw [hacts.guessed, hready.guessed]

end TwoRequests

/-- In every interleaving with at most `k` overlapping requests from an address at most ten
    guesses fail between two resets, exactly if there is no password or no two overlap. -/
theorem admin_guesses_bounded_iff (cfg : AdminConfig) (ip : String) (k : Nat) :
    (∀ events, Throughout (LoginPool.step cfg) (Overlap ip k) LoginPool.initial events →
      Throughout (LoginPool.step cfg) (fun p => failedGuesses cfg ip p.log ≤ 10)
        LoginPool.initial events) ↔
    cfg.adminPassword = "" ∨ k ≤ 1 := by
  constructor
  · intro h
    -- with a password two requests that overlap make eleven guesses
    by_contra hnot
    obtain ⟨hpassword, hk⟩ := not_or.mp hnot
    obtain ⟨p, ⟨events, hrun, hover⟩, heleven⟩ :
        ∃ p, ReachesVia (LoginPool.step cfg) (Overlap ip 2) LoginPool.initial p ∧
          failedGuesses cfg ip p.log = 11 := eleven_guesses hpassword
    have hover' : Throughout (LoginPool.step cfg) (Overlap ip k) LoginPool.initial events :=
      hover.imp fun p hp => hp.mono (by omega)
    have hten := (h events hover').last hrun
    omega
  · rintro (hnone | hk) events hover
    · -- no request gets past the first check, so none is ever in flight
      have hnever : Throughout (LoginPool.step cfg) (Overlap ip 0) LoginPool.initial events :=
        (loginDisabled_throughout hnone events).imp fun p hp => hp.overlap
      exact (failedGuesses_lt allAtWork_initial (within_initial 0) hnever).imp
        fun p hp => Nat.le_of_lt hp
    · -- at most nine are charged when the last of `k` overlapping requests is admitted
      refine (failedGuesses_lt allAtWork_initial (within_initial k) hover).imp fun p hp => ?_
      omega

/-- The administrator's account of a small deployment. -/
def sampleAdmin : AdminConfig := { adminUser := "admin", adminPassword := "correct horse" }

/-- Eleven requests read the attempts before any of them is charged. -/
def elevenAtOnce : List (PoolEvent LoginTask) :=
  (List.range 11).map (.start · (.login (wrongLogin sampleAdmin "203.0.113.7"))) ++
    (List.range 11).map .act ++ (List.range 11).map .act

/-- All eleven guesses fail, and none was turned away. -/
theorem elevenAtOnce_guesses :
    (exec (LoginPool.step sampleAdmin) LoginPool.initial elevenAtOnce).map
      (fun p => failedGuesses sampleAdmin "203.0.113.7" p.log) = some 11 := by
  decide +kernel

end Blinex.Native.Management
