import Blinex.Spec.TokenRevocation

/-!
# Tokens of peers that come back

A token carries the second in which it was issued, a revocation the moment of the deletion, and
the validator wants the first to be later than the second. A peer that logs in again within the
second of its deletion gets a token that management refuses from the start; in any later second
the token is taken (`login_token_usable_iff`).
-/

namespace Blinex.Native.Management

/-! ## The table after a history -/

/-- When the peer was last deleted, if that was after the last restart. -/
def lastDeletion (key : String) (es : List (Int × AuthAct)) : Option Int :=
  match es.reverse.find? fun e => e.2 = .restart ∨ e.2 = .deletePeer key with
  | some (d, .deletePeer _) => some d
  | _ => none

/-- The table holds the last deletion of the key since the last restart. -/
private theorem managerAfter_revoked (key : String) (es : List (Int × AuthAct)) :
    (managerAfter es).revoked key = lastDeletion key es := by
  -- on the history from its end
  induction es using List.reverseRecOn with
  | nil => rfl
  | append_singleton es e ih =>
    rw [managerAfter_concat, lastDeletion, List.reverse_append]
    obtain ⟨t, act⟩ := e
    cases act with
    | issueToken peerID k accountID => simpa [Manager.step, lastDeletion] using ih
    | restart => simp [Manager.step, Manager.new]
    | deletePeer k =>
      by_cases hk : key = k
      · subst hk
        simp [Manager.step, Manager.revokeByWGKey]
      · have hk' : k ≠ key := fun h => hk h.symm
        simpa [Manager.step, Manager.revokeByWGKey, PMap.set_ne _ _ hk, hk', lastDeletion] using ih

/-- The events of a run of the server that its tokens depend on. -/
def authLog : Server → List Spec.LifeEvent → List (Int × AuthAct)
  | _, [] => []
  | s, ev :: evs =>
    authActs s ev ++
      match Spec.lifeStep s ev with
      | some s' => authLog s' evs
      | none => []

/-- Over a run of the server, its revocations are those of its log. -/
private theorem exec_manager {s s' : Server} {evs : List Spec.LifeEvent}
    (h : exec Spec.lifeStep s evs = some s') :
    (⟨s'.revoked⟩ : Manager) = (authLog s evs).foldl Manager.step ⟨s.revoked⟩ := by
  induction evs generalizing s with
  | nil =>
    obtain rfl := Option.some.inj h
    rfl
  | cons ev evs ih =>
    obtain ⟨s₁, hs₁, h⟩ := Option.bind_eq_some_iff.mp h
    rw [authLog, hs₁, List.foldl_append, ← lifeStep_manager hs₁]
    exact ih h

/-! ## The token of a `Login` -/

/-- A token in time is accepted when its key was not deleted since it was issued. -/
private theorem validateToken_accepts_iff (m : Manager) {now : Int} {token : Claims}
    (hnow : now < token.expiresAt) :
    (m.validateToken now token).toOption = some token ↔
      ∀ d, m.revoked token.wgPubKey = some d → d < token.issuedAt := by
  unfold Manager.validateToken
  rw [if_neg (not_not.mpr hnow)]
  cases hrev : m.revoked token.wgPubKey with
  | none => exact iff_of_true rfl fun d hd => nomatch hd
  | some d =>
    -- a token of the very moment of the deletion is not accepted
    dsimp only
    split
    · rename_i hd
      exact iff_of_false (fun h => nomatch h) fun h => hd (h d rfl)
    · rename_i hd
      refine iff_of_true rfl fun d' hd' => ?_
      rw [← Option.some.inj hd']
      exact not_not.mp hd

/-- A token is good for most of a day. -/
private theorem lt_expiresAt (t : Int) (peerID wgPubKey accountID : String) :
    t < (issueToken t peerID wgPubKey accountID).expiresAt := by
  show t < numericDate (t + 24 * 3600 * 1000000000)
  unfold numericDate
  omega

/-- **When the token of a `Login` is taken.** After any history of issues, deletions and
    restarts, management takes the token that a `Login` has returned, as long as it has not
    expired, exactly when the last deletion of the peer since the last restart was before the
    second in which the token was issued. -/
theorem login_token_usable_iff {es : List (Int × AuthAct)} {s : Server}
    (hs : (⟨s.revoked⟩ : Manager) = managerAfter es) {network : String} {env : Env} {ctx : Ctx}
    {allowed : Bool} {req : LoginRequest} {resp : LoginResponse}
    (hlogin : ((login network env ctx allowed req).run pgExec s).1 = .ok resp) {now : Int}
    (hnow : now < resp.token.expiresAt) :
    ((⟨((login network env ctx allowed req).run pgExec s).2.revoked⟩ : Manager).validateToken now
        resp.token).toOption = some resp.token ↔
      ∀ d, lastDeletion req.wgPubKey es = some d → d < numericDate (env.now 3) := by
  -- a login revokes nothing, so the table is that of the history
  obtain ⟨hrevoked, htoken⟩ := login_revoked network env ctx allowed req s
  rw [hlogin] at htoken
  obtain ⟨id, account, htoken⟩ := htoken
  rw [hrevoked, hs, validateToken_accepts_iff _ hnow, htoken]
  show (∀ d, (managerAfter es).revoked req.wgPubKey = some d → d < numericDate (env.now 3)) ↔ _
  rw [managerAfter_revoked]

/-- A clock that shows the same time throughout. -/
def clockAt (t : Int) : Env := { now := fun _ => t, uuid := fun _ => "p" }

/-- A server with one setup key and no peers. -/
def freshServer : Server :=
  { Spec.sampleServer with
    store := { setupKeys := Table.empty.save
                 { id := "1", key := "sk", expiresAt := 1000000000000 } } }

/-- The `Login` of a peer at the given time. -/
def loginAt (t : Int) : M (Except Status LoginResponse) :=
  login "100.64.0.0/10" (clockAt t) {} true { setupKey := "sk", wgPubKey := "K" }

/-- A peer enrols at 1 s and is deleted at 1.2 s. -/
def deletionRun : List Spec.LifeEvent :=
  [.login "100.64.0.0/10" (clockAt 1000000000) {} true { setupKey := "sk", wgPubKey := "K" },
   .deletePeer (clockAt 1200000000) { role := "admin" } "K"]

/-- The token of a `Login` at `t` after `deletionRun`, and what management makes of it right
    away. -/
def freshToken (t : Int) : Option (Claims × Option Claims) := do
  let s ← exec Spec.lifeStep freshServer deletionRun
  let (res, s) := (loginAt t).run pgExec s
  let resp ← res.toOption
  return (resp.token, ((⟨s.revoked⟩ : Manager).validateToken t resp.token).toOption)

private theorem authLog_deletionRun : authLog freshServer deletionRun =
    [(1000000000, .issueToken "p" "K" ""), (1200000000, .deletePeer "K")] := by
  decide +kernel

/-- The peer logs in again at 1.7 s, and its new token is refused. -/
theorem same_second_token_refused :
    ClockMonotone (authLog freshServer deletionRun) ∧
    lastDeletion "K" (authLog freshServer deletionRun) = some 1200000000 ∧
    freshToken 1700000000 = some (issueToken 1700000000 "p" "K" "", none) := by
  rw [authLog_deletionRun]
  refine ⟨?_, by decide, by decide +kernel⟩
  unfold ClockMonotone
  decide

/-- At 2.1 s its new token is taken. -/
theorem next_second_token_taken :
    ∃ s resp, exec Spec.lifeStep freshServer deletionRun = some s ∧
      ((loginAt 2100000000).run pgExec s).1 = .ok resp ∧
      ((⟨((loginAt 2100000000).run pgExec s).2.revoked⟩ : Manager).validateToken 2100000000
        resp.token).toOption = some resp.token := by
  have hrun : (exec Spec.lifeStep freshServer deletionRun).map
      (fun s => ((loginAt 2100000000).run pgExec s).1.toOption.isSome) = some true := by
    decide +kernel
  obtain ⟨s, hs, hok⟩ := Option.map_eq_some_iff.mp hrun
  cases hlogin : ((loginAt 2100000000).run pgExec s).1 with
  | error e =>
    rw [hlogin] at hok
    cases hok
  | ok resp =>
    have htoken := (login_revoked "100.64.0.0/10" (clockAt 2100000000) {} true
      { setupKey := "sk", wgPubKey := "K" } s).2
    rw [loginAt] at hlogin
    rw [hlogin] at htoken
    obtain ⟨id, account, htoken⟩ := htoken
    -- the token is used before it expires
    have hnow : (2100000000 : Int) < resp.token.expiresAt := by
      rw [htoken]
      exact lt_expiresAt _ _ _ _
    refine ⟨s, resp, hs, hlogin, (login_token_usable_iff (exec_manager hs) hlogin hnow).mpr ?_⟩
    intro d hd
    rw [authLog_deletionRun] at hd
    have hlast : (1200000000 : Int) = d := Option.some.inj hd
    rw [← hlast]
    decide

end Blinex.Native.Management
