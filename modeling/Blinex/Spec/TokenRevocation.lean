import Mathlib.Data.List.Induction
import Blinex.Native.Auth
import Blinex.Spec.HandlerContracts
import Blinex.Spec.MeshAddresses

/-!
# Tokens of deleted peers

`deletePeer` revokes the tokens of a key in the memory of the management server. Its own
validator consults that memory until the next restart; the signal server never does, and
accepts the token until the second in which it expires is over.
-/

namespace Blinex.Native.Management

/-! ## The validators -/

/-- Both servers refuse the token. -/
def RejectedEverywhere (m : Manager) (now : Int) (token : Claims) : Prop :=
  (m.validateToken now token).toOption = none ∧ (validateHS256 now token).toOption = none

/-- Management rejects a token that has expired or was issued by the time its key was revoked. -/
private theorem validateToken_rejects_iff (m : Manager) (now : Int) (token : Claims) :
    (m.validateToken now token).toOption = none ↔
      token.expiresAt ≤ now ∨ ∃ d, m.revoked token.wgPubKey = some d ∧ token.issuedAt ≤ d := by
  unfold Manager.validateToken
  split
  · rename_i hexp
    exact iff_of_true rfl (.inl (by omega))
  · rename_i hexp
    have hlive : ¬token.expiresAt ≤ now := by omega
    cases hrev : m.revoked token.wgPubKey with
    | none => simp [hlive, Except.toOption]
    | some d =>
      simp only [hlive, false_or, Option.some.injEq, exists_eq_left']
      -- revoked after it was issued, or before
      split
      · rename_i hd
        exact iff_of_true rfl (by omega)
      · rename_i hd
        refine iff_of_false (fun h => Option.some_ne_none token h) (by omega)

/-- The signal server rejects a token that has expired or has no key. -/
private theorem validateHS256_rejects_iff (now : Int) (token : Claims) :
    (validateHS256 now token).toOption = none ↔
      (0 < unix token.expiresAt ∧ unix token.expiresAt < unix now) ∨ token.wgPubKey = "" := by
  unfold validateHS256
  split
  · rename_i hexp
    exact iff_of_true rfl (.inl hexp)
  · rename_i hexp
    -- not expired: the key decides
    split
    · rename_i hkey
      exact iff_of_true rfl (.inr hkey)
    · rename_i hkey
      refine iff_of_false (fun h => Option.some_ne_none _ h) ?_
      rintro (h | h)
      · exact hexp h
      · exact hkey h

/-! ## Runs -/

/-- What happens to the tokens of a mesh. -/
inductive AuthAct where
  | issueToken (peerID wgPubKey accountID : String)
  | deletePeer (wgPubKey : String)
  | restart
deriving DecidableEq

/-- The manager after an event at the given time. -/
def Manager.step (m : Manager) (e : Int × AuthAct) : Manager :=
  match e.2 with
  | .issueToken .. => m
  | .deletePeer wgPubKey => m.revokeByWGKey e.1 wgPubKey
  | .restart => Manager.new

/-- The manager after a run of the server. -/
def managerAfter (es : List (Int × AuthAct)) : Manager := es.foldl Manager.step Manager.new

/-- The clock does not go back. -/
def ClockMonotone (es : List (Int × AuthAct)) : Prop := es.Pairwise fun e e' => e.1 ≤ e'.1

/-- The peer was deleted after the last restart. -/
def DeletedSinceRestart (key : String) (es : List (Int × AuthAct)) : Prop :=
  ∃ before d after, es = before ++ (d, .deletePeer key) :: after ∧ ∀ e ∈ after, e.2 ≠ .restart

theorem managerAfter_concat (es : List (Int × AuthAct)) (e : Int × AuthAct) :
    managerAfter (es ++ [e]) = (managerAfter es).step e := by
  rw [managerAfter, List.foldl_append]
  rfl

/-- A deletion counts until a restart forgets it. -/
private theorem deletedSinceRestart_concat {key : String} {es : List (Int × AuthAct)}
    {e : Int × AuthAct} :
    DeletedSinceRestart key (es ++ [e]) ↔
      e.2 = .deletePeer key ∨ e.2 ≠ .restart ∧ DeletedSinceRestart key es := by
  constructor
  · rintro ⟨before, d, after, heq, hno⟩
    rcases List.eq_nil_or_concat' after with rfl | ⟨after, e', rfl⟩
    · -- the deletion is the last event
      have hlast := (List.append_inj' heq rfl).2
      rw [(List.cons.inj hlast).1]
      exact .inl rfl
    · rw [← List.cons_append, ← List.append_assoc] at heq
      obtain ⟨hes, hlast⟩ := List.append_inj' heq rfl
      obtain rfl := (List.cons.inj hlast).1
      exact .inr ⟨hno e (List.mem_append_right _ List.mem_cons_self), before, d, after, hes,
        fun x hx => hno x (List.mem_append_left _ hx)⟩
  · rintro (he | ⟨he, before, d, after, rfl, hno⟩)
    · exact ⟨es, e.1, [], by rw [← he], fun x hx => absurd hx List.not_mem_nil⟩
    · refine ⟨before, d, after ++ [e], by simp, fun x hx => ?_⟩
      rcases List.mem_append.mp hx with hx | hx
      · exact hno x hx
      · rw [List.mem_singleton.mp hx]
        exact he

/-- The table holds a key exactly when its peer was deleted after the last restart. -/
private theorem managerAfter_revoked_iff (key : String) (es : List (Int × AuthAct)) :
    (∃ d, (managerAfter es).revoked key = some d) ↔ DeletedSinceRestart key es := by
  induction es using List.reverseRecOn with
  | nil =>
    refine iff_of_false (fun ⟨d, hd⟩ => Option.some_ne_none d hd.symm) ?_
    rintro ⟨before, d, after, heq, _⟩
    exact absurd heq (by simp)
  -- the last event decides, or leaves it to those before
  | append_singleton es e ih =>
    rw [managerAfter_concat, deletedSinceRestart_concat, ← ih]
    obtain ⟨t, act⟩ := e
    cases act with
    | issueToken peerID k accountID => simp [Manager.step]
    | restart => simp [Manager.step, Manager.new]
    | deletePeer k =>
      by_cases hk : key = k
      · subst hk
        simp [Manager.step, Manager.revokeByWGKey]
      · have hk' : k ≠ key := fun h => hk h.symm
        simp [Manager.step, Manager.revokeByWGKey, PMap.set_ne _ _ hk, hk']

/-- What the table holds is no earlier than any deletion of the peer. -/
private theorem le_of_managerAfter_revoked {key : String} {es : List (Int × AuthAct)}
    (hclock : ClockMonotone es) {d : Int} (hd : (managerAfter es).revoked key = some d) {t : Int}
    (ht : (t, .deletePeer key) ∈ es) : t ≤ d := by
  induction es using List.reverseRecOn with
  | nil => cases ht
  | append_singleton es e ih =>
    obtain ⟨hes, _, hle⟩ := List.pairwise_append.mp hclock
    have hbefore : ∀ e' ∈ es, e'.1 ≤ e.1 := fun e' he' => hle e' he' e List.mem_cons_self
    rw [managerAfter_concat] at hd
    obtain ⟨t', act⟩ := e
    -- an earlier deletion of the peer, or the one that was just made
    have hcase : (t, AuthAct.deletePeer key) ∈ es ∨ (t, .deletePeer key) = (t', act) := by
      rcases List.mem_append.mp ht with ht | ht
      · exact .inl ht
      · exact .inr (List.mem_singleton.mp ht)
    cases act with
    | issueToken peerID k accountID =>
      rcases hcase with ht | heq
      · exact ih hes hd ht
      · cases heq
    | restart => cases hd
    | deletePeer k =>
      rcases PMap.set_eq_some _ hd with ⟨rfl, rfl⟩ | ⟨hne, hold⟩
      · rcases hcase with ht | heq
        · exact hbefore _ ht
        · rw [(Prod.mk.inj heq).1]
      · rcases hcase with ht | heq
        · exact ih hes hold ht
        · exact absurd (AuthAct.deletePeer.inj (Prod.mk.inj heq).2) hne

/-! ## The server's own events -/

/-- What an event in the life of the server means for its tokens. -/
def authActs (s : Server) : Spec.LifeEvent → List (Int × AuthAct)
  | .login network env ctx allowed req =>
    match ((login network env ctx allowed req).run pgExec s).1 with
    | .ok resp =>
      [(env.now 3, .issueToken resp.token.peerID resp.token.wgPubKey resp.token.accountID)]
    | .error _ => []
  | .deletePeer env claims key =>
    if ((serveREST env claims (.deletePeer key)).run pgExec s).1.status = 204 then
      [(env.now 0, .deletePeer key)]
    else []
  | .restart u => [(u.now 0, .restart)]

/-- A `Login` revokes nothing, and its token is for the key of the request. -/
theorem login_revoked (network : String) (env : Env) (ctx : Ctx) (allowed : Bool)
    (req : LoginRequest) (s : Server) :
    ((login network env ctx allowed req).run pgExec s).2.revoked = s.revoked ∧
      TokenFor env req ((login network env ctx allowed req).run pgExec s).1 := by
  have hkeeps : (loginContract req {}).Keeps pgExec fun s' => s'.revoked = s.revoked := by
    intro o s' hs' hmay
    refine ⟨?_, pgExec_rely (Assumes.holds_nothing _) o⟩
    cases o with
    | savePeer p err => cases err <;> exact hs'
    | incrementSetupKeyUsage id order err => cases err <;> exact hs'
    | getSetupKey | allocate | getPeer | lookupCountry | notifyAll => exact hs'
    | _ => exact False.elim hmay
  exact (login_meets network allowed req).run hkeeps rfl

/-- The revocations of the server are those of a manager that sees these events. -/
theorem lifeStep_manager {s s' : Server} {ev : Spec.LifeEvent}
    (h : Spec.lifeStep s ev = some s') :
    (⟨s'.revoked⟩ : Manager) = (authActs s ev).foldl Manager.step ⟨s.revoked⟩ := by
  cases ev with
  | login network env ctx allowed req =>
    obtain rfl := Option.some.inj h
    rw [(login_revoked network env ctx allowed req s).1, authActs]
    split <;> rfl
  | deletePeer env claims key =>
    obtain rfl := Option.some.inj h
    -- a refused deletion revokes nothing
    rcases Spec.deletePeer_run env claims key s with ⟨hstatus, hs⟩ | ⟨hstatus, hs⟩
    · rw [hs, authActs, if_neg hstatus]
      rfl
    · rw [hs, authActs, if_pos hstatus]
      rfl
  | restart u =>
    obtain ⟨i, _, rfl⟩ := Option.map_eq_some_iff.mp h
    rfl

/-! ## Tokens of deleted peers -/

/-- The token is past its second of expiry; or it is for no key, which the signal server
    never takes, and management finds it expired or the deletion not forgotten. -/
def TokenDead (es : List (Int × AuthAct)) (now : Int) (token : Claims) : Prop :=
  (0 < unix token.expiresAt ∧ unix token.expiresAt < unix now) ∨
    token.wgPubKey = "" ∧
      (token.expiresAt ≤ now ∨ DeletedSinceRestart token.wgPubKey es)

/-- The date in a token is rounded down. -/
private theorem numericDate_le (t : Int) : numericDate t ≤ t := by
  unfold numericDate
  omega

/-- Management's own validator refuses the token of a deleted peer until a restart. -/
private theorem validateToken_deleted_iff {es : List (Int × AuthAct)} (hclock : ClockMonotone es)
    {key : String} {issued deleted : Int} (hdel : (deleted, .deletePeer key) ∈ es)
    (hle : issued ≤ deleted) (peerID accountID : String) (now : Int) :
    ((managerAfter es).validateToken now (issueToken issued peerID key accountID)).toOption = none ↔
      (issueToken issued peerID key accountID).expiresAt ≤ now ∨ DeletedSinceRestart key es := by
  rw [validateToken_rejects_iff, ← managerAfter_revoked_iff]
  refine or_congr_right ⟨fun ⟨d, hd, _⟩ => ⟨d, hd⟩, fun ⟨d, hd⟩ => ⟨d, hd, ?_⟩⟩
  have hdd : deleted ≤ d := le_of_managerAfter_revoked hclock hd hdel
  have hiat : numericDate issued ≤ issued := numericDate_le issued
  show numericDate issued ≤ d
  omega

/-- **When the tokens of a deleted peer are refused.** In every run with a clock that does
    not go back, a token that was issued at or before a deletion of its peer is refused by
    both servers at a time `now` exactly when it is dead by then. -/
theorem deleted_token_rejected_iff {es : List (Int × AuthAct)} (hclock : ClockMonotone es)
    {key : String} {issued deleted : Int} (hdel : (deleted, .deletePeer key) ∈ es)
    (hle : issued ≤ deleted) (peerID accountID : String) (now : Int) :
    RejectedEverywhere (managerAfter es) now (issueToken issued peerID key accountID) ↔
      TokenDead es now (issueToken issued peerID key accountID) := by
  rw [RejectedEverywhere, validateToken_deleted_iff hclock hdel hle, validateHS256_rejects_iff,
    TokenDead]
  -- what the signal server finds expired, management finds expired
  have hexp : unix (issueToken issued peerID key accountID).expiresAt < unix now →
      (issueToken issued peerID key accountID).expiresAt ≤ now := by
    unfold unix
    omega
  constructor
  · rintro ⟨hmgmt, hsignal | hkey⟩
    · exact .inl hsignal
    · exact .inr ⟨hkey, hmgmt⟩
  · rintro (hsignal | ⟨hkey, hmgmt⟩)
    · exact ⟨.inl (hexp hsignal.2), .inl hsignal⟩
    · exact ⟨hmgmt, .inr hkey⟩

/-- A peer enrols, is deleted a second later, and the server restarts. -/
def deletedRun : List (Int × AuthAct) :=
  [(1000000000, .issueToken "p" "K" "a"), (2000000000, .deletePeer "K"), (3000000000, .restart)]

/-- The token that was issued. -/
def deletedToken : Claims := issueToken 1000000000 "p" "K" "a"

/-- The signal server takes the token right after the deletion, and management takes it
    again after the restart. -/
theorem deletedToken_accepted :
    ClockMonotone deletedRun ∧
    (validateHS256 2500000000 deletedToken).toOption = some "K" ∧
    ((managerAfter (deletedRun.take 2)).validateToken 2500000000 deletedToken).toOption = none ∧
    ((managerAfter deletedRun).validateToken 4000000000 deletedToken).toOption =
      some deletedToken ∧
    ¬RejectedEverywhere (managerAfter deletedRun) 4000000000 deletedToken := by
  refine ⟨?_, by decide, by decide, by decide, fun h => absurd h.1 (by decide)⟩
  unfold ClockMonotone
  decide

/-- A day later the token has expired for both. -/
theorem deletedToken_rejected :
    RejectedEverywhere (managerAfter deletedRun) 87000000000000 deletedToken := by
  have hclock : ClockMonotone deletedRun := by
    unfold ClockMonotone
    decide
  have hdel : ((2000000000 : Int), AuthAct.deletePeer "K") ∈ deletedRun := by decide
  have hle : (1000000000 : Int) ≤ 2000000000 := by decide
  exact (deleted_token_rejected_iff hclock hdel hle "p" "a" 87000000000000).mpr (.inl (by decide))

end Blinex.Native.Management
