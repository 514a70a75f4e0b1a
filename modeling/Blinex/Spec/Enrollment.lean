import Blinex.ForStd.OneShot
import Blinex.Spec.TenantIsolation

/-!
# Ephemeral setup keys

`Login` reads a setup key, refuses it if it is ephemeral and used, and counts the use
when the peer is saved. Between the two any number of other calls may read the key, and
a count that fails is only logged. `ephemeral_enrolls_once` says when an ephemeral key
nevertheless enrolls one peer at most: when nobody reads the key while somebody else has
read it and not counted yet, and the counts succeed.
-/

namespace Blinex.Native.Management

/-! ## The row of one setup key -/

section Key

variable (sk₀ : Domain.SetupKey)

/-- The row of the key changes in its count only, and its ID names no other. -/
structure KeyRow (s : Server) : Prop where
  row : ∃ n, 0 ≤ n ∧ s.store.setupKeys.rows sk₀.key = some { sk₀ with usedCount := n }
  ids : ∀ key sk, s.store.setupKeys.rows key = some sk → sk.id = sk₀.id → key = sk₀.key

/-- The key has been used. -/
def KeyUsed (s : Server) : Prop :=
  ∃ sk, s.store.setupKeys.rows sk₀.key = some sk ∧ 0 < sk.usedCount

/-- The operations of calls that present the key. -/
def KeyMay : Op → Prop
  | .createSetupKey .. | .deleteSetupKey .. => False
  | .incrementSetupKeyUsage id .. => id = sk₀.id
  | _ => True

/-- What such a call reads. -/
def keyAssumes : Assumes where
  setupKey sk := sk.key = sk₀.key → ∃ n, sk = { sk₀ with usedCount := n }

/-- What the programs may rely on, and what they may do. -/
def keyContract : Contract Op.Res where
  rely := (keyAssumes sk₀).rely
  guar := KeyMay sk₀

end Key

section Key

variable {sk₀ : Domain.SetupKey} {s : Server}

/-- A key that is read under this text is the row, up to its count. -/
private theorem KeyRow.assumes (h : KeyRow sk₀ s) : (keyAssumes sk₀).Holds s.store where
  peer _ _ _ := trivial
  noPeer _ _ := trivial
  rule _ _ _ := trivial
  setupKey key sk hsk hkey := by
    obtain ⟨n, _, hrow⟩ := h.row
    have heq : key = sk₀.key := (s.store.setupKeys.keyed key sk hsk).symm.trans hkey
    rw [heq, hrow] at hsk
    exact ⟨n, (Option.some.inj hsk).symm⟩

/-- No permitted operation changes the keys but a count of this one. -/
private theorem setupKeys_exec {o : Op} (hmay : KeyMay sk₀ o) (h : KeyRow sk₀ s) :
    (Server.exec o s).2.store.setupKeys = s.store.setupKeys ∨
      ∃ n, 0 ≤ n ∧ (Server.exec o s).2.store.setupKeys =
        s.store.setupKeys.save { sk₀ with usedCount := n + 1 } := by
  rcases exec_store o s with heq | hstep
  · exact .inl (by rw [heq])
  · generalize (Server.exec o s).2.store = st at hstep ⊢
    -- of all the writes only the increment reaches the row
    cases hstep with
    | createSetupKey | deleteSetupKey => exact False.elim hmay
    | @incrementSetupKeyUsage keyID order sk hrow hid =>
      obtain ⟨n, hn, hrow₀⟩ := h.row
      have hkey : sk.key = sk₀.key := h.ids sk.key sk hrow (hid.trans hmay)
      rw [hkey, hrow₀] at hrow
      obtain rfl := Option.some.inj hrow
      exact .inr ⟨n, hn, rfl⟩
    | _ => exact .inl rfl

/-- The row stays the key with some count. -/
private theorem keyRow_exec {o : Op} (hmay : KeyMay sk₀ o) (h : KeyRow sk₀ s) :
    KeyRow sk₀ (Server.exec o s).2 := by
  rcases setupKeys_exec hmay h with heq | ⟨n, hn, heq⟩
  · exact ⟨heq ▸ h.row, heq ▸ h.ids⟩
  · refine ⟨⟨n + 1, Int.le_add_one hn, ?_⟩, fun key sk hsk hid => ?_⟩
    · rw [heq]
      exact PMap.set_self ..
    · rw [heq] at hsk
      rcases PMap.set_eq_some _ hsk with ⟨rfl, _⟩ | ⟨_, hsk⟩
      · rfl
      · exact h.ids key sk hsk hid

/-- A key that was used stays used. -/
private theorem keyUsed_exec {o : Op} (hmay : KeyMay sk₀ o) (h : KeyRow sk₀ s)
    (hused : KeyUsed sk₀ s) :
    KeyUsed sk₀ (Server.exec o s).2 := by
  rcases setupKeys_exec hmay h with heq | ⟨n, hn, heq⟩
  · unfold KeyUsed
    rw [heq]
    exact hused
  · refine ⟨{ sk₀ with usedCount := n + 1 }, ?_, Int.lt_add_one_of_le hn⟩
    rw [heq]
    exact PMap.set_self ..

/-- A count that does not fail and reaches the key. -/
private theorem keyUsed_increment {order : List String} (h : KeyRow sk₀ s)
    (hmem : sk₀.key ∈ order) :
    KeyUsed sk₀ (Server.exec (.incrementSetupKeyUsage sk₀.id order none) s).2 := by
  obtain ⟨n, hn, hrow⟩ := h.row
  have hrowmem : { sk₀ with usedCount := n } ∈ order.filterMap s.store.setupKeys.rows :=
    List.mem_filterMap.mpr ⟨sk₀.key, hmem, hrow⟩
  simp only [Server.exec, Server.change, Store.incrementSetupKeyUsage]
  -- the range over the table finds the row, since no other key has its identifier
  cases hfind : (order.filterMap s.store.setupKeys.rows).find? (·.id == sk₀.id) with
  | none =>
    have hne := List.find?_eq_none.mp hfind _ hrowmem
    exact absurd (beq_self_eq_true sk₀.id) hne
  | some sk =>
    obtain ⟨hsk, hid⟩ := setupKey_of_find hfind
    have hkey : sk.key = sk₀.key := h.ids sk.key sk hsk (beq_iff_eq.mp hid)
    rw [hkey, hrow] at hsk
    obtain rfl := Option.some.inj hsk
    exact ⟨{ sk₀ with usedCount := n + 1 }, PMap.set_self .., Int.lt_add_one_of_le hn⟩

/-! ## The key as a token -/

/-- The operation reads the key. -/
def Op.readsKey (key : String) : Op → Bool
  | .getSetupKey key' _ => key' == key
  | _ => false

/-- The operation counts a use. -/
def Op.countsUse : Op → Bool
  | .incrementSetupKeyUsage .. => true
  | _ => false

/-- If the operation counts a use, the database does not fail and the `range` over the
    keys visits `key`. -/
def Op.countSucceeds (key : String) : Op → Bool
  | .incrementSetupKeyUsage _ order err => err.isNone && order.contains key
  | _ => true

/-- A `Login` ends there. -/
def KeyRefused : (o : Op) → o.Res → Prop
  | .getSetupKey .., .ok sk => sk.ephemeral = true ∧ 0 < sk.usedCount
  | .getSetupKey .., .error _ => True
  | _, _ => False

/-- A used ephemeral key is refused. -/
private theorem keyRefused_of_used (heph : sk₀.ephemeral = true) {o : Op} (h : KeyRow sk₀ s)
    (hreads : o.readsKey sk₀.key = true) (hused : KeyUsed sk₀ s) :
    KeyRefused o (Server.exec o s).1 := by
  cases o with
  | getSetupKey key now =>
    obtain rfl : key = sk₀.key := beq_iff_eq.mp hreads
    obtain ⟨n, _, hrow⟩ := h.row
    obtain ⟨sk, hsk, hpos⟩ := hused
    obtain rfl := Option.some.inj (hrow.symm.trans hsk)
    simp only [Server.exec, Store.getSetupKey, hrow]
    -- it has expired, or its use is seen
    split
    · trivial
    · exact ⟨heph, hpos⟩
  | _ => exact absurd hreads Bool.false_ne_true

/-- An ephemeral key, among calls that present it. -/
def ephemeralKey (sk₀ : Domain.SetupKey) (heph : sk₀.ephemeral = true) :
    OneShot Server.exec where
  always := KeyRow sk₀
  spent := KeyUsed sk₀
  contract := keyContract sk₀
  check o := o.readsKey sk₀.key = true
  refused := KeyRefused
  spend o := o.countsUse = true
  works o := o.countSucceeds sk₀.key = true
  -- reading the key does not count a use
  not_spend_of_check o hreads := by
    cases o with
    | getSetupKey => exact Bool.false_ne_true
    | _ => exact absurd hreads Bool.false_ne_true
  keeps o _ h hmay := ⟨keyRow_exec hmay h, exec_rely h.assumes o⟩
  keeps_spent _ _ h hmay := keyUsed_exec hmay h
  refused_of_spent _ _ h := keyRefused_of_used heph h
  spent_of_spend o s h hmay hcounts hworks := by
    cases o with
    | incrementSetupKeyUsage id order err =>
      obtain rfl : id = sk₀.id := hmay
      obtain ⟨hnone, hmem⟩ := Bool.and_eq_true_iff.mp hworks
      obtain rfl := Option.isNone_iff_eq_none.mp hnone
      exact keyUsed_increment h (List.contains_iff_mem.mp hmem)
    | _ => exact absurd hcounts Bool.false_ne_true

end Key

/-! ## Concurrent calls of `Login` -/

/-- A call that presents the key in question. -/
structure LoginCall where
  env : Env
  ctx : Ctx := {}
  allowed : Bool := true
  wgPubKey : String
  peerMeta : Option Commonv1.PeerMeta := none

/-- The request of a call, with the key that all of them share. -/
def LoginCall.request (key : String) (call : LoginCall) : LoginRequest where
  setupKey := key
  wgPubKey := call.wgPubKey
  peerMeta := call.peerMeta

/-- What a call runs. -/
def LoginCall.prog (network key : String) (call : LoginCall) : M (Except Status LoginResponse) :=
  login network call.env call.ctx call.allowed (call.request key)

/-- The server with calls at work. -/
abbrev Logins := Pool Op.Res (Except Status LoginResponse) Server

/-- One event of an interleaving of calls that present `key`. -/
abbrev loginStep (network key : String) : Logins → PoolEvent LoginCall → Option Logins :=
  Pool.step Server.exec (LoginCall.prog network key)

/-- When a call reads the key, the others that have read it have counted their use or are
    done; and counts succeed. -/
def TakesTurns (key : String) (p : Logins) : PoolEvent LoginCall → Prop
  | .start _ _ => True
  | .act pid => ∀ o ∈ p.nextOp pid,
    (o.readsKey key → ∀ e ∈ p.log, e.2.readsKey key → e.1 ≠ pid →
      p.nextOp e.1 = none ∨ ∃ e' ∈ p.log, e'.1 = e.1 ∧ e'.2.countsUse) ∧
    (o.countsUse → o.countSucceeds key)

instance (key : String) (p : Logins) : ∀ ev, Decidable (TakesTurns key p ev)
  | .start _ _ => inferInstanceAs (Decidable True)
  | .act pid => inferInstanceAs (Decidable (∀ o ∈ p.nextOp pid,
      (o.readsKey key → ∀ e ∈ p.log, e.2.readsKey key → e.1 ≠ pid →
        p.nextOp e.1 = none ∨ ∃ e' ∈ p.log, e'.1 = e.1 ∧ e'.2.countsUse) ∧
      (o.countsUse → o.countSucceeds key)))

/-- The call failed. -/
def LoginFailed (r : Except Status LoginResponse) : Prop := ∃ e, r = .error e

section Login

variable {sk₀ : Domain.SetupKey} {network : String} {env : Env} {ctx : Ctx} {allowed : Bool}
  {req : LoginRequest}

/-- A login with the key meets the contract: it creates and deletes no key. -/
private theorem login_keyMeets (hreq : req.setupKey = sk₀.key) :
    (login network env ctx allowed req).Meets (keyContract sk₀) fun _ => True := by
  have hcontract : (login network env ctx allowed req).Meets (loginContract req (keyAssumes sk₀))
      fun _ => True :=
    (login_meets network allowed req).imp fun _ _ => trivial
  refine hcontract.weaken (fun _ _ h => h) fun o hmay => ?_
  cases o with
  | createSetupKey | deleteSetupKey => exact False.elim hmay
  | incrementSetupKeyUsage id order err =>
    obtain ⟨sk, hkey, hsk, rfl⟩ := hmay
    obtain ⟨n, rfl⟩ := hsk (hkey.trans hreq)
    rfl
  | _ => trivial

/-- From `SavePeer` on a call fails or counts. -/
private theorem enroll_counts {sk : Domain.SetupKey} {ip : String} {peer : Domain.Peer} :
    (enroll network env sk ip peer).Commits (keyContract sk₀).rely (fun o => o.countsUse = true)
      (keyContract sk₀) LoginFailed := by
  simp only [enroll, Call.savePeer, Call.incrementSetupKeyUsage, Call.notifyAll, Prog.op_bind,
    Prog.ret_bind]
  refine .inr fun r _ => ?_
  cases r with
  | error e => exact ⟨_, rfl⟩
  | ok _ =>
    refine .inl ⟨rfl, fun _ _ => ?_⟩
    exact (resolveCountryAsync_meets trivial).bind fun _ _ => ⟨trivial, fun _ _ => trivial⟩

/-- A call reads the key first, and gives up if it is used. -/
private theorem login_checks (heph : sk₀.ephemeral = true) (hreq : req.setupKey = sk₀.key) :
    (ephemeralKey sk₀ heph).Checks LoginFailed (login network env ctx allowed req) := by
  -- before the key is read nothing is done, and a key that is refused ends the login
  unfold login
  split
  · exact ⟨_, rfl⟩
  · split
    · exact ⟨_, rfl⟩
    · simp only [Call.getSetupKey, Call.allocate, Call.getPeer, Prog.op_bind, Prog.ret_bind]
      refine ⟨beq_iff_eq.mpr hreq, fun r _ => ?_⟩
      cases r with
      | error e => exact ⟨⟨_, rfl⟩, fun _ => ⟨_, rfl, _, rfl⟩⟩
      | ok sk =>
        dsimp only
        split
        · exact ⟨⟨_, rfl⟩, fun _ => ⟨_, rfl, _, rfl⟩⟩
        · rename_i hunused
          -- from here on an address and a peer are looked up before the use is counted
          refine ⟨.inr fun r _ => ?_, fun hrefused => absurd hrefused hunused⟩
          cases r with
          | error e => exact ⟨_, rfl⟩
          | ok ip =>
            refine .inr fun r _ => ?_
            cases r with
            | error e => exact enroll_counts
            | ok existing =>
              dsimp only
              split
              · exact ⟨_, rfl⟩
              · exact enroll_counts

end Login

/-- At most one of the calls that present an ephemeral setup key succeeds, in every
    interleaving in which they take turns. -/
theorem ephemeral_enrolls_once {network : String} {sk₀ : Domain.SetupKey} {s₀ : Server}
    (hrow : s₀.store.setupKeys.rows sk₀.key = some sk₀) (heph : sk₀.ephemeral = true)
    (hcount : 0 ≤ sk₀.usedCount) (hids : DistinctIDs s₀.store) {es : List (PoolEvent LoginCall)}
    (hturns : ExecAlong (loginStep network sk₀.key) (TakesTurns sk₀.key) { state := s₀ } es)
    {p : Logins} (h : exec (loginStep network sk₀.key) { state := s₀ } es = some p)
    {pid pid' : Nat} {resp resp' : LoginResponse} (hresp : p.result pid = some (.ok resp))
    (hresp' : p.result pid' = some (.ok resp')) : pid = pid' := by
  -- at the start the row is the key itself
  have hstart : KeyRow sk₀ s₀ :=
    ⟨⟨sk₀.usedCount, hcount, hrow⟩, fun key sk hsk hid => hids key sk₀.key sk sk₀ hsk hrow hid⟩
  have hprog (call : LoginCall) :
      (ephemeralKey sk₀ heph).Checks LoginFailed (call.prog network sk₀.key) ∧
        (call.prog network sk₀.key).Meets (keyContract sk₀) fun _ => True :=
    ⟨login_checks heph rfl, login_keyMeets rfl⟩
  have hturns' : ExecAlong (loginStep network sk₀.key) (ephemeralKey sk₀ heph).TakesTurns
      { state := s₀ } es := by
    refine hturns.imp fun p ev hev => ?_
    cases ev with
    | start pid call => trivial
    | act pid => exact hev
  -- an answer with a token is no failure
  have hgood (resp : LoginResponse) : ¬ LoginFailed (.ok resp) := by
    rintro ⟨e, he⟩
    exact absurd he nofun
  exact (ephemeralKey sk₀ heph).at_most_one hprog hstart hturns' h hresp (hgood resp) hresp'
    (hgood resp')

/-- An unused ephemeral key. -/
def oneTimeKey : Domain.SetupKey :=
  { key := "SK", id := "sk", accountID := "acme", ephemeral := true }

/-- The only key of the server. -/
def oneTimeServer : Server where
  store := Store.createSetupKey {} oneTimeKey
  ipam := { network := 0x64400000, mask := 0xffc00000, next := 1 }

/-- The sample server has one key. -/
private theorem distinctIDs_oneTimeServer : DistinctIDs oneTimeServer.store := by
  intro key key' sk sk' hsk hsk' _
  rcases PMap.set_eq_some _ hsk with ⟨rfl, _⟩ | ⟨_, h⟩
  · rcases PMap.set_eq_some _ hsk' with ⟨rfl, _⟩ | ⟨_, h⟩
    · rfl
    · exact absurd h nofun
  · exact absurd h nofun

/-- A call for the public key `key`; its count fails with `err`. -/
def oneTimeLogin (key : String) (err : Option String) : LoginCall where
  env := { uuid := fun _ => "", fails := fun n => if n = 1 then err else none
           orders := { setupKeys := ["SK"] } }
  wgPubKey := key

/-- A second call reads the key when the first one has counted. -/
def inTurn : List (PoolEvent LoginCall) :=
  [.start 0 (oneTimeLogin "K" none), .start 1 (oneTimeLogin "L" none), .act 0, .act 0, .act 0,
    .act 0, .act 0, .act 1, .act 0]

/-- Two logins that take turns: the first one gets the key. -/
theorem ephemeral_enrolls_once_inTurn :
    ∃ p resp, exec (loginStep "100.64.0.0/10" "SK") { state := oneTimeServer } inTurn = some p ∧
      p.result 0 = some (.ok resp) ∧ ∀ pid resp', p.result pid = some (.ok resp') → 0 = pid := by
  have hrun : (exec (loginStep "100.64.0.0/10" "SK") { state := oneTimeServer } inTurn).map
      (fun p => (p.result 0).bind (·.toOption.map (·.token.wgPubKey))) = some (some "K") := by
    decide +kernel
  obtain ⟨p, hp, hresult⟩ := Option.map_eq_some_iff.mp hrun
  obtain ⟨r, hr, hok⟩ := Option.bind_eq_some_iff.mp hresult
  have hturns : ExecAlong (loginStep "100.64.0.0/10" "SK") (TakesTurns "SK")
      { state := oneTimeServer } inTurn := by
    decide +kernel
  have hrow : oneTimeServer.store.setupKeys.rows oneTimeKey.key = some oneTimeKey :=
    PMap.set_self PMap.empty "SK" oneTimeKey
  -- the first login has ended with a response
  cases r with
  | error e => exact absurd hok nofun
  | ok resp =>
    exact ⟨p, resp, hp, hr, fun _ _ => ephemeral_enrolls_once hrow rfl (Int.le_refl 0)
      distinctIDs_oneTimeServer hturns hp hr⟩

/-- Both calls read the key before either of them counts. -/
def racing : List (PoolEvent LoginCall) :=
  [.start 0 (oneTimeLogin "K" none), .start 1 (oneTimeLogin "L" none), .act 0, .act 1,
    .act 0, .act 0, .act 0, .act 0, .act 0, .act 1, .act 1, .act 1, .act 1, .act 1]

/-- The first call is done before the second one starts, but its count has failed. -/
def countFailed : List (PoolEvent LoginCall) :=
  [.start 0 (oneTimeLogin "K" (some "timeout")), .act 0, .act 0, .act 0, .act 0, .act 0, .act 0,
    .start 1 (oneTimeLogin "L" none), .act 1, .act 1, .act 1, .act 1, .act 1, .act 1]

/-- Either way both succeed. -/
theorem racing_enrolls_twice :
    (exec (loginStep "100.64.0.0/10" "SK") { state := oneTimeServer } racing).map
        (fun p => ((p.result 0).map (·.isOk), (p.result 1).map (·.isOk))) =
      some (some true, some true) ∧
    (exec (loginStep "100.64.0.0/10" "SK") { state := oneTimeServer } countFailed).map
        (fun p => ((p.result 0).map (·.isOk), (p.result 1).map (·.isOk))) =
      some (some true, some true) := by
  constructor <;> decide +kernel

end Blinex.Native.Management
