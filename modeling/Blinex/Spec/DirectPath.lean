import Mathlib.Logic.Function.Basic
import Mathlib.Tactic.Common
import Blinex.ForStd.Run
import Blinex.Native.PeerLink

/-!
# Which connections carry traffic

`useICE` and `lastPong` belong to the link, the streak of answered probes to one
connection. Beside the link we keep, for every connection, what its own read loop and its
own probe loop have seen; a packet that `Write` puts on a connection should find three
answered probes there and no missed one since. A connection that replaces another finds
`useICE` as the other left it, and the other's pongs in `lastPong`; `Undisturbed` is what
keeps the two apart.
-/

namespace Blinex.Spec

open Blinex.Native

/-- What a connection itself has done: its last pong, the one its previous probe had, and
    how many probes in a row it has answered. -/
structure OwnProbe where
  pong : Int := 0
  seen : Int := 0
  streak : Nat := 0
deriving DecidableEq

namespace OwnProbe

/-- A pong of this connection answers the probe. -/
def answers (o : OwnProbe) (now : Int) : Bool :=
  o.pong ≠ 0 && o.pong ≠ o.seen && now - o.pong < probeTimeout

/-- The probe is over. -/
def tick (o : OwnProbe) (now : Int) : OwnProbe :=
  { o with seen := o.pong, streak := if o.answers now then o.streak + 1 else 0 }

end OwnProbe

/-- The link, and what each connection has done since it was installed. -/
structure Traced where
  link : Link := {}
  own : Conn → OwnProbe := fun _ => {}

/-- What an event adds to that. A ping that cannot be written is a missed probe. -/
def Traced.note (s : Traced) : LinkEvent → Conn → OwnProbe
  | .read c (.pong now) => Function.update s.own c { s.own c with pong := now }
  | .probe c (.ping false) => Function.update s.own c { s.own c with streak := 0 }
  | .probe c (.observe now) => Function.update s.own c ((s.own c).tick now)
  | _ => s.own

/-- One step of the link, noted. -/
def tracedStep (s : Traced) (e : LinkEvent) : Option Traced :=
  (s.link.step e).map fun l => { link := l, own := s.note e }

/-- A packet that `Write` puts on a connection finds it proven: three probes answered in a
    row, and none missed since. -/
def SendsProven (s : Traced) : LinkEvent → Prop
  | .write w (.send _) => ∀ c, s.link.writes w = some (.sending c) → 3 ≤ (s.own c).streak
  | _ => True

/-! ## The condition -/

/-- A call of `Write` has chosen `c`, or will if it reads `iceConn` next. -/
def OnWay (l : Link) (c : Conn) : Prop :=
  ∃ w, l.writes w = some (.sending c) ∨ (l.writes w = some .loaded ∧ l.iceConn = some c)

/-- The tick may still set `useICE`. -/
def mayPromote : TickPhase → Bool
  | .checked | .pinged => true
  | .decided d => d.promote
  | _ => false

/-- The tick is about to clear `useICE`. -/
def willDemote : TickPhase → Bool
  | .failed => true
  | .decided d => d.demote
  | _ => false

/-- The loops of different connections and the calls of `Write` keep out of each other's
    way. -/
def Undisturbed (s : Traced) : LinkEvent → Prop
  -- traffic is on the relay, no `Write` is about to read `iceConn` and no tick of an
  -- earlier connection can still move traffic
  | .setICEConn _ => s.link.useICE = false ∧ (∀ w, s.link.writes w ≠ some .loaded) ∧
      ∀ c p, s.link.probers c = some p → mayPromote p.phase = false
  | .probe c (.ping false) => ¬ OnWay s.link c
  -- a pong that `observe` counts came over this connection; and no `Write` is on its way
  -- to a connection that has just missed a probe
  | .probe c (.observe now) =>
      (∀ p, s.link.probers c = some p → p.st.answered s.link.lastPong now = true →
        (s.own c).answers now = true) ∧
      ((s.own c).answers now = false → ¬ OnWay s.link c)
  -- no `Write` starts between a missed probe and the end of its tick
  | .write _ .start => s.link.useICE = true → ∀ c p, s.link.iceConn = some c →
      s.link.probers c = some p → willDemote p.phase = false
  | _ => True

/-! ## The invariant of one connection -/

/-- The probe loop goes on after this point. -/
def running : TickPhase → Bool
  | .failed | .done => false
  | _ => true

/-- What holds of a connection in every state. -/
structure ConnInv (s : Traced) (c : Conn) : Prop where
  /-- The probe loop counts no probe that the connection did not answer. -/
  counted : ∀ p, s.link.probers c = some p → running p.phase = true →
    p.st.consecutiveGood ≤ (s.own c).streak
  /-- Direct means a streak of three. -/
  direct : ∀ p, s.link.probers c = some p → p.st.direct = true → 3 ≤ p.st.consecutiveGood
  /-- Only the current connection may promote. -/
  current : ∀ p, s.link.probers c = some p → mayPromote p.phase = true →
    s.link.iceConn = some c ∨ s.link.iceConn = none
  /-- A promotion comes from a direct state. -/
  promoted : ∀ p d, s.link.probers c = some p → p.phase = .decided d → d.promote = true →
    p.st.direct = true
  /-- While traffic is on the connection, its probe loop is in the direct state or about to
      clear `useICE`. -/
  follows : s.link.useICE = true → s.link.iceConn = some c → ∀ p, s.link.probers c = some p →
    running p.phase = true → willDemote p.phase = true ∨ p.st.direct = true
  /-- And the connection is proven, or `useICE` about to be cleared. -/
  proven : s.link.useICE = true → s.link.iceConn = some c →
    (∃ p, s.link.probers c = some p ∧ willDemote p.phase = true) ∨ 3 ≤ (s.own c).streak
  /-- A connection that a `Write` is on its way to is proven. -/
  onWay : OnWay s.link c → 3 ≤ (s.own c).streak

private theorem connInv_init (c : Conn) : ConnInv {} c := by
  constructor <;> simp [OnWay]

variable {s s' : Traced} {c : Conn} {l l' : Link}

/-- Nothing new is on its way when the writes and the connection stay or the connection goes. -/
private theorem OnWay.of_writes (hw : l'.writes = l.writes)
    (hi : l'.iceConn = l.iceConn ∨ l'.iceConn = none) (h : OnWay l' c) : OnWay l c := by
  obtain ⟨w, hsend | ⟨hload, hcur⟩⟩ := h
  · exact ⟨w, .inl (hw ▸ hsend)⟩
  · rcases hi with hi | hi
    · exact ⟨w, .inr ⟨hw ▸ hload, hi ▸ hcur⟩⟩
    · rw [hi] at hcur
      cases hcur

/-- A step that leaves the connection's loops alone and moves no traffic onto it. -/
theorem ConnInv.frame (h : ConnInv s c) (hp : s'.link.probers c = s.link.probers c)
    (ho : (s'.own c).streak = (s.own c).streak)
    (hi : s'.link.iceConn = s.link.iceConn ∨ s'.link.iceConn = none)
    (hu : s'.link.useICE = true → s'.link.iceConn = some c → s.link.useICE = true)
    (hw : OnWay s'.link c → OnWay s.link c) : ConnInv s' c := by
  have hcur : s'.link.iceConn = some c → s.link.iceConn = some c := by
    rcases hi with hi | hi <;> simp [hi]
  -- each part of the invariant reads only what is assumed to stay
  constructor
  · rw [hp, ho]
    exact h.counted
  · rw [hp]
    exact h.direct
  · rw [hp]
    intro p hpp hmay
    rcases hi with hi | hi
    · exact hi ▸ h.current p hpp hmay
    · exact .inr hi
  · rw [hp]
    exact h.promoted
  · rw [hp]
    intro hice hc
    exact h.follows (hu hice hc) (hcur hc)
  · rw [hp, ho]
    intro hice hc
    exact h.proven (hu hice hc) (hcur hc)
  · rw [ho]
    exact fun hon => h.onWay (hw hon)

/-! ## The steps that only stand by -/

/-- The read loop touches neither the probe loops nor the writes, and can only turn the path off. -/
private theorem readStep_frame {e : ReadEvent} (h : l.readStep c e = some l') :
    l'.probers = l.probers ∧ l'.writes = l.writes ∧
      (l'.iceConn = l.iceConn ∨ l'.iceConn = none) ∧ (l'.useICE = true → l.useICE = true) := by
  cases e with
  | pong now =>
    simp only [Link.readStep] at h
    split at h
    · obtain rfl := Option.some.inj h
      exact ⟨rfl, rfl, .inl rfl, id⟩
    · cases h
  | error =>
    simp only [Link.readStep] at h
    split at h
    · obtain rfl := Option.some.inj h
      exact ⟨rfl, rfl, .inl rfl, fun hf => Bool.noConfusion hf⟩
    · cases h
  | exit =>
    simp only [Link.readStep] at h
    split at h
    · obtain rfl := Option.some.inj h
      refine ⟨rfl, rfl, ?_, id⟩
      dsimp only
      -- only the loop of the current connection clears it
      split
      · exact .inr rfl
      · exact .inl rfl
    · cases h

/-- A pong that is read does not count as an answer before the next tick. -/
private theorem note_read_streak (s : Traced) (c c' : Conn) (e : ReadEvent) :
    (s.note (.read c e) c').streak = (s.own c').streak := by
  cases e with
  | pong now =>
    by_cases hc : c' = c
    · subst hc
      simp [Traced.note]
    · simp [Traced.note, hc]
  | error => rfl
  | exit => rfl

theorem ConnInv.read {c₀ : Conn} {e : ReadEvent} (h : ConnInv s c)
    (hl : s.link.readStep c₀ e = some l) : ConnInv { link := l, own := s.note (.read c₀ e) } c := by
  obtain ⟨hp, hw, hi, hu⟩ := readStep_frame hl
  exact h.frame (congrFun hp c) (note_read_streak s c₀ c e) hi (fun hice _ => hu hice)
    (OnWay.of_writes hw hi)

/-- `Close` takes the connection away. -/
theorem ConnInv.close (h : ConnInv s c) :
    ConnInv { s with
      link := { s.link with
        closed := true
        iceConn := none
        closing := s.link.closing + 1 } } c :=
  h.frame rfl rfl (.inr rfl) (fun hice _ => hice) (OnWay.of_writes rfl (.inr rfl))

theorem ConnInv.closeStore (h : ConnInv s c) :
    ConnInv { s with
      link := { s.link with useICE := false, closing := s.link.closing - 1 } } c :=
  h.frame rfl rfl (.inl rfl) (fun hice _ => Bool.noConfusion hice)
    (OnWay.of_writes rfl (.inl rfl))

/-! ## The steps of `Write` -/

/-- Who is on its way to `c` after a call of `Write` moved on. -/
private theorem onWay_set {w : Nat} {phase : WritePhase}
    (h : OnWay { l with writes := l.writes.set w phase } c) :
    OnWay l c ∨ phase = .sending c ∨ (phase = .loaded ∧ l.iceConn = some c) := by
  obtain ⟨w', hsend | ⟨hload, hcur⟩⟩ := h
  · rcases PMap.set_eq_some _ hsend with ⟨-, hph⟩ | ⟨-, hold⟩
    · exact .inr (.inl hph)
    · exact .inl ⟨w', .inl hold⟩
  · rcases PMap.set_eq_some _ hload with ⟨-, hph⟩ | ⟨-, hold⟩
    · exact .inr (.inr ⟨hph, hcur⟩)
    · exact .inl ⟨w', .inr ⟨hold, hcur⟩⟩

/-- A call of `Write` is on its way to a proven connection only. -/
private theorem writeNext_proven {w : Nat} {e : WriteEvent} {phase : WritePhase} (h : ConnInv s c)
    (hok : Undisturbed s (.write w e)) (hl : s.link.writeNext w e = some phase)
    (hto : phase = .sending c ∨ (phase = .loaded ∧ s.link.iceConn = some c)) :
    3 ≤ (s.own c).streak := by
  -- the two loads of `Write`, and the send, after which nothing is on its way
  cases e with
  | start =>
    simp only [Link.writeNext] at hl
    split at hl
    · obtain rfl := Option.some.inj hl
      cases hice : s.link.useICE with
      | false => simp [hice] at hto
      | true =>
        simp only [hice, ↓reduceIte, reduceCtorEq, true_and, false_or] at hto
        -- no prober is about to demote when a write starts, so the connection is proven
        rcases h.proven hice hto with ⟨p, hp, hwill⟩ | hproven
        · rw [hok hice c p hto hp] at hwill
          cases hwill
        · exact hproven
    · cases hl
  | load =>
    simp only [Link.writeNext] at hl
    split at hl
    · rename_i hloaded
      obtain rfl := Option.some.inj hl
      cases hcur : s.link.iceConn with
      | none => simp [hcur] at hto
      | some c' =>
        simp only [hcur, WritePhase.sending.injEq, reduceCtorEq, false_and, or_false] at hto
        subst hto
        exact h.onWay ⟨w, .inr ⟨hloaded, hcur⟩⟩
    · cases hl
  | send ok =>
    simp only [Link.writeNext] at hl
    split at hl
    · obtain rfl := Option.some.inj hl
      cases ok <;> simp at hto
    · cases hl

/-- `Write` keeps the invariant: what it sends to is proven when it starts. -/
theorem ConnInv.write {w : Nat} {e : WriteEvent} {phase : WritePhase} (h : ConnInv s c)
    (hok : Undisturbed s (.write w e)) (hl : s.link.writeNext w e = some phase) :
    ConnInv { s with link := { s.link with writes := s.link.writes.set w phase } } c := by
  refine ⟨h.counted, h.direct, h.current, h.promoted, h.follows, h.proven, ?_⟩
  intro hon
  rcases onWay_set hon with hold | hto
  · exact h.onWay hold
  · exact writeNext_proven (s := s) h hok hl hto

/-! ## Installing a connection -/

/-- A new connection starts unproven, while traffic is on the relay. -/
private theorem ConnInv.install {c₀ : Conn} (h : ConnInv s c)
    (hok : Undisturbed s (.setICEConn c₀)) :
    ConnInv { s with
      link := { s.link with
        iceConn := some c₀
        readers := s.link.readers.set c₀ .reading
        probers := s.link.probers.set c₀ {} } } c := by
  obtain ⟨hrelay, hloaded, hquiet⟩ := hok
  have hold : ∀ p, s.link.probers.set c₀ {} c = some p → p = {} ∨ s.link.probers c = some p := by
    intro p hp
    rcases PMap.set_eq_some _ hp with ⟨-, hp⟩ | ⟨-, hp⟩
    · exact .inl hp.symm
    · exact .inr hp
  -- the new prober has counted nothing, and the others are quiet
  constructor
  · intro p hp hrun
    rcases hold p hp with rfl | hp
    · exact Nat.zero_le _
    · exact h.counted p hp hrun
  · intro p hp hdir
    rcases hold p hp with rfl | hp
    · cases hdir
    · exact h.direct p hp hdir
  · intro p hp hmay
    rcases hold p hp with rfl | hp
    · cases hmay
    · rw [hquiet c p hp] at hmay
      cases hmay
  · intro p d hp hd hprom
    rcases hold p hp with rfl | hp
    · cases hd
    · exact h.promoted p d hp hd hprom
  · intro hice
    exact absurd (hrelay.symm.trans hice) Bool.false_ne_true
  · intro hice
    exact absurd (hrelay.symm.trans hice) Bool.false_ne_true
  · rintro ⟨w, hsend | ⟨hload, -⟩⟩
    · exact h.onWay ⟨w, .inl hsend⟩
    · exact absurd hload (hloaded w)

/-! ## The steps of a probe loop -/

/-- The invariant of a connection, read at its prober. -/
private theorem ConnInv.of_prober {p : Prober} (hp : s.link.probers c = some p)
    (hcounted : running p.phase = true → p.st.consecutiveGood ≤ (s.own c).streak)
    (hdirect : p.st.direct = true → 3 ≤ p.st.consecutiveGood)
    (hcurrent : mayPromote p.phase = true → s.link.iceConn = some c ∨ s.link.iceConn = none)
    (hpromoted : ∀ d, p.phase = .decided d → d.promote = true → p.st.direct = true)
    (hfollows : s.link.useICE = true → s.link.iceConn = some c → running p.phase = true →
      willDemote p.phase = true ∨ p.st.direct = true)
    (hproven : s.link.useICE = true → s.link.iceConn = some c →
      willDemote p.phase = true ∨ 3 ≤ (s.own c).streak)
    (honWay : OnWay s.link c → 3 ≤ (s.own c).streak) : ConnInv s c := by
  -- there is one prober, so each part is about it
  have heq : ∀ q, s.link.probers c = some q → q = p := fun q hq =>
    Option.some.inj (hq.symm.trans hp)
  constructor
  · intro q hq
    exact heq q hq ▸ hcounted
  · intro q hq
    exact heq q hq ▸ hdirect
  · intro q hq
    exact heq q hq ▸ hcurrent
  · intro q d hq
    exact heq q hq ▸ hpromoted d
  · intro hice hc q hq
    exact heq q hq ▸ hfollows hice hc
  · intro hice hc
    rcases hproven hice hc with hwill | hstreak
    · exact .inl ⟨p, hp, hwill⟩
    · exact .inr hstreak
  · exact honWay

/-- In the direct state, a connection that its probe loop still counts is proven. -/
private theorem ConnInv.proven_of_direct {p : Prober} (h : ConnInv s c)
    (hp : s.link.probers c = some p)
    (hrun : running p.phase = true) (hdir : p.st.direct = true) : 3 ≤ (s.own c).streak :=
  Nat.le_trans (h.direct p hp hdir) (h.counted p hp hrun)

/-- The state after a step of the probe loop of `c`. -/
def Traced.probed (s : Traced) (c : Conn) (p : Prober) (useICE : Bool)
    (own : Conn → OwnProbe) : Traced :=
  { link := { s.link with probers := s.link.probers.set c p, useICE }, own }

/-- A step of a prober puts nothing on its way. -/
private theorem onWay_probed {p : Prober} {u : Bool} {own : Conn → OwnProbe} {c' : Conn} :
    OnWay (s.probed c p u own).link c' ↔ OnWay s.link c' := Iff.rfl

private theorem probers_probed (s : Traced) (c : Conn) (p : Prober) (u : Bool)
    (own : Conn → OwnProbe) :
    (s.probed c p u own).link.probers c = some p := PMap.set_self _ _ _

/-- A step of the loop that neither moves traffic nor calls `observe`. -/
theorem ConnInv.walk {p : Prober} {phase : TickPhase} (h : ConnInv s c)
    (hp : s.link.probers c = some p) (hrun : running p.phase = true)
    (hwill : willDemote p.phase = false)
    (hmay : mayPromote phase = true → s.link.iceConn = some c ∨ s.link.iceConn = none)
    (hnew : ∀ d, phase ≠ .decided d) :
    ConnInv (s.probed c { p with phase } s.link.useICE s.own) c := by
  -- with no demotion pending, traffic on the connection means the direct state
  have hdir : s.link.useICE = true → s.link.iceConn = some c → p.st.direct = true := by
    intro hice hc
    rcases h.follows hice hc p hp hrun with hw | hdir
    · exact absurd (hwill.symm.trans hw) Bool.false_ne_true
    · exact hdir
  refine .of_prober (probers_probed _ _ _ _ _) ?_ (h.direct p hp) hmay ?_ ?_ ?_ h.onWay
  · intro _
    exact h.counted p hp hrun
  · intro d hd
    exact absurd hd (hnew d)
  · intro hice hc _
    exact .inr (hdir hice hc)
  · intro hice hc
    exact .inr (h.proven_of_direct hp hrun (hdir hice hc))

/-- The ping cannot be written. -/
private theorem ConnInv.pingFails {p : Prober} (h : ConnInv s c) (hp : s.link.probers c = some p)
    (hon : ¬ OnWay s.link c) :
    ConnInv (s.probed c { p with phase := .failed } s.link.useICE
      (s.note (.probe c (.ping false)))) c := by
  refine .of_prober (probers_probed _ _ _ _ _) ?_ (h.direct p hp) ?_ ?_ ?_ ?_ ?_
  · simp [running]
  · simp [mayPromote]
  · simp
  · simp [running]
  · simp [willDemote]
  · intro hway
    exact absurd (onWay_probed.mp hway) hon

/-- After that, or after a demotion, traffic is back on the relay. -/
theorem ConnInv.revert {p : Prober} {phase : TickPhase} (h : ConnInv s c)
    (hp : s.link.probers c = some p)
    (hrun : running phase = true → running p.phase = true) (hmay : mayPromote phase = false)
    (hnew : ∀ d, phase ≠ .decided d) :
    ConnInv (s.probed c { p with phase } false s.own) c := by
  -- off the direct path nothing is left to show about the traffic
  refine .of_prober (probers_probed _ _ _ _ _) ?_ (h.direct p hp) ?_ ?_ ?_ ?_ h.onWay
  · intro hr
    exact h.counted p hp (hrun hr)
  · intro hm
    exact absurd (hmay.symm.trans hm) Bool.false_ne_true
  · intro d hd
    exact absurd hd (hnew d)
  · intro hf
    cases hf
  · intro hf
    cases hf

/-- `observe` counts at most what the connection answered. -/
private theorem good_le_tick_streak {st : ProbeState} {o : OwnProbe} {pong now : Int}
    (hle : st.consecutiveGood ≤ o.streak)
    (hans : st.answered pong now = true → o.answers now = true) :
    st.good pong now ≤ (o.tick now).streak := by
  unfold ProbeState.good OwnProbe.tick
  split
  · rename_i hshared
    simp only [hans hshared, ↓reduceIte]
    omega
  · exact Nat.zero_le _

/-- `observe` keeps the invariant: it counts only probes that the connection answered. -/
theorem ConnInv.observe {p : Prober} {now : Int} (h : ConnInv s c)
    (hp : s.link.probers c = some p) (hphase : p.phase = .pinged)
    (hok : Undisturbed s (.probe c (.observe now))) :
    ConnInv (s.probed c
      { st := (p.st.observe s.link.lastPong now).2
        phase := .decided (p.st.observe s.link.lastPong now).1 } s.link.useICE
      (s.note (.probe c (.observe now)))) c := by
  obtain ⟨hans, hway⟩ := hok
  have hrun : running p.phase = true := by rw [hphase]; rfl
  have hown : s.note (.probe c (.observe now)) c = (s.own c).tick now := by simp [Traced.note]
  have hgood : p.st.good s.link.lastPong now ≤ ((s.own c).tick now).streak :=
    good_le_tick_streak (h.counted p hp hrun) (hans p hp)
  have hthree : (p.st.observe s.link.lastPong now).2.direct = true →
      3 ≤ p.st.good s.link.lastPong now := ProbeState.observe_direct_good (h.direct p hp)
  -- while traffic is on the connection, an unanswered probe ends in a demotion
  have hstays : s.link.useICE = true → s.link.iceConn = some c →
      (p.st.observe s.link.lastPong now).1.demote = true ∨
        (p.st.observe s.link.lastPong now).2.direct = true := by
    intro hice hc
    have hdir : p.st.direct = true := by
      simpa [hphase, willDemote] using h.follows hice hc p hp hrun
    cases hshared : p.st.answered s.link.lastPong now with
    | false => exact .inl (ProbeState.observe_demotes_iff.mpr ⟨hdir, hshared⟩)
    | true => exact .inr (ProbeState.observe_direct_iff.mpr (.inr ⟨hdir, hshared⟩))
  refine .of_prober (probers_probed _ _ _ _ _) ?_ ?_ ?_ ?_ ?_ ?_ ?_
  · intro _
    simpa [Traced.probed, hown] using hgood
  · simpa using hthree
  · intro _
    exact h.current p hp (by rw [hphase]; rfl)
  · intro d hd hprom
    obtain rfl := TickPhase.decided.inj hd
    exact ProbeState.observe_direct_iff.mpr (.inl hprom)
  · intro hice hc _
    exact hstays hice hc
  · intro hice hc
    simp only [Traced.probed, hown]
    exact (hstays hice hc).imp_right fun hdir => Nat.le_trans (hthree hdir) hgood
  · intro hon
    have hstreak := h.onWay (onWay_probed.mp hon)
    cases hmine : (s.own c).answers now with
    | false => exact absurd (onWay_probed.mp hon) (hway hmine)
    | true =>
      simp only [Traced.probed, hown, OwnProbe.tick, hmine, ↓reduceIte]
      omega

/-- Acting on the decision keeps the invariant. -/
theorem ConnInv.switch {p : Prober} {d : Decision} (h : ConnInv s c)
    (hp : s.link.probers c = some p) (hphase : p.phase = .decided d) :
    ConnInv (s.probed c { p with phase := .idle } (Link.switched s.link.useICE d) s.own) c := by
  have hrun : running p.phase = true := by rw [hphase]; rfl
  -- promote, demote or leave things as they are
  cases hprom : d.promote with
  | true =>
    have hdir := h.promoted p d hp hphase hprom
    refine .of_prober (probers_probed _ _ _ _ _) ?_ (h.direct p hp) ?_ ?_ ?_ ?_ h.onWay
    · intro _
      exact h.counted p hp hrun
    · simp [mayPromote]
    · simp
    · intro _ _ _
      exact .inr hdir
    · intro _ _
      exact .inr (h.proven_of_direct hp hrun hdir)
  | false =>
    cases hdem : d.demote with
    | true =>
      have hice : Link.switched s.link.useICE d = false := by simp [Link.switched, hprom, hdem]
      rw [hice]
      exact h.revert hp (fun _ => hrun) rfl (by simp)
    | false =>
      have hice : Link.switched s.link.useICE d = s.link.useICE := by
        simp [Link.switched, hprom, hdem]
      rw [hice]
      exact h.walk hp hrun (by rw [hphase]; exact hdem) (by simp [mayPromote]) (by simp)

/-- Every step of a probe loop, seen from its own connection. -/
private theorem ConnInv.probe_self {p : Prober} {e : ProbeEvent} {out : Prober × Bool}
    (h : ConnInv s c)
    (hok : Undisturbed s (.probe c e)) (hp : s.link.probers c = some p)
    (hl : s.link.probeNext c p e = some out) :
    ConnInv (s.probed c out.1 out.2 (s.note (.probe c e))) c := by
  -- one case for each event of the loop: most of them only move it on
  cases e with
  | tick =>
    simp only [Link.probeNext] at hl
    split at hl
    · rename_i hidle
      obtain rfl := Option.some.inj hl
      refine h.walk hp (by rw [hidle]; rfl) (by rw [hidle]; rfl) ?_ ?_
      · split
        · rename_i hcur
          exact fun _ => .inl hcur
        · simp [mayPromote]
      · intro d
        split <;> simp
    · cases hl
  | ping ok =>
    simp only [Link.probeNext] at hl
    split at hl
    · rename_i hchecked
      obtain rfl := Option.some.inj hl
      cases ok with
      | true =>
        exact h.walk hp (by rw [hchecked]; rfl) (by rw [hchecked]; rfl)
          (fun _ => h.current p hp (by rw [hchecked]; rfl)) (by simp)
      | false => exact h.pingFails hp hok
    · cases hl
  | giveUp =>
    simp only [Link.probeNext] at hl
    split at hl
    · obtain rfl := Option.some.inj hl
      exact h.revert hp (by simp [running]) rfl (by simp)
    · cases hl
  | observe now =>
    simp only [Link.probeNext] at hl
    split at hl
    · rename_i hpinged
      obtain rfl := Option.some.inj hl
      exact h.observe hp hpinged hok
    · cases hl
  | switch =>
    simp only [Link.probeNext] at hl
    split at hl
    · rename_i hdecided
      obtain rfl := Option.some.inj hl
      exact h.switch hp hdecided
    · cases hl
  | stop =>
    simp only [Link.probeNext] at hl
    split at hl
    · rename_i hidle
      obtain rfl := Option.some.inj hl
      exact h.walk hp (by rw [hidle.1]; rfl) (by rw [hidle.1]; rfl) (by simp [mayPromote])
        (by simp)
    · cases hl

/-- Only a tick that may promote sets `useICE`. -/
private theorem probeNext_useICE {p : Prober} {e : ProbeEvent} {out : Prober × Bool}
    (hl : l.probeNext c p e = some out) (hice : out.2 = true) :
    l.useICE = true ∨ mayPromote p.phase = true := by
  -- only `switch` can turn the path on
  cases e with
  | switch =>
    simp only [Link.probeNext] at hl
    split at hl
    · rename_i d hdecided
      obtain rfl := Option.some.inj hl
      rw [hdecided]
      cases hprom : d.promote with
      | true => exact .inr hprom
      | false =>
        simp only [Link.switched, hprom, Bool.false_eq_true, ↓reduceIte] at hice
        split at hice
        · cases hice
        · exact .inl hice
    · cases hl
  | giveUp =>
    simp only [Link.probeNext] at hl
    split at hl
    · obtain rfl := Option.some.inj hl
      cases hice
    · cases hl
  | _ =>
    simp only [Link.probeNext] at hl
    split at hl
    · obtain rfl := Option.some.inj hl
      exact .inl hice
    · cases hl

/-- The probes of one connection are not counted for another one. -/
private theorem note_probe_other {c₀ : Conn} (s : Traced) (hne : c ≠ c₀) (e : ProbeEvent) :
    s.note (.probe c₀ e) c = s.own c := by
  cases e with
  | ping ok => cases ok <;> simp [Traced.note, hne]
  | observe now => simp [Traced.note, hne]
  | _ => rfl

/-- And seen from another one. -/
private theorem ConnInv.probe_other {c₀ : Conn} {p : Prober} {e : ProbeEvent} {out : Prober × Bool}
    (h : ConnInv s c) (h₀ : ConnInv s c₀) (hne : c ≠ c₀) (hp : s.link.probers c₀ = some p)
    (hl : s.link.probeNext c₀ p e = some out) :
    ConnInv (s.probed c₀ out.1 out.2 (s.note (.probe c₀ e))) c := by
  refine h.frame (PMap.set_ne _ _ hne) (congrArg OwnProbe.streak (note_probe_other s hne e))
    (.inl rfl) ?_ onWay_probed.mp
  intro hice hc
  -- the other loop sets `useICE` only for its own connection, or for none
  rcases probeNext_useICE hl hice with hold | hmay
  · exact hold
  · rcases h₀.current p hp hmay with hcur | hnone
    · exact absurd (Option.some.inj (hc.symm.trans hcur)) hne
    · rw [show s.link.iceConn = some c from hc] at hnone
      cases hnone

/-! ## Whole runs -/

/-- Every step of the link keeps the invariant of every connection. -/
private theorem connInv_step {e : LinkEvent} (hok : Undisturbed s e) (h : ∀ c, ConnInv s c)
    (hs : tracedStep s e = some s') (c : Conn) : ConnInv s' c := by
  obtain ⟨l, hl, rfl⟩ := Option.map_eq_some_iff.mp hs
  cases e with
  | setICEConn c₀ =>
    simp only [Link.step] at hl
    split at hl
    · obtain rfl := Option.some.inj hl
      exact (h c).install hok
    · cases hl
  | read c₀ e => exact (h c).read hl
  | probe c₀ e =>
    obtain ⟨p, hp, hl⟩ := Option.bind_eq_some_iff.mp hl
    obtain ⟨out, hout, rfl⟩ := Option.map_eq_some_iff.mp hl
    -- the probe loop of this connection, or of another one
    by_cases hc : c = c₀
    · subst hc
      exact (h c).probe_self hok hp hout
    · exact (h c).probe_other (h c₀) hc hp hout
  | write w e =>
    obtain ⟨phase, hphase, rfl⟩ := Option.map_eq_some_iff.mp hl
    exact (h c).write hok hphase
  | close =>
    obtain rfl := Option.some.inj hl
    exact (h c).close
  | closeStore =>
    simp only [Link.step] at hl
    split at hl
    · cases hl
    · obtain rfl := Option.some.inj hl
      exact (h c).closeStore

/-- A send goes to a proven connection. -/
private theorem sendsProven_of_inv {e : LinkEvent} (h : ∀ c, ConnInv s c) : SendsProven s e := by
  cases e with
  | write w e =>
    cases e with
    | send ok => exact fun c hsend => (h c).onWay ⟨w, .inl hsend⟩
    | _ => trivial
  | _ => trivial

/-- In every interleaving in which the loops of different connections and the calls of
    `Write` stay undisturbed, packets go to proven connections only. -/
theorem direct_sends_proven {es : List LinkEvent}
    (hok : ExecAlong tracedStep Undisturbed {} es) :
    ExecAlong tracedStep SendsProven {} es :=
  .of_inv (fun _ _ _ hcond hinv hs => connInv_step hcond hinv hs)
    (fun _ _ _ hinv => sendsProven_of_inv hinv) connInv_init hok

/-- A probe that the connection answers at `t`. -/
def answeredProbe (c : Conn) (t : Int) : List LinkEvent :=
  [.read c (.pong t), .probe c .tick, .probe c (.ping true), .probe c (.observe (t + 1)),
    .probe c .switch]

/-- A connection is installed and answers three probes from `t` on. -/
def provenRun (c : Conn) (t : Int) : List LinkEvent :=
  .setICEConn c :: (answeredProbe c t ++ answeredProbe c (t + 2) ++ answeredProbe c (t + 4))

/-- A second connection replaces the proven one, and a `Write` picks it up. -/
def replacedRun : List LinkEvent :=
  provenRun 1 1 ++ [.setICEConn 2, .write 0 .start, .write 0 .load]

/-- The packet goes out on the second connection, which no probe has been over. -/
theorem replacedRun_sends_unproven :
    (∃ s, exec tracedStep {} (replacedRun ++ [.write 0 (.send true)]) = some s ∧
      s.link.writes 0 = some (.sentDirect 2) ∧ (s.own 2).streak = 0) ∧
    ¬ ExecAlong tracedStep SendsProven {} (replacedRun ++ [.write 0 (.send true)]) := by
  constructor
  · exact ⟨_, rfl, by decide, by decide⟩
  · intro h
    have hsend : SendsProven _ _ := h.last rfl rfl
    exact absurd (hsend 2 (by decide)) (by decide)

/-- A packet on a proven connection, which then breaks; one on its successor, proven too. -/
def successorRun : List LinkEvent :=
  provenRun 1 1 ++ [.write 0 .start, .write 0 .load, .write 0 (.send true), .read 1 .error,
    .read 1 .exit] ++ provenRun 2 7 ++ [.write 1 .start, .write 1 .load, .write 1 (.send true)]

private theorem observe_undisturbed {now : Int} (h : (s.own c).answers now = true) :
    Undisturbed s (.probe c (.observe now)) :=
  ⟨fun _ _ _ => h, fun hno => absurd (hno.symm.trans h) Bool.false_ne_true⟩

/-- In the sample run nothing interferes. -/
private theorem successorRun_undisturbed : ExecAlong tracedStep Undisturbed {} successorRun := by
  -- what remains are the two installations, the six calls of `observe` and the two starts
  repeat' first | exact trivial | refine ExecAlong.cons rfl ?_ ?_
  · exact ⟨rfl, by simp, by simp⟩
  · exact observe_undisturbed rfl
  · exact observe_undisturbed rfl
  · exact observe_undisturbed rfl
  · intro _ c p hc hp
    obtain rfl := Option.some.inj hc
    obtain rfl := Option.some.inj hp
    rfl
  · refine ⟨rfl, ?_, ?_⟩
    · intro w
      by_cases hw : w = 0 <;> simp [PMap.set, hw]
    · intro c p hp
      by_cases hc : c = 1
      · subst hc
        obtain rfl := Option.some.inj hp
        rfl
      · simp [PMap.set, hc] at hp
  · exact observe_undisturbed rfl
  · exact observe_undisturbed rfl
  · exact observe_undisturbed rfl
  · intro _ c p hc hp
    obtain rfl := Option.some.inj hc
    obtain rfl := Option.some.inj hp
    rfl

/-- Two connections in a row are proven and used. -/
theorem successorRun_sends_proven :
    (∃ s, exec tracedStep {} successorRun = some s ∧
      s.link.writes 0 = some (.sentDirect 1) ∧ s.link.writes 1 = some (.sentDirect 2)) ∧
    ExecAlong tracedStep Undisturbed {} successorRun ∧
    ExecAlong tracedStep SendsProven {} successorRun :=
  ⟨⟨_, rfl, by decide, by decide⟩, successorRun_undisturbed,
    direct_sends_proven successorRun_undisturbed⟩

end Blinex.Spec
