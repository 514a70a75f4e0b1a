import Blinex.ForStd.Crash
import Blinex.Native.DnsConfig

/-!
# The DNS takeover over many runs of the agent

The backup file is what ties the runs together. While there is none, no adapter is changed; while
there is one, it has the original servers of the adapters in it (`Original`). Which adapters are
changed is decided at every start anew, from those that are up, so a changed adapter need not be
in the backup; and a restore passes over those that are gone. `RevertGlobal` removes the file in
either case, and what it could not put back is lost.
-/

namespace Blinex.Spec

open Blinex.Native.DnsConfig

/-- The file and the adapters are the same, their servers may differ. -/
structure SameFile (m m' : Machine) : Prop where
  backup : m'.backup = m.backup
  up : m'.up = m.up
  down : m'.down = m.down

/-- The backup and the adapters stay over several steps. -/
theorem SameFile.trans {m m' m'' : Machine} (h : SameFile m m') (h' : SameFile m' m'') :
    SameFile m m'' :=
  ⟨h'.backup.trans h.backup, h'.up.trans h.up, h'.down.trans h.down⟩

theorem SameFile.present {m m' : Machine} (h : SameFile m m') (a : String) :
    m'.present a = m.present a := by
  rw [Machine.present, h.up, h.down]
  rfl

/-- Setting servers touches neither the backup nor the adapters. -/
private theorem sameFile_setDNS (m : Machine) (a : String) (servers : List String) :
    SameFile m (m.setDNS a servers) := ⟨rfl, rfl, rfl⟩

private theorem setDNS_dns (m : Machine) (a : String) (servers : List String) (x : String) :
    (m.setDNS a servers).dns x = if x = a then servers else m.dns x := rfl

/-- What a call leaves to the rest of the program. -/
private theorem crashSafe_call {α : Type} {crash : Machine → Prop} {post : α → Machine → Prop}
    {c : Call}
    {f : c.Res → Prog Call.Res α} {m : Machine} (hcrash : crash m)
    (hrest : (f (Machine.exec c m).1).CrashSafe Machine.exec crash post (Machine.exec c m).2) :
    (call c >>= f).CrashSafe Machine.exec crash post m := ⟨hcrash, hrest⟩

/-! ## The functions -/

/-- The adapters of `aliases` that are there have their servers from `orig`. -/
def restoredDNS (orig : String → List String) (aliases : List String) (m : Machine)
    (a : String) : List String :=
  if m.present a = true ∧ a ∈ aliases then orig a else m.dns a

/-- An adapter that is there is restored before the others. -/
private theorem restoredDNS_cons {orig : String → List String} {m : Machine} {a : String}
    (hpresent : m.present a = true) (aliases : List String) :
    restoredDNS orig aliases (m.setDNS a (orig a)) = restoredDNS orig (a :: aliases) m := by
  funext x
  have hsame := (sameFile_setDNS m a (orig a)).present x
  by_cases hx : x = a
  · subst hx
    simp [restoredDNS, hsame, hpresent, setDNS_dns]
  · simp [restoredDNS, hsame, setDNS_dns, hx]

/-- One that is gone is passed over. -/
private theorem restoredDNS_cons_of_absent {orig : String → List String} {m : Machine} {a : String}
    (habsent : m.present a = false) (aliases : List String) :
    restoredDNS orig aliases m = restoredDNS orig (a :: aliases) m := by
  funext x
  by_cases hx : x = a
  · subst hx
    simp [restoredDNS, habsent]
  · simp [restoredDNS, hx]

/-- `restoreBackup` with a backup of original servers. -/
private theorem restoreBackup_safe {orig : String → List String} (b : List AdapterDNS)
    (hb : ∀ e ∈ b, e.serverAddresses = orig e.interfaceAlias) (m : Machine) :
    (restoreBackup true b).CrashSafe Machine.exec (SameFile m)
      (fun ok m' => ok = true ∧ SameFile m m' ∧
        m'.dns = restoredDNS orig (b.map AdapterDNS.interfaceAlias) m) m := by
  induction b generalizing m with
  | nil =>
    refine ⟨rfl, ⟨rfl, rfl, rfl⟩, funext fun a => ?_⟩
    simp [restoredDNS]
  | cons e b ih =>
    have hrest := ih fun e' he' => hb e' (List.mem_cons_of_mem _ he')
    have he := hb e List.mem_cons_self
    unfold restoreBackup
    refine crashSafe_call ⟨rfl, rfl, rfl⟩ ?_
    -- an adapter that is gone is skipped, and the restore still counts as complete
    cases hp : m.present e.interfaceAlias with
    | false =>
      simp only [Machine.exec, hp, Bool.false_eq_true, ↓reduceIte, List.map_cons,
        ← restoredDNS_cons_of_absent hp]
      exact hrest m
    | true =>
      have hset := sameFile_setDNS m e.interfaceAlias (orig e.interfaceAlias)
      -- reset or set, the adapter has its recorded servers
      have hnext : (restoreBackup true b).CrashSafe Machine.exec (SameFile m)
          (fun ok m' => ok = true ∧ SameFile m m' ∧
            m'.dns = restoredDNS orig ((e :: b).map AdapterDNS.interfaceAlias) m)
          (m.setDNS e.interfaceAlias (orig e.interfaceAlias)) := by
        refine (hrest _).imp (fun m' h => hset.trans h) fun ok m' h => ?_
        rw [List.map_cons, ← restoredDNS_cons hp]
        exact ⟨h.1, hset.trans h.2.1, h.2.2⟩
      rw [← he] at hnext
      simp only [Machine.exec, hp, ↓reduceIte]
      split
      · rename_i hempty
        rw [hempty] at hnext
        exact crashSafe_call ⟨rfl, rfl, rfl⟩ hnext
      · exact crashSafe_call ⟨rfl, rfl, rfl⟩ hnext

/-- The loop of `ApplyGlobal` leaves the file alone. -/
private theorem overrideAdapters_safe (l : List AdapterDNS) (m : Machine) :
    (overrideAdapters l).CrashSafe Machine.exec (SameFile m) (fun _ => SameFile m) m := by
  induction l generalizing m with
  | nil => exact ⟨rfl, rfl, rfl⟩
  | cons e l ih =>
    unfold overrideAdapters
    have hset := sameFile_setDNS m e.interfaceAlias ["127.0.0.1"]
    refine crashSafe_call ⟨rfl, rfl, rfl⟩ ?_
    exact (ih _).imp (fun m' h => hset.trans h) fun _ m' h => hset.trans h

/-- The override touches neither the backup nor the adapters. -/
private theorem takeOver_safe (m : Machine) :
    takeOver.CrashSafe Machine.exec (SameFile m) (fun _ => SameFile m) m := by
  refine crashSafe_call ⟨rfl, rfl, rfl⟩ ?_
  simp only [Machine.exec]
  by_cases hup : m.up = []
  · simp only [hup, ↓reduceIte]
    exact ⟨rfl, rfl, rfl⟩
  · simp only [hup, ↓reduceIte]
    exact overrideAdapters_safe _ m

/-- Without a backup nothing is changed, and a backup has the original servers in it. -/
structure Original (orig : String → List String) (m : Machine) : Prop where
  unchanged : m.backup = none → m.dns = orig
  recorded : ∀ b, m.backup = some b → ∀ e ∈ b, e.serverAddresses = orig e.interfaceAlias

/-- The backup is right, and not lost. -/
structure FileKept (orig : String → List String) (m m' : Machine) : Prop where
  original : Original orig m'
  kept : m.backup.isSome = true → m'.backup.isSome = true

section Functions

variable {orig : String → List String} {m : Machine}

theorem Original.refl (h : Original orig m) : FileKept orig m m := ⟨h, fun hsome => hsome⟩

/-- With a backup, only the backup matters. -/
private theorem Original.sameFile (h : Original orig m) {b : List AdapterDNS}
    (hb : m.backup = some b)
    {m' : Machine} (hm' : SameFile m m') : FileKept orig m m' := by
  refine ⟨⟨fun hnone => ?_, fun b' hb' => ?_⟩, fun hsome => by rw [hm'.backup]; exact hsome⟩
  · rw [hm'.backup, hb] at hnone
    cases hnone
  · rw [hm'.backup] at hb'
    exact h.recorded b' hb'

/-- Recovery keeps the record of the original servers, wherever it is cut off. -/
private theorem recover_safe (h : Original orig m) :
    recoverStaleGlobalOverride.CrashSafe Machine.exec (FileKept orig m)
      (fun _ => FileKept orig m) m := by
  refine crashSafe_call h.refl ?_
  cases hb : m.backup with
  | none =>
    simp only [Machine.exec, hb]
    exact h.refl
  | some b =>
    simp only [Machine.exec, hb]
    refine Prog.CrashSafe.bind ((restoreBackup_safe b (h.recorded b hb) m).imp ?_ ?_)
    · exact fun m' hm' => h.sameFile hb hm'
    · exact fun ok m' hm' => h.sameFile hb hm'.2.1

/-- The override keeps the record, once there is one. -/
private theorem takeOver_keeps (h : Original orig m) {b : List AdapterDNS}
    (hb : m.backup = some b) :
    takeOver.CrashSafe Machine.exec (FileKept orig m) (fun _ => FileKept orig m) m :=
  (takeOver_safe m).imp (fun _ hm' => h.sameFile hb hm') fun _ _ hm' => h.sameFile hb hm'

/-- The takeover keeps the record: it is written before anything is changed. -/
private theorem applyGlobal_safe (h : Original orig m) (relayOK : Bool) :
    (applyGlobal relayOK).CrashSafe Machine.exec (FileKept orig m)
      (fun _ => FileKept orig m) m := by
  refine crashSafe_call h.refl ?_
  cases relayOK with
  | false => exact h.refl
  | true =>
    refine crashSafe_call h.refl (crashSafe_call h.refl ?_)
    -- a backup that is there is left alone, since it may hold the only record
    cases hb : m.backup with
    | some b =>
      simp only [Machine.exec, hb, Option.isSome_some, ↓reduceIte]
      exact takeOver_keeps h hb
    | none =>
      simp only [Machine.exec, hb, Option.isSome_none, Bool.false_eq_true, ↓reduceIte]
      refine crashSafe_call h.refl ?_
      by_cases hup : m.up = []
      · simp only [Machine.exec, hup, ↓reduceIte]
        exact h.refl
      · simp only [Machine.exec, hup, ↓reduceIte]
        refine crashSafe_call h.refl ?_
        -- nothing is changed yet, so the query has read the original servers
        have hwritten : Original orig
            { m with backup := some (m.up.map fun a => ⟨a, m.dns a⟩) } := by
          refine ⟨fun hnone => absurd hnone (Option.some_ne_none _), fun b' hb' e he => ?_⟩
          obtain rfl := Option.some.inj hb'
          obtain ⟨a, _, rfl⟩ := List.mem_map.mp he
          rw [h.unchanged hb]
        exact (takeOver_keeps hwritten rfl).imp
          (fun m' hm' => ⟨hm'.original, fun _ => hm'.kept rfl⟩)
          fun _ m' hm' => ⟨hm'.original, fun _ => hm'.kept rfl⟩

/-- `RevertGlobal` with a backup restores what it finds and removes the file. -/
private theorem revertGlobal_safe (h : Original orig m) {b : List AdapterDNS}
    (hb : m.backup = some b) :
    revertGlobal.CrashSafe Machine.exec (SameFile m)
      (fun _ m' => m'.backup = none ∧
        m'.dns = restoredDNS orig (b.map AdapterDNS.interfaceAlias) m) m := by
  refine crashSafe_call ⟨rfl, rfl, rfl⟩ ?_
  simp only [Machine.exec, hb]
  refine Prog.CrashSafe.bind ((restoreBackup_safe b (h.recorded b hb) m).imp ?_ ?_)
  · exact fun m' hm' => hm'
  · rintro ok m' ⟨rfl, hsame, hdns⟩
    exact ⟨hsame, rfl, hdns⟩

/-- Without a backup there is nothing to revert. -/
private theorem revertGlobal_safe_of_none (hb : m.backup = none) :
    revertGlobal.CrashSafe Machine.exec (· = m) (fun _ m' => m' = m) m := by
  refine crashSafe_call rfl ?_
  simp only [Machine.exec, hb]
  rfl

end Functions

/-! ## Runs -/

/-- The machine, and whether the agent is running on it. -/
structure DnsWorld where
  machine : Machine
  running : Bool := false

/-- What happens: a start or a clean stop that a crash may end after any number of calls, a
    crash of the running agent, and adapters that come and go between the runs. -/
inductive DnsEvent where
  | start (relayOK : Bool) (calls : Nat)
  | stop (calls : Nat)
  | crash
  | adapters (up down : List String)

/-- A start of the agent. -/
def agentStart (relayOK : Bool) : Prog Call.Res Unit := do
  recoverStaleGlobalOverride
  applyGlobal relayOK

/-- One event. -/
def dnsStep (w : DnsWorld) : DnsEvent → Option DnsWorld
  | .start relayOK calls =>
    if w.running then none
    else
      -- the process may die after any number of calls
      let (done, m) := (agentStart relayOK).runFor Machine.exec calls w.machine
      some { machine := m, running := done.isSome }
  | .stop calls =>
    if w.running then
      some { machine := (revertGlobal.runFor Machine.exec calls w.machine).2, running := false }
    else none
  | .crash => if w.running then some { w with running := false } else none
  | .adapters up down =>
    if w.running then none else some { w with machine := { w.machine with up, down } }

/-- The event is a `RevertGlobal` that removes the backup file. -/
def RemovesBackup (w : DnsWorld) (ev : DnsEvent) : Prop :=
  w.machine.backup.isSome = true ∧ ∃ w', dnsStep w ev = some w' ∧ w'.machine.backup = none

/-- Every adapter whose servers are not the original ones is there, and in the backup. -/
def Restorable (orig : String → List String) (m : Machine) : Prop :=
  ∀ a, m.dns a ≠ orig a → m.present a = true ∧
    ∃ b, m.backup = some b ∧ a ∈ b.map AdapterDNS.interfaceAlias

/-- The restore brings everything back when each changed adapter is recorded and there. -/
private theorem restoredDNS_eq_orig_iff {orig : String → List String} {m : Machine}
    {b : List AdapterDNS} (hb : m.backup = some b) :
    restoredDNS orig (b.map AdapterDNS.interfaceAlias) m = orig ↔ Restorable orig m := by
  rw [funext_iff]
  refine forall_congr' fun a => ?_
  rw [restoredDNS]
  -- an adapter is restored if it is recorded and present
  split
  · rename_i hfound
    exact iff_of_true rfl fun _ => ⟨hfound.1, b, hb, hfound.2⟩
  · rename_i hlost
    constructor
    · exact fun heq hne => absurd heq hne
    · intro hrestorable
      by_contra hne
      obtain ⟨hpresent, b', hb', hmem⟩ := hrestorable hne
      rw [hb] at hb'
      rw [← Option.some.inj hb'] at hmem
      exact hlost ⟨hpresent, hmem⟩

section Steps

variable {orig : String → List String} {w w' : DnsWorld}

/-- A start keeps the record, also when it is cut off. -/
private theorem start_keeps {relayOK : Bool} {calls : Nat} (hw : Original orig w.machine)
    (h : dnsStep w (.start relayOK calls) = some w') :
    FileKept orig w.machine w'.machine := by
  -- the recovery comes first, then the takeover
  have hsafe : (agentStart relayOK).CrashSafe Machine.exec (FileKept orig w.machine)
      (fun _ => FileKept orig w.machine) w.machine := by
    refine Prog.CrashSafe.bind ((recover_safe hw).imp (fun _ hm => hm) fun _ m hm => ?_)
    exact (applyGlobal_safe hm.original relayOK).imp
      (fun m' hm' => ⟨hm'.original, fun hsome => hm'.kept (hm.kept hsome)⟩)
      fun _ m' hm' => ⟨hm'.original, fun hsome => hm'.kept (hm.kept hsome)⟩
  simp only [dnsStep] at h
  split at h
  · cases h
  · obtain rfl := Option.some.inj h
    rcases hsafe.runFor calls with ⟨_, hm⟩ | ⟨_, _, hm⟩
    · exact hm
    · exact hm

/-- Without a backup a stop does nothing. With one, either a crash has left the file, or it is
    removed and everything is restored that was found. -/
private theorem stop_cases {calls : Nat} (hw : Original orig w.machine)
    (h : dnsStep w (.stop calls) = some w') :
    FileKept orig w.machine w'.machine ∨
    (∃ b, w.machine.backup = some b ∧ w'.machine.backup = none ∧
      w'.machine.dns = restoredDNS orig (b.map AdapterDNS.interfaceAlias) w.machine) := by
  simp only [dnsStep] at h
  split at h
  · obtain rfl := Option.some.inj h
    -- without a backup nothing happens; with one it is kept, or all of it was restored
    cases hb : w.machine.backup with
    | none =>
      have hsame : (revertGlobal.runFor Machine.exec calls w.machine).2 = w.machine := by
        rcases (revertGlobal_safe_of_none hb).runFor calls with ⟨_, hm⟩ | ⟨_, _, hm⟩
        · exact hm
        · exact hm
      left
      simp only [hsame]
      exact hw.refl
    | some b =>
      rcases (revertGlobal_safe hw hb).runFor calls with ⟨_, hm⟩ | ⟨_, _, hm⟩
      · exact .inl (hw.sameFile hb hm)
      · exact .inr ⟨b, rfl, hm⟩
  · cases h

/-- Everything an event can do to the file. -/
private theorem dnsStep_cases {ev : DnsEvent} (hw : Original orig w.machine)
    (h : dnsStep w ev = some w') :
    FileKept orig w.machine w'.machine ∨
    (∃ b, w.machine.backup = some b ∧ w'.machine.backup = none ∧
      w'.machine.dns = restoredDNS orig (b.map AdapterDNS.interfaceAlias) w.machine) := by
  cases ev with
  | start relayOK calls => exact .inl (start_keeps hw h)
  | stop calls => exact stop_cases hw h
  -- the other events do not touch the file
  | crash =>
    simp only [dnsStep] at h
    split at h
    · rw [← Option.some.inj h]
      exact .inl hw.refl
    · cases h
  | adapters up down =>
    simp only [dnsStep] at h
    split at h
    · cases h
    · rw [← Option.some.inj h]
      exact .inl ⟨⟨hw.unchanged, hw.recorded⟩, fun hsome => hsome⟩

/-- An event removes the backup when it is there before and not after. -/
private theorem removesBackup_iff {ev : DnsEvent} (h : dnsStep w ev = some w') :
    RemovesBackup w ev ↔ w.machine.backup.isSome = true ∧ w'.machine.backup = none := by
  constructor
  · rintro ⟨hsome, w'', hw'', hnone⟩
    rw [h] at hw''
    rw [Option.some.inj hw'']
    exact ⟨hsome, hnone⟩
  · exact fun hboth => ⟨hboth.1, w', h, hboth.2⟩

/-- After a `RevertGlobal` that removes the file, every adapter has its original servers. -/
def Undone (orig : String → List String) (w : DnsWorld) (ev : DnsEvent) : Prop :=
  RemovesBackup w ev → ∀ w', dnsStep w ev = some w' → w'.machine.dns = orig

/-- What one event keeps. -/
private theorem original_step {ev : DnsEvent} (hw : Original orig w.machine)
    (hundone : Undone orig w ev)
    (h : dnsStep w ev = some w') : Original orig w'.machine := by
  rcases dnsStep_cases hw h with hkept | ⟨b, hb, hnone, _⟩
  · exact hkept.original
  · have hremoves : RemovesBackup w ev := (removesBackup_iff h).mpr ⟨by rw [hb]; rfl, hnone⟩
    refine ⟨fun _ => hundone hremoves w' h, fun b' hb' => ?_⟩
    rw [hnone] at hb'
    cases hb'

/-- The condition under which one event leaves nothing behind. -/
private theorem undone_iff {ev : DnsEvent} (hw : Original orig w.machine)
    (h : dnsStep w ev = some w') :
    Undone orig w ev ↔ (RemovesBackup w ev → Restorable orig w.machine) := by
  refine forall_congr' fun hremoves => ?_
  obtain ⟨hsome, hnone⟩ := (removesBackup_iff h).mp hremoves
  have hresult : (∀ w'', dnsStep w ev = some w'' → w''.machine.dns = orig) ↔
      w'.machine.dns = orig := by
    rw [h]
    exact ⟨fun hall => hall w' rfl, fun heq w'' hw'' => Option.some.inj hw'' ▸ heq⟩
  rw [hresult]
  -- an event that removes the backup is the complete restore
  rcases dnsStep_cases hw h with hkept | ⟨b, hb, _, hdns⟩
  · have hstill := hkept.kept hsome
    rw [hnone] at hstill
    cases hstill
  · rw [hdns]
    exact restoredDNS_eq_orig_iff hb

end Steps

/-- In any sequence of starts, crashes, stops and changes of the adapters, the takeover is undone
    at every `RevertGlobal` that removes the file exactly if each of them starts with every
    changed adapter there and in the backup. -/
theorem takeover_undone_iff (m : Machine) (hbackup : m.backup = none) (es : List DnsEvent) :
    ExecAlong dnsStep (Undone m.dns) { machine := m } es ↔
      ExecAlong dnsStep (fun w ev => RemovesBackup w ev → Restorable m.dns w.machine)
        { machine := m } es := by
  refine ExecAlong.congr (fun w ev w' hw hundone h => original_step hw hundone h)
    (fun w ev w' hw h => undone_iff hw h) ⟨fun _ => rfl, fun b hb => ?_⟩
  rw [hbackup] at hb
  cases hb

/-- A machine with a network card and a docking station, which is not plugged in. -/
def laptop : Machine where
  dns := fun a => if a = "Dock" then ["10.0.0.1"] else ["192.168.1.1"]
  up := ["Ethernet"]

/-- The agent is killed and started again, and then stopped: everything is as before. -/
theorem laptop_restart_undone :
    ExecAlong dnsStep (Undone laptop.dns) { machine := laptop }
      [.start true 9, .crash, .start true 9, .stop 9] := by
  refine (takeover_undone_iff laptop rfl _).mpr ?_
  -- the starts and the crash leave a backup
  refine .cons rfl (fun h => absurd h.1 nofun) (.cons rfl ?_ (.cons rfl ?_ (.cons rfl ?_ trivial)))
  · rintro ⟨-, w, hw, hnone⟩
    obtain rfl := Option.some.inj hw
    cases hnone
  · rintro ⟨-, w, hw, hnone⟩
    obtain rfl := Option.some.inj hw
    cases hnone
  · -- at the stop, the card is overridden, and it is in the backup
    intro _ a hchanged
    by_cases hcard : a = "Ethernet"
    · subst hcard
      exact ⟨rfl, _, rfl, List.mem_singleton.mpr rfl⟩
    · refine absurd ?_ hchanged
      show (if a = "Ethernet" then ["127.0.0.1"] else if a = "Ethernet" then ["192.168.1.1"]
        else if a = "Ethernet" then ["127.0.0.1"] else laptop.dns a) = laptop.dns a
      simp [hcard]

/-- The dock is plugged in before the second start, which overrides it; the stop removes the
    backup from the first start, where it is not recorded. -/
theorem dock_left_overridden : ∃ w, exec dnsStep { machine := laptop }
      [.start true 9, .crash, .adapters ["Ethernet", "Dock"] [], .start true 9, .stop 9] = some w ∧
    w.machine.backup = none ∧ w.machine.dns "Ethernet" = ["192.168.1.1"] ∧
    laptop.dns "Dock" = ["10.0.0.1"] ∧ w.machine.dns "Dock" = ["127.0.0.1"] := by
  refine ⟨_, rfl, rfl, ?_, rfl, ?_⟩
  · decide
  · decide

end Blinex.Spec
