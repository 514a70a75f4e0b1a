import Blinex.ForStd.Crash
import Blinex.Go.JsonCorrect
import Blinex.Native.ClientState

/-!
# The agent's identity and a crash

`State.Save` truncates `state.json` and then writes it, and `LoadOrCreate` takes a file that it
cannot read for none at all. A complete file is read back as it was saved (`unmarshal_marshal`);
one that was cut off is never read. So the key and the pins outlive a crash exactly if it comes
before the truncation or after the last byte.
-/

namespace Blinex.Native.ClientState

open Blinex.Go

/-! ## What a crash leaves -/

/-- After `n` steps of the writing the first `n` bytes are there. -/
private theorem runFor_appendAll (data written : List UInt8) (n : Nat) :
    ((appendAll data).runFor FileOp.exec n (some written)).2 = some (written ++ data.take n) := by
  induction data generalizing n written with
  | nil => simp [appendAll, Prog.runFor]
  | cons b data ih =>
    cases n with
    | zero => simp [appendAll, Prog.runFor]
    | succ n =>
      simp only [appendAll, Prog.runFor, FileOp.exec, Option.map_some, ih, List.take_succ_cons,
        List.append_assoc, List.singleton_append]

/-- A save that ends after `n` steps leaves the old file or a prefix of the new one. -/
private theorem runFor_save (s : State) (file : Option (List UInt8)) (n : Nat) :
    (s.save.runFor FileOp.exec n file).2
      = if n = 0 then file else some (s.marshal.take (n - 1)) := by
  cases n with
  | zero => rfl
  | succ n =>
    rw [State.save, writeFile, Prog.runFor]
    exact runFor_appendAll s.marshal [] n

/-! ## A complete file -/

/-- The members of a saved object, with their texts and values. -/
def savedMembers (s : State) : List (String × List UInt8 × Json.Value) :=
  ("wg_private_key", Json.quote s.wgPrivateKey, .str (Json.quoteLit s.wgPrivateKey)) ::
    if s.pins = [] then []
    else [("server_fingerprints",
      Json.object (s.pins.map fun (addr, fp) => (addr, Json.quote fp)),
      .obj (s.pins.map fun (addr, fp) => (Json.quoteLit addr, .str (Json.quoteLit fp))))]

/-- The value of a saved state, down to the literals. -/
def savedValue (s : State) : Json.Value :=
  .obj ((savedMembers s).map fun it => (Json.quoteLit it.1, it.2.2))

/-- A saved state is read as a JSON value, whatever follows it. -/
private theorem value_marshal (s : State) (depth : Nat) :
    Json.Reads (Json.value (depth + 2)) s.marshal (savedValue s) := by
  have hpins : Json.Reads (Json.value (depth + 1))
      (Json.object (s.pins.map fun (addr, fp) => (addr, Json.quote fp)))
      (.obj (s.pins.map fun (addr, fp) => (Json.quoteLit addr, .str (Json.quoteLit fp)))) := by
    have hfps : ∀ it ∈ s.pins.map fun (addr, fp) =>
        (addr, Json.quote fp, Json.Value.str (Json.quoteLit fp)),
        Json.Reads (Json.value depth) it.2.1 it.2.2 := by
      intro it hit
      obtain ⟨pin, -, rfl⟩ := List.mem_map.mp hit
      exact Json.value_quote depth pin.2
    simpa [List.map_map, Function.comp_def] using Json.object_written _ hfps
  have hmembers : ∀ it ∈ savedMembers s, Json.Reads (Json.value (depth + 1)) it.2.1 it.2.2 := by
    rw [savedMembers, List.forall_mem_cons]
    refine ⟨Json.value_quote _ _, ?_⟩
    -- without pins the member is left out
    split
    · simp
    · simpa using hpins
  have hobject := Json.object_written (savedMembers s) hmembers
  have htext : s.marshal = Json.object ((savedMembers s).map fun it => (it.1, it.2.1)) := by
    rw [State.marshal, savedMembers]
    split <;> rfl
  rw [htext]
  exact hobject

/-- The text of a state is one object. -/
private theorem marshal_object (s : State) :
    s.marshal.head? = some (Json.ch '{') ∧
      Json.value Json.maxNestingDepth s.marshal = some (savedValue s, []) := by
  refine ⟨rfl, ?_⟩
  have h := value_marshal s 9998 []
  rwa [List.append_nil] at h

/-- Entries that are set one after another are looked up among them first. -/
private theorem lookup_foldl_insert (fp : String → String) (addrs : List String)
    (m : Finmap fun _ : String => String) (addr : String) :
    ((addrs.map fun a => (a, fp a)).foldl (fun m p => m.insert p.1 p.2) m).lookup addr
      = if addr ∈ addrs then some (fp addr) else m.lookup addr := by
  induction addrs generalizing m with
  | nil => simp
  | cons a addrs ih =>
    rw [List.map_cons, List.foldl_cons, ih]
    -- a later entry for the address wins, and it is the same
    by_cases haddrs : addr ∈ addrs
    · simp [haddrs]
    · by_cases ha : addr = a
      · subst ha
        simp [haddrs]
      · simp [haddrs, ha, Finmap.lookup_insert_of_ne]

/-- The pins in any order make up the map. -/
private theorem foldl_insert_pins (s : State) :
    s.pins.foldl (fun m p => m.insert p.1 p.2) ∅ = s.serverFingerprints := by
  apply Finmap.ext_lookup
  intro addr
  rw [State.pins, lookup_foldl_insert]
  simp only [Finset.mem_sort, Finmap.mem_keys, Finmap.lookup_empty]
  split
  · rename_i hmem
    obtain ⟨fp, hfp⟩ := Finmap.mem_iff.mp hmem
    rw [hfp, Option.getD_some]
  · rename_i hmem
    exact (Finmap.lookup_eq_none.mpr hmem).symm

/-- The pins are read back one by one. -/
private theorem foldlM_setPin (pins : List (String × String))
    (m : Finmap fun _ : String => String) :
    (pins.map fun (addr, fp) => (Json.quoteLit addr, Json.Value.str (Json.quoteLit fp))).foldlM
      setPin m = some (pins.foldl (fun m p => m.insert p.1 p.2) m) := by
  induction pins generalizing m with
  | nil => rfl
  | cons p pins ih =>
    have hpin : setPin m (Json.quoteLit p.1, .str (Json.quoteLit p.2))
        = some (m.insert p.1 p.2) := by
      simp [setPin, setString, Json.unquote_quoteLit]
    simp only [List.map_cons, List.foldlM_cons, hpin, Option.bind_eq_bind, Option.bind_some, ih,
      List.foldl_cons]

/-- A saved state is loaded as it was. -/
theorem unmarshal_marshal (s : State) : unmarshal s.marshal = some s := by
  have hparse : Json.parse s.marshal = some (savedValue s) := by
    simp [Json.parse, (marshal_object s).2]
  have hkey : ∀ s' : State,
      setField s' (Json.quoteLit "wg_private_key", .str (Json.quoteLit s.wgPrivateKey))
        = some { s' with wgPrivateKey := s.wgPrivateKey } := by
    intro s'
    have hfield : fieldIs "wg_private_key" "wg_private_key" = true := by decide
    simp [setField, Json.unquote_quoteLit, hfield, setString]
  have hpins : ∀ s' : State, s'.serverFingerprints = ∅ →
      setField s' (Json.quoteLit "server_fingerprints",
        .obj (s.pins.map fun (addr, fp) => (Json.quoteLit addr, .str (Json.quoteLit fp))))
        = some { s' with serverFingerprints := s.serverFingerprints } := by
    intro s' hempty
    have hother : fieldIs "wg_private_key" "server_fingerprints" = false := by decide
    have hfield : fieldIs "server_fingerprints" "server_fingerprints" = true := by decide
    simp only [setField, Json.unquote_quoteLit, hother, hfield, setPins, foldlM_setPin, hempty,
      foldl_insert_pins, Option.bind_eq_bind, Option.bind_some, Option.pure_def, if_true,
      Bool.false_eq_true, if_false]
  rw [unmarshal, hparse]
  simp only [savedValue, savedMembers, List.map_cons, List.foldlM_cons, hkey, Option.bind_eq_bind,
    Option.bind_some]
  split
  · -- Without pins the field is left out, and the map is the empty one.
    rename_i hnone
    have hempty := foldl_insert_pins s
    rw [hnone] at hempty
    simp only [List.map_nil, List.foldlM_nil, Option.pure_def, Option.some.injEq]
    cases s
    simp_all
  · simp only [List.map_cons, List.map_nil, List.foldlM_cons, List.foldlM_nil, Option.bind_eq_bind,
      hpins, Option.bind_some, Option.pure_def]

/-! ## The identity -/

/-- `load` on a state that was read. -/
private theorem load_eq_some_iff {data : List UInt8} {s : State} {key : Key} :
    load data = some (s, key) ↔
      unmarshal data = some s ∧ Base64.decodeString s.wgPrivateKey = some key.val := by
  obtain ⟨raw, hraw⟩ := key
  simp only [load, Option.bind_eq_bind, Option.bind_eq_some_iff]
  constructor
  · rintro ⟨s', hs', raw', hdecode, h⟩
    split at h
    · cases h
      exact ⟨hs', hdecode⟩
    · cases h
  · rintro ⟨hs, hdecode⟩
    exact ⟨s, hs, raw, hdecode, dif_pos hraw⟩

/-- A file of which the end is missing is not loaded. -/
private theorem load_cut (s : State) {k : Nat} (hk : k < s.marshal.length) :
    load (s.marshal.take k) = none := by
  obtain ⟨hopen, hread⟩ := marshal_object s
  have hrest : s.marshal.drop k ≠ [] := by
    rw [ne_eq, List.drop_eq_nil_iff]
    omega
  rw [← List.take_append_drop k s.marshal] at hopen hread
  have hparse := Json.parse_eq_none_of_cut hrest hopen hread
  simp only [load, unmarshal, hparse, Option.bind_eq_bind, Option.bind_none]

/-- What `LoadOrCreate` returns when nothing but the file can be wrong. -/
private theorem loadOrCreate_eq (fresh : Key) (data : List UInt8) :
    (loadOrCreate (.ok ()) (.ok fresh) (some data)).1
      = .ok ((load data).getD ({ wgPrivateKey := Base64.encodeToString fresh.val }, fresh)) := by
  simp only [loadOrCreate, Option.bind_some]
  cases load data <;> rfl

/-- The key that was on disk, with the old or the new pins. -/
def Survives (key : Key) (old new : State) (result : Except String (State × Key)) : Prop :=
  ∃ s, result = .ok (s, key) ∧
    (s.serverFingerprints = old.serverFingerprints ∨ s.serverFingerprints = new.serverFingerprints)

/-- There is another key. -/
private theorem exists_fresh (key : Key) : ∃ fresh : Key, fresh ≠ key := by
  by_cases h : key = ⟨List.replicate 32 0, rfl⟩
  · refine ⟨⟨List.replicate 32 1, rfl⟩, ?_⟩
    rw [h]
    decide
  · exact ⟨_, Ne.symm h⟩

/-- A state is saved over a valid file with the same key, and the save ends after `n` steps.
    `LoadOrCreate` then returns the old key with the old or the new pins, whatever key it would
    generate, exactly if the file was not truncated yet or is complete. -/
theorem identity_survives_iff {data : List UInt8} {old : State} {key : Key}
    (hold : load data = some (old, key)) {new : State} (hkey : new.wgPrivateKey = old.wgPrivateKey)
    (n : Nat) :
    (∀ fresh, Survives key old new
      (loadOrCreate (.ok ()) (.ok fresh) (new.save.runFor FileOp.exec n (some data)).2).1) ↔
    n = 0 ∨ new.marshal.length < n := by
  rw [runFor_save]
  constructor
  · -- On a file that was cut off, `LoadOrCreate` returns whatever key it generates.
    intro hall
    by_contra hcut
    obtain ⟨fresh, hfresh⟩ := exists_fresh key
    have hk : n - 1 < new.marshal.length := by omega
    obtain ⟨s, hs, -⟩ := hall fresh
    rw [if_neg (by omega), loadOrCreate_eq, load_cut new hk] at hs
    simp only [Option.getD_none, Except.ok.injEq, Prod.mk.injEq] at hs
    exact hfresh hs.2
  · rintro (rfl | hn) fresh
    · -- The old file is still there.
      refine ⟨old, ?_, .inl rfl⟩
      rw [if_pos rfl, loadOrCreate_eq, hold, Option.getD_some]
    · -- The new file is complete, and decodes to the key of the old one.
      have hload : load new.marshal = some (new, key) := by
        rw [load_eq_some_iff] at hold ⊢
        exact ⟨unmarshal_marshal new, hkey ▸ hold.2⟩
      refine ⟨new, ?_, .inr rfl⟩
      rw [if_neg (by omega), List.take_of_length_le (by omega), loadOrCreate_eq, hload,
        Option.getD_some]

/-- A key, and one that is generated after the crash. -/
def laptopKey : Key := ⟨List.replicate 32 7, rfl⟩

/-- A newly generated key. -/
def freshKey : Key := ⟨List.replicate 32 9, rfl⟩

/-- An agent that has pinned its management server. -/
def laptop : State where
  wgPrivateKey := "BwcHBwcHBwcHBwcHBwcHBwcHBwcHBwcHBwcHBwcHBwc="
  serverFingerprints := Finmap.singleton "mgmt.example:443" "0a4f"

/-- It has pinned the signal server as well. -/
def laptopPinned : State :=
  { laptop with serverFingerprints := laptop.serverFingerprints.insert "signal.example:443" "77c1" }

/-- The file of the laptop is read back. -/
private theorem load_laptop : load laptop.marshal = some (laptop, laptopKey) :=
  load_eq_some_iff.mpr ⟨unmarshal_marshal laptop, by decide⟩

/-- A save that runs to its end keeps the key and has the new pin. -/
theorem laptop_pin_survives :
    laptop.pin "signal.example:443" "77c1" = some laptopPinned ∧
    load laptop.marshal = some (laptop, laptopKey) ∧
    laptopPinned.wgPrivateKey = laptop.wgPrivateKey ∧
    ∀ fresh, Survives laptopKey laptop laptopPinned
      (loadOrCreate (.ok ()) (.ok fresh) (laptopPinned.save.runFor FileOp.exec
        (laptopPinned.marshal.length + 1) (some laptop.marshal)).2).1 := by
  have hkey : laptopPinned.wgPrivateKey = laptop.wgPrivateKey := rfl
  refine ⟨rfl, load_laptop, hkey, ?_⟩
  exact (identity_survives_iff load_laptop hkey _).mpr (.inr (Nat.lt_succ_self _))

/-- After a crash between the truncation and the first byte the agent has another key and no pin. -/
theorem laptop_identity_lost :
    laptop.pin "signal.example:443" "77c1" = some laptopPinned ∧
    load laptop.marshal = some (laptop, laptopKey) ∧
    (loadOrCreate (.ok ()) (.ok freshKey)
      (laptopPinned.save.runFor FileOp.exec 1 (some laptop.marshal)).2).1
        = .ok ({ wgPrivateKey := Base64.encodeToString freshKey.val }, freshKey) ∧
    ¬Survives laptopKey laptop laptopPinned
      (loadOrCreate (.ok ()) (.ok freshKey)
        (laptopPinned.save.runFor FileOp.exec 1 (some laptop.marshal)).2).1 := by
  have hlost : (loadOrCreate (.ok ()) (.ok freshKey)
      (laptopPinned.save.runFor FileOp.exec 1 (some laptop.marshal)).2).1
        = .ok ({ wgPrivateKey := Base64.encodeToString freshKey.val }, freshKey) := rfl
  refine ⟨rfl, load_laptop, hlost, ?_⟩
  -- another key than the one that was lost
  rintro ⟨s, hs, -⟩
  rw [hlost] at hs
  simp only [Except.ok.injEq, Prod.mk.injEq] at hs
  exact absurd hs.2 (by decide)

end Blinex.Native.ClientState
