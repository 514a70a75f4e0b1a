import Blinex.ForStd.Prog
import Blinex.Go.Json
import Mathlib.Data.Finmap
import Mathlib.Data.Finset.Sort
import Mathlib.Data.String.Basic

/-!
# `client/internal/state`: the agent's identity on disk

`State.Save` and `LoadOrCreate`, over the bytes of `state.json`. `Save` is a program over the
writes of `os.WriteFile`, so that it can be interrupted. The nil map of `ServerFingerprints` is the
empty one: it is read and written like it.
-/

namespace Blinex.Native.ClientState

open Blinex.Go

/-- `wgtypes.Key`. -/
abbrev Key := { b : List UInt8 // b.length = 32 }

/-- `State`; the map takes a server address to the SHA-256 of its certificate in hex. -/
structure State where
  wgPrivateKey : String := ""
  serverFingerprints : Finmap (fun _ : String => String) := ∅

/-- The branch of `VerifyPeerCertificate` in `makeTOFUConfig` that pins a server and saves: `none`
    if there is a pin already. -/
def State.pin (serverAddr fp : String) (st : State) : Option State :=
  match st.serverFingerprints.lookup serverAddr with
  | some _ => none
  | none => some { st with serverFingerprints := st.serverFingerprints.insert serverAddr fp }

/-! ## `json.Marshal` -/

/-- The pins in the order in which `Marshal` writes a map. -/
def State.pins (s : State) : List (String × String) :=
  (s.serverFingerprints.keys.sort (· ≤ ·)).map fun addr =>
    (addr, (s.serverFingerprints.lookup addr).getD "")

/-- `json.Marshal` of a `State`: `omitempty` leaves out a map without entries. -/
def State.marshal (s : State) : List UInt8 :=
  Json.object (("wg_private_key", Json.quote s.wgPrivateKey) ::
    if s.pins = [] then []
    else [("server_fingerprints",
      Json.object (s.pins.map fun (addr, fp) => (addr, Json.quote fp)))])

/-! ## `json.Unmarshal` -/

/-- `foldName`, for comparison with a name in lower case: the Kelvin sign and the long s fold to
    ASCII letters. -/
def foldRune (c : Char) : Char :=
  if 'A' ≤ c ∧ c ≤ 'Z' then Char.ofNat (c.toNat + 32)
  else if c = '\u212A' then 'k'
  else if c = '\u017F' then 's'
  else c

/-- A key of the object is that of the field. -/
def fieldIs (name key : String) : Bool := key.toList.map foldRune = name.toList

/-- A value for a string: `null` leaves it as it is. -/
def setString (v : Json.Value) (old : String) : Option String :=
  match v with
  | .str lit => Json.unquote lit
  | .null => some old
  | _ => none

/-- One entry of the map: its value starts out empty. -/
def setPin (m : Finmap (fun _ : String => String)) (entry : List UInt8 × Json.Value) :
    Option (Finmap fun _ : String => String) := do
  let addr ← Json.unquote entry.1
  let fp ← setString entry.2 ""
  return m.insert addr fp

/-- A value for the map: an object adds its entries, `null` empties it. -/
def setPins (v : Json.Value) (m : Finmap fun _ : String => String) :
    Option (Finmap fun _ : String => String) :=
  match v with
  | .obj entries => entries.foldlM setPin m
  | .null => some ∅
  | _ => none

/-- One member of the object; unknown ones are skipped. -/
def setField (s : State) (member : List UInt8 × Json.Value) : Option State := do
  let key ← Json.unquote member.1
  if fieldIs "wg_private_key" key then
    let wgPrivateKey ← setString member.2 s.wgPrivateKey
    return { s with wgPrivateKey }
  else if fieldIs "server_fingerprints" key then
    let serverFingerprints ← setPins member.2 s.serverFingerprints
    return { s with serverFingerprints }
  else return s

/-- `json.Unmarshal` into a new `State`; `none` is an error, of the text or of a type in it. -/
def unmarshal (data : List UInt8) : Option State :=
  match Json.parse data with
  | some (.obj members) => members.foldlM setField {}
  | some .null => some {}
  | _ => none

/-! ## `Save` and `LoadOrCreate` -/

/-- The steps of `os.WriteFile`: the file is opened empty, and then grows. -/
inductive FileOp where
  | truncate
  | append (b : UInt8)

/-- What a step does to `state.json`. -/
def FileOp.exec : (o : FileOp) → Option (List UInt8) → Unit × Option (List UInt8)
  | .truncate, _ => ((), some [])
  | .append b, file => ((), file.map (· ++ [b]))

/-- Writes the bytes one after another. -/
def appendAll : List UInt8 → Prog (fun _ : FileOp => Unit) Unit
  | [] => .ret ()
  | b :: data => .op (.append b) fun _ => appendAll data

/-- `os.WriteFile`. -/
def writeFile (data : List UInt8) : Prog (fun _ : FileOp => Unit) Unit :=
  .op .truncate fun _ => appendAll data

/-- `State.Save`. -/
def State.save (s : State) : Prog (fun _ : FileOp => Unit) Unit := writeFile s.marshal

/-- The state that is used if it can be: its key has to decode to 32 bytes. -/
def load (data : List UInt8) : Option (State × Key) := do
  let s ← unmarshal data
  let raw ← Base64.decodeString s.wgPrivateKey
  if h : raw.length = 32 then return (s, ⟨raw, h⟩) else none

/-- `LoadOrCreate`: what it returns, and `state.json` after it. `mkdir` and `generate` are the
    results of `MkdirAll` and `GeneratePrivateKey`. -/
def loadOrCreate (mkdir : Except String Unit) (generate : Except String Key)
    (file : Option (List UInt8)) : Except String (State × Key) × Option (List UInt8) :=
  match mkdir with
  | .error err => (.error ("creating state dir: " ++ err), file)
  | .ok _ =>
    match file.bind load with
    | some loaded => (.ok loaded, file)
    -- A file that is missing, cut off or of another shape is all the same here.
    | none =>
      match generate with
      | .error err => (.error ("generating key: " ++ err), file)
      | .ok privKey =>
        let s : State := { wgPrivateKey := Base64.encodeToString privKey.val }
        (.ok (s, privKey), (s.save.run FileOp.exec file).2)

end Blinex.Native.ClientState
