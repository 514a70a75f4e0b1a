import Blinex.Go.Base64
import Blinex.Native.GrpcHandlers
import Blinex.Native.Resolver
import Mathlib.Data.String.Basic

/-!
# The malicious-domain feed

`management/internal/blocklist` compiles a feed and keeps the last good list
with its version; `GetBlocklist` serves it; `pollBlocklist` of the client engine
installs a list whose version it does not have yet.

The feed is text, so it is valid UTF-8. SHA-256 is a parameter of the server. The
order in which `parse` walks over its map is an argument of it, as the Go runtime
picks it anew each time.
-/

namespace Blinex.Native.Blocklist

open Blinex.Go
open Blinex.Native.Management (Ctx Status)

/-! ## `management/internal/blocklist` -/

/-- An order in which `range` walks over the keys of a map. -/
structure MapOrder where
  keys : Finset String → List String
  nodup : ∀ s, (keys s).Nodup
  mem_keys : ∀ s d, d ∈ keys s ↔ d ∈ s

/-- The body of the loop of `parse`: the domain that a line adds to `seen`. -/
def parseLine (text : String) : Option String :=
  let line := Strings.trimSpace text
  if line = "" ∨ Strings.hasPrefix line "#" = true then none
  else
    match Strings.fields line with
    -- `fields[0]` does not panic: a line that is not blank has a field.
    | [] => none
    | first :: rest =>
      let domain :=
        match rest with
        -- In a hosts file the address comes first.
        | second :: _ => if first = "0.0.0.0" ∨ first = "127.0.0.1" then second else first
        | [] => first
      let domain := Strings.toLower (Strings.trimSuffix domain ".")
      if domain = "" ∨ domain = "localhost" then none else some domain

/-- The largest buffer that `parse` gives its scanner. -/
def maxLine : Nat := 1024 * 1024

/-- `parse`. -/
def parse (order : MapOrder) (feed : String) : Except String (List String) :=
  match Bufio.scanLines maxLine feed with
  | none => .error "reading feed: bufio.Scanner: token too long"
  | some lines => .ok (order.keys (lines.filterMap parseLine).toFinset)

/-- `fetch`: `resp` is the error of building or sending the request, or the
    status and the body of the response. -/
def fetch (order : MapOrder) (resp : Except String (Nat × String)) :
    Except String (List String) :=
  match resp with
  | .error err => .error err
  | .ok (status, body) =>
    if status ≠ 200 then .error ("feed returned status " ++ toString status)
    else parse order body

/-- What `hashDomains` writes to the hash. -/
def hashInput (domains : List String) : String :=
  String.ofList ((domains.mergeSort fun a b => a ≤ b).flatMap fun d => d.toList ++ ['\n'])

/-- `hashDomains`. -/
def hashDomains (sha256 : String → Vector UInt8 32) (domains : List String) : String :=
  Hex.encodeToString (sha256 (hashInput domains)).toList

/-- `blocklist.Store`; its initial value is that of `NewStore`. -/
structure Store where
  domains : List String := []
  version : String := ""
deriving DecidableEq

/-- `Store.refresh`. -/
def Store.refresh (sha256 : String → Vector UInt8 32) (order : MapOrder)
    (resp : Except String (Nat × String)) (s : Store) : Store :=
  match fetch order resp with
  | .error _ => s
  | .ok domains => { domains, version := hashDomains sha256 domains }

/-! ## `GetBlocklist` -/

/-- `managementv1.GetBlocklistResponse`. -/
structure GetBlocklistResponse where
  version : String := ""
  domains : List String := []
  notModified : Bool := false
deriving DecidableEq

/-- `GetBlocklist`; a nil `Server.blocklist` is `none`. -/
def getBlocklist (blocklist : Option Store) (ctx : Ctx) (wgPubKey knownVersion : String) :
    Except Status GetBlocklistResponse :=
  if wgPubKey = "" then .error ⟨.invalidArgument, "wg_pub_key is required"⟩
  else if !ctx.matches wgPubKey then
    .error ⟨.permissionDenied, "wg_pub_key does not match token"⟩
  else
    match blocklist with
    | none => .ok { notModified := knownVersion ≠ "" }
    | some s =>
      -- No feed has been fetched since the server started.
      if s.version = "" then .ok { notModified := knownVersion ≠ "" }
      else if knownVersion ≠ "" ∧ knownVersion = s.version then
        .ok { version := s.version, notModified := true }
      else .ok { version := s.version, domains := s.domains }

/-! ## `pollBlocklist` -/

/-- The agent's side: `knownVersion`, and `blocked` of its resolver. -/
structure Poller where
  knownVersion : String := ""
  blocked : Finset String := ∅
deriving DecidableEq

/-- The closure `fetch` of `pollBlocklist`, on the answer of the call. -/
def Poller.fetch {ε : Type} (answer : Except ε GetBlocklistResponse) (p : Poller) : Poller :=
  match answer with
  | .error _ => p
  | .ok resp =>
    if resp.notModified = true ∨ resp.version = "" then p
    else { knownVersion := resp.version, blocked := setBlocklist resp.domains }

end Blinex.Native.Blocklist
