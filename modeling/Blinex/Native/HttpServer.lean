import Blinex.Native.GrpcHandlers

/-!
# `management/internal/httpserver`: the REST API

Every handler is a program over the shared state, from the point where the
middleware has put the claims into the context. A request body is what the JSON
decoder makes of it: an error text or the decoded fields. `notify`, `connected` and
`releaseIP` are the functions that `main` passes, none of them nil.
-/

namespace Blinex.Native.Management

open Blinex.Go

/-! ## Requests and responses -/

/-- The text of an error: plain, or `fmt.Sprintf` with one `%q` argument. -/
inductive ErrorText where
  | plain (s : String)
  | quoted (before arg after : String)
deriving DecidableEq

/-- The JSON of a response. -/
inductive Body where
  | none
  | error (e : ErrorText)
  | bare (p : Domain.Peer)
  | peer (p : Domain.Peer)
  | peers (ps : List (Domain.Peer × Bool))
  | group (g : Domain.Group)
  | groups (gs : List (Domain.Group × Nat))
  | setupKey (sk : Domain.SetupKey)
  | setupKeys (sks : List Domain.SetupKey)
  | rule (r : Domain.Rule)
  | rules (rs : List Domain.Rule)
deriving DecidableEq

/-- A status code with what is written after it. -/
structure Response where
  status : Nat
  body : Body := .none
deriving DecidableEq

/-- A 2xx status. -/
def Response.success (r : Response) : Bool := 200 ≤ r.status && r.status < 300

/-- `c.JSON(status, gin.H{"error": text})`. -/
def fail (status : Nat) (text : String) : Response := ⟨status, .error (.plain text)⟩

/-- The answer to a failed store call. -/
def internalError : Response := fail 500 "internal server error"

/-- `ShouldBindJSON`: the decoder, then the `required` tags. -/
def bindJSON {α : Type} (body : Except String α) (required : α → List (String × String)) :
    Except String α :=
  match body with
  | .error e => .error e
  | .ok req =>
    match (required req).filter (·.2 == "") with
    | [] => .ok req
    | missing => .error (String.intercalate "\n" (missing.map fun field =>
        "Key: '" ++ field.1 ++ "' Error:Field validation for '" ++ field.1 ++
          "' failed on the 'required' tag"))

/-! ## Validation -/

/-- `validGroupNameRe`, first character. -/
def isAlnum (c : Char) : Bool :=
  ('A' ≤ c && c ≤ 'Z') || ('a' ≤ c && c ≤ 'z') || ('0' ≤ c && c ≤ '9')

/-- `isValidGroupName`. -/
def isValidGroupName (g : String) : Bool :=
  0 < Strings.byteLen g && Strings.byteLen g ≤ 64 &&
    match g.toList with
    | [] => false
    | c :: cs => isAlnum c && cs.all fun c => isAlnum c || c == '_' || c == '-'

/-- The first group name that is not valid. -/
def invalidGroup (groups : List String) : Option Response :=
  (groups.find? (!isValidGroupName ·)).map fun g =>
    ⟨400, .error (.quoted "invalid group " g
      ": must be alphanumeric, hyphens, or underscores")⟩

/-- `ensureDefaultGroup`. -/
def ensureDefaultGroup (groups : List String) : List String :=
  if Domain.defaultGroupName ∈ groups then groups else Domain.defaultGroupName :: groups

/-- The body of the loop of `validateRuleFields`. -/
def validateHost (label val : String) : Option String :=
  if val = "*" then none
  else if Strings.hasPrefix val "group:" then
    if Strings.byteLen val ≤ 6 then some (label ++ " group name cannot be empty") else none
  else if (Net.parseIP val).isNone && (Net.parseCIDR val).isNone then
    some (label ++ " must be '*', 'group:<name>', a valid IP, or a CIDR")
  else none

/-- `var validProtocols`. -/
def validProtocols : List String := ["tcp", "udp", "icmp", "all"]

/-- `validateRuleFields`. -/
def validateRuleFields (srcFirst : Bool) (src dst protocol : String) (port : Int) :
    Option String :=
  let fields := if srcFirst then [("src", src), ("dst", dst)] else [("dst", dst), ("src", src)]
  match fields.findSome? fun field => validateHost field.1 field.2 with
  | some e => some e
  | none =>
    if Strings.toLower protocol ∉ validProtocols then
      some "protocol must be one of: tcp, udp, icmp, all"
    else if port < 0 ∨ 65535 < port then some "port must be 0–65535"
    else none

/-- The overlap check of `setPeerRoutes`. -/
def conflictsWithMesh (cidr : Prefix) : Bool :=
  match Net.parseCIDR "100.64.0.0/10" with
  | none => false
  | some meshNet => Net.contains meshNet cidr.addr.as16 || Net.contains cidr meshNet.addr.as16

/-- The body of the loop of `setPeerRoutes`. -/
def validateRoute (r : String) : Option String :=
  if r = "0.0.0.0/0" ∨ r = "::/0" then none
  else
    match Net.parseCIDR r with
    | none => some ("invalid CIDR: " ++ r)
    | some cidr =>
      if conflictsWithMesh cidr then
        some ("route " ++ r ++ " conflicts with mesh CIDR 100.64.0.0/10")
      else none

/-! ## Peers -/

/-- `listPeers`. -/
def listPeers (env : Env) (claims : Claims) : M Response := do
  let .ok peers ← Call.getPeersByAccount claims.accountID env.orders.peers (env.fails 0)
    | return internalError
  let conn ← Call.connectedKeys
  return ⟨200, .peers (peers.map fun p => (p, conn p.wgPubKey))⟩

/-- The body of `PUT /peers/:key`. -/
structure UpdatePeerRequest where
  groups : List String := []
  hostname : Option String := none

/-- `updatePeer` from `SavePeer` on. -/
def finishUpdatePeer (env : Env) (claims : Claims) (peer : Domain.Peer) : M Response := do
  let .ok _ ← Call.savePeer peer (env.fails 0) | return internalError
  Call.notifyAll claims.accountID
  return ⟨200, .bare peer⟩

/-- `updatePeer`. -/
def updatePeer (env : Env) (claims : Claims) (key : String)
    (body : Except String UpdatePeerRequest) : M Response := do
  let .ok peer ← Call.getPeer key | return fail 404 "peer not found"
  if peer.accountID ≠ claims.accountID then return fail 403 "forbidden"
  match body with
  | .error e => return fail 400 e
  | .ok req =>
    if let some r := invalidGroup req.groups then return r
    let peer := { peer with groups := ensureDefaultGroup req.groups }
    -- assigned before the hostname is checked
    Call.assignPeer peer
    match req.hostname with
    | none => finishUpdatePeer env claims peer
    | some hostname =>
      let name := Strings.trimSpace hostname
      if name = "" ∨ 63 < Strings.byteLen name then
        return fail 400 "hostname must be 1-63 characters"
      finishUpdatePeer env claims
        { peer with hostname := name, dnsLabel := Domain.toDNSLabel (env.uuid 0) name }

/-- `deletePeer`. -/
def deletePeer (env : Env) (claims : Claims) (key : String) : M Response := do
  let .ok peer ← Call.getPeer key | return fail 404 "peer not found"
  if peer.accountID ≠ claims.accountID then return fail 403 "forbidden"
  let .ok _ ← Call.deletePeer key (env.fails 0) | return internalError
  Call.revokeByWGKey key (env.now 0)
  Call.releaseIP key
  return ⟨204, .none⟩

/-- What `setPeerExitNode` and `setPeerRoutes` end with. -/
def saveAndNotify (env : Env) (peer : Domain.Peer) : M Response := do
  let .ok _ ← Call.savePeer peer (env.fails 0) | return internalError
  Call.notifyAll peer.accountID
  return ⟨200, .peer peer⟩

/-- `setPeerExitNode`. -/
def setPeerExitNode (env : Env) (claims : Claims) (key : String) (body : Except String String) :
    M Response := do
  match body with
  | .error e => return fail 400 e
  | .ok exitNode =>
    let .ok peer ← Call.getPeer key | return fail 404 "peer not found"
    if peer.accountID ≠ claims.accountID then return fail 403 "forbidden"
    -- a peer may not route through itself, but it may stop using an exit node
    if exitNode = key then return fail 400 "a peer cannot use itself as an exit node"
    if exitNode = "" then saveAndNotify env { peer with exitNode }
    else
      -- a gateway of another account is reported as one that does not exist
      let .ok gw ← Call.getPeer exitNode | return fail 400 "exit node peer not found"
      if gw.accountID ≠ claims.accountID then return fail 400 "exit node peer not found"
      if "0.0.0.0/0" ∉ gw.advertisedRoutes then
        return fail 400 "that peer does not advertise 0.0.0.0/0, so it is not offering an exit node"
      saveAndNotify env { peer with exitNode }

/-- `setPeerRoutes`. -/
def setPeerRoutes (env : Env) (claims : Claims) (key : String)
    (body : Except String (List String)) : M Response := do
  match body with
  | .error e => return fail 400 e
  | .ok routes =>
    if let some e := routes.findSome? validateRoute then return fail 400 e
    let .ok peer ← Call.getPeer key | return fail 404 "peer not found"
    if peer.accountID ≠ claims.accountID then return fail 403 "forbidden"
    saveAndNotify env { peer with advertisedRoutes := routes }

/-! ## Groups -/

/-- The loop of `listGroups` over the peers, for one group name. -/
def peerCount (peers : List Domain.Peer) (name : String) : Nat :=
  (peers.map fun p => p.groups.count name).sum

/-- `listGroups`. -/
def listGroups (env : Env) (claims : Claims) : M Response := do
  let .ok groups ← Call.getGroupsByAccount claims.accountID env.orders.groups (env.fails 0)
    | return internalError
  let .ok peers ← Call.getPeersByAccount claims.accountID env.orders.peers (env.fails 1)
    | return internalError
  return ⟨200, .groups (groups.map fun g => (g, peerCount peers g.name))⟩

/-- `createGroup`; the body is the name. -/
def createGroup (env : Env) (claims : Claims) (body : Except String String) : M Response := do
  match bindJSON body (fun name => [("Name", name)]) with
  | .error e => return fail 400 e
  | .ok name =>
    if !isValidGroupName name then
      return fail 400 "group name must be alphanumeric, hyphens, or underscores"
    -- names are compared within the account, and no lock is held until the group is written
    let .ok existing ← Call.getGroupsByAccount claims.accountID env.orders.groups (env.fails 0)
      | return internalError
    if existing.any (·.name == name) then
      return fail 409 "a group with that name already exists"
    let g : Domain.Group :=
      { id := env.uuid 0, accountID := claims.accountID, name, createdAt := env.now 0 }
    let .ok _ ← Call.createGroup g (env.fails 1) | return internalError
    return ⟨201, .group g⟩

/-- `deleteGroup`. -/
def deleteGroup (env : Env) (claims : Claims) (id : String) : M Response := do
  let .ok groups ← Call.getGroupsByAccount claims.accountID env.orders.groups (env.fails 0)
    | return internalError
  if groups.any fun g => g.id == id && g.name == Domain.defaultGroupName then
    return fail 400 "the Default group can't be deleted"
  match ← Call.deleteGroup claims.accountID id (env.fails 1) with
  | .error e => return fail 404 e
  | .ok _ => return ⟨204, .none⟩

/-! ## Setup keys -/

/-- `listSetupKeys`. -/
def listSetupKeys (env : Env) (claims : Claims) : M Response := do
  let .ok keys ← Call.getSetupKeysByAccount claims.accountID env.orders.setupKeys (env.fails 0)
    | return internalError
  return ⟨200, .setupKeys keys⟩

/-- The body of `POST /setup-keys`. -/
structure CreateSetupKeyRequest where
  name : String
  ephemeral : Bool := false
  expiresIn : Int := 0
  autoGroups : List String := []

/-- The key that `createSetupKey` stores. -/
def newSetupKey (env : Env) (accountID : String) (req : CreateSetupKeyRequest) :
    Domain.SetupKey :=
  let expiresIn := if req.expiresIn ≤ 0 ∨ 365 < req.expiresIn then 365 else req.expiresIn
  { id := env.uuid 0
    accountID
    key := env.uuid 1
    name := req.name
    ephemeral := req.ephemeral
    autoGroups := req.autoGroups
    expiresAt := env.now 0 + expiresIn * 24 * 3600 * 1000000000
    createdAt := env.now 1 }

/-- `createSetupKey`. -/
def createSetupKey (env : Env) (claims : Claims) (body : Except String CreateSetupKeyRequest) :
    M Response := do
  match bindJSON body (fun req => [("Name", req.name)]) with
  | .error e => return fail 400 e
  | .ok req =>
    if let some r := invalidGroup req.autoGroups then return r
    let sk := newSetupKey env claims.accountID req
    let .ok _ ← Call.createSetupKey sk (env.fails 0) | return internalError
    return ⟨201, .setupKey sk⟩

/-- `deleteSetupKey`. -/
def deleteSetupKey (env : Env) (claims : Claims) (id : String) : M Response := do
  match ← Call.deleteSetupKey claims.accountID id env.orders.setupKeys (env.fails 0) with
  | .error e => return fail 404 e
  | .ok _ => return ⟨204, .none⟩

/-! ## Rules -/

/-- `listRules`. -/
def listRules (env : Env) (claims : Claims) : M Response := do
  let .ok rules ← Call.getRulesByAccount claims.accountID env.orders.rules (env.fails 0)
    | return internalError
  return ⟨200, .rules rules⟩

/-- The body of `POST /rules`. -/
structure CreateRuleRequest where
  name : String
  src : String
  dst : String
  protocol : String
  port : Int := 0
  action : String
  enabled : Bool := false
  priority : Int := 0

/-- The `required` tags of `createRule`. -/
def CreateRuleRequest.required (req : CreateRuleRequest) : List (String × String) :=
  [("Name", req.name), ("Src", req.src), ("Dst", req.dst), ("Protocol", req.protocol),
    ("Action", req.action)]

/-- The rule that `createRule` stores. -/
def newRule (env : Env) (accountID : String) (req : CreateRuleRequest) : Domain.Rule :=
  { id := env.uuid 0
    accountID
    name := req.name
    src := req.src
    dst := req.dst
    protocol := req.protocol
    port := req.port
    action := req.action
    enabled := req.enabled
    priority := req.priority
    createdAt := env.now 0 }

/-- `createRule`. -/
def createRule (env : Env) (claims : Claims) (body : Except String CreateRuleRequest) :
    M Response := do
  match bindJSON body CreateRuleRequest.required with
  | .error e => return fail 400 e
  | .ok req =>
    -- the action is checked before the other fields, and the first failure is reported
    if req.action ≠ "allow" ∧ req.action ≠ "deny" then
      return fail 400 "action must be 'allow' or 'deny'"
    if let some e := validateRuleFields env.srcFirst req.src req.dst req.protocol req.port then
      return fail 400 e
    let rule := newRule env claims.accountID req
    let .ok _ ← Call.saveRule rule (env.fails 0) | return internalError
    Call.notifyAll claims.accountID
    return ⟨201, .rule rule⟩

/-- The body of `PUT /rules/:id`; an absent field is left alone. -/
structure UpdateRuleRequest where
  name : Option String := none
  src : Option String := none
  dst : Option String := none
  protocol : Option String := none
  port : Option Int := none
  action : Option String := none
  enabled : Option Bool := none
  priority : Option Int := none

/-- The assignments of `updateRule`. -/
def applyUpdate (existing : Domain.Rule) (req : UpdateRuleRequest) : Domain.Rule :=
  { existing with
    name := req.name.getD existing.name
    src := req.src.getD existing.src
    dst := req.dst.getD existing.dst
    protocol := req.protocol.getD existing.protocol
    port := req.port.getD existing.port
    action := req.action.getD existing.action
    enabled := req.enabled.getD existing.enabled
    priority := req.priority.getD existing.priority }

/-- `updateRule`. -/
def updateRule (env : Env) (claims : Claims) (id : String)
    (body : Except String UpdateRuleRequest) : M Response := do
  -- the rule is looked for in the account before the body is read
  let .ok rules ← Call.getRulesByAccount claims.accountID env.orders.rules (env.fails 0)
    | return internalError
  match rules.find? (·.id == id) with
  | none => return fail 404 "rule not found"
  | some existing =>
    match body with
    | .error e => return fail 400 e
    | .ok req =>
      if req.action.any fun a => a ≠ "allow" ∧ a ≠ "deny" then
        return fail 400 "action must be 'allow' or 'deny'"
      -- the fields are checked as they will be stored, not as they were sent
      let rule := applyUpdate existing req
      if let some e :=
          validateRuleFields env.srcFirst rule.src rule.dst rule.protocol rule.port then
        return fail 400 e
      let .ok _ ← Call.saveRule rule (env.fails 1) | return internalError
      Call.notifyAll claims.accountID
      return ⟨200, .rule rule⟩

/-- `deleteRule`. -/
def deleteRule (env : Env) (claims : Claims) (id : String) : M Response := do
  match ← Call.deleteRule claims.accountID id (env.fails 0) with
  | .error e => return fail 404 e
  | .ok _ =>
    Call.notifyAll claims.accountID
    return ⟨204, .none⟩

/-! ## Routes -/

/-- The authenticated routes of `registerRoutes`. -/
inductive RestRequest where
  | listPeers
  | updatePeer (key : String) (body : Except String UpdatePeerRequest)
  | deletePeer (key : String)
  | setPeerRoutes (key : String) (body : Except String (List String))
  | setPeerExitNode (key : String) (body : Except String String)
  | listGroups
  | createGroup (body : Except String String)
  | deleteGroup (id : String)
  | listSetupKeys
  | createSetupKey (body : Except String CreateSetupKeyRequest)
  | deleteSetupKey (id : String)
  | listRules
  | createRule (body : Except String CreateRuleRequest)
  | updateRule (id : String) (body : Except String UpdateRuleRequest)
  | deleteRule (id : String)

/-- The routes in the group without `adminOnly`. -/
def RestRequest.forAll : RestRequest → Bool
  | .listPeers | .listGroups | .listRules => true
  | _ => false

/-- The handler of a route. -/
def route (env : Env) (claims : Claims) : RestRequest → M Response
  | .listPeers => Management.listPeers env claims
  | .updatePeer key body => Management.updatePeer env claims key body
  | .deletePeer key => Management.deletePeer env claims key
  | .setPeerRoutes key body => Management.setPeerRoutes env claims key body
  | .setPeerExitNode key body => Management.setPeerExitNode env claims key body
  | .listGroups => Management.listGroups env claims
  | .createGroup body => Management.createGroup env claims body
  | .deleteGroup id => Management.deleteGroup env claims id
  | .listSetupKeys => Management.listSetupKeys env claims
  | .createSetupKey body => Management.createSetupKey env claims body
  | .deleteSetupKey id => Management.deleteSetupKey env claims id
  | .listRules => Management.listRules env claims
  | .createRule body => Management.createRule env claims body
  | .updateRule id body => Management.updateRule env claims id body
  | .deleteRule id => Management.deleteRule env claims id

/-- A request with its claims: `adminOnly`, then the handler. -/
def serveREST (env : Env) (claims : Claims) (req : RestRequest) : M Response :=
  if !req.forAll && claims.role ≠ "admin" then return fail 403 "admin access required"
  else route env claims req

end Blinex.Native.Management
