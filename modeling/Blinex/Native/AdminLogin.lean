import Blinex.Native.HttpServer

/-!
# `POST /auth/login`: the admin password

`adminLogin` reads the attempts of the client's address in one critical section and charges a
failed one in another; what it does in between holds no lock. Requests and the ticker that
resets the attempts are programs over the operations below.
-/

namespace Blinex.Native.Management

/-- The fields of `Server` that the login reads. -/
structure AdminConfig where
  adminUser : String
  adminPassword : String

/-- The body of `POST /auth/login`. -/
structure AdminCredentials where
  username : String
  password : String
deriving DecidableEq

/-- `userMatch && passMatch`. -/
def AdminConfig.accepts (cfg : AdminConfig) (creds : AdminCredentials) : Bool :=
  creds.username == cfg.adminUser && creds.password == cfg.adminPassword

/-- The steps of a login and of the ticker. -/
inductive LoginOp where
  | attempts (ip : String)
  | compare (ip : String) (creds : AdminCredentials)
  | charge (ip : String)
  | reset
deriving DecidableEq

/-- What a step returns. -/
@[reducible] def LoginOp.Res : LoginOp → Type
  | .attempts _ => Nat
  | .compare .. => Bool
  | .charge _ | .reset => Unit

/-- What the steps do to `loginAttempts`. -/
def LoginOp.exec (cfg : AdminConfig) :
    (o : LoginOp) → PMap String Nat → o.Res × PMap String Nat
  | .attempts ip, m => ((m ip).getD 0, m)
  | .compare _ creds, m => (cfg.accepts creds, m)
  | .charge ip, m => ((), m.set ip ((m ip).getD 0 + 1))
  | .reset, _ => ((), PMap.empty)

/-- What a program ends with; the ticker answers nobody. -/
inductive LoginOutcome where
  | refused (r : Response)
  | token (t : Claims)
  | ticked
deriving DecidableEq

/-- A request as the handler finds it: `c.ClientIP()`, the body as the JSON decoder leaves it,
    and what `IssueAdminToken` would find (the time, and an error of the signature). -/
structure AdminLoginCall where
  ip : String
  body : Except String AdminCredentials
  now : Int := 0
  signErr : Option String := none

/-- `Manager.IssueAdminToken`, without the error. -/
def issueAdminToken (now : Int) (accountID : String) : Claims :=
  { accountID, role := "admin", issuedAt := numericDate now,
    expiresAt := numericDate (now + 24 * 3600 * 1000000000) }

/-- The `required` tags of `adminLogin`. -/
def AdminCredentials.required (creds : AdminCredentials) : List (String × String) :=
  [("Username", creds.username), ("Password", creds.password)]

/-- `adminLogin` once the body is read. -/
def checkCredentials (call : AdminLoginCall) (creds : AdminCredentials) :
    Prog LoginOp.Res LoginOutcome := do
  let ok ← .op (.compare call.ip creds) .ret
  if !ok then
    .op (.charge call.ip) .ret
    return .refused (fail 401 "invalid credentials")
  match call.signErr with
  | some _ => return .refused (fail 500 "could not issue token")
  | none => return .token (issueAdminToken call.now "default")

/-- `adminLogin`. -/
def adminLogin (cfg : AdminConfig) (call : AdminLoginCall) : Prog LoginOp.Res LoginOutcome := do
  if cfg.adminPassword = "" then return .refused (fail 403 "admin login is not enabled")
  let count ← .op (.attempts call.ip) .ret
  if 10 ≤ count then return .refused (fail 429 "too many login attempts, try again later")
  match bindJSON call.body AdminCredentials.required with
  | .error e => return .refused (fail 400 e)
  | .ok creds => checkCredentials call creds

/-- One turn of the loop in `init`. -/
def resetAttempts : Prog LoginOp.Res LoginOutcome := do
  .op .reset .ret
  return .ticked

/-- What may run at the same time. -/
inductive LoginTask where
  | login (call : AdminLoginCall)
  | tick

/-- The program of a task. -/
def LoginTask.program (cfg : AdminConfig) : LoginTask → Prog LoginOp.Res LoginOutcome
  | .login call => adminLogin cfg call
  | .tick => resetAttempts

end Blinex.Native.Management
