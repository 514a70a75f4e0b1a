import Blinex.Go.JsonInts
import Blinex.Go.Strings
import Blinex.Native.Auth
import Blinex.Native.ClientState
import Blinex.Native.SignalServer

/-!
# `signal/internal/auth`: tokens as text

The management server writes a token with the JWT library; the signal server has its own reader,
`ValidateHS256`. The library is a parameter, with what is assumed of it in `JwtLib.Lawful`;
HMAC-SHA256 is any function `hmac` of the secret and the signed text, and `jsonError` is the text
of the errors of `json.Unmarshal`. A `String` stands for its bytes.
-/

namespace Blinex.Native

open Blinex.Go

variable (hmac : String → String → List UInt8)

/-! ## What the management server issues -/

/-- `github.com/golang-jwt/jwt/v5`: the members that `RegisteredClaims` adds to the JSON of the
    claims, and for that JSON the text that is signed, `Token.SigningString`, and the token,
    `Token.SignedString`. -/
structure JwtLib where
  registered : (issuedAt expiresAt : Int) → List (String × List UInt8)
  signingString : (claims : List UInt8) → String
  signedString : (secret : String) → (claims : List UInt8) → String

/-- What is assumed of the library: dates are whole seconds and dates that are not set are left
    out; header and claims are in base64url, joined by a dot; the signature is the HMAC of this
    text, joined to it in the same way. -/
structure JwtLib.Lawful (jwt : JwtLib) : Prop where
  registered : ∀ issuedAt expiresAt, jwt.registered issuedAt expiresAt =
    [("exp", Json.int (Management.unix expiresAt)), ("iat", Json.int (Management.unix issuedAt))]
  signingString : ∃ header, ∀ claims, jwt.signingString claims =
    Base64.RawURL.encodeToString header ++ "." ++ Base64.RawURL.encodeToString claims
  signedString : ∀ secret claims, jwt.signedString secret claims =
    jwt.signingString claims ++ "." ++
      Base64.RawURL.encodeToString (hmac secret (jwt.signingString claims))

namespace Management

/-- `json.Marshal` of `auth.Claims`: the fields of the embedded `RegisteredClaims` come last. -/
def Claims.marshal (jwt : JwtLib) (c : Claims) : List UInt8 :=
  Json.object
    ([("peer_id", Json.quote c.peerID), ("wg_pub_key", Json.quote c.wgPubKey),
      ("account_id", Json.quote c.accountID), ("role", Json.quote c.role)] ++
      jwt.registered c.issuedAt c.expiresAt)

/-- What is signed for the claims. -/
def Claims.signingString (jwt : JwtLib) (c : Claims) : String := jwt.signingString (c.marshal jwt)

/-- The token that `IssueToken` and `IssueAdminToken` return for their claims. -/
def Claims.signedString (jwt : JwtLib) (secret : String) (c : Claims) : String :=
  jwt.signedString secret (c.marshal jwt)

end Management

/-! ## What the signal server reads -/

namespace Signal

open Management (unix)

/-- The claims that `ValidateHS256` decodes. -/
structure TokenClaims where
  wgPubKey : String := ""
  expiresAt : Int := 0
deriving DecidableEq

/-- One member of the claims, with the text of its value; unknown ones are skipped. -/
def TokenClaims.setField (c : TokenClaims) (member : List UInt8 × Json.Value × List UInt8) :
    Option TokenClaims := do
  let key ← Json.unquote member.1
  if ClientState.fieldIs "wg_pub_key" key then
    let wgPubKey ← ClientState.setString member.2.1 c.wgPubKey
    return { c with wgPubKey }
  else if ClientState.fieldIs "exp" key then
    let expiresAt ← Json.setInt64 member.2.1 member.2.2 c.expiresAt
    return { c with expiresAt }
  else return c

/-- `json.Unmarshal` into new claims; `none` is an error, of the text or of a type in it. -/
def TokenClaims.unmarshal (data : List UInt8) : Option TokenClaims :=
  match Json.textObject data with
  | some (members, rest) => if rest.all Json.isSpace then members.foldlM setField {} else none
  | none =>
    match Json.parse data with
    | some .null => some {}
    | _ => none

variable (jsonError : List UInt8 → String)

/-- The checks of `ValidateHS256` on the decoded claims. -/
def TokenClaims.check (c : TokenClaims) (now : Int) : Except String String :=
  if 0 < c.expiresAt ∧ c.expiresAt < unix now then .error "JWT expired"
  else if c.wgPubKey = "" then .error "missing wg_pub_key claim"
  else .ok c.wgPubKey

/-- `ValidateHS256`. -/
def validateHS256 (now : Int) (tokenStr secret : String) : Except String String :=
  match Strings.split tokenStr '.' with
  | [header, payload, signature] =>
    match Base64.RawURL.decodeString signature with
    | none => .error "invalid JWT signature"
    | some sig =>
      -- the signature is checked over the first two segments as they were sent
      if hmac secret (header ++ "." ++ payload) ≠ sig then .error "JWT signature invalid"
      else
        match Base64.RawURL.decodeString payload with
        | none => .error "invalid JWT claims"
        | some claimsJSON =>
          match TokenClaims.unmarshal claimsJSON with
          | none => .error ("parsing JWT claims: " ++ jsonError claimsJSON)
          | some claims => claims.check now
  | _ => .error "invalid JWT format"

/-- `tok = tok[7:]` after `bearer `, in any case of its letters. -/
def trimBearer (tok : String) : String :=
  if 7 < Strings.byteLen tok ∧ (tok.toList.take 7).map ClientState.foldRune = "bearer ".toList then
    String.ofList (tok.toList.drop 7)
  else tok

/-- `StreamInterceptor`: the key for the handler's context, or the message of the `Unauthenticated`
    status. `md` has the values of `authorization`, `none` without metadata. -/
def streamInterceptor (secret : String) (now : Int) (md : Option (List String)) :
    Except String String :=
  match md with
  | none => .error "missing metadata"
  | some [] => .error "authorization required"
  | some (tok :: _) =>
    match validateHS256 hmac jsonError now (trimBearer tok) secret with
    | .error _ => .error "invalid token"
    | .ok key => .ok key

/-- What the signal client attaches for a token. -/
def bearer (token : String) : Option (List String) := some ["Bearer " ++ token]

/-! ## The server behind the interceptor -/

/-- A call with its metadata at some time of the wall clock, or what a server does with the streams
    it has. -/
inductive GuardedEvent where
  | call (id : StreamId) (now : Int) (md : Option (List String))
  | act (id : StreamId) (a : Action)
  | tick (d : Nat)

/-- One event of an interleaving; a call that is refused leaves no trace. -/
def guardedStep (secret : String) (s : State) : GuardedEvent → Option State
  | .call id now md =>
    match streamInterceptor hmac jsonError secret now md with
    | .error _ => some s
    | .ok key => step s (.open id (some key))
  | .act id a => step s (.act id a)
  | .tick d => step s (.tick d)

end Signal

end Blinex.Native
