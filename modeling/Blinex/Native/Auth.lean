import Blinex.Native.GrpcHandlers

/-!
# `management/internal/auth` and `signal/internal/auth`: who accepts a token

Both servers have the same secret. The JWT library and HMAC are taken to accept exactly
the tokens that were signed with it, so a token is what its signature protects
(`Claims`), and what remains is what the two validators make of the claims. Times are
nanoseconds; `iat` and `exp` are whole seconds.
-/

namespace Blinex.Native.Management

/-- `auth.Manager`, its secret aside. -/
structure Manager where
  revoked : PMap String Int := PMap.empty

namespace Manager

/-- `NewManager`. -/
def new : Manager := {}

/-- `RevokeByWGKey`. -/
def revokeByWGKey (m : Manager) (now : Int) (wgPubKey : String) : Manager :=
  { revoked := m.revoked.set wgPubKey now }

/-- `ValidateToken` on a token with a good signature. -/
def validateToken (m : Manager) (now : Int) (token : Claims) : Except String Claims :=
  -- `ParseWithClaims` requires `now` to be before `exp`
  if ¬now < token.expiresAt then .error "token has invalid claims: token is expired"
  else
    match m.revoked token.wgPubKey with
    | some revokedAt =>
      if ¬revokedAt < token.issuedAt then .error "token has been revoked" else .ok token
    | none => .ok token

end Manager

/-- `Time.Unix`. -/
def unix (t : Int) : Int := t / 1000000000

/-- The signal server's `ValidateHS256` on a token with a good signature. -/
def validateHS256 (now : Int) (token : Claims) : Except String String :=
  if 0 < unix token.expiresAt ∧ unix token.expiresAt < unix now then .error "JWT expired"
  else if token.wgPubKey = "" then .error "missing wg_pub_key claim"
  else .ok token.wgPubKey

end Blinex.Native.Management
