import Blinex.Go.Sha256
import Blinex.Native.AdminLogin
import Blinex.Native.SignalAuth
import Blinex.Spec.SignalDelivery

/-!
# Tokens between the two servers

The signal server reads back the claims that the management server signed, so its reading of a
token's text is `Management.validateHS256` on the claims. A text it accepts is, unless a signature
was forged, one that the management server signed; behind the interceptor, every message is passed
between two peers that showed such tokens.

The JWT library is assumed to be lawful (`JwtLib.Lawful`).

## Key results

- `streamInterceptor_signedString`: a token is accepted exactly as its claims are.
- `issued_tokens_across_servers`: a peer's token is accepted for a day, an administrator's never.
- `written_between_token_holders`: messages pass only between holders of peer tokens.
-/

namespace Blinex.Native

open Blinex.Go
open Management (Claims unix issueToken issueAdminToken)

/-- The expiry is an `int64` of seconds. -/
def Management.Claims.Representable (c : Claims) : Prop :=
  -2 ^ 63 ≤ unix c.expiresAt ∧ unix c.expiresAt < 2 ^ 63

namespace Signal

/-! ## The claims -/

/-- The signal server's part of the claims. -/
def TokenClaims.of (c : Claims) : TokenClaims := ⟨c.wgPubKey, unix c.expiresAt⟩

private theorem TokenClaims.check_of (c : Claims) (now : Int) :
    (TokenClaims.of c).check now = Management.validateHS256 now c := rfl

section SetField

variable (c : TokenClaims) (v : Json.Value) (text : List UInt8)

/-- The members of a token that the signal server skips. -/
private theorem TokenClaims.setField_other {key : String}
    (hkey : key ∈ ["peer_id", "account_id", "role", "iat"]) :
    c.setField (Json.quoteLit key, v, text) = some c := by
  have hother : ∀ key ∈ ["peer_id", "account_id", "role", "iat"],
      ClientState.fieldIs "wg_pub_key" key = false ∧ ClientState.fieldIs "exp" key = false := by
    decide
  obtain ⟨hkey, hexp⟩ := hother key hkey
  simp only [setField, Json.unquote_quoteLit, hkey, hexp, Option.bind_eq_bind, Option.bind_some,
    Bool.false_eq_true, if_false, Option.pure_def]

/-- The key is read from its own field. -/
private theorem TokenClaims.setField_wgPubKey (s : String) :
    c.setField (Json.quoteLit "wg_pub_key", .str (Json.quoteLit s), text)
      = some { c with wgPubKey := s } := by
  have hkey : ClientState.fieldIs "wg_pub_key" "wg_pub_key" = true := by decide
  simp only [setField, Json.unquote_quoteLit, hkey, ClientState.setString, Option.bind_eq_bind,
    Option.bind_some, if_true, Option.pure_def]

/-- The expiry is read as written, if it fits sixty-four bits. -/
private theorem TokenClaims.setField_exp {n : Int} (hlow : -2 ^ 63 ≤ n) (hhigh : n < 2 ^ 63) :
    c.setField (Json.quoteLit "exp", .num, Json.int n) = some { c with expiresAt := n } := by
  have hkey : ClientState.fieldIs "wg_pub_key" "exp" = false := by decide
  have hexp : ClientState.fieldIs "exp" "exp" = true := by decide
  simp only [setField, Json.unquote_quoteLit, hkey, hexp, Json.setInt64_int hlow hhigh,
    Option.bind_eq_bind, Option.bind_some, Bool.false_eq_true, if_false, if_true, Option.pure_def]

end SetField

variable {hmac : String → String → List UInt8} {jwt : JwtLib}

/-- The claims are read as they were written. -/
theorem TokenClaims.unmarshal_marshal (hjwt : jwt.Lawful hmac) {c : Claims}
    (hc : c.Representable) : TokenClaims.unmarshal (c.marshal jwt) = some (TokenClaims.of c) := by
  obtain ⟨items, hitems⟩ : ∃ items : List (String × List UInt8 × Json.Value), items =
      [("peer_id", Json.quote c.peerID, .str (Json.quoteLit c.peerID)),
        ("wg_pub_key", Json.quote c.wgPubKey, .str (Json.quoteLit c.wgPubKey)),
        ("account_id", Json.quote c.accountID, .str (Json.quoteLit c.accountID)),
        ("role", Json.quote c.role, .str (Json.quoteLit c.role)),
        ("exp", Json.int (unix c.expiresAt), .num), ("iat", Json.int (unix c.issuedAt), .num)] :=
    ⟨_, rfl⟩
  have htext : c.marshal jwt = Json.object (items.map fun it => (it.1, it.2.1)) := by
    rw [hitems, Claims.marshal, hjwt.registered]
    rfl
  -- every value is written as a member that the decoder reads back
  have hmembers : ∀ it ∈ items, Json.MemberText it.2.1 it.2.2 := by
    rw [hitems]
    simp only [List.forall_mem_cons, Json.memberText_quote, Json.memberText_int, List.not_mem_nil,
      false_imp_iff, implies_true, and_self]
  have hread := Json.textObject_written items (by simp [hitems]) hmembers []
  rw [List.append_nil, ← htext] at hread
  rw [unmarshal, hread]
  have hother (c : TokenClaims) (v : Json.Value) (text : List UInt8) (key : String)
      (hkey : key ∈ ["peer_id", "account_id", "role", "iat"]) :
      c.setField (Json.quoteLit key, v, text) = some c := setField_other c v text hkey
  simp only [List.all_nil, if_true, hitems, List.map_cons, List.map_nil, List.foldlM_cons,
    List.foldlM_nil, Option.bind_eq_bind, hother _ _ _ "peer_id" (by decide), setField_wgPubKey,
    hother _ _ _ "account_id" (by decide), hother _ _ _ "role" (by decide),
    setField_exp _ hc.1 hc.2, hother _ _ _ "iat" (by decide), Option.bind_some, Option.pure_def]
  rfl

/-! ## The text -/

variable {jsonError : List UInt8 → String} {secret tokenStr : String} {now : Int}

private theorem join_dot (s t : String) :
    Strings.join [s, t] (String.singleton '.') = s ++ "." ++ t := by
  rw [← String.toList_inj, Strings.join]
  simp

private theorem join_dots (s t u : String) :
    Strings.join [s, t, u] (String.singleton '.') = s ++ "." ++ t ++ "." ++ u := by
  rw [← String.toList_inj, Strings.join]
  simp

/-- The parts of a signed text are those it was made of. -/
private theorem payload_of_signingString (hjwt : jwt.Lawful hmac) {c : Claims}
    {header payload : String}
    (hheader : '.' ∉ header.toList) (hpayload : '.' ∉ payload.toList)
    (h : header ++ "." ++ payload = c.signingString jwt) :
    payload = Base64.RawURL.encodeToString (c.marshal jwt) := by
  -- the encoding has no dots, so the split finds the parts again
  obtain ⟨jwtHeader, hsigning⟩ := hjwt.signingString
  have hleft : Strings.split (header ++ "." ++ payload) '.' = [header, payload] := by
    rw [← join_dot]
    exact Strings.split_join (List.cons_ne_nil _ _) (by simp [hheader, hpayload])
  have hright : Strings.split (c.signingString jwt) '.' =
      [Base64.RawURL.encodeToString jwtHeader, Base64.RawURL.encodeToString (c.marshal jwt)] := by
    rw [Claims.signingString, hsigning, ← join_dot]
    exact Strings.split_join (List.cons_ne_nil _ _)
      (by simp [Base64.RawURL.dot_notMem_encodeToString])
  rw [h, hright] at hleft
  exact (List.cons.inj (List.cons.inj hleft).2).1.symm

/-- Whatever its signature looks like, a signed text is read as its claims. -/
private theorem validateHS256_signed (hjwt : jwt.Lawful hmac) {c : Claims} (hc : c.Representable)
    {header payload signature : String}
    (hsplit : Strings.split tokenStr '.' = [header, payload, signature])
    (hmsg : header ++ "." ++ payload = c.signingString jwt)
    (hsig : Base64.RawURL.decodeString signature = some (hmac secret (c.signingString jwt))) :
    validateHS256 hmac jsonError now tokenStr secret = Management.validateHS256 now c := by
  -- the parts of a split have no dots, so the payload is the signed one
  have hdots (p : String) (hp : p ∈ [header, payload, signature]) : '.' ∉ p.toList := by
    rw [← hsplit] at hp
    exact Strings.notMem_of_mem_split hp
  have hclaims :=
    payload_of_signingString hjwt (hdots header (by simp)) (hdots payload (by simp)) hmsg
  simp only [validateHS256, hsplit, hsig, hmsg, ne_eq, not_true_eq_false, if_false]
  simp only [hclaims, Base64.RawURL.decodeString_encodeToString,
    TokenClaims.unmarshal_marshal hjwt hc, TokenClaims.check_of]

/-- A token has three parts: the two that are signed, and the signature. -/
private theorem split_signedString (hjwt : jwt.Lawful hmac) (secret : String) (c : Claims) :
    ∃ header payload, Strings.split (c.signedString jwt secret) '.' =
        [header, payload, Base64.RawURL.encodeToString (hmac secret (c.signingString jwt))] ∧
      header ++ "." ++ payload = c.signingString jwt := by
  obtain ⟨jwtHeader, hsigning⟩ := hjwt.signingString
  refine ⟨Base64.RawURL.encodeToString jwtHeader, Base64.RawURL.encodeToString (c.marshal jwt),
    ?_, (hsigning _).symm⟩
  rw [Claims.signedString, hjwt.signedString, ← Claims.signingString]
  nth_rewrite 1 [Claims.signingString]
  rw [hsigning, ← join_dots]
  exact Strings.split_join (List.cons_ne_nil _ _)
    (by simp [Base64.RawURL.dot_notMem_encodeToString])

/-- The scheme is taken off a header that has a token. -/
private theorem trimBearer_append {token : String} (hne : token ≠ "") :
    trimBearer ("Bearer " ++ token) = token := by
  have hlist : ("Bearer " ++ token).toList = "Bearer ".toList ++ token.toList :=
    String.toList_append
  -- the scheme alone is not taken off
  have hlen : 7 < Strings.byteLen ("Bearer " ++ token) := by
    obtain ⟨c, cs, hcs⟩ := List.exists_cons_of_ne_nil (mt String.toList_eq_nil_iff.mp hne)
    have hc : 0 < c.utf8Size := c.utf8Size_pos
    have hpre : ("Bearer ".toList.map Char.utf8Size).sum = 7 := by decide
    rw [Strings.byteLen, hlist, hcs, List.map_append, List.sum_append, hpre, List.map_cons,
      List.sum_cons]
    omega
  -- the scheme is compared in lower case
  have hpre : (("Bearer " ++ token).toList.take 7).map ClientState.foldRune = "bearer ".toList := by
    rw [hlist, List.take_left' (by decide)]
    decide
  rw [trimBearer, if_pos ⟨hlen, hpre⟩, hlist, List.drop_left' (by decide), String.ofList_toList]

/-- A signed token is not empty, so this holds of it. -/
private theorem trimBearer_signedString (hjwt : jwt.Lawful hmac) (c : Claims) :
    trimBearer ("Bearer " ++ c.signedString jwt secret) = c.signedString jwt secret := by
  refine trimBearer_append ?_
  rw [← String.toList_inj.ne, Claims.signedString, hjwt.signedString]
  simp

/-- A signed token is checked by its claims. -/
private theorem validateHS256_signedString (hjwt : jwt.Lawful hmac) {c : Claims}
    (hc : c.Representable) :
    validateHS256 hmac jsonError now (c.signedString jwt secret) secret
      = Management.validateHS256 now c := by
  obtain ⟨header, payload, hsplit, hmsg⟩ := split_signedString hjwt secret c
  exact validateHS256_signed hjwt hc hsplit hmsg (Base64.RawURL.decodeString_encodeToString _)

/-- Whatever the claims, the time, the secret and the HMAC: the interceptor of the signal server
    makes of the token that the management server writes and the client attaches what
    `Management.validateHS256` makes of the claims. -/
theorem streamInterceptor_signedString (hjwt : jwt.Lawful hmac) (c : Claims)
    (hc : c.Representable) :
    streamInterceptor hmac jsonError secret now (bearer (c.signedString jwt secret)) =
      (Management.validateHS256 now c).mapError fun _ => "invalid token" := by
  simp only [bearer, streamInterceptor, trimBearer_signedString hjwt,
    validateHS256_signedString hjwt hc]
  cases Management.validateHS256 now c <;> rfl

/-! ## What is issued -/

/-- A token that the management server issues, to a peer or to an administrator. -/
def Issuable (c : Claims) : Prop :=
  ∃ t : Int, 0 ≤ t ∧ unix t + 24 * 3600 < 2 ^ 63 ∧
    ((∃ peerID wgPubKey accountID, c = issueToken t peerID wgPubKey accountID) ∨
      ∃ accountID, c = issueAdminToken t accountID)

/-- A day is a whole number of seconds. -/
private theorem unix_expiry (t : Int) :
    unix (Management.numericDate (t + 24 * 3600 * 1000000000)) = unix t + 24 * 3600 := by
  rw [unix, unix, Management.numericDate]
  omega

/-- What is issued fits the decoder. -/
private theorem Issuable.representable {c : Claims} (h : Issuable c) : c.Representable := by
  obtain ⟨t, ht, hmax, hc⟩ := h
  have hexp : unix c.expiresAt = unix t + 24 * 3600 := by
    rcases hc with ⟨_, _, _, rfl⟩ | ⟨_, rfl⟩
    · exact unix_expiry t
    · exact unix_expiry t
  have hpos : 0 ≤ unix t := Int.ediv_nonneg ht (by decide)
  rw [Claims.Representable, hexp]
  omega

/-- The verdict on a peer's token, issued at `t`. -/
private theorem validateHS256_issueToken {t : Int} (ht : 0 ≤ t) (peerID accountID : String)
    {wgPubKey : String} (hkey : wgPubKey ≠ "") :
    Management.validateHS256 now (issueToken t peerID wgPubKey accountID) =
      if unix t + 24 * 3600 < unix now then .error "JWT expired" else .ok wgPubKey := by
  have hpos : 0 ≤ unix t := Int.ediv_nonneg ht (by decide)
  have hunix : unix (issueToken t peerID wgPubKey accountID).expiresAt = unix t + 24 * 3600 :=
    unix_expiry t
  have hkey' : (issueToken t peerID wgPubKey accountID).wgPubKey ≠ "" := hkey
  rw [Management.validateHS256, hunix, if_neg hkey']
  by_cases hlate : unix t + 24 * 3600 < unix now
  · rw [if_pos ⟨by omega, hlate⟩, if_pos hlate]
  · rw [if_neg (fun h => hlate h.2), if_neg hlate]
    rfl

/-- An administrator's token names no key. -/
private theorem validateHS256_issueAdminToken (t : Int) (accountID : String) :
    ∃ e, Management.validateHS256 now (issueAdminToken t accountID) = .error e := by
  rw [Management.validateHS256]
  split
  · exact ⟨_, rfl⟩
  · exact ⟨_, if_pos rfl⟩

/-- **Tokens across the servers.** Whatever the secret, the HMAC and the time at which the
    management server issues a token: the interceptor of the signal server, given what the client
    attaches, accepts a peer's token with the key that it was issued for until a day has passed,
    and refuses it afterwards; an administrator's token it always refuses. -/
theorem issued_tokens_across_servers (hjwt : jwt.Lawful hmac) (jsonError : List UInt8 → String)
    (secret : String) (t now : Int) (ht : 0 ≤ t) (hmax : unix t + 24 * 3600 < 2 ^ 63) :
    (∀ peerID wgPubKey accountID, wgPubKey ≠ "" →
      streamInterceptor hmac jsonError secret now
          (bearer ((issueToken t peerID wgPubKey accountID).signedString jwt secret)) =
        if unix t + 24 * 3600 < unix now then .error "invalid token" else .ok wgPubKey) ∧
    ∀ accountID, streamInterceptor hmac jsonError secret now
        (bearer ((issueAdminToken t accountID).signedString jwt secret)) =
      .error "invalid token" := by
  constructor
  · intro peerID wgPubKey accountID hkey
    have hc : Issuable (issueToken t peerID wgPubKey accountID) :=
      ⟨t, ht, hmax, .inl ⟨_, _, _, rfl⟩⟩
    rw [streamInterceptor_signedString hjwt _ hc.representable,
      validateHS256_issueToken ht peerID accountID hkey]
    -- a day after its issue
    split <;> rfl
  · intro accountID
    have hc : Issuable (issueAdminToken t accountID) := ⟨t, ht, hmax, .inr ⟨_, rfl⟩⟩
    obtain ⟨e, he⟩ := validateHS256_issueAdminToken t accountID
    rw [streamInterceptor_signedString hjwt _ hc.representable, he]
    rfl

/-- What is signed in an HS256 token with these claims. -/
def hs256SigningString (claims : List UInt8) : String :=
  Base64.RawURL.encodeToString
      (Json.object [("alg", Json.quote "HS256"), ("typ", Json.quote "JWT")]) ++
    "." ++ Base64.RawURL.encodeToString claims

/-- A library that writes HS256 tokens. -/
def hs256Jwt : JwtLib where
  registered issuedAt expiresAt :=
    [("exp", Json.int (unix expiresAt)), ("iat", Json.int (unix issuedAt))]
  signingString := hs256SigningString
  signedString secret claims :=
    hs256SigningString claims ++ "." ++
      Base64.RawURL.encodeToString (hmacSHA256 secret (hs256SigningString claims))

private theorem hs256Jwt_lawful : hs256Jwt.Lawful hmacSHA256 where
  registered _ _ := rfl
  signingString := ⟨_, fun _ => rfl⟩
  signedString _ _ := rfl

/-- A peer's token on the day it is issued and a day and a second later, and an administrator's. -/
theorem peerToken_accepted_then_refused :
    hs256Jwt.Lawful hmacSHA256 ∧
    streamInterceptor hmacSHA256 (fun _ => "") "secret" 0
      (bearer ((issueToken 0 "a" "A" "acc").signedString hs256Jwt "secret")) = .ok "A" ∧
    streamInterceptor hmacSHA256 (fun _ => "") "secret" (86401 * 1000000000)
      (bearer ((issueToken 0 "a" "A" "acc").signedString hs256Jwt "secret")) =
        .error "invalid token" ∧
    streamInterceptor hmacSHA256 (fun _ => "") "secret" 0
      (bearer ((issueAdminToken 0 "acc").signedString hs256Jwt "secret")) =
        .error "invalid token" := by
  have hnow := issued_tokens_across_servers hs256Jwt_lawful (fun _ => "") "secret" 0 0 (by decide)
    (by decide)
  have hlater := issued_tokens_across_servers hs256Jwt_lawful (fun _ => "") "secret" 0
    (86401 * 1000000000) (by decide) (by decide)
  -- the token at the moment of its issue, and a second after its expiry
  refine ⟨hs256Jwt_lawful, ?_, ?_, hnow.2 "acc"⟩
  · rw [hnow.1 "a" "A" "acc" (by decide)]
    rfl
  · rw [hlater.1 "a" "A" "acc" (by decide)]
    rfl

/-! ## Signatures -/

/-- Nobody but the management server signs: a signature in the text that checks out is that of a
    token in `issued`. -/
def Unforged (hmac : String → String → List UInt8) (jwt : JwtLib) (secret : String)
    (issued : Set Claims) (tokenStr : String) : Prop :=
  ∀ header payload signature, Strings.split tokenStr '.' = [header, payload, signature] →
    Base64.RawURL.decodeString signature = some (hmac secret (header ++ "." ++ payload)) →
    ∃ c ∈ issued, header ++ "." ++ payload = c.signingString jwt

/-- A token that was issued is not forged. -/
private theorem unforged_signedString (hjwt : jwt.Lawful hmac) {issued : Set Claims} {c : Claims}
    (hc : c ∈ issued) : Unforged hmac jwt secret issued (c.signedString jwt secret) := by
  intro header payload signature hsplit _
  obtain ⟨header', payload', hsplit', hmsg⟩ := split_signedString hjwt secret c
  rw [hsplit'] at hsplit
  obtain ⟨rfl, hrest⟩ := List.cons.inj hsplit
  obtain ⟨rfl, -⟩ := List.cons.inj hrest
  exact ⟨c, hc, hmsg⟩

/-- What is accepted has three parts, and the third is the signature of the others. -/
private theorem validateHS256_ok {key : String}
    (h : validateHS256 hmac jsonError now tokenStr secret = .ok key) :
    ∃ header payload signature, Strings.split tokenStr '.' = [header, payload, signature] ∧
      Base64.RawURL.decodeString signature = some (hmac secret (header ++ "." ++ payload)) := by
  rw [validateHS256] at h
  split at h
  · rename_i header payload signature hsplit
    refine ⟨header, payload, signature, hsplit, ?_⟩
    -- the signature has to decode, and to be the HMAC
    split at h
    · cases h
    · rename_i sig hsig
      split at h
      · cases h
      · rename_i heq
        rw [hsig, not_not.mp heq]
  · cases h

/-- A stream is let in by the first token of its header. -/
private theorem streamInterceptor_ok {md : Option (List String)} {key : String}
    (h : streamInterceptor hmac jsonError secret now md = .ok key) :
    ∃ tok vals, md = some (tok :: vals) ∧
      validateHS256 hmac jsonError now (trimBearer tok) secret = .ok key := by
  match md with
  | none => cases h
  | some [] => cases h
  | some (tok :: vals) =>
    rw [streamInterceptor] at h
    refine ⟨tok, vals, rfl, ?_⟩
    -- the answer is that of the validation
    cases hv : validateHS256 hmac jsonError now (trimBearer tok) secret with
    | error e =>
      rw [hv] at h
      cases h
    | ok key' =>
      rw [hv] at h
      exact h

/-- An accepted token is an issued one, unless it is forged. -/
private theorem exists_issued_of_validateHS256 (hjwt : jwt.Lawful hmac) {issued : Set Claims}
    {key : String} (hissued : ∀ c ∈ issued, c.Representable)
    (hforge : Unforged hmac jwt secret issued tokenStr)
    (h : validateHS256 hmac jsonError now tokenStr secret = .ok key) :
    ∃ c ∈ issued, (∃ signature, tokenStr = c.signingString jwt ++ "." ++ signature) ∧
      Management.validateHS256 now c = .ok key := by
  obtain ⟨header, payload, signature, hsplit, hsig⟩ := validateHS256_ok h
  obtain ⟨c, hc, hmsg⟩ := hforge header payload signature hsplit hsig
  rw [validateHS256_signed hjwt (hissued c hc) hsplit hmsg (hmsg ▸ hsig)] at h
  refine ⟨c, hc, ⟨signature, ?_⟩, h⟩
  rw [← hmsg, ← join_dots, ← hsplit, Strings.join_split]

/-! ## Streams -/

/-- What the interceptor lets through to the server. -/
def passed (hmac : String → String → List UInt8) (jsonError : List UInt8 → String)
    (secret : String) : GuardedEvent → Option Event
  | .call id now md =>
    match streamInterceptor hmac jsonError secret now md with
    | .error _ => none
    | .ok key => some (.open id (some key))
  | .act id a => some (.act id a)
  | .tick d => some (.tick d)

/-- A call that is refused changes nothing. -/
private theorem guardedStep_eq (s : State) (ev : GuardedEvent) :
    guardedStep hmac jsonError secret s ev =
      (passed hmac jsonError secret ev).elim (some s) (step s) := by
  cases ev with
  | call id now md =>
    rw [guardedStep, passed]
    cases streamInterceptor hmac jsonError secret now md <;> rfl
  | act id a => rfl
  | tick d => rfl

/-- What passes the interceptor is authenticated. -/
private theorem passed_authenticated {gev : GuardedEvent} {ev : Event}
    (h : passed hmac jsonError secret gev = some ev) : ev.Authenticated := by
  cases gev with
  | call id now md =>
    rw [passed] at h
    -- a call that is refused opens nothing
    split at h
    · cases h
    · obtain rfl := Option.some.inj h
      exact Option.some_ne_none _
  | act id a =>
    obtain rfl := Option.some.inj h
    trivial
  | tick d =>
    obtain rfl := Option.some.inj h
    trivial

/-- Only a call with a good token opens a stream. -/
private theorem passed_open {gev : GuardedEvent} {id : StreamId} {key : String}
    (h : passed hmac jsonError secret gev = some (.open id (some key))) :
    ∃ now tok vals, gev = .call id now (some (tok :: vals)) ∧
      validateHS256 hmac jsonError now (trimBearer tok) secret = .ok key := by
  cases gev with
  | call id' now md =>
    rw [passed] at h
    -- a refused call opens nothing
    split at h
    · cases h
    · rename_i key' hkey
      obtain ⟨rfl, heq⟩ := Event.open.inj (Option.some.inj h)
      obtain rfl := Option.some.inj heq
      obtain ⟨tok, vals, rfl, hok⟩ := streamInterceptor_ok hkey
      exact ⟨now, tok, vals, rfl, hok⟩
  | act id' a => cases h
  | tick d => cases h

/-- A handler has the key its stream was opened with. -/
private theorem opened_run {es : List Event} {s : State} (h : exec step {} es = some s)
    {id : StreamId}
    {hd : Handler} (hh : s.handlers id = some hd) : .open id hd.authKey ∈ es := by
  have hstep (s : State) (ev : Event) (s' : State) (hev : ev ∈ es)
      (hs : ∀ id hd, s.handlers id = some hd → .open id hd.authKey ∈ es)
      (h : step s ev = some s') : ∀ id hd, s'.handlers id = some hd → .open id hd.authKey ∈ es := by
    intro i hd' hi
    -- only opening a stream sets the key of its token
    rcases step_cases h with ⟨id, authKey, rfl, hfresh, rfl⟩ | ⟨id, a, hd, e, rfl, hh, he, rfl⟩ |
      ⟨d, rfl, rfl⟩
    · rcases PMap.set_eq_some _ hi with ⟨rfl, rfl⟩ | ⟨_, hi⟩
      · exact hev
      · exact hs i hd' hi
    · rcases PMap.set_eq_some _ hi with ⟨rfl, rfl⟩ | ⟨_, hi⟩
      · rw [he.authKey_eq]
        exact hs i hd hh
      · exact hs i hd' hi
    · exact hs i hd' hi
  have hinit (id : StreamId) (hd : Handler) (h : ({} : State).handlers id = some hd) :
      .open id hd.authKey ∈ es := by
    simp only [PMap.empty_apply, reduceCtorEq] at h
  exact exec_invariant hstep (fun _ h => h) hinit h id hd hh

/-- Only a peer's token is accepted, for its key and for a day. -/
private theorem Issuable.of_ok {c : Claims} (h : Issuable c) {key : String}
    (hok : Management.validateHS256 now c = .ok key) :
    ∃ t peerID accountID, c = issueToken t peerID key accountID ∧
      unix now ≤ unix t + 24 * 3600 := by
  obtain ⟨t, ht, -, hc⟩ := h
  have hpos : 0 ≤ unix t := Int.ediv_nonneg ht (by decide)
  rw [Management.validateHS256] at hok
  split at hok
  · cases hok
  · rename_i hexp
    split at hok
    · cases hok
    · rename_i hkey
      -- an administrator's token has no key, so it is not accepted
      rcases hc with ⟨peerID, wgPubKey, accountID, rfl⟩ | ⟨accountID, rfl⟩
      · obtain rfl := Except.ok.inj hok
        refine ⟨t, peerID, accountID, rfl, ?_⟩
        have hunix : unix (issueToken t peerID wgPubKey accountID).expiresAt = unix t + 24 * 3600 :=
          unix_expiry t
        rw [hunix] at hexp
        omega
      · exact absurd rfl hkey

/-- The stream was opened with the token of a peer with this key, not older than a day. -/
def ShowsToken (jwt : JwtLib) (issued : Set Claims) (es : List GuardedEvent) (id : StreamId)
    (key : String) : Prop :=
  ∃ t peerID accountID, issueToken t peerID key accountID ∈ issued ∧
    ∃ now tok vals signature, .call id now (some (tok :: vals)) ∈ es ∧
      trimBearer tok =
        (issueToken t peerID key accountID).signingString jwt ++ "." ++ signature ∧
      unix now ≤ unix t + 24 * 3600

section Guarded

variable {issued : Set Claims} {es : List GuardedEvent}

/-- What opens a stream is a call with an issued token. -/
private theorem showsToken_of_open (hjwt : jwt.Lawful hmac) (hissued : ∀ c ∈ issued, Issuable c)
    (hforge : ∀ id now tok vals, .call id now (some (tok :: vals)) ∈ es →
      Unforged hmac jwt secret issued (trimBearer tok))
    {id : StreamId} {key : String}
    (h : .open id (some key) ∈ es.filterMap (passed hmac jsonError secret)) :
    ShowsToken jwt issued es id key := by
  obtain ⟨ev, hev, hpassed⟩ := List.mem_filterMap.mp h
  obtain ⟨now, tok, vals, rfl, hok⟩ := passed_open hpassed
  obtain ⟨c, hc, ⟨signature, htok⟩, hok⟩ := exists_issued_of_validateHS256 hjwt
    (fun c hc => (hissued c hc).representable) (hforge _ _ _ _ hev) hok
  obtain ⟨t, peerID, accountID, rfl, htime⟩ := (hissued c hc).of_ok hok
  exact ⟨t, peerID, accountID, hc, now, tok, vals, signature, hev, htok, htime⟩

end Guarded

/-- **Peers only.** Behind the interceptor, in every interleaving, and unless somebody forged a
    signature: every message that is ever written to a stream came over a stream that was opened
    with a token issued for the key the message names as its sender, and is written to a stream
    that was opened with a token issued for the key it is addressed to. Both tokens were peers'
    tokens, at most a day old; an administrator's token opens no stream. -/
theorem written_between_token_holders (hjwt : jwt.Lawful hmac) {issued : Set Claims}
    (hissued : ∀ c ∈ issued, Issuable c) {es : List GuardedEvent} {s : State}
    (hforge : ∀ id now tok vals, .call id now (some (tok :: vals)) ∈ es →
      Unforged hmac jwt secret issued (trimBearer tok))
    (h : exec (guardedStep hmac jsonError secret) {} es = some s) (target : StreamId) (x : Held)
    (hx : (target, x) ∈ s.written) :
    ShowsToken jwt issued es x.src x.msg.key ∧
      ShowsToken jwt issued es target x.msg.remoteKey := by
  rw [exec_filterMap guardedStep_eq] at h
  -- the signal server sees what has passed the interceptor
  have hauth (ev : Event) (hev : ev ∈ es.filterMap (passed hmac jsonError secret)) :
      ev.Authenticated := by
    obtain ⟨gev, -, hpassed⟩ := List.mem_filterMap.mp hev
    exact passed_authenticated hpassed
  have hholds (id : StreamId) (key : String)
      (hid : ∃ hd, s.handlers id = some hd ∧ hd.authKey = some key) :
      ShowsToken jwt issued es id key := by
    obtain ⟨hd, hh, hkey⟩ := hid
    exact showsToken_of_open hjwt hissued hforge (hkey ▸ opened_run h hh)
  -- who sent the message, and to whom it was written
  obtain ⟨hauthentic, haddressed⟩ := addressed_run hauth h
  exact ⟨hholds _ _ (hauthentic.written _ hx).2, hholds _ _ (haddressed.written _ hx)⟩

/-- The tokens of two peers. -/
def pairTokens : Set Claims := {issueToken 0 "a" "A" "acc", issueToken 0 "b" "B" "acc"}

/-- The peer calls with its token. -/
def pairCall (id : StreamId) (c : Claims) : GuardedEvent :=
  .call id 0 (bearer (c.signedString hs256Jwt "secret"))

/-- A stranger is turned away; `A` sends an offer, which is held until `B` connects. -/
def pairCalls : List GuardedEvent :=
  [.call 3 0 (some []), pairCall 1 (issueToken 0 "a" "A" "acc"), .act 1 (.recv heldOffer),
    .act 1 .register, .act 1 .lookup, .act 1 .absent, pairCall 2 (issueToken 0 "b" "B" "acc"),
    .tick second, .act 2 (.recv { key := "B" }), .act 2 .register, .act 2 (.deliver true)]

private theorem issuable_pairTokens : ∀ c ∈ pairTokens, Issuable c := by
  intro c hc
  rcases hc with rfl | rfl
  · exact ⟨0, by decide, by decide, .inl ⟨_, _, _, rfl⟩⟩
  · exact ⟨0, by decide, by decide, .inl ⟨_, _, _, rfl⟩⟩

/-- A call with an issued token shows no forged one. -/
private theorem unforged_pairCall {id i : StreamId} {now : Int} {tok : String} {vals : List String}
    {c : Claims} (hc : c ∈ pairTokens) (h : .call id now (some (tok :: vals)) = pairCall i c) :
    Unforged hmacSHA256 hs256Jwt "secret" pairTokens (trimBearer tok) := by
  obtain ⟨-, -, hmd⟩ := GuardedEvent.call.inj h
  obtain ⟨rfl, -⟩ := List.cons.inj (Option.some.inj hmd)
  rw [trimBearer_signedString hs256Jwt_lawful]
  exact unforged_signedString hs256Jwt_lawful hc

/-- No call of the run shows a forged one. -/
private theorem unforged_pairCalls (id : StreamId) (now : Int) (tok : String) (vals : List String)
    (h : .call id now (some (tok :: vals)) ∈ pairCalls) :
    Unforged hmacSHA256 hs256Jwt "secret" pairTokens (trimBearer tok) := by
  simp only [pairCalls, List.mem_cons, reduceCtorEq, List.not_mem_nil, false_or, or_false] at h
  rcases h with h | h | h
  · cases h
  · exact unforged_pairCall (.inl rfl) h
  · exact unforged_pairCall (.inr rfl) h

/-- A call with an issued token opens a stream for its key. -/
private theorem passed_pairCall {id : StreamId} {c : Claims} (hc : c ∈ pairTokens) :
    passed hmacSHA256 (fun _ => "") "secret" (pairCall id c) =
      some (.open id (some c.wgPubKey)) := by
  have hrep := (issuable_pairTokens c hc).representable
  have hok : Management.validateHS256 0 c = .ok c.wgPubKey := by
    rcases hc with rfl | rfl <;> decide
  simp only [passed, pairCall, bearer, streamInterceptor, trimBearer_signedString hs256Jwt_lawful,
    validateHS256_signedString hs256Jwt_lawful hrep, hok]

/-- The calls that get through make the run of the held offer. -/
private theorem filterMap_pairCalls {f : GuardedEvent → Option Event}
    (hstranger : f (.call 3 0 (some [])) = none)
    (hcallA : f (pairCall 1 (issueToken 0 "a" "A" "acc")) = some (.open 1 (some "A")))
    (hcallB : f (pairCall 2 (issueToken 0 "b" "B" "acc")) = some (.open 2 (some "B")))
    (hact : ∀ id a, f (.act id a) = some (.act id a)) (htick : ∀ d, f (.tick d) = some (.tick d)) :
    pairCalls.filterMap f = heldOfferRun := by
  simp only [pairCalls, List.filterMap_cons, hstranger, hcallA, hcallB, hact, htick,
    List.filterMap_nil, heldOfferRun]

/-- So they do at the interceptor: the stranger is the one that is dropped. -/
private theorem passed_pairCalls :
    pairCalls.filterMap (passed hmacSHA256 (fun _ => "") "secret") = heldOfferRun :=
  filterMap_pairCalls rfl (passed_pairCall (.inl rfl)) (passed_pairCall (.inr rfl))
    (fun _ _ => rfl) fun _ => rfl

/-- The held offer goes from the holder of one token to the holder of the other. -/
theorem pairCalls_between_token_holders :
    ∃ s, exec (guardedStep hmacSHA256 (fun _ => "") "secret") {} pairCalls = some s ∧
      s.written = [(2, ⟨1, heldOffer⟩)] ∧ ShowsToken hs256Jwt pairTokens pairCalls 1 "A" ∧
      ShowsToken hs256Jwt pairTokens pairCalls 2 "B" := by
  obtain ⟨s, hrun, hs⟩ := heldOfferRun_written
  rw [← passed_pairCalls, ← exec_filterMap guardedStep_eq] at hrun
  have hmem : (2, ⟨1, heldOffer⟩) ∈ s.written := by
    rw [hs]
    exact List.mem_singleton.mpr rfl
  exact ⟨s, hrun, hs, written_between_token_holders hs256Jwt_lawful issuable_pairTokens
    unforged_pairCalls hrun 2 ⟨1, heldOffer⟩ hmem⟩

end Signal

end Blinex.Native
