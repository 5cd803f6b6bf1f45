import AnonyMail.Api.Basic

/-! # Client tokens and the gates of the write handlers (`entitlements.rs`, `api/entitlements.rs`) -/

namespace AnonyMail

def clientTokenTtlSeconds : Int := 12 * 3600

def kindUnattested : String := "unattested"

def kindIos : String := "ios"

def ClientClaims.isAttested (c : ClientClaims) : Bool := c.kind != kindUnattested

inductive TokenError
  | expired
  | invalid
  deriving DecidableEq, Repr

/-- What `verify_client_token` makes of the answer of `jsonwebtoken::decode`. -/
def TokenError.ofDecoded : Except JwtError ClientClaims → Except TokenError ClientClaims
  | .ok claims => .ok claims
  | .error .expiredSignature => .error .expired
  | .error .other => .error .invalid

namespace Api

def clientTokenLeeway : Nat := 5

def verifyClientToken (signingKey : List UInt8) (token : String) :
    Handler (Except TokenError ClientClaims) := do
  return TokenError.ofDecoded (← perform (.jwtDecode signingKey token clientTokenLeeway))

variable (app : AppState)

/-- The token and its expiry. -/
def mintClientToken (signingKey : List UInt8) (kind : String) (kid : Option String) (tier : Tier) :
    Handler (String × DateTime) := do
  let now ← perform .now
  let expiresAt ← orPanic (now.tryAdd (.seconds clientTokenTtlSeconds))
  let claims : ClientClaims := ⟨kind, kid, tier, now.timestamp, expiresAt.timestamp⟩
  let token ← okOr (.internal (.message "signing client token"))
    (app.deps.jwtEncode signingKey claims)
  return (token, expiresAt)

def clientTokenHeader : String := "x-client-token"

/-- The trimmed client token of a request, if there is one. -/
def rawClientToken (headers : HeaderMap) : Option String :=
  ((headers.getStr clientTokenHeader).map Str.trim).filter (!·.isEmpty)

def clientClaims (headers : HeaderMap) : Handler (Option ClientClaims) := do
  match rawClientToken headers, app.config.tokenSigningKey with
  | some raw, some signingKey =>
    match ← verifyClientToken signingKey raw with
    | .ok claims => return some claims
    | .error .expired =>
      throw (.coded 401 "client_token_expired" "client token expired, refresh it and retry")
    | .error .invalid => throw (.coded 401 "client_token_invalid" "client token invalid")
  | _, _ => return none

def attestationGate (headers : HeaderMap) : Handler (Option ClientClaims) := do
  let claims ← clientClaims app headers
  if !app.config.clientAttestationRequired then return claims
  else
    match claims with
    | some c =>
      if c.isAttested then return some c
      else throw required
    | none => throw required
where
  required : ApiError := .coded 401 "attestation_required"
    "this server requires an attested client token; obtain one via POST /api/client/attest"

def clientTier (headers : HeaderMap) : Handler Tier := do
  return ((← clientClaims app headers).map (·.tier)).getD .free

def enforcedTier (headers : HeaderMap) : Handler (Option Tier) := do
  if !app.config.entitlementsEnforced then return none
  else return some (← clientTier app headers)

def resolveTier (rcAppUserId : Option String) : Handler Tier := do
  match (rcAppUserId.map Str.trim).filter (!·.isEmpty), app.pro with
  | some id, true =>
    match ← perform (.isPro id) with
    | some true => return .pro
    | some false => return .free
    | none =>
      throw (.serviceUnavailable
        "entitlement verification is temporarily unavailable, retry later")
  | _, _ => return .free

structure ClientTokenResponse where
  clientToken : String
  tier : Tier
  expiresAt : DateTime
  deriving DecidableEq, Repr

namespace Entitlements

/-- `rcAppUserId` is absent when the body is. -/
def verify (headers : HeaderMap) (rcAppUserId : Option String) : Handler ClientTokenResponse := do
  let signingKey ← okOr (.serviceUnavailable "entitlements are not configured on this server")
    app.config.tokenSigningKey
  let _ ← attestationGate app headers
  let tier ← resolveTier app rcAppUserId
  let (clientToken, expiresAt) ← mintClientToken app signingKey kindUnattested none tier
  return ⟨clientToken, tier, expiresAt⟩

end Entitlements
end Api
end AnonyMail
