import AnonyMail.Api.Entitlements

/-! # App Attest endpoints (`api/client.rs`) -/

namespace AnonyMail.Api

open Encoding

structure ChallengeResponse where
  challenge : String
  expiresIn : Nat
  deriving DecidableEq, Repr

structure AttestRequest where
  keyId : String
  attestation : String
  challenge : String
  rcAppUserId : Option String
  deriving DecidableEq, Repr

structure AssertRequest where
  keyId : String
  assertion : String
  challenge : String
  rcAppUserId : Option String
  deriving DecidableEq, Repr

namespace Client

def maxKeyIdLen : Nat := 64

variable (app : AppState)

def requireConfigured : Handler String :=
  okOr (.serviceUnavailable "app attestation is not configured on this server")
    app.config.appAttestAppId

def rootPem : List UInt8 := app.config.appAttestRootPem.getD app.deps.appleRootCaPem

def validateKeyId (keyId : String) : Handler Unit :=
  if keyId.isEmpty || Str.len keyId > maxKeyIdLen then throw (.badRequest "invalid key_id")
  else return

def consumeChallenge (challenge : String) : Handler Unit := do
  if !(← perform (.consumeChallenge challenge)) then
    throw (.coded 400 "invalid_challenge"
      "challenge unknown, expired, or already used; request a new one")
  else return

def mint (keyId : String) (rcAppUserId : Option String) : Handler ClientTokenResponse := do
  let signingKey ← okOr (.serviceUnavailable "token signing is not configured")
    app.config.tokenSigningKey
  let tier ← resolveTier app rcAppUserId
  let (clientToken, expiresAt) ← mintClientToken app signingKey kindIos (some keyId) tier
  return ⟨clientToken, tier, expiresAt⟩

def challenge : Handler ChallengeResponse := do
  let _ ← requireConfigured app
  -- `ChallengeStore::issue`
  let challenge := base64Url (← perform (.randomBytes 32))
  let now ← perform .instantNow
  perform (.issueChallenge challenge now)
  return ⟨challenge, challengeTtlSeconds⟩

def attest (req : AttestRequest) : Handler ClientTokenResponse := do
  let appId ← requireConfigured app
  validateKeyId req.keyId
  consumeChallenge req.challenge
  match Attest.verifyAttestation app.deps appId (rootPem app) req.challenge req.keyId
      req.attestation with
  | .error e => throw (.coded 400 "invalid_attestation" e)
  | .ok publicKey =>
    let now ← perform .now
    let _ ← store (.upsertAttestedDevice req.keyId publicKey now)
    mint app req.keyId req.rcAppUserId

def assert (req : AssertRequest) : Handler ClientTokenResponse := do
  let appId ← requireConfigured app
  validateKeyId req.keyId
  consumeChallenge req.challenge
  match ← store (.getAttestedDevice req.keyId) with
  | none => throw (.coded 401 "attestation_required" "unknown key id, attest this device first")
  | some device =>
    match Attest.verifyAssertion app.deps appId req.challenge req.assertion device.publicKey
        device.counter with
    | .error e => throw (.coded 400 "invalid_assertion" e)
    | .ok newCounter =>
      let now ← perform .now
      if !(← store (.advanceAttestedDeviceCounter req.keyId newCounter now)) then
        throw (.coded 400 "invalid_assertion"
          "assertion counter conflict, retry with a fresh challenge")
      else mint app req.keyId req.rcAppUserId

end Client
end AnonyMail.Api
