import AnonyMail.Api.Entitlements
import AnonyMail.CustomDomains

/-! # Custom-domain endpoints (`api/custom_domains.rs`) -/

namespace AnonyMail.Api

open AnonyMail.CustomDomains

variable (app : AppState)

structure CustomDomainResponse where
  domain : String
  status : CustomDomainStatus
  txtRecord : String
  mxTarget : String
  claimToken : Option String
  verifiedAt : Option DateTime
  checks : Option (List DnsCheck)
  deriving DecidableEq, Repr

def CustomDomainResponse.new (record : CustomDomain) : CustomDomainResponse where
  domain := record.domain
  status := record.status
  txtRecord := txtValue record.txtToken
  mxTarget := Str.toAsciiLowercase app.config.smtpHostname
  claimToken := none
  verifiedAt := record.verifiedAt
  checks := none

def authorizeDomain (domain : String) (headers : HeaderMap) : Handler CustomDomain := do
  let record ← okOr (.notFound "domain not found") (← store (.getCustomDomain (normalize domain)))
  let presented ← okOr (.unauthorized "missing bearer token") (bearerToken headers)
  if tokenMatchesHash app.deps presented record.claimTokenHash then return record
  else throw (.unauthorized "invalid claim token")

def authorizeMailboxOnCustomDomain (domain : String) (headers : HeaderMap) : Handler Unit := do
  let record ← okOr (.badRequest s!"unknown domain: {domain}") (← store (.getCustomDomain domain))
  let presented ← okOr (.unauthorized "custom domains require their claim token")
    (bearerToken headers)
  if !tokenMatchesHash app.deps presented record.claimTokenHash then
    throw (.unauthorized "invalid claim token")
  else if record.status ≠ .verified then throw (.badRequest s!"domain not verified: {domain}")
  else return

namespace CustomDomains

def create (peer : IpAddr) (headers : HeaderMap) (rawDomain : String) :
    Handler CustomDomainResponse := do
  let _ ← attestationGate app headers
  match ← enforcedTier app headers with
  | some tier =>
    if !(app.config.tierPolicy tier).customDomains then
      throw (.proRequired "custom domains require a higher tier")
    else claim
  | none => claim
where
  claim : Handler CustomDomainResponse := do
    match validateClaimable app.config rawDomain with
    | .error reason => throw (.badRequest reason)
    | .ok domain =>
      let ip := clientIp app.deps headers peer app.config.apiTrustProxyHeaders
      let today := (← perform .now).dateNaive
      if !(← perform (.noteDomainCreated ip today)) then
        throw (.tooManyRequests "daily custom-domain limit reached")
      else
        let (claimToken, claimTokenHash) ← generateToken app.deps domainTokenPrefix
        let txtToken ← ExceptT.lift generateTxtToken
        match ← perform (.store (.createCustomDomain domain claimTokenHash txtToken)) with
        | .ok record =>
          return { CustomDomainResponse.new app record with claimToken := some claimToken }
        | .error e =>
          if isUniqueViolation e then throw (.conflict s!"domain already claimed: {domain}")
          else throw (.internal (.store e))

def get (domain : String) (headers : HeaderMap) : Handler CustomDomainResponse := do
  let record ← authorizeDomain app domain headers
  return .new app record

def verify (domain : String) (headers : HeaderMap) : Handler CustomDomainResponse := do
  let _ ← attestationGate app headers
  let record ← authorizeDomain app domain headers
  if !(← perform (.tryBeginDomainVerify record.domain)) then
    throw (.tooManyRequests "verification already ran moments ago, retry shortly")
  else
    match ← ExceptT.lift (checkAndRecord app.config record) with
    | .error e => throw (.internal (.store e))
    | .ok (checks, status, verifiedAt) =>
      return { CustomDomainResponse.new app record with
        status := status
        verifiedAt := verifiedAt
        checks := some checks }

def delete (domain : String) (headers : HeaderMap) : Handler Unit := do
  let _ ← attestationGate app headers
  let record ← authorizeDomain app domain headers
  if ← store (.deleteCustomDomain record.domain) then return
  else throw (.notFound "domain not found")

end CustomDomains
end AnonyMail.Api
