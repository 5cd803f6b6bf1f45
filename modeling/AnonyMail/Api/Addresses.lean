import AnonyMail.Api.CustomDomains

/-! # Address endpoints (`api/addresses.rs`) -/

namespace AnonyMail.Api

variable (app : AppState)

structure CreateAddressRequest where
  localPart : Option String
  domain : Option String
  deriving DecidableEq, Repr

structure CreateAddressResponse where
  mailbox : Mailbox
  ownerToken : String
  deriving DecidableEq, Repr

namespace Addresses

def localPartCharset : List Char := "abcdefghijklmnopqrstuvwxyz0123456789".toList

def randomLocalPartLen : Nat := 10

def maxLocalPartLen : Nat := 64

def randomCreateAttempts : Nat := 5

def isSep (c : Char) : Bool := c == '.' || c == '_' || c == '-'

def isValidLocalPart (localPart : String) : Bool :=
  let cs := localPart.toList
  !localPart.isEmpty && Str.len localPart ≤ maxLocalPartLen &&
    cs.all (fun c => Str.isAsciiLowercase c || Str.isAsciiDigit c || isSep c) &&
    !cs.head?.any isSep && !cs.getLast?.any isSep

def randomChars : Nat → Handler (List Char)
  | 0 => return []
  | n + 1 => do
    let i ← perform (.randomRange localPartCharset.length)
    return localPartCharset[i]?.getD 'a' :: (← randomChars n)

def randomLocalPart : Handler String := do
  return .ofList (← randomChars randomLocalPartLen)

/-- `Utc::now() + Duration::seconds(default_ttl.as_secs() as i64)`. -/
def expiryFromNow : Handler DateTime := do
  let ttl ← orPanic (Duration.trySeconds (asI64 app.config.defaultTtl))
  let now ← perform .now
  orPanic (now.tryAdd ttl)

/-- The tier policy in force; `none` when entitlements are not enforced. -/
def policyOf (client : Option ClientClaims) : Option TierPolicy :=
  if app.config.entitlementsEnforced then
    some (app.config.tierPolicy ((client.map (·.tier)).getD .free))
  else none

/-- The domain gate. -/
def chooseDomain (policy : Option TierPolicy) (headers : HeaderMap) :
    Option String → Handler String
  | none => return app.config.domains.head app.config.domains_ne
  | some d => do
    let d := Str.toAsciiLowercase (Str.trim d)
    match app.config.domains.findIdx? (· == d) with
    | some index =>
      if policy.any fun p => p.domainCount > 0 && index ≥ p.domainCount then
        throw (.proRequired s!"domain requires a higher tier: {d}")
      else return d
    | none =>
      if app.config.customDomainsEnabled then
        if policy.any fun p => !p.customDomains then
          throw (.proRequired "custom domains require a higher tier")
        else
          authorizeMailboxOnCustomDomain app d headers
          return d
      else throw (.badRequest s!"unknown domain: {d}")

def chooseLocalPart (policy : Option TierPolicy) : Option String → Handler (Option String)
  | none => return none
  | some localPart => do
    let localPart := Str.toAsciiLowercase (Str.trim localPart)
    if !isValidLocalPart localPart then
      throw (.badRequest "local_part must be 1-64 chars of a-z, 0-9, '.', '_' or '-' and not start/end with a separator")
    else if app.config.isReservedLocalPart localPart then
      throw (.badRequest s!"local_part is reserved: {localPart}")
    else if policy.any fun p => !p.customLocalParts then
      throw (.proRequired "custom local parts require a higher tier")
    else return some localPart

/-- The per-device cap. -/
def checkMailboxCap (policy : Option TierPolicy) (deviceHash : Option String) : Handler Unit := do
  match policy, deviceHash with
  | some p, some hash =>
    if p.activeMailboxes > 0 then
      let now ← perform .now
      let active ← store (.countActiveMailboxesByDevice hash now)
      if active ≥ p.activeMailboxes then
        throw (.mailboxCap s!"this tier allows {p.activeMailboxes} active mailboxes per device")
      else return
    else return
  | _, _ => return

/-- The retries on a random local part. -/
def createRandom (domain : String) (expiresAt : DateTime) (deviceHash : Option String) :
    Nat → Handler CreateAddressResponse
  | 0 => throw (.internal (.message
      s!"could not allocate a unique random address after {randomCreateAttempts} attempts"))
  | n + 1 => do
    let (ownerToken, tokenHash) ← generateOwnerToken app.deps
    let address := (← randomLocalPart) ++ "@" ++ domain
    match ← perform
      (.store (.createMailbox address domain expiresAt (some tokenHash) deviceHash)) with
    | .ok mailbox => return ⟨mailbox, ownerToken⟩
    | .error e =>
      if isUniqueViolation e then createRandom domain expiresAt deviceHash n
      else throw (.internal (.store e))

def createCustom (localPart domain : String) (expiresAt : DateTime) (deviceHash : Option String) :
    Handler CreateAddressResponse := do
  let (ownerToken, tokenHash) ← generateOwnerToken app.deps
  let address := localPart ++ "@" ++ domain
  match ← perform (.store (.createMailbox address domain expiresAt (some tokenHash) deviceHash)) with
  | .ok mailbox => return ⟨mailbox, ownerToken⟩
  | .error e =>
    if isUniqueViolation e then throw (.conflict s!"address already exists: {address}")
    else throw (.internal (.store e))

def create (peer : IpAddr) (headers : HeaderMap) (req : CreateAddressRequest) :
    Handler CreateAddressResponse := do
  let client ← attestationGate app headers
  let policy := policyOf app client
  let deviceHash := (client.bind (·.kid)).map (hashToken app.deps)
  let domain ← chooseDomain app policy headers req.domain
  let localPart ← chooseLocalPart app policy req.localPart
  checkMailboxCap policy deviceHash
  let ip := clientIp app.deps headers peer app.config.apiTrustProxyHeaders
  let today := (← perform .now).dateNaive
  if !(← perform (.noteAddressCreated ip today)) then
    throw (.tooManyRequests "daily address creation limit reached")
  else
    let expiresAt ← expiryFromNow app
    match localPart with
    | some localPart => createCustom app localPart domain expiresAt deviceHash
    | none => createRandom app domain expiresAt deviceHash randomCreateAttempts

def get (address : String) : Handler Mailbox := do
  okOr (.notFound "mailbox not found") (← store (.getMailbox (Str.toAsciiLowercase address)))

/-- The lifetime cap of `extend`. -/
def checkLifetime (mailbox : Mailbox) (newExpiry : DateTime) (headers : HeaderMap) :
    Handler Unit := do
  match ← enforcedTier app headers with
  | none => return
  | some tier =>
    let cap := (app.config.tierPolicy tier).maxLifetimeSeconds
    if cap > 0 then
      let limit ← orPanic (Duration.trySeconds (asI64 cap))
      if newExpiry - mailbox.createdAt > limit then
        throw (.lifetimeCap s!"extending would exceed this tier's max mailbox lifetime of {cap}s")
      else return
    else return

def extend (address : String) (headers : HeaderMap) : Handler Mailbox := do
  let address := Str.toAsciiLowercase address
  let _ ← attestationGate app headers
  let mailbox ← authorizeOwner app address headers
  let newExpiry ← expiryFromNow app
  checkLifetime app mailbox newExpiry headers
  okOr (.notFound "mailbox not found") (← store (.extendMailbox address newExpiry))

def delete (address : String) (headers : HeaderMap) : Handler Unit := do
  let address := Str.toAsciiLowercase address
  let _ ← attestationGate app headers
  let _ ← authorizeOwner app address headers
  if ← store (.deleteMailbox address) then return
  else throw (.notFound "mailbox not found")

/-- The new owner token. -/
def rotate (address : String) (headers : HeaderMap) : Handler String := do
  let address := Str.toAsciiLowercase address
  let _ ← attestationGate app headers
  let _ ← authorizeOwner app address headers
  let (ownerToken, tokenHash) ← generateOwnerToken app.deps
  if ← store (.rotateOwnerToken address tokenHash) then return ownerToken
  else throw (.notFound "mailbox not found")

end Addresses
end AnonyMail.Api
