import AnonyMail.Api.Governor
import AnonyMail.Smtp.Listener

/-! # The settings from the environment (`config.rs`)

`from_env` reads one variable after the other and stops at the first that it cannot use. Settings
that no modelled function reads are left out. -/

namespace AnonyMail

/-- What `from_env` reads, and the decoder of the crate `base64` (standard alphabet). -/
structure Host where
  env : Env
  /-- `std::fs::read`. -/
  read : String → Option (List UInt8)
  base64Decode : String → Option (List UInt8)

inductive EnvError
  | bail (text : String)
  /-- A context, less the error that it was put around. -/
  | context (text : String)
  | invalid (value : InvalidValue)
  /-- Neither `true` nor `false`. -/
  | invalidBool (key raw : String)
  deriving DecidableEq, Repr

abbrev FromEnv := Except EnvError

structure TlsConfig where
  certPath : String
  keyPath : String
  deriving DecidableEq, Repr

/-- `Config`, with the fields that the other modelled components read. -/
structure Settings where
  config : Config
  listener : Smtp.ListenerConfig
  tls : Option TlsConfig
  rateLimits : RateLimits
  sseMaxConcurrent : Nat
  sseMaxPerIp : Nat
  maxAddressesPerIpPerDay : Nat
  maxCustomDomainsPerIpPerDay : Nat
  /-- Seconds. -/
  customDomainVerifyThrottle : Nat
  revenuecatSecretKey : Option String
  revenuecatEntitlementId : String

namespace Settings

/-- The values of `Config::default`. -/
def default : Settings where
  config := .default
  listener := .default
  tls := none
  rateLimits := .default
  sseMaxConcurrent := 512
  sseMaxPerIp := 8
  maxAddressesPerIpPerDay := 200
  maxCustomDomainsPerIpPerDay := 5
  customDomainVerifyThrottle := 10
  revenuecatSecretKey := none
  revenuecatEntitlementId := "Anony Mail Pro"

def defaultSqliteUrl : String := "sqlite://data/anony-mail.db"

/-- `db_backend` is `Postgres`. -/
def isPostgres (databaseUrl : String) : Bool :=
  let url := Str.trim databaseUrl
  Str.startsWith url "postgres://" || Str.startsWith url "postgresql://"

def withoutScheme (scheme url : String) : Option String :=
  if Str.startsWith url scheme then some (.ofList (url.toList.drop scheme.toList.length)) else none

def sqlitePath (databaseUrl : String) : Option String :=
  if isPostgres databaseUrl then none
  else
    let raw := Str.trim databaseUrl
    let path := ((withoutScheme "sqlite://" raw).or (withoutScheme "sqlite:" raw)).getD raw
    some (.ofList (path.toList.takeWhile (· ≠ '?')))

/-! ## Variables -/

section
variable (env : Env)

def envOr (key default : String) : String := (env key).getD default

def nonEmptyEnv (key : String) : Option String := ((env key).map Str.trim).filter (!·.isEmpty)

/-- A variable that is used as it stands if it is not blank. -/
def notBlank (key : String) : Option String := (env key).filter fun raw => !(Str.trim raw).isEmpty

def parseU64 (key : String) (default : Nat) : FromEnv Nat :=
  ((parseEnv u64FromStr env key (.ofNat default)).map (·.toNat)).mapError .invalid

def parseU32 (key : String) (default : Nat) : FromEnv Nat :=
  ((parseEnv u32FromStr env key (.ofNat default)).map (·.toNat)).mapError .invalid

def parseBool (key : String) (default : Bool) : FromEnv Bool :=
  match env key with
  | none => .ok default
  | some raw =>
    if (Str.trim raw).isEmpty then .ok default
    else if Str.trim raw = "true" then .ok true
    else if Str.trim raw = "false" then .ok false
    else .error (.invalidBool key raw)

/-! ## Groups of settings -/

def domains : FromEnv {l : List String // l ≠ []} :=
  let l := Config.domainsFromEnv (envOr env "DOMAINS" "")
  if h : l = [] then
    .error (.bail "DOMAINS must be set to a comma-separated list of accepted domains")
  else .ok ⟨l, h⟩

def tlsConfig : FromEnv (Option TlsConfig) :=
  match (env "TLS_CERT_PATH").filter (!·.isEmpty), (env "TLS_KEY_PATH").filter (!·.isEmpty) with
  | some certPath, some keyPath => .ok (some ⟨certPath, keyPath⟩)
  | none, none => .ok none
  | _, _ => .error (.bail "TLS_CERT_PATH and TLS_KEY_PATH must both be set, or both be unset")

def reservedLocalParts : List String :=
  Config.default.reservedLocalParts ++
    (Config.parseList (envOr env "RESERVED_LOCAL_PARTS" "")).map Str.toAsciiLowercase

def vapidKeys : FromEnv (Option String × Option String) :=
  let publicKey := nonEmptyEnv env "VAPID_PUBLIC_KEY"
  let privateKey := nonEmptyEnv env "VAPID_PRIVATE_KEY"
  if publicKey.isSome ≠ privateKey.isSome then
    .error (.bail "VAPID_PUBLIC_KEY and VAPID_PRIVATE_KEY must both be set, or both be unset")
  else .ok (publicKey, privateKey)

def freeTier (base : TierPolicy) : FromEnv TierPolicy := do
  let activeMailboxes ← parseU32 env "FREE_ACTIVE_MAILBOXES" base.activeMailboxes
  let maxLifetimeSeconds ← parseU64 env "FREE_MAX_LIFETIME_SECONDS" base.maxLifetimeSeconds
  let customLocalParts ← parseBool env "FREE_CUSTOM_LOCAL_PARTS" base.customLocalParts
  let domainCount ← parseU32 env "FREE_DOMAIN_COUNT" base.domainCount
  let customDomains ← parseBool env "FREE_CUSTOM_DOMAINS" base.customDomains
  return ⟨activeMailboxes, maxLifetimeSeconds, customLocalParts, domainCount, customDomains⟩

def proTier (base : TierPolicy) : FromEnv TierPolicy := do
  let activeMailboxes ← parseU32 env "PRO_ACTIVE_MAILBOXES" base.activeMailboxes
  let maxLifetimeSeconds ← parseU64 env "PRO_MAX_LIFETIME_SECONDS" base.maxLifetimeSeconds
  return { base with activeMailboxes, maxLifetimeSeconds }

end

section
variable (host : Host)

def utf8 (bytes : List UInt8) : Option String := String.fromUTF8? ⟨bytes.toArray⟩

def apnsPrivateKey : FromEnv (Option String) :=
  match nonEmptyEnv host.env "APNS_KEY_PATH", nonEmptyEnv host.env "APNS_KEY_BASE64" with
  | some _, some _ => .error (.bail "set only one of APNS_KEY_PATH and APNS_KEY_BASE64")
  | some path, none =>
    match (host.read path).bind utf8 with
    | some pem => .ok (some pem)
    | none => .error (.context s!"reading APNS_KEY_PATH ({path})")
  | none, some b64 =>
    match host.base64Decode (.ofList (b64.toList.filter (!Str.isWhitespace ·))) with
    | none => .error (.context "APNS_KEY_BASE64 is not valid base64")
    | some bytes =>
      match utf8 bytes with
      | some pem => .ok (some pem)
      | none => .error (.context "APNS_KEY_BASE64 does not decode to PEM text")
  | none, none => .ok none

structure Apns where
  teamId : Option String
  keyId : Option String
  privateKey : Option String
  topic : Option String

def Apns.parts (apns : Apns) : List Bool :=
  [apns.teamId.isSome, apns.keyId.isSome, apns.privateKey.isSome, apns.topic.isSome]

def apns : FromEnv Apns := do
  let privateKey ← apnsPrivateKey host
  let apns : Apns := ⟨nonEmptyEnv host.env "APNS_TEAM_ID", nonEmptyEnv host.env "APNS_KEY_ID",
    privateKey, nonEmptyEnv host.env "APNS_TOPIC"⟩
  if apns.parts.any id && !apns.parts.all id then
    .error (.bail ("APNs requires APNS_TEAM_ID, APNS_KEY_ID, APNS_TOPIC, and a key " ++
      "(APNS_KEY_PATH or APNS_KEY_BASE64) together — set all or none"))
  else .ok apns

def tokenSigningKey : FromEnv (Option (List UInt8)) :=
  match nonEmptyEnv host.env "TOKEN_SIGNING_KEY" with
  | none => .ok none
  | some b64 =>
    match host.base64Decode b64 with
    | none => .error (.context "TOKEN_SIGNING_KEY is not valid base64")
    | some bytes =>
      let n := bytes.length
      if n < 32 then
        .error (.bail s!"TOKEN_SIGNING_KEY must decode to at least 32 bytes (got {n})")
      else .ok (some bytes)

/-- The checks of the entitlements. -/
def checkEntitlements (enforced : Bool) (key : Option (List UInt8)) (secretKey : Option String) :
    FromEnv Unit :=
  if enforced && key.isNone then
    .error (.bail "ENTITLEMENTS_ENFORCED=true requires TOKEN_SIGNING_KEY (base64, >=32 bytes)")
  else if secretKey.isSome && key.isNone then
    .error (.bail "REVENUECAT_SECRET_KEY requires TOKEN_SIGNING_KEY to mint client tokens")
  else .ok ()

/-- The checks of the attestation. -/
def checkAppAttest (required : Bool) (teamId bundleId : Option String) (key : Option (List UInt8)) :
    FromEnv Unit :=
  if teamId.isSome ≠ bundleId.isSome then
    .error (.bail
      "APP_ATTEST_TEAM_ID and APP_ATTEST_BUNDLE_ID must both be set, or both be unset")
  else if teamId.isSome && key.isNone then
    .error (.bail "APP_ATTEST_* requires TOKEN_SIGNING_KEY to mint client tokens")
  else if required && teamId.isNone then
    .error (.bail ("CLIENT_ATTESTATION_REQUIRED=true requires APP_ATTEST_TEAM_ID and " ++
      "APP_ATTEST_BUNDLE_ID (and TOKEN_SIGNING_KEY)"))
  else .ok ()

def appAttestRootPem : FromEnv (Option (List UInt8)) :=
  match nonEmptyEnv host.env "APP_ATTEST_ROOT_CA_PATH" with
  | none => .ok none
  | some path =>
    match host.read path with
    | some pem => .ok (some pem)
    | none => .error (.context s!"reading APP_ATTEST_ROOT_CA_PATH ({path})")

def fromEnv : FromEnv Settings := do
  let env := host.env
  let base := Settings.default
  let ⟨domains, hdomains⟩ ← domains env
  let databaseUrl := (notBlank env "DATABASE_URL").getD defaultSqliteUrl
  let defaultTtl ← parseU64 env "DEFAULT_TTL_SECONDS" base.config.defaultTtl
  let maxMessageSize ← parseU64 env "MAX_MESSAGE_SIZE_BYTES" base.config.maxMessageSize
  let maxRecipients ← parseU64 env "MAX_RECIPIENTS" base.config.maxRecipients
  let maxConnections ← parseU64 env "MAX_CONNECTIONS" base.listener.maxConnections
  let perIpConnectionsPerMin ←
    parseU64 env "SMTP_PER_IP_CONNECTIONS_PER_MIN" base.listener.perIpConnectionsPerMin
  let smtpHostname := (notBlank env "SMTP_HOSTNAME").getD (domains.head hdomains)
  let tls ← tlsConfig env
  let rateLimits ← (RateLimits.fromEnv env).mapError .invalid
  let apiTrustProxyHeaders ←
    parseBool env "API_TRUST_PROXY_HEADERS" base.config.apiTrustProxyHeaders
  let sseMaxConcurrent ← parseU64 env "SSE_MAX_CONCURRENT" base.sseMaxConcurrent
  let sseMaxPerIp ← parseU64 env "SSE_MAX_PER_IP" base.sseMaxPerIp
  let maxAddressesPerIpPerDay ←
    parseU32 env "MAX_ADDRESSES_PER_IP_PER_DAY" base.maxAddressesPerIpPerDay
  let maxMessagesPerMailbox ←
    parseU32 env "MAX_MESSAGES_PER_MAILBOX" base.config.maxMessagesPerMailbox
  let maxMailboxBytes ← parseU64 env "MAX_MAILBOX_BYTES" base.config.maxMailboxBytes
  let minFreeDiskBytes ← parseU64 env "MIN_FREE_DISK_BYTES" base.config.minFreeDiskBytes
  let (vapidPublicKey, vapidPrivateKey) ← vapidKeys env
  let maxSubscriptionsPerMailbox ←
    parseU32 env "MAX_SUBSCRIPTIONS_PER_MAILBOX" base.config.maxSubscriptionsPerMailbox
  let apns ← apns host
  let catchAllEnabled ← parseBool env "CATCH_ALL_ENABLED" base.config.catchAllEnabled
  let customDomainsEnabled ←
    parseBool env "CUSTOM_DOMAINS_ENABLED" base.config.customDomainsEnabled
  let maxCustomDomainsPerIpPerDay ←
    parseU32 env "MAX_CUSTOM_DOMAINS_PER_IP_PER_DAY" base.maxCustomDomainsPerIpPerDay
  let customDomainVerifyThrottle ←
    parseU64 env "CUSTOM_DOMAIN_VERIFY_THROTTLE_SECONDS" base.customDomainVerifyThrottle
  let storeRawMessage ← parseBool env "STORE_RAW_MESSAGE" base.config.storeRawMessage
  let entitlementsEnforced ←
    parseBool env "ENTITLEMENTS_ENFORCED" base.config.entitlementsEnforced
  let tokenSigningKey ← tokenSigningKey host
  let revenuecatSecretKey := nonEmptyEnv env "REVENUECAT_SECRET_KEY"
  let revenuecatEntitlementId :=
    (nonEmptyEnv env "REVENUECAT_ENTITLEMENT_ID").getD base.revenuecatEntitlementId
  checkEntitlements entitlementsEnforced tokenSigningKey revenuecatSecretKey
  let clientAttestationRequired ←
    parseBool env "CLIENT_ATTESTATION_REQUIRED" base.config.clientAttestationRequired
  let appAttestTeamId := nonEmptyEnv env "APP_ATTEST_TEAM_ID"
  let appAttestBundleId := nonEmptyEnv env "APP_ATTEST_BUNDLE_ID"
  checkAppAttest clientAttestationRequired appAttestTeamId appAttestBundleId tokenSigningKey
  let appAttestRootPem ← appAttestRootPem host
  let freeTier ← freeTier env base.config.freeTier
  let proTier ← proTier env base.config.proTier
  return {
    config := {
      domains, domains_ne := hdomains, defaultTtl, maxMessageSize, maxRecipients, smtpHostname
      reservedLocalParts := reservedLocalParts env
      apiTrustProxyHeaders, maxMessagesPerMailbox, maxMailboxBytes, minFreeDiskBytes
      sqlitePath := sqlitePath databaseUrl
      vapidPublicKey, vapidPrivateKey, maxSubscriptionsPerMailbox
      apnsTeamId := apns.teamId
      apnsKeyId := apns.keyId
      apnsPrivateKey := apns.privateKey
      apnsTopic := apns.topic
      catchAllEnabled, customDomainsEnabled, storeRawMessage, entitlementsEnforced, tokenSigningKey
      clientAttestationRequired, appAttestTeamId, appAttestBundleId, appAttestRootPem, freeTier
      proTier }
    listener := ⟨maxConnections, perIpConnectionsPerMin⟩
    tls, rateLimits, sseMaxConcurrent, sseMaxPerIp, maxAddressesPerIpPerDay
    maxCustomDomainsPerIpPerDay, customDomainVerifyThrottle, revenuecatSecretKey
    revenuecatEntitlementId }

end
end Settings
end AnonyMail
