import AnonyMail.Text
import AnonyMail.Model

/-! # Configuration (`config.rs`)

The settings that the modelled code reads. -/

namespace AnonyMail

inductive Tier
  | free
  | pro
  deriving DecidableEq, Repr

/-- `0` means no cap. -/
structure TierPolicy where
  activeMailboxes : Nat
  maxLifetimeSeconds : Nat
  customLocalParts : Bool
  domainCount : Nat
  customDomains : Bool
  deriving DecidableEq, Repr

structure Config where
  domains : List String
  /-- `from_env` refuses to start without a domain. -/
  domains_ne : domains ≠ []
  /-- Seconds. -/
  defaultTtl : Nat
  maxMessageSize : Nat
  maxRecipients : Nat
  smtpHostname : String
  reservedLocalParts : List String
  apiTrustProxyHeaders : Bool
  maxMessagesPerMailbox : Nat
  maxMailboxBytes : Nat
  minFreeDiskBytes : Nat
  /-- The database file, `none` on Postgres (`sqlite_path`). -/
  sqlitePath : Option String
  vapidPublicKey : Option String
  vapidPrivateKey : Option String
  maxSubscriptionsPerMailbox : Nat
  apnsTeamId : Option String
  apnsKeyId : Option String
  apnsPrivateKey : Option String
  apnsTopic : Option String
  catchAllEnabled : Bool
  customDomainsEnabled : Bool
  storeRawMessage : Bool
  entitlementsEnforced : Bool
  tokenSigningKey : Option (List UInt8)
  clientAttestationRequired : Bool
  appAttestTeamId : Option String
  appAttestBundleId : Option String
  appAttestRootPem : Option (List UInt8)
  freeTier : TierPolicy
  proTier : TierPolicy

namespace Config

variable (cfg : Config)

/-- The values of `Config::default`. -/
def default : Config where
  domains := ["example.com"]
  domains_ne := by simp
  defaultTtl := 3600
  maxMessageSize := 26214400
  maxRecipients := 10
  smtpHostname := "example.com"
  reservedLocalParts := ["postmaster", "abuse", "hostmaster", "webmaster", "noc", "security",
    "info", "marketing", "sales", "support", "admin", "administrator", "ssladmin",
    "ssladministrator", "sysadmin", "root", "mailer-daemon", "noreply", "no-reply", "daemon"]
  apiTrustProxyHeaders := false
  maxMessagesPerMailbox := 50
  maxMailboxBytes := 41943040
  minFreeDiskBytes := 268435456
  sqlitePath := some "data/anony-mail.db"
  vapidPublicKey := none
  vapidPrivateKey := none
  maxSubscriptionsPerMailbox := 5
  apnsTeamId := none
  apnsKeyId := none
  apnsPrivateKey := none
  apnsTopic := none
  catchAllEnabled := false
  customDomainsEnabled := true
  storeRawMessage := false
  entitlementsEnforced := false
  tokenSigningKey := none
  clientAttestationRequired := false
  appAttestTeamId := none
  appAttestBundleId := none
  appAttestRootPem := none
  freeTier := ⟨5, 86400, false, 1, false⟩
  proTier := ⟨50, 0, true, 0, true⟩

def pushConfigured : Bool := cfg.vapidPublicKey.isSome && cfg.vapidPrivateKey.isSome

def apnsConfigured : Bool :=
  cfg.apnsTeamId.isSome && cfg.apnsKeyId.isSome && cfg.apnsPrivateKey.isSome &&
    cfg.apnsTopic.isSome

def appAttestConfigured : Bool := cfg.appAttestTeamId.isSome && cfg.appAttestBundleId.isSome

def appAttestAppId : Option String :=
  match cfg.appAttestTeamId, cfg.appAttestBundleId with
  | some team, some bundle => some s!"{team}.{bundle}"
  | _, _ => none

def tierPolicy : Tier → TierPolicy
  | .free => cfg.freeTier
  | .pro => cfg.proTier

def mailboxQuotas : MailboxQuotas := ⟨cfg.maxMessagesPerMailbox, cfg.maxMailboxBytes⟩

/-- `parse_list`: the entries between commas, less the blank ones. -/
def parseList (raw : String) : List String :=
  ((raw.toList.splitOn ',').map fun part => Str.trim (.ofList part)).filter (!·.isEmpty)

/-- The field `domains` that `from_env` makes of the variable `DOMAINS`. -/
def domainsFromEnv (raw : String) : List String := (parseList raw).map Str.toAsciiLowercase

def acceptsDomain (domain : String) : Bool :=
  cfg.domains.any (· == Str.toAsciiLowercase domain)

def isReservedLocalPart (localPart : String) : Bool := cfg.reservedLocalParts.contains localPart

end Config
end AnonyMail
