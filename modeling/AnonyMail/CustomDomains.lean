import AnonyMail.Api.Basic

/-! # Custom domains: DNS checks and status transitions (`custom_domains.rs`) -/

namespace AnonyMail.CustomDomains

open Calls Encoding

def txtLabel : String := "_anonymail"

def txtValueStart : String := "anonymail-verify="

def graceHours : Int := 48

def recheckAfterHours : Int := 24

def txtValue (txtToken : String) : String := txtValueStart ++ txtToken

def txtHost (domain : String) : String := txtLabel ++ "." ++ domain

/-- 16 random bytes as lowercase hex. -/
def generateTxtToken : Run String := do
  return hex (← call (.randomBytes 16))

def isValidLabel (label : String) : Bool :=
  !label.isEmpty && Str.len label ≤ 63 && !Str.startsWith label "-" && !Str.endsWith label "-" &&
    label.toList.all fun c => Str.isAsciiLowercase c || Str.isAsciiDigit c || c == '-'

def isValidDomain (domain : String) : Bool :=
  if Str.len domain > 253 then false
  else
    let labels := Api.splitChar '.' domain
    if labels.length < 2 then false
    else if !labels.all isValidLabel then false
    else
      match labels.getLast? with
      | some tld => Str.len tld ≥ 2 && tld.toList.all Str.isAsciiLowercase
      | none => false

/-- `trim().trim_end_matches('.').to_ascii_lowercase()`. -/
def normalize (raw : String) : String :=
  Str.toAsciiLowercase (Str.trimEndMatches (Str.trim raw) '.')

def validateClaimable (cfg : Config) (raw : String) : Except String String :=
  let domain := normalize raw
  if !isValidDomain domain then .error s!"not a valid domain name: {raw}"
  else if cfg.domains.any fun served => domain == served || Str.endsWith domain ("." ++ served) then
    .error s!"domain is reserved by this server: {domain}"
  else if domain == Str.toAsciiLowercase cfg.smtpHostname then
    .error s!"domain is reserved by this server: {domain}"
  else .ok domain

structure DnsCheck where
  record : String
  ok : Bool
  expected : String
  found : Option String
  deriving DecidableEq, Repr

def summarize (values : List String) : Option String :=
  if values.isEmpty then none else some (Str.join ", " values)

/-- The check of one record type; a lookup that failed is not ok. -/
def DnsCheck.of (record expected : String) (isMatch : String → Bool) :
    Option (List String) → DnsCheck
  | some values => ⟨record, values.any isMatch, expected, summarize values⟩
  | none => ⟨record, false, expected, none⟩

def expectedMx (cfg : Config) : String :=
  Str.toAsciiLowercase (Str.trimEndMatches cfg.smtpHostname '.')

def txtCheck (domain : CustomDomain) : Option (List String) → DnsCheck :=
  .of "txt" (txtValue domain.txtToken) fun v => Str.trim v == txtValue domain.txtToken

def mxCheck (cfg : Config) : Option (List String) → DnsCheck :=
  .of "mx" (expectedMx cfg) fun h => h == expectedMx cfg

/-- The lookups run concurrently; neither sees the other. -/
def runChecks (cfg : Config) (domain : CustomDomain) : Run (List DnsCheck × Bool) := do
  let txt := txtCheck domain (← call (.txtRecords (txtHost domain.domain)))
  let mx := mxCheck cfg (← call (.mxHosts domain.domain))
  return ([txt, mx], txt.ok && mx.ok)

def nextStatus (current : CustomDomain) (allOk : Bool) (now : DateTime) :
    CustomDomainStatus × Option DateTime :=
  if allOk then (.verified, some now)
  else
    match current.status with
    | .pending => (.pending, current.verifiedAt)
    | .failed => (.failed, current.verifiedAt)
    | .verified =>
      let anchor := current.verifiedAt.getD current.createdAt
      if now - anchor > Duration.hours graceHours then (.failed, current.verifiedAt)
      else (.verified, current.verifiedAt)

def checkAndRecord (cfg : Config) (domain : CustomDomain) :
    Run (Except StoreError (List DnsCheck × CustomDomainStatus × Option DateTime)) := do
  let (checks, allOk) ← runChecks cfg domain
  let now ← call .now
  let (status, verifiedAt) := nextStatus domain allOk now
  match ← call (.store (.recordCustomDomainCheck domain.domain status verifiedAt now)) with
  | .ok _ => return .ok (checks, status, verifiedAt)
  | .error e => return .error e

/-- The inner loop of one scan; errors are logged and skipped. -/
def recheckAll (cfg : Config) : List CustomDomain → Run Unit
  | [] => return
  | domain :: due => do
    let _ ← checkAndRecord cfg domain
    recheckAll cfg due

/-- One turn of `reverify_loop`. -/
def reverifyScan (cfg : Config) : Run Unit := do
  let now ← call .now
  let cutoff := now - Duration.hours recheckAfterHours
  match ← call (.store (.listCustomDomainsToRecheck cutoff)) with
  | .ok due => recheckAll cfg due
  | .error _ => return

end AnonyMail.CustomDomains
