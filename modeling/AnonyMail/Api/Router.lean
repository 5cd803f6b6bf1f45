import AnonyMail.Api.Addresses
import AnonyMail.Api.Client
import AnonyMail.Api.Messages
import AnonyMail.Api.Push

/-! # The router (`api/mod.rs`)

A request is a route together with what its extractors yield; requests that the extractors, the
rate limits or the static pages answer do not get here. -/

namespace AnonyMail.Api

open Calls

inductive Request
  | health
  | ready
  | capabilities
  | listDomains
  | createAddress (peer : IpAddr) (headers : HeaderMap) (body : Option CreateAddressRequest)
  | getAddress (address : String)
  | deleteAddress (address : String) (headers : HeaderMap)
  | extendAddress (address : String) (headers : HeaderMap)
  | rotateAddress (address : String) (headers : HeaderMap)
  | listMessages (address : String) (limit : Option Nat) (since : Option Uuid)
  | clearMessages (address : String) (headers : HeaderMap)
  | getMessage (address : String) (id : Uuid)
  | deleteMessage (address : String) (id : Uuid) (headers : HeaderMap)
  | markRead (address : String) (id : Uuid)
  | getRaw (address : String) (id : Uuid)
  | getAttachment (address : String) (id attachmentId : Uuid)
  | pushConfig
  | vapidPublicKey
  | subscribe (address : String) (headers : HeaderMap) (body : Option SubscribeRequest)
  | unsubscribe (address : String) (headers : HeaderMap) (body : Option UnsubscribeRequest)
  | verifyEntitlements (headers : HeaderMap) (rcAppUserId : Option String)
  | challenge
  | attest (req : AttestRequest)
  | assert (req : AssertRequest)
  | createDomain (peer : IpAddr) (headers : HeaderMap) (domain : String)
  | getDomain (domain : String) (headers : HeaderMap)
  | verifyDomain (domain : String) (headers : HeaderMap)
  | deleteDomain (domain : String) (headers : HeaderMap)
  | events (address : String) (peer : IpAddr) (headers : HeaderMap)

structure Capabilities where
  apnsPush : Bool
  webPush : Bool
  customDomains : Bool
  attestationSupported : Bool
  attestationRequired : Bool
  entitlementsEnforced : Bool
  free : TierPolicy
  pro : TierPolicy

inductive Response
  | status (text : String)
  | noContent
  | capabilities (c : Capabilities)
  | domains (l : List String)
  | created (r : CreateAddressResponse)
  | mailbox (m : Mailbox)
  | ownerToken (token : String)
  | messages (l : List MessageSummary)
  | deleted (n : Nat)
  | message (m : StoredMessage)
  | raw (content : List UInt8)
  | attachment (a : Attachment)
  | pushConfig (webpush apns : Bool)
  | vapidPublicKey (key : String)
  | subscribed (r : SubscribeResponse)
  | clientToken (r : ClientTokenResponse)
  | challenge (r : ChallengeResponse)
  | customDomain (r : CustomDomainResponse)
  | stream (address : String)

variable (app : AppState)

def ready : Handler String := do
  match ← perform (.store .ping) with
  | .error _ => throw (.serviceUnavailable "store unavailable")
  | .ok _ => return "ready"

def capabilities : Capabilities where
  apnsPush := app.config.apnsConfigured
  webPush := app.config.pushConfigured
  customDomains := app.config.customDomainsEnabled
  attestationSupported := app.config.appAttestConfigured
  attestationRequired := app.config.clientAttestationRequired
  entitlementsEnforced := app.config.entitlementsEnforced
  free := app.config.freeTier
  pro := app.config.proTier

/-- The stream of events of a mailbox. -/
def events (address : String) (peer : IpAddr) (headers : HeaderMap) : Handler String := do
  let ip := clientIp app.deps headers peer app.config.apiTrustProxyHeaders
  if ← perform (.tryAcquireSse ip) then return Str.toAsciiLowercase address
  else throw (.tooManyRequests "too many concurrent event streams")

/-- Routes that exist only when custom domains are enabled. -/
def ifCustomDomains (h : Handler Response) : Handler Response :=
  if app.config.customDomainsEnabled then h else throw (.notFound "")

def handle : Request → Handler Response
  | .health => return .status "ok"
  | .ready => .status <$> ready
  | .capabilities => return .capabilities (Api.capabilities app)
  | .listDomains => return .domains app.config.domains
  | .createAddress peer headers body =>
    .created <$> Addresses.create app peer headers (body.getD ⟨none, none⟩)
  | .getAddress address => .mailbox <$> Addresses.get address
  | .deleteAddress address headers => do Addresses.delete app address headers; return .noContent
  | .extendAddress address headers => .mailbox <$> Addresses.extend app address headers
  | .rotateAddress address headers => .ownerToken <$> Addresses.rotate app address headers
  | .listMessages address limit since => .messages <$> Messages.list address limit since
  | .clearMessages address headers => .deleted <$> Messages.clear app address headers
  | .getMessage address id => .message <$> Messages.get address id
  | .deleteMessage address id headers => do
    Messages.delete app address id headers; return .noContent
  | .markRead address id => do Messages.markRead address id; return .noContent
  | .getRaw address id => .raw <$> Messages.getRaw address id
  | .getAttachment address id attachmentId =>
    .attachment <$> Messages.getAttachment address id attachmentId
  | .pushConfig => return .pushConfig (Push.config app).1 (Push.config app).2
  | .vapidPublicKey => .vapidPublicKey <$> Push.vapidPublicKey app
  | .subscribe address headers body => .subscribed <$> Push.subscribe app address headers body
  | .unsubscribe address headers body => do
    Push.unsubscribe app address headers body; return .noContent
  | .verifyEntitlements headers rcAppUserId =>
    .clientToken <$> Entitlements.verify app headers rcAppUserId
  | .challenge => .challenge <$> Client.challenge app
  | .attest req => .clientToken <$> Client.attest app req
  | .assert req => .clientToken <$> Client.assert app req
  | .createDomain peer headers domain =>
    ifCustomDomains app (.customDomain <$> CustomDomains.create app peer headers domain)
  | .getDomain domain headers =>
    ifCustomDomains app (.customDomain <$> CustomDomains.get app domain headers)
  | .verifyDomain domain headers =>
    ifCustomDomains app (.customDomain <$> CustomDomains.verify app domain headers)
  | .deleteDomain domain headers =>
    ifCustomDomains app do CustomDomains.delete app domain headers; return .noContent
  | .events address peer headers => .stream <$> events app address peer headers

end AnonyMail.Api
