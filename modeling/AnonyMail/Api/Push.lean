import AnonyMail.Api.Entitlements

/-! # Push subscription endpoints (`api/push.rs`) -/

namespace AnonyMail.Api

structure SubscriptionKeys where
  p256dh : String
  auth : String
  deriving DecidableEq, Repr

structure SubscribeRequest where
  kind : Option SubscriptionKind
  endpoint : Option String
  keys : Option SubscriptionKeys
  deviceToken : Option String
  deriving DecidableEq, Repr

structure UnsubscribeRequest where
  endpoint : Option String
  deviceToken : Option String
  deriving DecidableEq, Repr

structure SubscribeResponse where
  id : Uuid
  kind : SubscriptionKind
  deriving DecidableEq, Repr

namespace Push

def config (app : AppState) : Bool × Bool :=
  (app.config.pushConfigured, app.config.apnsConfigured)

def vapidPublicKey (app : AppState) : Handler String :=
  okOr (.serviceUnavailable "push not configured") app.config.vapidPublicKey

/-- A field that is there and not blank. -/
def present (field : Option String) : Option String :=
  (field.map Str.trim).filter (!·.isEmpty)

def subscriptionKind (req : SubscribeRequest) : Except ApiError SubscriptionKind :=
  match req.kind, req.endpoint, req.deviceToken with
  | some k, _, _ => .ok k
  | none, some _, none => .ok .webPush
  | none, none, some _ => .ok .apns
  | none, _, _ =>
    .error (.badRequest "provide either endpoint+keys (webpush) or device_token (apns)")

/-- The kind, the endpoint or device token, and the keys. -/
def validateSubscription (req : SubscribeRequest) :
    Except ApiError (SubscriptionKind × String × String × String) := do
  let kind ← subscriptionKind req
  match kind with
  | .webPush =>
    match present req.endpoint with
    | none => throw (.badRequest "webpush subscriptions require endpoint")
    | some endpoint =>
      if !Str.startsWith endpoint "https://" then
        throw (.badRequest "endpoint must be an https:// push-service URL")
      else if Str.len endpoint > 2048 then throw (.badRequest "endpoint too long")
      else
        match req.keys with
        | none => throw (.badRequest "webpush subscriptions require keys: \x7b p256dh, auth \x7d")
        | some keys =>
          let p256dh := Str.trim keys.p256dh
          let auth := Str.trim keys.auth
          if p256dh.isEmpty || Str.len p256dh > 256 || auth.isEmpty || Str.len auth > 128 then
            throw (.badRequest
              "keys.p256dh and keys.auth must be the base64url values from the browser subscription")
          else return (kind, endpoint, p256dh, auth)
  | .apns =>
    match present req.deviceToken with
    | none => throw (.badRequest "apns subscriptions require device_token")
    | some token =>
      if Str.len token > 200 || token.toList.any Str.isWhitespace then
        throw (.badRequest
          "device_token must be the hex token from didRegisterForRemoteNotifications")
      else return (kind, token, "", "")

variable (app : AppState)

def subscriptionLimitMessage (limit : Nat) : String :=
  s!"push subscription limit reached ({limit} per mailbox)"

/-- The part of `subscribe` behind the checks of the request. -/
def register (address : String) (headers : HeaderMap) (kind : SubscriptionKind)
    (endpoint p256dh auth : String) : Handler SubscribeResponse := do
  let address := Str.toAsciiLowercase address
  let _ ← attestationGate app headers
  let _ ← authorizeOwner app address headers
  match ← perform (.store (.addSubscription address kind endpoint p256dh auth
    app.config.maxSubscriptionsPerMailbox)) with
  | .ok sub => return ⟨sub.id, sub.kind⟩
  | .error (.subscriptionLimit limit) =>
    throw (.tooManyRequests (subscriptionLimitMessage limit))
  | .error e => throw (.internal (.store e))

def subscribe (address : String) (headers : HeaderMap) (body : Option SubscribeRequest) :
    Handler SubscribeResponse :=
  match body with
  | none => throw (.badRequest "body must be either \x7b endpoint, keys: \x7b p256dh, auth \x7d \x7d (webpush) or \x7b device_token \x7d (apns)")
  | some req =>
    match validateSubscription req with
    | .error e => throw e
    | .ok (kind, endpoint, p256dh, auth) =>
      match kind with
      | .webPush =>
        if !app.config.pushConfigured then throw (.serviceUnavailable "web push not configured")
        else register app address headers kind endpoint p256dh auth
      | .apns =>
        if !app.config.apnsConfigured then throw (.serviceUnavailable "apns not configured")
        else register app address headers kind endpoint p256dh auth

def unsubscribe (address : String) (headers : HeaderMap) (body : Option UnsubscribeRequest) :
    Handler Unit :=
  match present (body.bind fun req => req.endpoint.or req.deviceToken) with
  | none => throw (.badRequest "body must be: \x7b endpoint \x7d or \x7b device_token \x7d")
  | some identifier => do
    let address := Str.toAsciiLowercase address
    let _ ← attestationGate app headers
    let _ ← authorizeOwner app address headers
    if ← store (.deleteSubscription address identifier) then return
    else throw (.notFound "subscription not found")

end Push
end AnonyMail.Api
