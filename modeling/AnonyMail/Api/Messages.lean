import AnonyMail.Api.Entitlements

/-! # Message endpoints (`api/messages.rs`)

The responses carry the data of the store. The headers of downloads are in the module `Downloads`. -/

namespace AnonyMail.Api.Messages

def defaultPageSize : Nat := 50

def maxPageSize : Nat := 200

variable (app : AppState)

def list (address : String) (limit : Option Nat) (since : Option Uuid) :
    Handler (List MessageSummary) := do
  let address := Str.toAsciiLowercase address
  let _ ← okOr (.notFound "mailbox not found") (← store (.getMailbox address))
  let limit := min (max (limit.getD defaultPageSize) 1) maxPageSize
  store (.listMessages address limit since)

def get (address : String) (id : Uuid) : Handler StoredMessage := do
  okOr (.notFound "message not found") (← store (.getMessage (Str.toAsciiLowercase address) id))

/-- Open like the read endpoints. -/
def markRead (address : String) (id : Uuid) : Handler Unit := do
  if ← store (.markSeen (Str.toAsciiLowercase address) id) then return
  else throw (.notFound "message not found")

/-- The number of messages deleted. -/
def clear (address : String) (headers : HeaderMap) : Handler Nat := do
  let address := Str.toAsciiLowercase address
  let _ ← attestationGate app headers
  let _ ← authorizeOwner app address headers
  store (.deleteAllMessages address)

def delete (address : String) (id : Uuid) (headers : HeaderMap) : Handler Unit := do
  let address := Str.toAsciiLowercase address
  let _ ← attestationGate app headers
  let _ ← authorizeOwner app address headers
  if ← store (.deleteMessage address id) then return
  else throw (.notFound "message not found")

def getRaw (address : String) (id : Uuid) : Handler (List UInt8) := do
  okOr (.notFound "raw message not available (missing, or raw retention is disabled)")
    (← store (.getRawMessage (Str.toAsciiLowercase address) id))

def getAttachment (address : String) (id attachmentId : Uuid) : Handler Attachment := do
  okOr (.notFound "attachment not found")
    (← store (.getAttachment (Str.toAsciiLowercase address) id attachmentId))

end AnonyMail.Api.Messages
