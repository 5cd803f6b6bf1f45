import Mathlib.Data.List.Sort
import AnonyMail.Lib.HashMap
import AnonyMail.Lib.KeyedList
import AnonyMail.Model

/-! # The in-memory store (`store/memory.rs`)

Every method takes the lock for the whole of its work, so a method is a function of the state
under the lock. What a method reads from outside (the clock, fresh UUIDs) is an argument. -/

namespace AnonyMail

namespace MemoryStore

structure Entry where
  message : StoredMessage
  contents : List (Uuid × List UInt8)
  raw : Option (List UInt8)
  deriving DecidableEq

structure Inner where
  mailboxes : HashMap String Mailbox
  messages : List Entry
  subscriptions : List PushSubscription
  customDomains : HashMap String CustomDomain
  attestedDevices : HashMap String AttestedDevice
  deriving DecidableEq

def Inner.empty : Inner := ⟨∅, [], [], ∅, ∅⟩

/-- The entry is in the mailbox `address` and has the id `id`. -/
def Entry.isAt (e : Entry) (address : String) (id : Uuid) : Bool :=
  e.message.mailboxAddress == address && e.message.id == id

/-- The order of listings: newest first, larger ids first among equal times. -/
def newestFirst (a b : DateTime × Uuid) : Prop := b.1 < a.1 ∨ b.1 = a.1 ∧ b.2 ≤ a.2

instance : DecidableRel newestFirst := fun a b =>
  inferInstanceAs (Decidable (b.1 < a.1 ∨ b.1 = a.1 ∧ b.2 ≤ a.2))

def u64Max : Nat := 2 ^ 64 - 1

/-- Ids past the byte cap, walking newest first; the new message is exempt. -/
def overBytes (maxBytes : Nat) (newId : Uuid) :
    Nat → List (DateTime × Uuid × Nat) → List Uuid
  | _, [] => []
  | running, (_, id, size) :: rest =>
    let running := min (running + size) u64Max
    if running > maxBytes ∧ id ≠ newId then id :: overBytes maxBytes newId running rest
    else overBytes maxBytes newId running rest

/-- The mailbox's messages as `(received_at, id, size)`, newest first. -/
def newestFirstOf (messages : List Entry) (address : String) : List (DateTime × Uuid × Nat) :=
  ((messages.filter fun e => e.message.mailboxAddress == address).map fun e =>
    (e.message.receivedAt, e.message.id, e.message.rawSize.toNat)).insertionSort
      fun a b => newestFirst (a.1, a.2.1) (b.1, b.2.1)

def enforceQuotas (messages : List Entry) (address : String) (newId : Uuid)
    (quotas : MailboxQuotas) : List Entry :=
  if quotas = .unlimited then messages else
  let sorted := newestFirstOf messages address
  let overCount :=
    if quotas.maxMessages > 0 then (sorted.drop quotas.maxMessages).map (·.2.1) else []
  let overSize := if quotas.maxBytes > 0 then overBytes quotas.maxBytes newId 0 sorted else []
  let drop := overCount ++ overSize
  if drop.isEmpty then messages else messages.filter fun e => !drop.contains e.message.id

/-! ## Mailboxes -/

def createMailbox (s : Inner) (address domain : String) (expiresAt : DateTime)
    (ownerTokenHash creatorDeviceHash : Option String) (now : DateTime) :
    Except StoreError Mailbox × Inner :=
  if address ∈ s.mailboxes then
    (.error (.uniqueViolation s!"mailbox already exists: {address}"), s)
  else
    let mailbox : Mailbox := ⟨address, domain, now, expiresAt, ownerTokenHash, creatorDeviceHash⟩
    (.ok mailbox, { s with mailboxes := s.mailboxes.insert address mailbox })

def getMailbox (s : Inner) (address : String) : Option Mailbox := s.mailboxes.lookup address

def mailboxIsActive (s : Inner) (address : String) (now : DateTime) : Bool :=
  (s.mailboxes.lookup address).any fun m => m.expiresAt > now

def extendMailbox (s : Inner) (address : String) (newExpiresAt : DateTime) :
    Option Mailbox × Inner :=
  match s.mailboxes.lookup address with
  | some mb =>
    let mb := { mb with expiresAt := newExpiresAt }
    (some mb, { s with mailboxes := s.mailboxes.insert address mb })
  | none => (none, s)

def deleteMailbox (s : Inner) (address : String) : Bool × Inner :=
  ((s.mailboxes.lookup address).isSome,
    { s with
      mailboxes := s.mailboxes.erase address
      messages := s.messages.filter fun e => e.message.mailboxAddress != address
      subscriptions := s.subscriptions.filter fun x => x.mailboxAddress != address })

def rotateOwnerToken (s : Inner) (address newHash : String) : Bool × Inner :=
  match s.mailboxes.lookup address with
  | some mb =>
    let mb := { mb with ownerTokenHash := some newHash }
    (true, { s with mailboxes := s.mailboxes.insert address mb })
  | none => (false, s)

def purgeExpired (s : Inner) (now : DateTime) : Nat × Inner :=
  let expired := (s.mailboxes.values.filter fun m => m.expiresAt ≤ now).map (·.address)
  (expired.length,
    { s with
      mailboxes := s.mailboxes.eraseAll expired
      messages := s.messages.filter fun e => !expired.contains e.message.mailboxAddress
      subscriptions := s.subscriptions.filter fun x => !expired.contains x.mailboxAddress })

def countActiveMailboxesByDevice (s : Inner) (creatorDeviceHash : String) (now : DateTime) : Nat :=
  (s.mailboxes.values.filter fun m =>
    m.creatorDeviceHash == some creatorDeviceHash && decide (m.expiresAt > now)).length

/-! ## Messages -/

/-- `content.len() as i32`. -/
def asI32 (n : Nat) : Int := (BitVec.ofNat 32 n).toInt

/-- `id` and `attachmentIds` are the fresh UUIDs, `receivedAt` the clock reading. -/
def saveMessage (quotas : MailboxQuotas) (s : Inner) (address : String) (message : NewMessage)
    (id : Uuid) (attachmentIds : List Uuid) (receivedAt : DateTime) : StoredMessage × Inner :=
  let atts := attachmentIds.zip message.attachments
  let metas := atts.map fun (aid, att) =>
    (⟨aid, att.filename, att.contentType, asI32 att.content.length⟩ : AttachmentMeta)
  let contents := atts.map fun (aid, att) => (aid, att.content)
  let stored : StoredMessage :=
    { id, mailboxAddress := address, mailFrom := message.mailFrom, subject := message.subject,
      messageDate := message.messageDate, textBody := message.textBody,
      htmlBody := message.htmlBody, rawSize := message.rawSize, receivedAt, seen := false,
      attachments := metas }
  let messages := s.messages ++ [⟨stored, contents, message.rawContent⟩]
  (stored, { s with messages := enforceQuotas messages address id quotas })

def listMessages (s : Inner) (address : String) (limit : Nat) (since : Option Uuid) :
    List MessageSummary :=
  let anchor := since.bind fun id =>
    (s.messages.find? (·.isAt address id)).map fun e => (e.message.receivedAt, e.message.id)
  let summaries := ((s.messages.filter fun e => e.message.mailboxAddress == address).filter
    fun e => anchor.all fun a => !decide (newestFirst a (e.message.receivedAt, e.message.id))).map
      fun e => (⟨e.message.id, e.message.mailFrom, e.message.subject, e.message.receivedAt,
        !e.message.attachments.isEmpty, e.message.seen⟩ : MessageSummary)
  let sorted := summaries.insertionSort
    fun a b => newestFirst (a.receivedAt, a.id) (b.receivedAt, b.id)
  if limit > 0 then sorted.take limit else sorted

def getMessage (s : Inner) (address : String) (id : Uuid) : Option StoredMessage :=
  (s.messages.find? (·.isAt address id)).map (·.message)

def getRawMessage (s : Inner) (address : String) (id : Uuid) : Option (List UInt8) :=
  (s.messages.find? (·.isAt address id)).bind (·.raw)

def getAttachment (s : Inner) (address : String) (messageId attachmentId : Uuid) :
    Option Attachment := do
  let entry ← s.messages.find? (·.isAt address messageId)
  let info ← entry.message.attachments.find? (·.id == attachmentId)
  let (_, content) ← entry.contents.find? (·.1 == attachmentId)
  return ⟨info.filename, info.contentType, content⟩

def deleteMessage (s : Inner) (address : String) (id : Uuid) : Bool × Inner :=
  let messages := s.messages.filter fun e => !e.isAt address id
  (messages.length != s.messages.length, { s with messages })

/-- Set the flag of the first entry found, as `iter_mut().find(..)` does. -/
def setSeen (address : String) (id : Uuid) : List Entry → List Entry
  | [] => []
  | e :: es =>
    if e.isAt address id then { e with message := { e.message with seen := true } } :: es
    else e :: setSeen address id es

def markSeen (s : Inner) (address : String) (id : Uuid) : Bool × Inner :=
  ((s.messages.find? (·.isAt address id)).isSome,
    { s with messages := setSeen address id s.messages })

def deleteAllMessages (s : Inner) (address : String) : Nat × Inner :=
  let messages := s.messages.filter fun e => e.message.mailboxAddress != address
  (s.messages.length - messages.length, { s with messages })

/-! ## Push subscriptions -/

/-- Replace kind and keys of the first subscription of the endpoint. -/
def refresh (address endpoint : String) (kind : SubscriptionKind) (p256dh auth : String) :
    List PushSubscription → List PushSubscription
  | [] => []
  | x :: xs =>
    if x.mailboxAddress = address ∧ x.endpoint = endpoint then
      { x with kind, p256dh, auth } :: xs
    else x :: refresh address endpoint kind p256dh auth xs

def addSubscription (s : Inner) (address : String) (kind : SubscriptionKind)
    (endpoint p256dh auth : String) (maxPerMailbox : Nat) (id : Uuid) (now : DateTime) :
    Except StoreError PushSubscription × Inner :=
  match s.subscriptions.find? fun x => x.mailboxAddress == address && x.endpoint == endpoint with
  | some existing =>
    (.ok { existing with kind, p256dh, auth },
      { s with subscriptions := refresh address endpoint kind p256dh auth s.subscriptions })
  | none =>
    let count := (s.subscriptions.filter fun x => x.mailboxAddress == address).length
    if maxPerMailbox > 0 ∧ count ≥ maxPerMailbox then
      (.error (.subscriptionLimit maxPerMailbox), s)
    else
      let sub : PushSubscription := ⟨id, address, kind, endpoint, p256dh, auth, now⟩
      (.ok sub, { s with subscriptions := s.subscriptions ++ [sub] })

def listSubscriptions (s : Inner) (address : String) : List PushSubscription :=
  s.subscriptions.filter fun x => x.mailboxAddress == address

def deleteSubscription (s : Inner) (address endpoint : String) : Bool × Inner :=
  let subscriptions := s.subscriptions.filter
    fun x => !(x.mailboxAddress == address && x.endpoint == endpoint)
  (subscriptions.length != s.subscriptions.length, { s with subscriptions })

/-! ## Custom domains -/

def createCustomDomain (s : Inner) (domain claimTokenHash txtToken : String) (now : DateTime) :
    Except StoreError CustomDomain × Inner :=
  if domain ∈ s.customDomains then
    (.error (.uniqueViolation s!"domain already claimed: {domain}"), s)
  else
    let record : CustomDomain := ⟨domain, .pending, claimTokenHash, txtToken, now, none, none⟩
    (.ok record, { s with customDomains := s.customDomains.insert domain record })

def getCustomDomain (s : Inner) (domain : String) : Option CustomDomain :=
  s.customDomains.lookup domain

def deleteCustomDomain (s : Inner) (domain : String) : Bool × Inner :=
  ((s.customDomains.lookup domain).isSome,
    { s with customDomains := s.customDomains.erase domain })

def customDomainIsVerified (s : Inner) (domain : String) : Bool :=
  (s.customDomains.lookup domain).any fun d => d.status == .verified

def recordCustomDomainCheck (s : Inner) (domain : String) (status : CustomDomainStatus)
    (verifiedAt : Option DateTime) (checkedAt : DateTime) : Bool × Inner :=
  match s.customDomains.lookup domain with
  | some d =>
    let d := { d with status := status, verifiedAt := verifiedAt, lastCheckedAt := some checkedAt }
    (true, { s with customDomains := s.customDomains.insert domain d })
  | none => (false, s)

def listCustomDomainsToRecheck (s : Inner) (cutoff : DateTime) : List CustomDomain :=
  s.customDomains.values.filter fun d =>
    (d.status == .verified || d.status == .failed) && d.lastCheckedAt.all fun t => t ≤ cutoff

/-! ## Attested devices -/

def upsertAttestedDevice (s : Inner) (keyId : String) (publicKey : List UInt8) (now : DateTime) :
    AttestedDevice × Inner :=
  let device : AttestedDevice :=
    match s.attestedDevices.lookup keyId with
    | some d => { d with lastSeenAt := now }
    | none => ⟨keyId, publicKey, 0, now, now⟩
  (device, { s with attestedDevices := s.attestedDevices.insert keyId device })

def getAttestedDevice (s : Inner) (keyId : String) : Option AttestedDevice :=
  s.attestedDevices.lookup keyId

def advanceAttestedDeviceCounter (s : Inner) (keyId : String) (counter : Int)
    (seenAt : DateTime) : Bool × Inner :=
  match s.attestedDevices.lookup keyId with
  | some d =>
    if counter > d.counter then
      let d := { d with counter := counter, lastSeenAt := seenAt }
      (true, { s with attestedDevices := s.attestedDevices.insert keyId d })
    else (false, s)
  | none => (false, s)

def pruneAttestedDevices (s : Inner) (idleBefore : DateTime) : Nat × Inner :=
  let attestedDevices := s.attestedDevices.retain fun _ d => d.lastSeenAt ≥ idleBefore
  (s.attestedDevices.entries.length - attestedDevices.entries.length, { s with attestedDevices })

/-! ## Updates in place -/

open KeyedList

theorem setSeen_eq (address : String) (id : Uuid) (l : List Entry) : setSeen address id l =
    updateFirst (·.isAt address id)
      (fun e => { e with message := { e.message with seen := true } }) l := by
  induction l with
  | nil => rfl
  | cons e l ih => rw [setSeen, updateFirst, ih]

theorem refresh_eq (address endpoint : String) (kind : SubscriptionKind) (p256dh auth : String)
    (l : List PushSubscription) : refresh address endpoint kind p256dh auth l =
      updateFirst (fun x => x.mailboxAddress = address ∧ x.endpoint = endpoint)
        (fun x => { x with kind, p256dh, auth }) l := by
  induction l with
  | nil => rfl
  | cons x l ih =>
    rw [refresh, updateFirst, ih]
    simp only [decide_eq_true_eq]

end MemoryStore
end AnonyMail
