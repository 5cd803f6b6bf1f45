import AnonyMail.Store.Sql

/-! # The SQLite store (`store/sqlite.rs`, `migrations/sqlite`)

All the tables, and every method as its statements change them. A method takes effect at once, also
where it makes two statements outside a transaction. Times and UUIDs are text whose order is that of
the values. Where a query leaves the order of its rows open, `custom_domains` is read with the row
written last in front. -/

namespace AnonyMail.SqliteStore

open SqlStore

structure Database extends Tables where
  subscriptions : List PushSubscription
  customDomains : List CustomDomain
  attestedDevices : List AttestedDevice

def Database.empty : Database := ⟨⟨[], [], []⟩, [], [], []⟩

namespace Database

variable (db : Database)

/-! ## Mailboxes -/

def createMailbox (address domain : String) (expiresAt : DateTime)
    (ownerTokenHash creatorDeviceHash : Option String) (now : DateTime) :
    Except StoreError Mailbox × Database :=
  if db.mailboxes.any (·.address == address) then
    (.error (.uniqueViolation "UNIQUE constraint failed: mailboxes.address"), db)
  else
    let mailbox : Mailbox := ⟨address, domain, now, expiresAt, ownerTokenHash, creatorDeviceHash⟩
    (.ok mailbox, { db with mailboxes := db.mailboxes ++ [mailbox] })

def getMailbox (address : String) : Option Mailbox := db.mailboxes.find? (·.address == address)

def mailboxIsActive (address : String) (now : DateTime) : Bool :=
  db.mailboxes.any fun m => m.address == address && decide (m.expiresAt > now)

/-- `UPDATE mailboxes SET … WHERE address = ?`, and whether a row was affected. -/
def updateMailbox (address : String) (f : Mailbox → Mailbox) : Bool × Database :=
  (db.mailboxes.any (·.address == address),
    { db with mailboxes := db.mailboxes.map fun m => if m.address = address then f m else m })

def extendMailbox (address : String) (newExpiresAt : DateTime) : Option Mailbox × Database :=
  let (affected, db) := db.updateMailbox address fun m => { m with expiresAt := newExpiresAt }
  if !affected then (none, db) else (db.getMailbox address, db)

/-- `DELETE FROM mailboxes WHERE …`, which takes along what refers to the rows, and how many there
were. -/
def deleteMailboxes (p : Mailbox → Bool) : Nat × Database :=
  let deleted := (db.mailboxes.filter p).map (·.address)
  let tables := db.deleteMessages fun row => deleted.contains row.mailboxAddress
  (deleted.length,
    { db with
      toTables := { tables with mailboxes := db.mailboxes.filter (!p ·) }
      subscriptions := db.subscriptions.filter fun x => !deleted.contains x.mailboxAddress })

def deleteMailbox (address : String) : Bool × Database :=
  let (affected, db) := db.deleteMailboxes (·.address == address)
  (affected > 0, db)

def rotateOwnerToken (address newHash : String) : Bool × Database :=
  db.updateMailbox address fun m => { m with ownerTokenHash := some newHash }

def purgeExpired (now : DateTime) : Nat × Database := db.deleteMailboxes (·.expiresAt ≤ now)

def countActiveMailboxesByDevice (creatorDeviceHash : String) (now : DateTime) : Nat :=
  (db.mailboxes.filter fun m =>
    m.creatorDeviceHash == some creatorDeviceHash && decide (m.expiresAt > now)).length

/-! ## Messages -/

def saveMessage (quotas : MailboxQuotas) (address : String) (message : NewMessage) (id : Uuid)
    (attachmentIds : List Uuid) (receivedAt : DateTime) :
    Except StoreError StoredMessage × Database :=
  let (r, tables) :=
    SqlStore.saveMessage db.toTables quotas address message id attachmentIds receivedAt
  (r, { db with toTables := tables })

/-- `(m.received_at, m.id) > (s.received_at, s.id)`. -/
def isNewer (m s : MessageRow) : Bool :=
  s.receivedAt < m.receivedAt ∨ s.receivedAt = m.receivedAt ∧ s.id < m.id

/-- A limit of `0` is bound as `-1`, which SQLite takes for none. -/
def listMessages (address : String) (limit : Nat) (since : Option Uuid) : List MessageSummary :=
  let anchor := since.bind (db.row address)
  let rows := ((db.inbox address).filter fun m => anchor.all (isNewer m)).insertionSort newestFirst
  let rows := if limit = 0 then rows else rows.take limit
  rows.map fun m => ⟨m.id, m.mailFrom, m.subject, m.receivedAt,
    db.attachments.any (·.messageId == m.id), m.seen⟩

def deleteMessage (address : String) (id : Uuid) : Bool × Database :=
  let p := fun (row : MessageRow) => row.mailboxAddress == address && row.id == id
  (db.messages.any p, { db with toTables := db.deleteMessages p })

def markSeen (address : String) (id : Uuid) : Bool × Database :=
  let p := fun (row : MessageRow) => row.mailboxAddress == address && row.id == id
  (db.messages.any p,
    { db with messages := db.messages.map fun row => if p row then { row with seen := true } else row })

def deleteAllMessages (address : String) : Nat × Database :=
  ((db.inbox address).length,
    { db with toTables := db.deleteMessages (·.mailboxAddress == address) })

/-! ## Push subscriptions -/

/-- The foreign key: each row names a mailbox that exists. -/
def addSubscription (address : String) (kind : SubscriptionKind) (endpoint p256dh auth : String)
    (maxPerMailbox : Nat) (id : Uuid) (now : DateTime) :
    Except StoreError PushSubscription × Database :=
  let (r, rows) := SqliteStore.addSubscription db.subscriptions address kind endpoint p256dh auth
    maxPerMailbox id now
  if rows.all fun x => db.mailboxes.any (·.address == x.mailboxAddress) then
    (r, { db with subscriptions := rows })
  else (.error .other, db)

/-- `ORDER BY created_at`. -/
def listSubscriptions (address : String) : List PushSubscription :=
  (db.subscriptions.filter (·.mailboxAddress == address)).insertionSort
    fun a b => a.createdAt ≤ b.createdAt

def deleteSubscription (address endpoint : String) : Bool × Database :=
  let p := fun (x : PushSubscription) => x.mailboxAddress == address && x.endpoint == endpoint
  (db.subscriptions.any p, { db with subscriptions := db.subscriptions.filter (!p ·) })

/-! ## Custom domains -/

def createCustomDomain (domain claimTokenHash txtToken : String) (now : DateTime) :
    Except StoreError CustomDomain × Database :=
  if db.customDomains.any (·.domain == domain) then
    (.error (.uniqueViolation "UNIQUE constraint failed: custom_domains.domain"), db)
  else
    let record : CustomDomain := ⟨domain, .pending, claimTokenHash, txtToken, now, none, none⟩
    (.ok record, { db with customDomains := record :: db.customDomains })

def getCustomDomain (domain : String) : Option CustomDomain :=
  db.customDomains.find? (·.domain == domain)

def deleteCustomDomain (domain : String) : Bool × Database :=
  (db.customDomains.any (·.domain == domain),
    { db with customDomains := db.customDomains.filter (·.domain != domain) })

def customDomainIsVerified (domain : String) : Bool :=
  db.customDomains.any fun d => d.domain == domain && d.status == .verified

def recordCustomDomainCheck (domain : String) (status : CustomDomainStatus)
    (verifiedAt : Option DateTime) (checkedAt : DateTime) : Bool × Database :=
  match db.customDomains.find? (·.domain == domain) with
  | some d =>
    let d := { d with status := status, verifiedAt := verifiedAt, lastCheckedAt := some checkedAt }
    (true, { db with customDomains := d :: db.customDomains.filter (·.domain != domain) })
  | none => (false, db)

def listCustomDomainsToRecheck (cutoff : DateTime) : List CustomDomain :=
  db.customDomains.filter fun d =>
    [CustomDomainStatus.verified, .failed].contains d.status &&
      d.lastCheckedAt.all fun t => t ≤ cutoff

/-! ## Attested devices -/

/-- `INSERT … ON CONFLICT(key_id) DO UPDATE … RETURNING …`. -/
def upsertAttestedDevice (keyId : String) (publicKey : List UInt8) (now : DateTime) :
    AttestedDevice × Database :=
  match db.attestedDevices.find? (·.keyId == keyId) with
  | some d =>
    ({ d with lastSeenAt := now },
      { db with
        attestedDevices := db.attestedDevices.map fun x =>
          if x.keyId = keyId then { x with lastSeenAt := now } else x })
  | none =>
    let device : AttestedDevice := ⟨keyId, publicKey, 0, now, now⟩
    (device, { db with attestedDevices := db.attestedDevices ++ [device] })

def getAttestedDevice (keyId : String) : Option AttestedDevice :=
  db.attestedDevices.find? (·.keyId == keyId)

/-- `UPDATE … WHERE key_id = ? AND counter < ?`. -/
def advanceAttestedDeviceCounter (keyId : String) (counter : Int) (seenAt : DateTime) :
    Bool × Database :=
  let p := fun (d : AttestedDevice) => d.keyId == keyId && decide (d.counter < counter)
  (db.attestedDevices.any p,
    { db with
      attestedDevices := db.attestedDevices.map fun d =>
        if p d then { d with counter := counter, lastSeenAt := seenAt } else d })

def pruneAttestedDevices (idleBefore : DateTime) : Nat × Database :=
  let p := fun (d : AttestedDevice) => decide (d.lastSeenAt < idleBefore)
  ((db.attestedDevices.filter p).length,
    { db with attestedDevices := db.attestedDevices.filter (!p ·) })

end Database
end AnonyMail.SqliteStore
