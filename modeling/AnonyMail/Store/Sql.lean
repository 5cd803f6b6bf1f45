import AnonyMail.Store.Memory

/-! # The SQL stores (`store/sqlite.rs`, `store/postgres.rs`)

Tables are lists of rows in the order of insertion. The statements of the two stores differ only in
who draws UUIDs and reads the clock: the program for SQLite, the database for Postgres. Both are
arguments here, and new UUIDs do not collide with the keys in use. A column of times or UUIDs
compares as the values it holds. -/

namespace AnonyMail.SqlStore

structure MessageRow where
  id : Uuid
  mailboxAddress : String
  mailFrom : String
  subject : Option String
  messageDate : Option DateTime
  textBody : Option String
  htmlBody : Option String
  rawSize : Int
  receivedAt : DateTime
  rawContent : Option (List UInt8)
  seen : Bool
  deriving DecidableEq, Repr

structure AttachmentRow where
  id : Uuid
  messageId : Uuid
  filename : Option String
  contentType : String
  size : Int
  content : List UInt8
  deriving DecidableEq, Repr

structure Tables where
  mailboxes : List Mailbox
  messages : List MessageRow
  attachments : List AttachmentRow

variable (db : Tables)

/-- `SELECT … FROM messages WHERE mailbox_address = ?`. -/
def Tables.inbox (address : String) : List MessageRow :=
  db.messages.filter (·.mailboxAddress == address)

/-- `ORDER BY received_at DESC, id DESC`. -/
def newestFirst (a b : MessageRow) : Prop :=
  MemoryStore.newestFirst (a.receivedAt, a.id) (b.receivedAt, b.id)

instance : DecidableRel newestFirst := fun a b =>
  inferInstanceAs (Decidable (MemoryStore.newestFirst (a.receivedAt, a.id) (b.receivedAt, b.id)))

/-- The `INSERT` of a message and those of its attachments. -/
def Tables.insertMessage (row : MessageRow) (attachments : List AttachmentRow) : Tables :=
  { db with messages := db.messages ++ [row], attachments := db.attachments ++ attachments }

/-- `DELETE FROM messages WHERE …`, which takes the attachments along. -/
def Tables.deleteMessages (p : MessageRow → Bool) : Tables :=
  let deleted := (db.messages.filter p).map (·.id)
  { db with
    messages := db.messages.filter (!p ·)
    attachments := db.attachments.filter fun a => !deleted.contains a.messageId }

/-- Delete the messages beyond the count cap. -/
def Tables.deleteOverCount (address : String) (maxMessages : Nat) : Tables :=
  let kept := (((db.inbox address).insertionSort newestFirst).take maxMessages).map (·.id)
  db.deleteMessages fun row => row.mailboxAddress == address && !kept.contains row.id

/-- `SUM(raw_size) OVER (ORDER BY received_at DESC, id DESC)`. -/
def running (rows : List MessageRow) (row : MessageRow) : Int :=
  ((rows.filter (newestFirst · row)).map (·.rawSize)).sum

/-- Delete the messages beyond the byte cap, but not the message `id`. -/
def Tables.deleteOverBytes (address : String) (maxBytes : Nat) (id : Uuid) : Tables :=
  let rows := db.inbox address
  let excess := (rows.filter fun row => running rows row > asI64 maxBytes ∧ row.id ≠ id).map (·.id)
  db.deleteMessages fun row => row.mailboxAddress == address && excess.contains row.id

/-- The foreign key makes the `INSERT` fail when there is no such mailbox. -/
def saveMessage (quotas : MailboxQuotas) (address : String) (message : NewMessage) (id : Uuid)
    (attachmentIds : List Uuid) (receivedAt : DateTime) :
    Except StoreError StoredMessage × Tables :=
  if db.mailboxes.all (·.address != address) then (.error .other, db) else
  let row : MessageRow :=
    { id, mailboxAddress := address, mailFrom := message.mailFrom, subject := message.subject,
      messageDate := message.messageDate, textBody := message.textBody,
      htmlBody := message.htmlBody, rawSize := message.rawSize, receivedAt,
      rawContent := message.rawContent, seen := false }
  let attachments := (attachmentIds.zip message.attachments).map fun (aid, att) =>
    (⟨aid, id, att.filename, att.contentType, MemoryStore.asI32 att.content.length, att.content⟩ :
      AttachmentRow)
  let db := db.insertMessage row attachments
  let db := if quotas.maxMessages > 0 then db.deleteOverCount address quotas.maxMessages else db
  let db := if quotas.maxBytes > 0 then db.deleteOverBytes address quotas.maxBytes id else db
  let metas := attachments.map fun a =>
    (⟨a.id, a.filename, a.contentType, a.size⟩ : AttachmentMeta)
  let stored : StoredMessage :=
    { id, mailboxAddress := address, mailFrom := message.mailFrom, subject := message.subject,
      messageDate := message.messageDate, textBody := message.textBody,
      htmlBody := message.htmlBody, rawSize := message.rawSize, receivedAt, seen := false,
      attachments := metas }
  (.ok stored, db)

/-- The row that a primary key selects. -/
def Tables.row (address : String) (id : Uuid) : Option MessageRow :=
  db.messages.find? fun row => row.mailboxAddress == address && row.id == id

/-- `SELECT … FROM attachments WHERE message_id = ? ORDER BY id`. -/
def Tables.attachmentsOf (id : Uuid) : List AttachmentMeta :=
  ((db.attachments.filter fun a => a.messageId == id).insertionSort fun a b => a.id ≤ b.id).map
    fun a => ⟨a.id, a.filename, a.contentType, a.size⟩

def getMessage (address : String) (id : Uuid) : Option StoredMessage :=
  (db.row address id).map fun row =>
    { id := row.id, mailboxAddress := row.mailboxAddress, mailFrom := row.mailFrom,
      subject := row.subject, messageDate := row.messageDate, textBody := row.textBody,
      htmlBody := row.htmlBody, rawSize := row.rawSize, receivedAt := row.receivedAt,
      seen := row.seen, attachments := db.attachmentsOf id }

def getRawMessage (address : String) (id : Uuid) : Option (List UInt8) :=
  (db.row address id).bind (·.rawContent)

/-- The attachment is joined with its message, which says whose mailbox it is in. -/
def getAttachment (address : String) (messageId attachmentId : Uuid) : Option Attachment :=
  (db.attachments.find? fun a => a.messageId == messageId && a.id == attachmentId &&
    db.messages.any fun m => m.id == a.messageId && m.mailboxAddress == address).map
      fun a => ⟨a.filename, a.contentType, a.content⟩

end AnonyMail.SqlStore

namespace AnonyMail

/-! ## The table `push_subscriptions`

The pair of mailbox and endpoint is unique, and so is the id. -/

namespace SqliteStore

def addSubscription (rows : List PushSubscription) (address : String) (kind : SubscriptionKind)
    (endpoint p256dh auth : String) (maxPerMailbox : Nat) (id : Uuid) (now : DateTime) :
    Except StoreError PushSubscription × List PushSubscription :=
  match rows.find? fun x => x.mailboxAddress == address && x.endpoint == endpoint with
  | some row =>
    (.ok { row with kind, p256dh, auth },
      rows.map fun x => if x.id = row.id then { x with kind, p256dh, auth } else x)
  | none =>
    let count := (rows.filter fun x => x.mailboxAddress == address).length
    if maxPerMailbox > 0 ∧ count ≥ maxPerMailbox then
      (.error (.subscriptionLimit maxPerMailbox), rows)
    else
      let sub : PushSubscription := ⟨id, address, kind, endpoint, p256dh, auth, now⟩
      (.ok sub, rows ++ [sub])

end SqliteStore

namespace PostgresStore

/-- `SELECT COUNT(*) … WHERE mailbox_address = $1 AND endpoint <> $2`. -/
def countOthers (rows : List PushSubscription) (address endpoint : String) : Nat :=
  (rows.filter fun x => x.mailboxAddress == address && x.endpoint != endpoint).length

/-- `INSERT … ON CONFLICT (mailbox_address, endpoint) DO UPDATE … RETURNING …`. -/
def upsert (rows : List PushSubscription) (address : String) (kind : SubscriptionKind)
    (endpoint p256dh auth : String) (id : Uuid) (now : DateTime) :
    PushSubscription × List PushSubscription :=
  match rows.find? fun x => x.mailboxAddress == address && x.endpoint == endpoint with
  | some row =>
    ({ row with kind, p256dh, auth }, rows.map fun x =>
      if x.mailboxAddress = address ∧ x.endpoint = endpoint then { x with kind, p256dh, auth }
      else x)
  | none =>
    let sub : PushSubscription := ⟨id, address, kind, endpoint, p256dh, auth, now⟩
    (sub, rows ++ [sub])

def addSubscription (rows : List PushSubscription) (address : String) (kind : SubscriptionKind)
    (endpoint p256dh auth : String) (maxPerMailbox : Nat) (id : Uuid) (now : DateTime) :
    Except StoreError PushSubscription × List PushSubscription :=
  if maxPerMailbox > 0 ∧ countOthers rows address endpoint ≥ maxPerMailbox then
    (.error (.subscriptionLimit maxPerMailbox), rows)
  else
    let (sub, rows) := upsert rows address kind endpoint p256dh auth id now
    (.ok sub, rows)

end PostgresStore
end AnonyMail
