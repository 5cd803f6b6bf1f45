import AnonyMail.Server
import AnonyMail.Store.Sqlite

/-! # The server over SQLite

The programs are those of the server; the store calls are answered by the tables. -/

namespace AnonyMail

open Calls SqliteStore

/-- A method on the tables, with the clock reading and the UUIDs it draws. -/
def StoreOp.applySqlite (quotas : MailboxQuotas) (db : Database) (now : DateTime)
    (ids : List Uuid) : (op : StoreOp) → Except StoreError op.Out × Database
  | createMailbox a d x o c => db.createMailbox a d x o c now
  | getMailbox a => (.ok (db.getMailbox a), db)
  | mailboxIsActive a t => (.ok (db.mailboxIsActive a t), db)
  | extendMailbox a x => let (r, db) := db.extendMailbox a x; (.ok r, db)
  | deleteMailbox a => let (r, db) := db.deleteMailbox a; (.ok r, db)
  | rotateOwnerToken a h => let (r, db) := db.rotateOwnerToken a h; (.ok r, db)
  | saveMessage a m => db.saveMessage quotas a m (ids.headD 0) ids.tail now
  | listMessages a l x => (.ok (db.listMessages a l x), db)
  | getMessage a i => (.ok (SqlStore.getMessage db.toTables a i), db)
  | getRawMessage a i => (.ok (SqlStore.getRawMessage db.toTables a i), db)
  | getAttachment a m i => (.ok (SqlStore.getAttachment db.toTables a m i), db)
  | deleteMessage a i => let (r, db) := db.deleteMessage a i; (.ok r, db)
  | markSeen a i => let (r, db) := db.markSeen a i; (.ok r, db)
  | deleteAllMessages a => let (r, db) := db.deleteAllMessages a; (.ok r, db)
  | purgeExpired t => let (r, db) := db.purgeExpired t; (.ok r, db)
  | addSubscription a k e p u m => db.addSubscription a k e p u m (ids.headD 0) now
  | listSubscriptions a => (.ok (db.listSubscriptions a), db)
  | deleteSubscription a e => let (r, db) := db.deleteSubscription a e; (.ok r, db)
  | createCustomDomain d c t => db.createCustomDomain d c t now
  | getCustomDomain d => (.ok (db.getCustomDomain d), db)
  | deleteCustomDomain d => let (r, db) := db.deleteCustomDomain d; (.ok r, db)
  | customDomainIsVerified d => (.ok (db.customDomainIsVerified d), db)
  | recordCustomDomainCheck d st v t =>
    let (r, db) := db.recordCustomDomainCheck d st v t; (.ok r, db)
  | listCustomDomainsToRecheck t => (.ok (db.listCustomDomainsToRecheck t), db)
  | upsertAttestedDevice k p t => let (r, db) := db.upsertAttestedDevice k p t; (.ok r, db)
  | getAttestedDevice k => (.ok (db.getAttestedDevice k), db)
  | advanceAttestedDeviceCounter k c t =>
    let (r, db) := db.advanceAttestedDeviceCounter k c t; (.ok r, db)
  | pruneAttestedDevices t => let (r, db) := db.pruneAttestedDevices t; (.ok r, db)
  | countActiveMailboxesByDevice h t => (.ok (db.countActiveMailboxesByDevice h t), db)
  | runMaintenance => (.ok (), db)
  | ping => (.ok (), db)

/-- The tables after these calls. -/
def sqliteAfter (quotas : MailboxQuotas) (calls : List StoreCall) : Database :=
  calls.foldl (fun db (op, now, ids) => (op.applySqlite quotas db now ids).2) .empty

/-- The in-memory store of `rest` is not used. -/
structure SqliteWorld where
  database : Database
  rest : World

def SqliteWorld.start (clock : DateTime) : SqliteWorld := ⟨.empty, .start clock⟩

/-- An answer in which the tables have no part. -/
def SqliteWorld.outside {α : Type} (w : SqliteWorld) (answer : Option (α × World)) :
    Option (α × SqliteWorld) :=
  answer.map fun (r, rest) => (r, { w with rest })

/-- A statement that fails changes nothing. -/
def execSqlite (app : AppState) (w : SqliteWorld) :
    (e : Eff) → Choice → Option (e.Ans × SqliteWorld)
  | .store op, c =>
    match c with
    | .uuids ids =>
      if ids.length = op.uuids ∧ ids.Nodup ∧ ∀ i ∈ ids, i ∉ w.rest.uuids then
        let (r, database) :=
          op.applySqlite app.config.mailboxQuotas w.database w.rest.clock ids
        some (r, { w with database, rest := { w.rest with uuids := ids ++ w.rest.uuids } })
      else none
    | .fail => some (.error .other, w)
    | _ => none
  | .now, c | .instantNow, c | .randomBytes _, c | .randomRange _, c | .issueChallenge .., c
  | .consumeChallenge _, c | .noteAddressCreated .., c | .noteDomainCreated .., c
  | .tryBeginDomainVerify _, c | .tryAcquireSse _, c | .txtRecords _, c | .mxHosts _, c
  | .isPro _, c | .jwtDecode .., c | .reply _, c | .publish _, c | .availableSpace _, c
  | .tlsAccept, c | .panic, c => w.outside (exec app w.rest _ c)

def sqliteServer (app : AppState) : System SqliteWorld Task Eff Choice Tick Eff.Ans Outcome where
  prog := Task.prog app
  exec := execSqlite app
  env w t := some { w with rest := w.rest.tick t }

abbrev SqliteConf := Conf SqliteWorld Task Eff.Ans Outcome

end AnonyMail
