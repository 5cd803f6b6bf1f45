import AnonyMail.Attest
import AnonyMail.Smtp.ReadData
import AnonyMail.Store.Memory
import AnonyMail.Lib.Interleave

/-! # What the server touches

The HTTP handlers, the SMTP session and the background tasks are programs over the calls `Eff`:
the store, the clocks, the random generator, the in-memory challenge store and limits, DNS and the
connections. `exec` answers a call in a world that all of them share. A choice stands for what the
code does not decide: random bytes, fresh UUIDs, the answers of the network, and whether a call
fails. -/

namespace AnonyMail

open Calls

structure MailEvent where
  address : String
  id : Uuid
  mailFrom : String
  subject : Option String
  receivedAt : DateTime
  hasAttachments : Bool
  code : Option String
  deriving DecidableEq, Repr

/-- The state the handlers share, less what `World` holds. -/
structure AppState where
  deps : Deps
  config : Config
  /-- A purchase verifier is configured. -/
  pro : Bool

/-! ## Store calls -/

/-- The methods of the trait `Store`. -/
inductive StoreOp
  | createMailbox (address domain : String) (expiresAt : DateTime)
    (ownerTokenHash creatorDeviceHash : Option String)
  | getMailbox (address : String)
  | mailboxIsActive (address : String) (now : DateTime)
  | extendMailbox (address : String) (newExpiresAt : DateTime)
  | deleteMailbox (address : String)
  | rotateOwnerToken (address newHash : String)
  | saveMessage (address : String) (message : NewMessage)
  | listMessages (address : String) (limit : Nat) (since : Option Uuid)
  | getMessage (address : String) (id : Uuid)
  | getRawMessage (address : String) (id : Uuid)
  | getAttachment (address : String) (messageId attachmentId : Uuid)
  | deleteMessage (address : String) (id : Uuid)
  | markSeen (address : String) (id : Uuid)
  | deleteAllMessages (address : String)
  | purgeExpired (now : DateTime)
  | addSubscription (address : String) (kind : SubscriptionKind) (endpoint p256dh auth : String)
    (maxPerMailbox : Nat)
  | listSubscriptions (address : String)
  | deleteSubscription (address endpoint : String)
  | createCustomDomain (domain claimTokenHash txtToken : String)
  | getCustomDomain (domain : String)
  | deleteCustomDomain (domain : String)
  | customDomainIsVerified (domain : String)
  | recordCustomDomainCheck (domain : String) (status : CustomDomainStatus)
    (verifiedAt : Option DateTime) (checkedAt : DateTime)
  | listCustomDomainsToRecheck (cutoff : DateTime)
  | upsertAttestedDevice (keyId : String) (publicKey : List UInt8) (now : DateTime)
  | getAttestedDevice (keyId : String)
  | advanceAttestedDeviceCounter (keyId : String) (counter : Int) (seenAt : DateTime)
  | pruneAttestedDevices (idleBefore : DateTime)
  | countActiveMailboxesByDevice (creatorDeviceHash : String) (now : DateTime)
  | runMaintenance
  | ping

namespace StoreOp

/-- What a method returns when it succeeds. -/
abbrev Out : StoreOp → Type
  | createMailbox .. => Mailbox
  | getMailbox .. | extendMailbox .. => Option Mailbox
  | saveMessage .. => StoredMessage
  | listMessages .. => List MessageSummary
  | getMessage .. => Option StoredMessage
  | getRawMessage .. => Option (List UInt8)
  | getAttachment .. => Option Attachment
  | deleteAllMessages .. | purgeExpired .. | pruneAttestedDevices ..
  | countActiveMailboxesByDevice .. => Nat
  | addSubscription .. => PushSubscription
  | listSubscriptions .. => List PushSubscription
  | createCustomDomain .. => CustomDomain
  | getCustomDomain .. => Option CustomDomain
  | listCustomDomainsToRecheck .. => List CustomDomain
  | upsertAttestedDevice .. => AttestedDevice
  | getAttestedDevice .. => Option AttestedDevice
  | runMaintenance | ping => Unit
  | mailboxIsActive .. | deleteMailbox .. | rotateOwnerToken .. | deleteMessage .. | markSeen ..
  | deleteSubscription .. | deleteCustomDomain .. | customDomainIsVerified ..
  | recordCustomDomainCheck .. | advanceAttestedDeviceCounter .. => Bool

/-- How many UUIDs a method draws. -/
def uuids : StoreOp → Nat
  | saveMessage _ m => m.attachments.length + 1
  | addSubscription .. => 1
  | _ => 0

open MemoryStore in
/-- A method on the state of the store, with the clock reading and the UUIDs it draws. -/
def apply (quotas : MailboxQuotas) (s : Inner) (now : DateTime) (ids : List Uuid) :
    (op : StoreOp) → Except StoreError op.Out × Inner
  | createMailbox a d x o c => MemoryStore.createMailbox s a d x o c now
  | getMailbox a => (.ok (MemoryStore.getMailbox s a), s)
  | mailboxIsActive a t => (.ok (MemoryStore.mailboxIsActive s a t), s)
  | extendMailbox a x => let (r, s) := MemoryStore.extendMailbox s a x; (.ok r, s)
  | deleteMailbox a => let (r, s) := MemoryStore.deleteMailbox s a; (.ok r, s)
  | rotateOwnerToken a h => let (r, s) := MemoryStore.rotateOwnerToken s a h; (.ok r, s)
  | saveMessage a m =>
    let (r, s) := MemoryStore.saveMessage quotas s a m (ids.headD 0) ids.tail now; (.ok r, s)
  | listMessages a l x => (.ok (MemoryStore.listMessages s a l x), s)
  | getMessage a i => (.ok (MemoryStore.getMessage s a i), s)
  | getRawMessage a i => (.ok (MemoryStore.getRawMessage s a i), s)
  | getAttachment a m i => (.ok (MemoryStore.getAttachment s a m i), s)
  | deleteMessage a i => let (r, s) := MemoryStore.deleteMessage s a i; (.ok r, s)
  | markSeen a i => let (r, s) := MemoryStore.markSeen s a i; (.ok r, s)
  | deleteAllMessages a => let (r, s) := MemoryStore.deleteAllMessages s a; (.ok r, s)
  | purgeExpired t => let (r, s) := MemoryStore.purgeExpired s t; (.ok r, s)
  | addSubscription a k e p u m => MemoryStore.addSubscription s a k e p u m (ids.headD 0) now
  | listSubscriptions a => (.ok (MemoryStore.listSubscriptions s a), s)
  | deleteSubscription a e => let (r, s) := MemoryStore.deleteSubscription s a e; (.ok r, s)
  | createCustomDomain d c t => MemoryStore.createCustomDomain s d c t now
  | getCustomDomain d => (.ok (MemoryStore.getCustomDomain s d), s)
  | deleteCustomDomain d => let (r, s) := MemoryStore.deleteCustomDomain s d; (.ok r, s)
  | customDomainIsVerified d => (.ok (MemoryStore.customDomainIsVerified s d), s)
  | recordCustomDomainCheck d st v t =>
    let (r, s) := MemoryStore.recordCustomDomainCheck s d st v t; (.ok r, s)
  | listCustomDomainsToRecheck t => (.ok (MemoryStore.listCustomDomainsToRecheck s t), s)
  | upsertAttestedDevice k p t =>
    let (r, s) := MemoryStore.upsertAttestedDevice s k p t; (.ok r, s)
  | getAttestedDevice k => (.ok (MemoryStore.getAttestedDevice s k), s)
  | advanceAttestedDeviceCounter k c t =>
    let (r, s) := MemoryStore.advanceAttestedDeviceCounter s k c t; (.ok r, s)
  | pruneAttestedDevices t => let (r, s) := MemoryStore.pruneAttestedDevices s t; (.ok r, s)
  | countActiveMailboxesByDevice h t =>
    (.ok (MemoryStore.countActiveMailboxesByDevice s h t), s)
  | runMaintenance => (.ok (), s)
  | ping => (.ok (), s)

end StoreOp

/-- A call of the store, the clock reading and the UUIDs it gets. -/
abbrev StoreCall := StoreOp × DateTime × List Uuid

/-- The store after these calls. -/
def storeAfter (quotas : MailboxQuotas) (calls : List StoreCall) : MemoryStore.Inner :=
  calls.foldl (fun s (op, now, ids) => (op.apply quotas s now ids).2) .empty

/-! ## Calls -/

inductive Eff
  | store (op : StoreOp)
  /-- `Utc::now()`. -/
  | now
  /-- `Instant::now()`. -/
  | instantNow
  /-- `rand::rng().random()`, for an array of `n` bytes. -/
  | randomBytes (n : Nat)
  /-- `random_range(0..n)`. -/
  | randomRange (n : Nat)
  | issueChallenge (challenge : String) (now : Instant)
  | consumeChallenge (challenge : String)
  /-- The calls of `RuntimeLimits`; a date is a number of days. -/
  | noteAddressCreated (ip : IpAddr) (today : Int)
  | noteDomainCreated (ip : IpAddr) (today : Int)
  | tryBeginDomainVerify (domain : String)
  | tryAcquireSse (ip : IpAddr)
  | txtRecords (name : String)
  | mxHosts (name : String)
  | isPro (rcAppUserId : String)
  | jwtDecode (key : List UInt8) (token : String) (leeway : Nat)
  /-- Write lines to the SMTP client. -/
  | reply (lines : List String)
  | publish (event : MailEvent)
  /-- Free space in the directory of the database file. -/
  | availableSpace (dbPath : String)
  /-- The TLS handshake on the raw socket, which yields the stream to read from then on. -/
  | tlsAccept
  | panic

/-- `none` stands for an `Err` whose contents no code looks at. -/
abbrev Eff.Ans : Eff → Type
  | .store op => Except StoreError op.Out
  | .now => DateTime
  | .instantNow => Instant
  | .randomBytes _ => List UInt8
  | .randomRange _ => Nat
  | .issueChallenge .. | .publish _ => Unit
  | .consumeChallenge _ | .noteAddressCreated .. | .noteDomainCreated .. | .tryBeginDomainVerify _
  | .tryAcquireSse _ => Bool
  | .txtRecords _ | .mxHosts _ => Option (List String)
  | .isPro _ => Option Bool
  | .jwtDecode .. => Except JwtError ClientClaims
  | .reply _ => Option Unit
  | .availableSpace _ => Option Nat
  | .tlsAccept => Option Smtp.Reader
  | .panic => Empty

/-- What the call announces on the event bus. -/
def Eff.announced : Eff → List MailEvent
  | .publish event => [event]
  | .store _ | .now | .instantNow | .randomBytes _ | .randomRange _ | .issueChallenge ..
  | .consumeChallenge _ | .noteAddressCreated .. | .noteDomainCreated .. | .tryBeginDomainVerify _
  | .tryAcquireSse _ | .txtRecords _ | .mxHosts _ | .isPro _ | .jwtDecode .. | .reply _
  | .availableSpace _ | .tlsAccept | .panic => []

abbrev Run (α : Type) := Prog Eff Eff.Ans α

def call (e : Eff) : Run e.Ans := Prog.perform e

/-! ## The world -/

structure World where
  store : MemoryStore.Inner
  clock : DateTime
  instant : Instant
  challenges : ChallengeStore
  /-- What the random generator has returned so far. -/
  drawn : List (List UInt8)
  /-- The UUIDs drawn so far. -/
  uuids : List Uuid
  published : List MailEvent

def World.start (clock : DateTime) : World := ⟨.empty, clock, 0, ∅, [], [], []⟩

inductive Choice
  /-- Nothing is left open. -/
  | answer
  /-- A store call goes through and draws these UUIDs. -/
  | uuids (ids : List Uuid)
  /-- A store call fails, or a write to the client does. -/
  | fail
  | bytes (bs : List UInt8)
  | index (n : Nat)
  | verdict (b : Bool)
  | records (r : Option (List String))
  | purchase (r : Option Bool)
  | space (r : Option Nat)
  | stream (r : Option Smtp.Reader)

/-- Random bytes and UUIDs do not repeat. A store call that fails changes nothing. -/
def exec (app : AppState) (w : World) : (e : Eff) → Choice → Option (e.Ans × World)
  | .store op, c =>
    match c with
    | .uuids ids =>
      if ids.length = op.uuids ∧ ids.Nodup ∧ ∀ i ∈ ids, i ∉ w.uuids then
        let (r, s) := op.apply app.config.mailboxQuotas w.store w.clock ids
        some (r, { w with store := s, uuids := ids ++ w.uuids })
      else none
    | .fail => some (.error .other, w)
    | _ => none
  | .now, _ => some (w.clock, w)
  | .instantNow, _ => some (w.instant, w)
  | .randomBytes n, c =>
    match c with
    | .bytes bs =>
      if bs.length = n ∧ bs ∉ w.drawn then some (bs, { w with drawn := bs :: w.drawn }) else none
    | _ => none
  | .randomRange n, c =>
    match c with
    | .index i => if i < n then some (i, w) else none
    | _ => none
  | .issueChallenge challenge t, _ =>
    some ((), { w with challenges := w.challenges.issue challenge t })
  | .consumeChallenge challenge, _ =>
    let (r, challenges) := w.challenges.consume challenge w.instant
    some (r, { w with challenges })
  | .noteAddressCreated .., c | .noteDomainCreated .., c | .tryBeginDomainVerify _, c
  | .tryAcquireSse _, c =>
    match c with
    | .verdict b => some (b, w)
    | _ => none
  | .txtRecords _, c | .mxHosts _, c =>
    match c with
    | .records r => some (r, w)
    | _ => none
  | .isPro _, c =>
    match c with
    | .purchase r => some (r, w)
    | _ => none
  | .jwtDecode key token leeway, _ => some (app.deps.jwtDecode key token leeway w.clock, w)
  | .reply _, c =>
    match c with
    | .fail => some (none, w)
    | _ => some (some (), w)
  | .publish event, _ => some ((), { w with published := w.published ++ [event] })
  | .availableSpace _, c =>
    match c with
    | .space r => some (r, w)
    | _ => none
  | .tlsAccept, c =>
    match c with
    | .stream r => some (r, w)
    | _ => none
  | .panic, _ => none

/-- Time passes: the wall clock is set to any value, the monotonic clock only moves on. -/
inductive Tick
  | clock (t : DateTime)
  | instant (n : Nat)

def World.tick (w : World) : Tick → World
  | .clock t => { w with clock := t }
  | .instant n => { w with instant := w.instant + n }

end AnonyMail
