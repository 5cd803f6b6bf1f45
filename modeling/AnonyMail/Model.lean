import Mathlib.Algebra.Group.Nat.Defs
import Mathlib.Algebra.Ring.Int.Defs
import Mathlib.Data.List.Basic

/-! # Data model (`model.rs`, `store/mod.rs`)

Instants are nanoseconds since the epoch. A UUID is its 128-bit number, which orders UUIDs as
their bytes do. -/

namespace AnonyMail

abbrev DateTime := Int

/-- `chrono::Duration`, in nanoseconds. -/
abbrev Duration := Int

def Duration.seconds (n : Int) : Duration := n * 1000000000

def Duration.hours (n : Int) : Duration := Duration.seconds (n * 3600)

/-- `Duration::seconds`, which panics (`none`) past the range of `i64` milliseconds. -/
def Duration.trySeconds (n : Int) : Option Duration :=
  if -9223372036854775 ≤ n ∧ n ≤ 9223372036854775 then some (.seconds n) else none

/-- `DateTime::MIN_UTC` and `DateTime::MAX_UTC`. -/
def DateTime.minUtc : DateTime := Duration.seconds (-8334601228800)

def DateTime.maxUtc : DateTime := Duration.seconds 8210266876799 + 999999999

/-- `DateTime + Duration`, which panics (`none`) outside the range of dates. -/
def DateTime.tryAdd (t : DateTime) (d : Duration) : Option DateTime :=
  if minUtc ≤ t + d ∧ t + d ≤ maxUtc then some (t + d) else none

/-- `DateTime::timestamp`, in whole seconds. -/
def DateTime.timestamp (t : DateTime) : Int := t / 1000000000

/-- `date_naive`, as a number of days. -/
def DateTime.dateNaive (t : DateTime) : Int := t / (86400 * 1000000000)

/-- `n as i64` for a `u64`. -/
def asI64 (n : Nat) : Int := (BitVec.ofNat 64 n).toInt

theorem asI64_le (n : Nat) : asI64 n ≤ n := by
  have hmod := Nat.mod_le n (2 ^ 64)
  rw [asI64, BitVec.toInt_eq_toNat_cond, BitVec.toNat_ofNat]
  split <;> omega

theorem asI64_of_lt {n : Nat} (h : n < 2 ^ 63) : asI64 n = n := by
  rw [asI64, BitVec.toInt_eq_toNat_bmod, BitVec.toNat_ofNat, Nat.mod_eq_of_lt (by omega)]
  exact Int.bmod_eq_of_le (by omega) (by omega)

theorem asI64_neg {n : Nat} (h : 2 ^ 63 ≤ n) (h' : n < 2 ^ 64) : asI64 n < 0 := by
  rw [asI64, BitVec.toInt_eq_toNat_bmod, BitVec.toNat_ofNat, Nat.mod_eq_of_lt h', Int.bmod]
  omega

abbrev Uuid := Nat

/-- `hash` fields hold the lowercase hex of a SHA-256 digest. -/
structure Mailbox where
  address : String
  domain : String
  createdAt : DateTime
  expiresAt : DateTime
  ownerTokenHash : Option String
  creatorDeviceHash : Option String
  deriving DecidableEq, Repr

structure MessageSummary where
  id : Uuid
  mailFrom : String
  subject : Option String
  receivedAt : DateTime
  hasAttachments : Bool
  seen : Bool
  deriving DecidableEq, Repr

structure AttachmentMeta where
  id : Uuid
  filename : Option String
  contentType : String
  size : Int
  deriving DecidableEq, Repr

structure StoredMessage where
  id : Uuid
  mailboxAddress : String
  mailFrom : String
  subject : Option String
  messageDate : Option DateTime
  textBody : Option String
  htmlBody : Option String
  rawSize : Int
  receivedAt : DateTime
  seen : Bool
  attachments : List AttachmentMeta
  deriving DecidableEq, Repr

structure Attachment where
  filename : Option String
  contentType : String
  content : List UInt8
  deriving DecidableEq, Repr

structure NewAttachment where
  filename : Option String
  contentType : String
  content : List UInt8
  deriving DecidableEq, Repr

structure NewMessage where
  mailFrom : String
  subject : Option String
  messageDate : Option DateTime
  textBody : Option String
  htmlBody : Option String
  rawSize : Int
  rawContent : Option (List UInt8)
  attachments : List NewAttachment
  deriving DecidableEq, Repr

inductive SubscriptionKind
  | webPush
  | apns
  deriving DecidableEq, Repr

inductive CustomDomainStatus
  | pending
  | verified
  | failed
  deriving DecidableEq, Repr

structure CustomDomain where
  domain : String
  status : CustomDomainStatus
  claimTokenHash : String
  txtToken : String
  createdAt : DateTime
  /-- Last time the DNS checks passed. -/
  verifiedAt : Option DateTime
  lastCheckedAt : Option DateTime
  deriving DecidableEq, Repr

structure AttestedDevice where
  keyId : String
  publicKey : List UInt8
  counter : Int
  createdAt : DateTime
  lastSeenAt : DateTime
  deriving DecidableEq, Repr

structure PushSubscription where
  id : Uuid
  mailboxAddress : String
  kind : SubscriptionKind
  endpoint : String
  p256dh : String
  auth : String
  createdAt : DateTime
  deriving DecidableEq, Repr

/-- What a store call can fail with: the two typed markers of `store/mod.rs`, or any other
backend error. -/
inductive StoreError
  | uniqueViolation (message : String)
  | subscriptionLimit (limit : Nat)
  | other
  deriving DecidableEq, Repr

/-- `0` disables a cap. -/
structure MailboxQuotas where
  maxMessages : Nat
  maxBytes : Nat
  deriving DecidableEq, Repr

def MailboxQuotas.unlimited : MailboxQuotas := ⟨0, 0⟩

end AnonyMail
