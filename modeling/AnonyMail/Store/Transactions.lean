import AnonyMail.Lib.Interleave
import AnonyMail.Store.Sql

/-! # Transactions of the Postgres store (`store/postgres.rs`)

`add_subscription` is one transaction of several statements at the isolation level READ COMMITTED: a
statement sees what was committed before it and what its own transaction has written. Each statement
is a call, and the transactions of several requests are interleaved statement by statement. -/

namespace AnonyMail.PostgresStore

open Calls

/-- The table `push_subscriptions`, and the rows that open transactions have written. -/
structure Database where
  committed : List PushSubscription
  written : List (Nat × PushSubscription)
  nextTx : Nat
  deriving DecidableEq

/-- Put a row in the place of the one with its mailbox and endpoint, or append it. -/
def putRow (rows : List PushSubscription) (row : PushSubscription) : List PushSubscription :=
  if rows.any fun x => x.mailboxAddress == row.mailboxAddress && x.endpoint == row.endpoint then
    rows.map fun x =>
      if x.mailboxAddress = row.mailboxAddress ∧ x.endpoint = row.endpoint then row else x
  else rows ++ [row]

namespace Database

variable (db : Database)

/-- The rows that a transaction has written. -/
def writtenBy (tx : Nat) : List PushSubscription := (db.written.filter (·.1 == tx)).map (·.2)

/-- What a statement of the transaction sees. -/
def seenBy (tx : Nat) : List PushSubscription := (db.writtenBy tx).foldl putRow db.committed

def close (tx : Nat) : Database := { db with written := db.written.filter (·.1 != tx) }

/-- Another open transaction has written the row of this mailbox and endpoint. -/
def locked (tx : Nat) (address endpoint : String) : Bool :=
  db.written.any fun w => w.1 != tx && w.2.mailboxAddress == address && w.2.endpoint == endpoint

end Database

inductive Statement
  | begin
  | countOthers (tx : Nat) (address endpoint : String)
  | upsert (tx : Nat) (address : String) (kind : SubscriptionKind) (endpoint p256dh auth : String)
  | commit (tx : Nat)
  /-- The transaction is dropped. -/
  | rollback (tx : Nat)

/-- `none` stands for an `Err`. -/
abbrev Statement.Ans : Statement → Type
  | begin | countOthers .. => Option Nat
  | upsert .. => Option PushSubscription
  | commit _ => Option Unit
  | rollback _ => Unit

inductive StatementChoice
  /-- The statement goes through; an `INSERT` draws this id and time. -/
  | done (id : Uuid) (now : DateTime)
  /-- The statement fails, which ends its transaction. -/
  | fail

/-- An upsert waits (`none`) for a transaction that has written the row of its key. -/
def Database.exec (db : Database) : (e : Statement) → StatementChoice → Option (e.Ans × Database)
  | .begin, .done .. => some (some db.nextTx, { db with nextTx := db.nextTx + 1 })
  | .begin, .fail => some (none, db)
  | .countOthers tx address endpoint, .done .. =>
    some (some (countOthers (db.seenBy tx) address endpoint), db)
  | .countOthers tx .., .fail => some (none, db.close tx)
  | .upsert tx address kind endpoint p256dh auth, .done id now =>
    if db.locked tx address endpoint then none else
    let (row, _) := PostgresStore.upsert (db.seenBy tx) address kind endpoint p256dh auth id now
    some (some row, { db with written := db.written ++ [(tx, row)] })
  | .upsert tx .., .fail => some (none, db.close tx)
  | .commit tx, .done .. =>
    some (some (), { db.close tx with committed := db.seenBy tx })
  | .commit tx, .fail => some (none, db.close tx)
  | .rollback tx, _ => some ((), db.close tx)

abbrev Transaction (α : Type) := Prog Statement Statement.Ans α

def execute (e : Statement) : Transaction e.Ans := Prog.perform e

/-- The statements after the cap check. -/
def insertSubscription (tx : Nat) (address : String) (kind : SubscriptionKind)
    (endpoint p256dh auth : String) : Transaction (Except StoreError PushSubscription) := do
  match ← execute (.upsert tx address kind endpoint p256dh auth) with
  | none => return .error .other
  | some row =>
    match ← execute (.commit tx) with
    | none => return .error .other
    | some () => return .ok row

/-- `add_subscription`, statement by statement. -/
def addSubscriptionTx (address : String) (kind : SubscriptionKind) (endpoint p256dh auth : String)
    (maxPerMailbox : Nat) : Transaction (Except StoreError PushSubscription) := do
  match ← execute .begin with
  | none => return .error .other
  | some tx =>
    if maxPerMailbox > 0 then
      match ← execute (.countOthers tx address endpoint) with
      | none => return .error .other
      | some count =>
        if count ≥ maxPerMailbox then
          execute (.rollback tx)
          return .error (.subscriptionLimit maxPerMailbox)
        else insertSubscription tx address kind endpoint p256dh auth
    else insertSubscription tx address kind endpoint p256dh auth

/-- A registration for the mailbox that the transactions are about. -/
structure Registration where
  kind : SubscriptionKind
  endpoint : String
  p256dh : String
  auth : String

/-- Transactions of `add_subscription` on one mailbox under one cap. -/
def transactions (address : String) (maxPerMailbox : Nat) :
    System Database Registration Statement StatementChoice Empty Statement.Ans
      (Except StoreError PushSubscription) where
  prog t := addSubscriptionTx address t.kind t.endpoint t.p256dh t.auth maxPerMailbox
  exec := Database.exec
  env _ x := nomatch x

abbrev TransactionConf :=
  Conf Database Registration Statement.Ans (Except StoreError PushSubscription)

end AnonyMail.PostgresStore
