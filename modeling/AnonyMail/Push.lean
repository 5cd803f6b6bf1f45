import AnonyMail.Server

/-! # The push worker (`push.rs`)

A `deliver` run makes store calls and sends. The push services are outside: a send has any outcome,
and any time passes until it is there. -/

namespace AnonyMail

open Calls

inductive PushOutcome
  | delivered
  | gone
  | transientFailure
  deriving DecidableEq, Repr

structure PushPayload where
  address : String
  id : Uuid
  /-- `from`. -/
  mailFrom : String
  subject : Option String
  code : Option String
  deriving DecidableEq, Repr

/-- Whether there is a sender for each kind. -/
structure Senders where
  webpush : Bool
  apns : Bool
  deriving DecidableEq, Repr

def Senders.forKind (senders : Senders) : SubscriptionKind → Bool
  | .webPush => senders.webpush
  | .apns => senders.apns

/-- The calls of the push worker, and those of the rest of the server. -/
inductive PushEff
  | base (e : Eff)
  /-- `PushSender::send`. -/
  | send (subscription : PushSubscription) (payload : PushPayload)

abbrev PushEff.Ans : PushEff → Type
  | .base e => e.Ans
  | .send .. => PushOutcome

abbrev PushRun (α : Type) := Prog PushEff PushEff.Ans α

abbrev PushHist := List (Event PushEff.Ans)

def onBase : Run α → PushRun α
  | .ret a => .ret a
  | .call e k => .call (.base e) fun r => onBase (k r)

/-- A call of the store. -/
def onStore (op : StoreOp) : PushRun (Except StoreError op.Out) :=
  Prog.perform (PushEff.base (.store op))

/-- The sends of `join_all`, one after the other: none of them touches the store. A kind without a
sender is skipped. -/
def sendAll (senders : Senders) (payload : PushPayload) :
    List PushSubscription → PushRun (List (PushSubscription × PushOutcome))
  | [] => return []
  | sub :: subs => do
    if senders.forKind sub.kind then
      let outcome ← Prog.perform (PushEff.send sub payload)
      return (sub, outcome) :: (← sendAll senders payload subs)
    else sendAll senders payload subs

/-- Delete what is gone; errors are logged. -/
def pruneGone : List (PushSubscription × PushOutcome) → PushRun Unit
  | [] => return
  | (sub, outcome) :: results => do
    if outcome = .gone then
      let _ ← onStore (.deleteSubscription sub.mailboxAddress sub.endpoint)
      pruneGone results
    else pruneGone results

def deliver (senders : Senders) (event : MailEvent) : PushRun Unit := do
  match ← onStore (.listSubscriptions event.address) with
  | .error _ => return
  | .ok subscriptions =>
    if subscriptions.isEmpty then return
    else
      let payload : PushPayload :=
        ⟨event.address, event.id, event.mailFrom, event.subject, event.code⟩
      let results ← sendAll senders payload subscriptions
      pruneGone results

inductive PushTask
  | deliver (event : MailEvent)
  | server (task : Task)

inductive PushChoice
  | base (c : Choice)
  | outcome (o : PushOutcome)

variable (app : AppState) (senders : Senders)

def PushTask.prog : PushTask → PushRun Outcome
  | .deliver event => do AnonyMail.deliver senders event; return .finished
  | .server task => onBase (task.prog app)

def execPush (w : World) : (e : PushEff) → PushChoice → Option (e.Ans × World)
  | .base e, .base c => exec app w e c
  | .send .., .outcome o => some (o, w)
  | _, _ => none

/-- The server and its push worker. -/
def pushServer : System World PushTask PushEff PushChoice Tick PushEff.Ans Outcome where
  prog := PushTask.prog app senders
  exec := execPush app
  env w t := some (w.tick t)

abbrev PushConf := Conf World PushTask PushEff.Ans Outcome

end AnonyMail
