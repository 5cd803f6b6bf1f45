import AnonyMail.Lib.Broadcast
import AnonyMail.Push

/-! # The event bus and its receivers (`events.rs`, `api/sse.rs`, `push.rs`)

The event bus is a broadcast channel whose sender the server keeps. Each event stream has a receiver
of its own, and so has the push worker. A stream whose client is gone is a process that is never
scheduled again. -/

namespace AnonyMail

open Calls Broadcast

/-- An event of a stream; the text of its data is the JSON of the `MailEvent`. -/
structure SseEvent where
  event : String
  data : MailEvent
  deriving DecidableEq, Repr

def toSseEvent (ev : MailEvent) : SseEvent := ⟨"message", ev⟩

def PushEff.announced : PushEff → List MailEvent
  | .base e => e.announced
  | .send .. => []

section
variable (B : Broadcast MailEvent)

/-- The calls of the receivers, and those of the rest of the server. -/
inductive BusEff
  | push (e : PushEff)
  /-- `EventBus::subscribe`. -/
  | subscribe
  | recv (rx : B.Rx)
  /-- The stream yields an event. -/
  | emit (event : SseEvent)

variable {B}

abbrev BusEff.Ans : BusEff B → Type
  | .push e => e.Ans
  | .subscribe => B.Rx
  | .recv _ => Received MailEvent × B.Rx
  | .emit _ => Unit

variable (B)

abbrev BusRun (α : Type) := Prog (BusEff B) BusEff.Ans α

abbrev BusHist := List (Event (BusEff.Ans (B := B)))

variable {B}

def onPush {α : Type} : PushRun α → BusRun B α
  | .ret a => .ret a
  | .call e k => .call (.push e) fun r => onPush (k r)

def EventBus.subscribe : BusRun B B.Rx := Prog.perform BusEff.subscribe

def recv (rx : B.Rx) : BusRun B (Received MailEvent × B.Rx) := Prog.perform (BusEff.recv rx)

/-- The first turns of a loop over what a receiver gets. What it has missed is passed over. -/
def receive (handle : MailEvent → BusRun B Unit) : Nat → B.Rx → BusRun B Unit
  | 0, _ => return
  | n + 1, rx => do
    let r ← recv rx
    match r.1 with
    | .value event => do handle event; receive handle n r.2
    | .lagged _ => receive handle n r.2
    | .closed => return

/-- The filter of the stream of a mailbox. -/
def relay (address : String) (event : MailEvent) : BusRun B Unit :=
  if event.address = address then Prog.perform (BusEff.emit (toSseEvent event))
  else return

/-- A request for the events of a mailbox, and the first polls of its stream. -/
def eventStream (app : AppState) (address : String) (peer : IpAddr) (headers : Api.HeaderMap)
    (polls : Nat) : BusRun B Outcome := do
  match ← onPush (onBase (Api.events app address peer headers).run) with
  | .error e => return .response (.error e)
  | .ok address => do
    let rx ← EventBus.subscribe
    receive (relay address) polls rx
    return .finished

/-- `push::run`, for so many turns of its loop. -/
def pushWorker (senders : Senders) (turns : Nat) : BusRun B Outcome := do
  let rx ← EventBus.subscribe
  receive (fun event => onPush (deliver senders event)) turns rx
  return .finished

end

inductive BusTask
  | server (task : Task)
  | stream (address : String) (peer : IpAddr) (headers : Api.HeaderMap) (polls : Nat)
  | pushWorker (turns : Nat)

structure BusWorld (B : Broadcast MailEvent) where
  rest : World
  bus : B.Chan

variable (app : AppState) (senders : Senders) (B : Broadcast MailEvent)

def BusWorld.start (clock : DateTime) : BusWorld B := ⟨.start clock, B.new⟩

def BusTask.prog : BusTask → BusRun B Outcome
  | .server task => onPush (onBase (task.prog app))
  | .stream address peer headers polls => eventStream app address peer headers polls
  | .pushWorker turns => AnonyMail.pushWorker senders turns

def execBus (w : BusWorld B) : (e : BusEff B) → PushChoice → Option (e.Ans × BusWorld B)
  | .push e, c => (execPush app w.rest e c).map fun (r, rest) =>
    (r, ⟨rest, e.announced.foldl B.send w.bus⟩)
  | .subscribe, _ => some (B.subscribe w.bus, w)
  | .recv rx, _ => (B.recv w.bus rx).map fun x => (x, w)
  | .emit _, _ => some ((), w)

/-- The server with its event streams and its push worker. -/
def busServer : System (BusWorld B) BusTask (BusEff B) PushChoice Tick BusEff.Ans Outcome where
  prog := BusTask.prog app senders B
  exec := execBus app B
  env w t := some { w with rest := w.rest.tick t }

abbrev BusConf := Conf (BusWorld B) BusTask (BusEff.Ans (B := B)) Outcome

end AnonyMail
