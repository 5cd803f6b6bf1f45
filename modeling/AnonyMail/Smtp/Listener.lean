import AnonyMail.Server
import AnonyMail.Smtp.RateLimiter

/-! # The SMTP listener (`smtp/mod.rs`)

The loop of `serve`, one step at a time between the steps of the server. A session holds a permit
until its task ends, because the session has ended or has panicked. -/

namespace AnonyMail.Smtp

open Calls

/-- The settings that only the listener reads. -/
structure ListenerConfig where
  maxConnections : Nat
  perIpConnectionsPerMin : Nat

def ListenerConfig.default : ListenerConfig := ⟨1024, 60⟩

def tooManyConnections : String := "421 4.7.0 Too many connections from your host"

def serverBusy : String := "421 4.7.0 Server busy, try again later"

/-- What becomes of a connection. -/
inductive Admission
  /-- Over the limit of its address; when that is noted, and the number that is logged. -/
  | limited (noted : Instant) (rejections : Option Nat)
  | busy
  | session (pid : Nat)
  deriving DecidableEq, Repr

/-- The line that the connection is refused with. -/
def Admission.reject : Admission → Option String
  | .limited .. => some tooManyConnections
  | .busy => some serverBusy
  | .session _ => none

structure Connection where
  ip : IpAddr
  time : Instant
  admission : Admission
  deriving DecidableEq, Repr

/-- Where the loop stands with the connection from `ip` that was checked at `time`. -/
inductive ListenerTurn
  | accept
  | noteRejection (ip : IpAddr) (time : Instant)
  | tryAcquire (ip : IpAddr) (time : Instant)

structure Listener where
  /-- The free permits. -/
  semaphore : Nat
  limiter : RateLimiter
  turn : ListenerTurn

def connectionWindow : Nat := 60

def Listener.new (cfg : ListenerConfig) : Listener :=
  ⟨cfg.maxConnections, .new connectionWindow cfg.perIpConnectionsPerMin, .accept⟩

structure ListenerConf where
  rest : ServerConf
  listener : Listener
  /-- The sessions whose tasks hold a permit. -/
  permits : List Nat
  /-- The connections of the past turns. -/
  log : List Connection

def ListenerConf.start (cfg : ListenerConfig) (clock : DateTime) : ListenerConf :=
  ⟨System.init (.start clock), .new cfg, [], []⟩

inductive ListenerMove
  | accept (ip : IpAddr)
  | noteRejection
  /-- If there is a permit, the first turns of a session on this input are started. -/
  | tryAcquire (turns : Nat) (input : Reader)
  | release (pid : Nat)
  | server (m : Move Task Choice Tick)

def isSession : Task → Bool
  | .smtp .. => true
  | _ => false

/-- The process has returned or panicked. -/
def ended : Proc Task Eff.Ans Outcome → Bool
  | ⟨_, _, .ret _⟩ => true
  | ⟨_, _, .call .panic _⟩ => true
  | ⟨_, _, .call _ _⟩ => false

def Move.isSession : Move Task Choice Tick → Bool
  | .spawn t => Smtp.isSession t
  | _ => false

variable (app : AppState) (tls : Bool)

namespace ListenerConf

/-- `limiter.check` for a connection that is accepted. -/
def accept (c : ListenerConf) (ip : IpAddr) : Option ListenerConf :=
  match c.listener.turn with
  | .accept =>
    let now := c.rest.world.instant
    let (allowed, limiter) := c.listener.limiter.checkAt ip now
    let turn := if allowed then ListenerTurn.tryAcquire ip now else .noteRejection ip now
    some { c with listener := { c.listener with limiter, turn } }
  | _ => none

def noteRejection (c : ListenerConf) : Option ListenerConf :=
  match c.listener.turn with
  | .noteRejection ip time =>
    let now := c.rest.world.instant
    let (rejections, limiter) := c.listener.limiter.noteRejectionAt ip now
    some { c with
      listener := { c.listener with limiter, turn := .accept }
      log := c.log ++ [⟨ip, time, .limited now rejections⟩] }
  | _ => none

def tryAcquire (c : ListenerConf) (turns : Nat) (input : Reader) : Option ListenerConf :=
  match c.listener.turn with
  | .tryAcquire ip time =>
    match c.listener.semaphore with
    | 0 => some { c with
        listener := { c.listener with turn := .accept }
        log := c.log ++ [⟨ip, time, .busy⟩] }
    | free + 1 =>
      let pid := c.rest.procs.length
      ((server app).step c.rest (.spawn (.smtp turns tls input))).map fun rest =>
        ⟨rest, { c.listener with semaphore := free, turn := .accept }, c.permits ++ [pid],
          c.log ++ [⟨ip, time, .session pid⟩]⟩
  | _ => none

/-- The permit of a session is dropped with its task. -/
def release (c : ListenerConf) (pid : Nat) : Option ListenerConf :=
  if pid ∈ c.permits ∧ (c.rest.procs[pid]?).any ended then
    some { c with
      listener := { c.listener with semaphore := c.listener.semaphore + 1 }
      permits := c.permits.erase pid }
  else none

/-- Sessions are started by the listener alone. -/
def step (c : ListenerConf) : ListenerMove → Option ListenerConf
  | .accept ip => c.accept ip
  | .noteRejection => c.noteRejection
  | .tryAcquire turns input => c.tryAcquire app tls turns input
  | .release pid => c.release pid
  | .server m =>
    if Move.isSession m then none
    else ((server app).step c.rest m).map fun rest => { c with rest }

/-- The configurations of the server behind its listener. -/
inductive Reach (cfg : ListenerConfig) (clock : DateTime) : ListenerConf → Prop
  | start : Reach cfg clock (start cfg clock)
  | step {c c' : ListenerConf} {m : ListenerMove} :
    Reach cfg clock c → c.step app tls m = some c' → Reach cfg clock c'

end ListenerConf
end AnonyMail.Smtp
