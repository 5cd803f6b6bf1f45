import AnonyMail.Api.Router
import AnonyMail.Smtp.Session

/-! # The running server (`cleanup.rs`, `main.rs`)

HTTP requests, SMTP sessions, the turns of the re-verification loop and of the cleanup task,
interleaved call by call. A request that times out is a process that is never scheduled again. -/

namespace AnonyMail

open Calls

def deviceIdleWindow : Duration := Duration.hours (180 * 24)

/-- One turn of `cleanup::run`; errors are logged. -/
def cleanupTick : Run Unit := do
  let now ← call .now
  let _ ← call (.store (.purgeExpired now))
  let now ← call .now
  let _ ← call (.store (.pruneAttestedDevices (now - deviceIdleWindow)))
  let _ ← call (.store .runMaintenance)

inductive Task
  | http (req : Api.Request)
  /-- The first turns of a session on the given input; `tls` if STARTTLS is configured. -/
  | smtp (turns : Nat) (tls : Bool) (input : Smtp.Reader)
  | reverify
  | cleanup

inductive Outcome
  | response (r : Except Api.ApiError Api.Response)
  | finished

variable (app : AppState)

def Task.prog : Task → Run Outcome
  | .http req => .response <$> (Api.handle app req).run
  | .smtp n tls input => do let _ ← (Smtp.handle ⟨app, tls⟩ n input).run; return .finished
  | .reverify => do CustomDomains.reverifyScan app.config; return .finished
  | .cleanup => do cleanupTick; return .finished

def server : System World Task Eff Choice Tick Eff.Ans Outcome where
  prog := Task.prog app
  exec := exec app
  env w t := some (w.tick t)

abbrev ServerConf := Conf World Task Eff.Ans Outcome

end AnonyMail
