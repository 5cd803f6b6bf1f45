import AnonyMail.Api.Limits
import AnonyMail.Server

/-! # The server with its limits

The programs are those of the server; the calls of `RuntimeLimits` are answered by its counters. A
guard is dropped when the connection of its stream ends. -/

namespace AnonyMail

open Calls Api

structure LimitedWorld where
  rest : World
  limits : RuntimeLimits
  /-- The guards of the streams that are open. -/
  live : List SseGuard

def LimitedWorld.start (limits : RuntimeLimits) (clock : DateTime) : LimitedWorld :=
  ⟨.start clock, limits, []⟩

/-- An answer in which the limits have no part. -/
def LimitedWorld.outside {α : Type} (w : LimitedWorld) (answer : Option (α × World)) :
    Option (α × LimitedWorld) :=
  answer.map fun (r, rest) => (r, { w with rest })

def execLimited (app : AppState) (w : LimitedWorld) :
    (e : Eff) → Choice → Option (e.Ans × LimitedWorld)
  | .noteAddressCreated ip today, _ =>
    let (r, limits) := w.limits.noteAddressCreated ip today
    some (r, { w with limits })
  | .noteDomainCreated ip today, _ =>
    let (r, limits) := w.limits.noteDomainCreated ip today
    some (r, { w with limits })
  | .tryBeginDomainVerify domain, _ =>
    let (r, limits) := w.limits.tryBeginDomainVerify domain w.rest.instant
    some (r, { w with limits })
  | .tryAcquireSse ip, _ =>
    let (guard, limits) := w.limits.tryAcquireSse ip
    some (guard.isSome, { w with limits, live := guard.toList ++ w.live })
  | .store _, c | .now, c | .instantNow, c | .randomBytes _, c | .randomRange _, c
  | .issueChallenge .., c | .consumeChallenge _, c | .txtRecords _, c | .mxHosts _, c
  | .isPro _, c | .jwtDecode .., c | .reply _, c | .publish _, c | .availableSpace _, c
  | .tlsAccept, c | .panic, c => w.outside (exec app w.rest _ c)

inductive LimitedTick
  | tick (t : Tick)
  /-- The stream that holds this guard ends. -/
  | dropSse (i : Nat)

def LimitedWorld.tick (w : LimitedWorld) : LimitedTick → Option LimitedWorld
  | .tick t => some { w with rest := w.rest.tick t }
  | .dropSse i =>
    match w.live[i]? with
    | some guard => some { w with limits := w.limits.dropSse guard, live := w.live.eraseIdx i }
    | none => none

def limitedServer (app : AppState) :
    System LimitedWorld Task Eff Choice LimitedTick Eff.Ans Outcome where
  prog := Task.prog app
  exec := execLimited app
  env := LimitedWorld.tick

abbrev LimitedConf := Conf LimitedWorld Task Eff.Ans Outcome

end AnonyMail
