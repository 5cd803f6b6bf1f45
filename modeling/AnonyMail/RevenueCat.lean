import AnonyMail.Server
import AnonyMail.Lib.Implement

/-! # Purchase verdicts (`entitlements.rs`)

The verifier of purchases behind `is_pro`: a cache of verdicts in front of the RevenueCat API. In
`server` the answers of `is_pro` are left open; `purchases` is the same server with `is_pro` carried
out by the verifier, and with one clock. -/

namespace AnonyMail

open Calls

structure Entitlement where
  /-- `none` for lifetime purchases, otherwise the moment it lapses. -/
  expiresDate : Option DateTime

structure Subscriber where
  entitlements : HashMap String Entitlement

/-- The slice of RevenueCat's subscriber payload that is read. -/
structure SubscriberResponse where
  subscriber : Subscriber

def entitlementActive (body : SubscriberResponse) (entitlementId : String) (now : DateTime) : Bool :=
  (body.subscriber.entitlements.lookup entitlementId).any fun e =>
    e.expiresDate.all fun d => d > now

/-- The verdicts and when they were recorded, keyed by the purchase id. -/
abbrev VerdictCache := HashMap String (Bool × Instant)

namespace VerdictCache

/-- `RC_CACHE_TTL`. -/
def ttl : Nat := 600 * 1000000000

def cached (cache : VerdictCache) (id : String) (now : Instant) : Option Bool :=
  ((cache.lookup id).filter fun (_, at') => now - at' < ttl).map (·.1)

def remember (cache : VerdictCache) (id : String) (pro : Bool) (now : Instant) : VerdictCache :=
  let cache :=
    if cache.entries.length ≥ 10000 then cache.retain fun _ (_, at') => now - at' < ttl else cache
  cache.insert id (pro, now)

end VerdictCache

/-! ## Calls -/

namespace Purchases

/-- The calls of the server and those of the verifier. What is done under the lock of the cache is
one call and reads the clock once. -/
inductive Eff
  | base (e : AnonyMail.Eff)
  | cached (id : String)
  /-- `GET /v1/subscribers/{id}`. -/
  | subscriber (id : String)
  | remember (id : String) (pro : Bool)

/-- `none` stands for an `Err`, as it does in `AnonyMail.Eff.Ans`. -/
abbrev Eff.Ans : Eff → Type
  | .base e => e.Ans
  | .cached _ => Option Bool
  | .subscriber _ => Option SubscriberResponse
  | .remember .. => Unit

abbrev Run (α : Type) := Prog Eff Eff.Ans α

def call (e : Eff) : Run e.Ans := Prog.perform e

variable (entitlementId : String)

def isPro (id : String) : Run (Option Bool) := do
  match ← call (.cached id) with
  | some pro => return some pro
  | none =>
    match ← call (.subscriber id) with
    | none => return none
    | some body =>
      let now ← call (.base .now)
      let pro := entitlementActive body entitlementId now
      call (.remember id pro)
      return some pro

/-- `is_pro` is carried out by the verifier, every other call by itself. -/
def carryOut : (e : AnonyMail.Eff) → Run e.Ans
  | .isPro id => isPro entitlementId id
  | e => call (.base e)

/-! ## The world -/

structure World where
  server : AnonyMail.World
  cache : VerdictCache

def World.start (clock : DateTime) : World := ⟨.start clock, ∅⟩

inductive Choice
  | base (c : AnonyMail.Choice)
  | subscriber (r : Option SubscriberResponse)

def exec (app : AppState) (w : World) : (e : Eff) → Choice → Option (e.Ans × World)
  | .base e, c =>
    match c with
    | .base c => (AnonyMail.exec app w.server e c).map fun (r, server) => (r, { w with server })
    | _ => none
  | .cached id, _ => some (w.cache.cached id w.server.instant, w)
  | .subscriber _, c =>
    match c with
    | .subscriber r => some (r, w)
    | _ => none
  | .remember id pro, _ =>
    some ((), { w with cache := w.cache.remember id pro w.server.instant })

/-- Time passes, for both clocks alike. -/
def World.pass (w : World) (n : Nat) : World :=
  { w with server := (w.server.tick (.clock (w.server.clock + n))).tick (.instant n) }

end Purchases

/-- The running server with its purchase verifier. -/
def purchases (app : AppState) (entitlementId : String) :
    System Purchases.World Task Purchases.Eff Purchases.Choice Nat Purchases.Eff.Ans Outcome where
  prog t := (t.prog app).implement (Purchases.carryOut entitlementId)
  exec := Purchases.exec app
  env w n := some (w.pass n)

namespace Purchases

abbrev ServerConf := Conf World Task Eff.Ans Outcome

abbrev ServerMove := Move Task Choice Nat

abbrev ServerEntry := Entry World Task Eff.Ans

end Purchases

end AnonyMail
