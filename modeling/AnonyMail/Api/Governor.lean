import AnonyMail.Lib.Decimal
import AnonyMail.Text
import Mathlib.Algebra.Group.Nat.Defs

/-! # The rate limits of the router (`config.rs`, `api/mod.rs`)

`build_router` stacks its layers on the routes. The two that limit the requests of a client come from
`governor_layer`, which panics if the limiter cannot be built; the others cannot fail and are left
out. -/

namespace AnonyMail

/-- `std::env::var`, less the reason why there is no text. -/
abbrev Env := String → Option String

/-- The parts of `invalid value for {key} ({raw:?}): {kind}`. -/
structure InvalidValue where
  key : String
  raw : String
  kind : Decimal.IntErrorKind
  deriving DecidableEq, Repr

/-- A variable that is unset or blank has its default. -/
def parseEnv (fromStr : String → Except Decimal.IntErrorKind α) (env : Env) (key : String)
    (default : α) : Except InvalidValue α :=
  match env key with
  | none => .ok default
  | some raw =>
    if (Str.trim raw).isEmpty then .ok default
    else (fromStr (Str.trim raw)).mapError fun kind => ⟨key, raw, kind⟩

def u64FromStr (s : String) : Except Decimal.IntErrorKind UInt64 :=
  (Decimal.parse (2 ^ 64 - 1) s.toList).map .ofNat

def u32FromStr (s : String) : Except Decimal.IntErrorKind UInt32 :=
  (Decimal.parse (2 ^ 32 - 1) s.toList).map .ofNat

/-- The fields of `Config` that limit requests; a rate or a burst of `0` disables the limit. -/
structure RateLimits where
  apiRateLimitPerSecond : UInt64
  apiRateLimitBurst : UInt32
  createRateLimitPerMinute : UInt64
  createRateLimitBurst : UInt32
  deriving DecidableEq, Repr

namespace RateLimits

/-- The values of `Config::default`. -/
def default : RateLimits := ⟨20, 50, 30, 10⟩

/-- The part of `from_env` that reads them. -/
def fromEnv (env : Env) : Except InvalidValue RateLimits := do
  let apiRateLimitPerSecond ←
    parseEnv u64FromStr env "API_RATE_LIMIT_PER_SECOND" default.apiRateLimitPerSecond
  let apiRateLimitBurst ← parseEnv u32FromStr env "API_RATE_LIMIT_BURST" default.apiRateLimitBurst
  let createRateLimitPerMinute ←
    parseEnv u64FromStr env "API_CREATE_RATE_LIMIT_PER_MINUTE" default.createRateLimitPerMinute
  let createRateLimitBurst ←
    parseEnv u32FromStr env "API_CREATE_RATE_LIMIT_BURST" default.createRateLimitBurst
  return ⟨apiRateLimitPerSecond, apiRateLimitBurst, createRateLimitPerMinute, createRateLimitBurst⟩

end RateLimits

namespace Api

/-- The crate `tower_governor`. -/
structure Governor where
  Config : Type
  /-- `GovernorConfigBuilder::finish`, after `period` (in milliseconds) and `burst_size`. -/
  finish : UInt64 → UInt32 → Option Config
  finish_eq_none : ∀ period burst, finish period burst = none ↔ period = 0 ∨ burst = 0

/-- The arguments of a call of `governor_layer`. -/
structure GovernorCall where
  /-- Milliseconds. -/
  period : UInt64
  burst : UInt32
  deriving DecidableEq, Repr

/-- Code that may panic, with the calls of `governor_layer` it has made. -/
abbrev Build := ExceptT String (StateM (List GovernorCall))

def governorLayer (G : Governor) (period : UInt64) (burst : UInt32) : Build G.Config := do
  modify (· ++ [⟨period, burst⟩])
  match G.finish period burst with
  | some config => return config
  | none => throw "governor config: period and burst are validated non-zero"

/-- The limit on address creation and on everything; `none` where it is disabled. -/
structure LimitLayers (G : Governor) where
  create : Option G.Config
  general : Option G.Config

def buildRouter (G : Governor) (config : RateLimits) : Build (LimitLayers G) := do
  let create ← (
    if config.createRateLimitPerMinute > 0 && config.createRateLimitBurst > 0 then
      let period := 60000 / max config.createRateLimitPerMinute 1
      some <$> governorLayer G period config.createRateLimitBurst
    else pure none)
  let general ← (
    if config.apiRateLimitPerSecond > 0 && config.apiRateLimitBurst > 0 then
      some <$> governorLayer G (1000 / max config.apiRateLimitPerSecond 1) config.apiRateLimitBurst
    else pure none)
  return ⟨create, general⟩

/-- What comes of a build (`error` is a panic) and the calls it has made. -/
def Build.result (b : Build α) : Except String α × List GovernorCall := b.run.run []

end Api
end AnonyMail
