import AnonyMail.Attest

/-! # The connection rate limiter (`smtp/mod.rs`)

Each method is a function of the table under its lock. `duration_since` saturates, as subtraction on
`Nat` does. -/

namespace AnonyMail.Smtp

structure RejectionLog where
  lastLogged : Instant
  unreported : Nat

structure RateLimiter where
  window : Nat
  max : Nat
  hits : HashMap IpAddr (List Instant)
  rejections : HashMap IpAddr RejectionLog

namespace RateLimiter

def new (window max : Nat) : RateLimiter := ⟨window, max, ∅, ∅⟩

/-- The table of hits, without the addresses that have no recent ones if it is large. -/
def sweepHits (l : RateLimiter) (now : Instant) : HashMap IpAddr (List Instant) :=
  if l.hits.entries.length > 10000 then
    l.hits.retain fun _ times => times.any fun t => now - t < l.window
  else l.hits

def checkAt (l : RateLimiter) (ip : IpAddr) (now : Instant) : Bool × RateLimiter :=
  let hits := l.sweepHits now
  let times := ((hits.lookup ip).getD []).filter fun t => now - t < l.window
  if times.length ≥ l.max then (false, { l with hits := hits.insert ip times })
  else (true, { l with hits := hits.insert ip (times ++ [now]) })

def sweepRejections (l : RateLimiter) (now : Instant) : HashMap IpAddr RejectionLog :=
  if l.rejections.entries.length > 10000 then
    l.rejections.retain fun _ r => now - r.lastLogged < l.window
  else l.rejections

def noteRejectionAt (l : RateLimiter) (ip : IpAddr) (now : Instant) : Option Nat × RateLimiter :=
  let rejections := l.sweepRejections now
  match rejections.lookup ip with
  | none => (some 1, { l with rejections := rejections.insert ip ⟨now, 0⟩ })
  | some r =>
    if now - r.lastLogged < l.window then
      (none, { l with rejections := rejections.insert ip ⟨r.lastLogged, r.unreported + 1⟩ })
    else (some (r.unreported + 1), { l with rejections := rejections.insert ip ⟨now, 0⟩ })

end RateLimiter
end AnonyMail.Smtp
