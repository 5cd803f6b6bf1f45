import AnonyMail.Attest

/-! # Per-address limits of the API (`api/limits.rs`)

Each method as a function of the counters it locks. `saturating_sub` is subtraction on `Nat`. -/

namespace AnonyMail.Api

structure RuntimeLimits where
  /-- The free permits of the semaphore, `none` if the global cap is disabled. -/
  sseGlobal : Option Nat
  ssePerIpCap : Nat
  ssePerIp : HashMap IpAddr Nat
  dailyCreateCap : Nat
  /-- A date is a number of days. -/
  createdToday : HashMap IpAddr (Int × Nat)
  dailyDomainCap : Nat
  domainsToday : HashMap IpAddr (Int × Nat)
  domainVerifyMinInterval : Nat
  domainVerifyLast : HashMap String Instant

structure SseGuard where
  permit : Bool
  ip : Option IpAddr

/-- `note_daily`, on the table under its lock. -/
def noteDaily (table : HashMap IpAddr (Int × Nat)) (cap : Nat) (ip : IpAddr) (today : Int) :
    Bool × HashMap IpAddr (Int × Nat) :=
  if cap = 0 then (true, table) else
  let counters :=
    if table.entries.length > 100000 then table.retain fun _ entry => entry.1 = today else table
  let counters := counters.orInsert ip (today, 0)
  let entry := (counters.lookup ip).getD (today, 0)
  let entry := if entry.1 ≠ today then (today, 0) else entry
  if entry.2 ≥ cap then (false, counters.insert ip entry)
  else (true, counters.insert ip (entry.1, entry.2 + 1))

namespace RuntimeLimits

/-- The configured caps; `0` disables each. -/
def fromConfig (sseMaxConcurrent sseMaxPerIp maxAddressesPerIpPerDay maxCustomDomainsPerIpPerDay
    customDomainVerifyThrottle : Nat) : RuntimeLimits where
  sseGlobal := if sseMaxConcurrent > 0 then some sseMaxConcurrent else none
  ssePerIpCap := sseMaxPerIp
  ssePerIp := ∅
  dailyCreateCap := maxAddressesPerIpPerDay
  createdToday := ∅
  dailyDomainCap := maxCustomDomainsPerIpPerDay
  domainsToday := ∅
  domainVerifyMinInterval := customDomainVerifyThrottle
  domainVerifyLast := ∅

/-- What dropping a permit does. -/
def releasePermit (l : RuntimeLimits) (permit : Bool) : RuntimeLimits :=
  if permit then { l with sseGlobal := l.sseGlobal.map (· + 1) } else l

/-- The second half of `try_acquire_sse`, with the permit of the first. -/
def trackIp (l : RuntimeLimits) (permit : Bool) (ip : IpAddr) : Option SseGuard × RuntimeLimits :=
  if l.ssePerIpCap > 0 then
    let perIp := l.ssePerIp.orInsert ip 0
    let count := (perIp.lookup ip).getD 0
    if count ≥ l.ssePerIpCap then (none, releasePermit { l with ssePerIp := perIp } permit)
    else (some ⟨permit, some ip⟩, { l with ssePerIp := perIp.insert ip (count + 1) })
  else (some ⟨permit, none⟩, l)

def tryAcquireSse (l : RuntimeLimits) (ip : IpAddr) : Option SseGuard × RuntimeLimits :=
  match l.sseGlobal with
  | some 0 => (none, l)
  | some (n + 1) => trackIp { l with sseGlobal := some n } true ip
  | none => trackIp l false ip

/-- `SseGuard::drop`, and then its fields. -/
def dropSse (l : RuntimeLimits) (guard : SseGuard) : RuntimeLimits :=
  let perIp :=
    match guard.ip with
    | some ip =>
      match l.ssePerIp.lookup ip with
      | some count => if count - 1 = 0 then l.ssePerIp.erase ip else l.ssePerIp.insert ip (count - 1)
      | none => l.ssePerIp
    | none => l.ssePerIp
  releasePermit { l with ssePerIp := perIp } guard.permit

def noteAddressCreated (l : RuntimeLimits) (ip : IpAddr) (today : Int) : Bool × RuntimeLimits :=
  let (r, createdToday) := noteDaily l.createdToday l.dailyCreateCap ip today
  (r, { l with createdToday })

def noteDomainCreated (l : RuntimeLimits) (ip : IpAddr) (today : Int) : Bool × RuntimeLimits :=
  let (r, domainsToday) := noteDaily l.domainsToday l.dailyDomainCap ip today
  (r, { l with domainsToday })

def tryBeginDomainVerify (l : RuntimeLimits) (domain : String) (now : Instant) :
    Bool × RuntimeLimits :=
  if l.domainVerifyMinInterval = 0 then (true, l) else
  let last :=
    if l.domainVerifyLast.entries.length > 10000 then
      l.domainVerifyLast.retain fun _ t => now - t < l.domainVerifyMinInterval
    else l.domainVerifyLast
  if (last.lookup domain).any fun t => now - t < l.domainVerifyMinInterval then
    (false, { l with domainVerifyLast := last })
  else (true, { l with domainVerifyLast := last.insert domain now })

end RuntimeLimits
end AnonyMail.Api
