import AnonyMail.LimitedServer
import AnonyMail.Lib.Projection
import AnonyMail.Verify.DailyQuota
import AnonyMail.Verify.Frames
import AnonyMail.Verify.SseSlots

/-! # The server with its limits

It does nothing that the server does not do, and each of its counters changes with the calls of that
counter alone. -/

namespace AnonyMail

open Calls Api

variable {app : AppState} {w w' : LimitedWorld} {e : Eff} {r : e.Ans} {ch : Choice}

/-! ## The server with its limits -/

/-- The calls of `RuntimeLimits`. -/
def Eff.Limit : Eff → Prop
  | .noteAddressCreated .. | .noteDomainCreated .. | .tryBeginDomainVerify _ | .tryAcquireSse _ => True
  | _ => False

theorem execLimited_outside (hx : execLimited app w e ch = some (r, w')) (he : ¬e.Limit) :
    exec app w.rest e ch = some (r, w'.rest) ∧ w'.limits = w.limits ∧ w'.live = w.live := by
  have hout : w.outside (exec app w.rest e ch) = some (r, w') := by
    cases e with
    | noteAddressCreated | noteDomainCreated | tryBeginDomainVerify | tryAcquireSse =>
      exact absurd trivial he
    | _ => exact hx
  obtain ⟨⟨b, rest⟩, hanswer, heq⟩ := Option.map_eq_some_iff.mp hout
  cases heq
  exact ⟨hanswer, rfl, rfl⟩

/-- What the server with its limits does, the server does. -/
theorem limited_projection (app : AppState) :
    Projection (server app) (limitedServer app) (·.rest) where
  prog _ := rfl
  exec {w w₁ e ch' r} hx := by
    by_cases he : e.Limit
    · cases e with
      | noteAddressCreated | noteDomainCreated | tryBeginDomainVerify | tryAcquireSse =>
        cases hx
        exact ⟨.verdict _, rfl⟩
      | _ => exact he.elim
    · exact ⟨ch', (execLimited_outside hx he).1⟩
  env {w w₁ x'} hx := by
    cases x' with
    | tick t =>
      cases hx
      exact .inr ⟨t, rfl⟩
    | dropSse i =>
      refine .inl ?_
      replace hx : w.tick (.dropSse i) = some w₁ := hx
      rw [LimitedWorld.tick] at hx
      split at hx
      · cases hx
        rfl
      · cases hx

/-! ## What a call leaves alone -/

namespace Api.RuntimeLimits

variable {l : RuntimeLimits}

theorem releasePermit_frame (l : RuntimeLimits) (permit : Bool) :
    ∃ g, l.releasePermit permit = { l with sseGlobal := g } := by
  cases permit with
  | false => exact ⟨l.sseGlobal, rfl⟩
  | true => exact ⟨_, rfl⟩

theorem trackIp_frame (l : RuntimeLimits) (permit : Bool) (ip : IpAddr) :
    ∃ g p, (l.trackIp permit ip).2 = { l with sseGlobal := g, ssePerIp := p } := by
  unfold trackIp
  split
  · dsimp only
    split
    · obtain ⟨g, hg⟩ := releasePermit_frame { l with ssePerIp := l.ssePerIp.orInsert ip 0 } permit
      exact ⟨g, _, hg⟩
    · exact ⟨_, _, rfl⟩
  · exact ⟨_, _, rfl⟩

theorem tryAcquireSse_frame (l : RuntimeLimits) (ip : IpAddr) :
    ∃ g p, (l.tryAcquireSse ip).2 = { l with sseGlobal := g, ssePerIp := p } := by
  unfold tryAcquireSse
  split
  · exact ⟨_, _, rfl⟩
  · next n _ =>
    obtain ⟨g, p, h⟩ := trackIp_frame { l with sseGlobal := some n } true ip
    exact ⟨g, p, h⟩
  · exact trackIp_frame l false ip

theorem dropSse_frame (l : RuntimeLimits) (guard : SseGuard) :
    ∃ g p, l.dropSse guard = { l with sseGlobal := g, ssePerIp := p } := by
  obtain ⟨g, h⟩ := releasePermit_frame { l with ssePerIp := _ } guard.permit
  exact ⟨g, _, h⟩

theorem tryBeginDomainVerify_frame (l : RuntimeLimits) (d : String) (now : Instant) :
    ∃ t, (l.tryBeginDomainVerify d now).2 = { l with domainVerifyLast := t } := by
  unfold tryBeginDomainVerify
  split
  · exact ⟨_, rfl⟩
  · dsimp only
    split <;> split <;> exact ⟨_, rfl⟩

end Api.RuntimeLimits

open RuntimeLimits

theorem throttle_frame (hx : execLimited app w e ch = some (r, w'))
    (he : ∀ d, e ≠ .tryBeginDomainVerify d) :
    w'.limits.domainVerifyLast = w.limits.domainVerifyLast ∧
      w'.limits.domainVerifyMinInterval = w.limits.domainVerifyMinInterval := by
  by_cases hlimit : e.Limit
  · cases e with
    | noteAddressCreated | noteDomainCreated =>
      cases hx
      exact ⟨rfl, rfl⟩
    | tryAcquireSse ip =>
      have hlimits : w'.limits = (w.limits.tryAcquireSse ip).2 := by cases hx; rfl
      obtain ⟨g, p, h⟩ := tryAcquireSse_frame w.limits ip
      rw [hlimits, h]
      exact ⟨rfl, rfl⟩
    | tryBeginDomainVerify d => exact absurd rfl (he d)
    | _ => exact hlimit.elim
  · rw [(execLimited_outside hx hlimit).2.1]
    exact ⟨rfl, rfl⟩

theorem execLimited_rest (hx : execLimited app w e ch = some (r, w')) :
    ∃ ch, exec app w.rest e ch = some (r, w'.rest) := (limited_projection app).exec hx

theorem execLimited_instant (hx : execLimited app w e ch = some (r, w')) :
    w'.rest.instant = w.rest.instant := by
  obtain ⟨ch, hexec⟩ := execLimited_rest hx
  exact (exec_clocks_eq hexec).2

/-- The limits of a stream that ends, and a clock that only moves on. -/
theorem tick_cases {x : LimitedTick} (hx : w.tick x = some w') :
    (w'.limits = w.limits ∧ w'.live = w.live ∧ w.rest.instant ≤ w'.rest.instant) ∨
    ∃ i guard, w.live[i]? = some guard ∧
      w' = { w with limits := w.limits.dropSse guard, live := w.live.eraseIdx i } := by
  cases x with
  | tick t =>
    cases hx
    cases t with
    | clock t => exact .inl ⟨rfl, rfl, le_rfl⟩
    | instant n => exact .inl ⟨rfl, rfl, Nat.le_add_right ..⟩
  | dropSse i =>
    rw [LimitedWorld.tick] at hx
    split at hx
    · next guard hi =>
      cases hx
      exact .inr ⟨i, guard, hi, rfl⟩
    · cases hx

end AnonyMail
