import Mathlib.Data.List.Perm.Basic
import AnonyMail.Api.Limits
import AnonyMail.Lib.Tally

/-! # Slots of event streams

A stream takes a permit of the server and a slot of its address, one after the other, and its guard
gives both back. Over any run of connects and disconnects the permits and the table are exactly what
the live guards account for. -/

namespace AnonyMail.Api

open Tally RuntimeLimits

structure Streams where
  limits : RuntimeLimits
  /-- The guards that have not been dropped. -/
  live : List SseGuard

inductive SseMove
  | acquire (ip : IpAddr)
  /-- The live guard at this position is dropped. -/
  | drop (i : Nat)

namespace Streams

def step (st : Streams) : SseMove → Streams
  | .acquire ip => ⟨(st.limits.tryAcquireSse ip).2, (st.limits.tryAcquireSse ip).1.toList ++ st.live⟩
  | .drop i =>
    match st.live[i]? with
    | some guard => ⟨st.limits.dropSse guard, st.live.eraseIdx i⟩
    | none => st

/-- The addresses of the live guards that are tracked. -/
def tracked (st : Streams) : List IpAddr := st.live.filterMap (·.ip)

/-- The permits and the table are what the live guards account for. -/
structure Balanced (st : Streams) (maxConcurrent maxPerIp : Nat) : Prop where
  perIpCap : st.limits.ssePerIpCap = maxPerIp
  table : Tallies st.limits.ssePerIp st.tracked
  bound : ∀ ip, st.tracked.count ip ≤ maxPerIp
  enabled : 0 < maxConcurrent →
    ∃ free, st.limits.sseGlobal = some free ∧ free + st.live.length = maxConcurrent
  disabled : maxConcurrent = 0 → st.limits.sseGlobal = none
  permit : ∀ guard ∈ st.live, guard.permit = decide (0 < maxConcurrent)

/-- Neither cap admits another stream of the address. -/
def Full (st : Streams) (maxConcurrent maxPerIp : Nat) (ip : IpAddr) : Prop :=
  (0 < maxConcurrent ∧ st.live.length = maxConcurrent) ∨
    (0 < maxPerIp ∧ st.tracked.count ip = maxPerIp)

end Streams

variable {l : RuntimeLimits} {permit : Bool} {ip : IpAddr} {guard : SseGuard}

/-! ## One call -/

theorem trackIp_cases (l : RuntimeLimits) (permit : Bool) (ip : IpAddr) :
    (l.ssePerIpCap = 0 ∧ trackIp l permit ip = (some ⟨permit, none⟩, l)) ∨
    (0 < l.ssePerIpCap ∧ l.ssePerIpCap ≤ (l.ssePerIp.lookup ip).getD 0 ∧
      trackIp l permit ip = (none, releasePermit l permit)) ∨
    (0 < l.ssePerIpCap ∧ (l.ssePerIp.lookup ip).getD 0 < l.ssePerIpCap ∧
      trackIp l permit ip = (some ⟨permit, some ip⟩, { l with ssePerIp := add l.ssePerIp ip })) := by
  have hcount : ((l.ssePerIp.orInsert ip 0).lookup ip).getD 0 = (l.ssePerIp.lookup ip).getD 0 := by
    rw [HashMap.lookup_orInsert, if_pos rfl, Option.getD_some]
  rcases Nat.eq_zero_or_pos l.ssePerIpCap with h0 | hpos
  · exact .inl ⟨h0, by rw [trackIp, if_neg (by omega)]⟩
  rcases Nat.lt_or_ge ((l.ssePerIp.lookup ip).getD 0) l.ssePerIpCap with hlt | hge
  · refine .inr (.inr ⟨hpos, hlt, ?_⟩)
    simp only [trackIp, if_pos hpos, hcount, if_neg (Nat.not_le.mpr hlt), HashMap.orInsert_insert,
      ge_iff_le, add]
  · -- An address with a full count is in the table, so `or_insert` adds nothing.
    have hmem : ip ∈ l.ssePerIp := by
      by_contra hmem
      rw [AList.lookup_eq_none.mpr hmem, Option.getD_none] at hge
      omega
    have hsame : l.ssePerIp.orInsert ip 0 = l.ssePerIp := if_pos hmem
    refine .inr (.inl ⟨hpos, hge, ?_⟩)
    simp only [trackIp, if_pos hpos, hsame, ge_iff_le, if_pos hge]

theorem dropSse_eq : l.dropSse guard = releasePermit
    { l with ssePerIp := guard.ip.elim l.ssePerIp (remove l.ssePerIp) } guard.permit := by
  rw [dropSse]
  cases guard.ip with
  | none => rfl
  | some ip =>
    cases hip : l.ssePerIp.lookup ip with
    | none | some n => simp [remove, hip]

/-- The limits while a permit is held that no guard has yet. -/
def takePermit (l : RuntimeLimits) : RuntimeLimits := { l with sseGlobal := l.sseGlobal.map (· - 1) }

theorem tryAcquireSse_cases (l : RuntimeLimits) (ip : IpAddr) :
    (l.sseGlobal = some 0 ∧ l.tryAcquireSse ip = (none, l)) ∨
    (l.sseGlobal ≠ some 0 ∧ l.tryAcquireSse ip = trackIp (takePermit l) l.sseGlobal.isSome ip ∧
      releasePermit (takePermit l) l.sseGlobal.isSome = l) := by
  obtain ⟨sseGlobal, -⟩ := l
  rcases sseGlobal with _ | _ | n
  · exact .inr ⟨by simp, rfl, rfl⟩
  · exact .inl ⟨rfl, rfl⟩
  · exact .inr ⟨by simp, rfl, rfl⟩

namespace Streams

variable {st : Streams} {maxConcurrent maxPerIp : Nat}

/-- A guard for which a permit is free and whose address is below the cap. -/
theorem Balanced.push {perIp : HashMap IpAddr Nat} (hb : st.Balanced maxConcurrent maxPerIp)
    (hfree : st.limits.sseGlobal ≠ some 0) (hpermit : guard.permit = decide (0 < maxConcurrent))
    (htable : Tallies perIp (guard.ip.toList ++ st.tracked))
    (hbound : ∀ ip, (guard.ip.toList ++ st.tracked).count ip ≤ maxPerIp) :
    Balanced ⟨{ takePermit st.limits with ssePerIp := perIp }, guard :: st.live⟩ maxConcurrent
      maxPerIp := by
  have htracked : ∀ l, tracked ⟨l, guard :: st.live⟩ = guard.ip.toList ++ st.tracked := by
    intro l
    rw [tracked, tracked, List.filterMap_cons]
    cases guard.ip <;> rfl
  refine ⟨hb.perIpCap, ?_, ?_, fun h => ?_, fun h => ?_, ?_⟩
  · rw [htracked]
    exact htable
  · rw [htracked]
    exact hbound
  · obtain ⟨free, hsome, hsum⟩ := hb.enabled h
    rw [hsome, ne_eq, Option.some.injEq] at hfree
    refine ⟨free - 1, by rw [takePermit, hsome]; rfl, ?_⟩
    rw [List.length_cons]
    omega
  · rw [takePermit, hb.disabled h]
    rfl
  · intro g hg
    rcases List.mem_cons.mp hg with rfl | hg
    · exact hpermit
    · exact hb.permit g hg

theorem Balanced.isSome (hb : st.Balanced maxConcurrent maxPerIp) :
    st.limits.sseGlobal.isSome = decide (0 < maxConcurrent) := by
  rcases Nat.eq_zero_or_pos maxConcurrent with h | h
  · rw [hb.disabled h, h]
    rfl
  · obtain ⟨free, hsome, -⟩ := hb.enabled h
    rw [hsome, decide_eq_true h]
    rfl

/-- A stream is refused when a cap is used up, and then nothing changes; else it gets a guard. -/
theorem Balanced.acquire (hb : st.Balanced maxConcurrent maxPerIp) (ip : IpAddr) :
    (st.limits.tryAcquireSse ip = (none, st.limits) ∧ st.Full maxConcurrent maxPerIp ip) ∨
    ∃ guard l, st.limits.tryAcquireSse ip = (some guard, l) ∧
      guard.ip = (if 0 < maxPerIp then some ip else none) ∧
      Balanced ⟨l, guard :: st.live⟩ maxConcurrent maxPerIp := by
  obtain ⟨h0, heq⟩ | ⟨hfree, heq, hback⟩ := tryAcquireSse_cases st.limits ip
  · refine .inl ⟨heq, .inl ?_⟩
    rcases Nat.eq_zero_or_pos maxConcurrent with h | h
    · cases h0.symm.trans (hb.disabled h)
    · obtain ⟨free, hsome, hsum⟩ := hb.enabled h
      cases h0.symm.trans hsome
      exact ⟨h, by omega⟩
  · have hcap : (takePermit st.limits).ssePerIpCap = maxPerIp := hb.perIpCap
    have hcount : ((takePermit st.limits).ssePerIp.lookup ip).getD 0 = st.tracked.count ip :=
      hb.table.getD ip
    have hcases := trackIp_cases (takePermit st.limits) st.limits.sseGlobal.isSome ip
    rw [hcount, hback, hb.isSome] at hcases
    rw [hb.isSome] at heq
    obtain ⟨h0, h⟩ | ⟨hpos, hle, h⟩ | ⟨hpos, hlt, h⟩ := hcases
    · rw [hcap] at h0
      exact .inr ⟨_, _, heq.trans h, by simp [h0], hb.push hfree rfl hb.table hb.bound⟩
    · rw [hcap] at hpos hle
      exact .inl ⟨heq.trans h, .inr ⟨hpos, le_antisymm (hb.bound ip) hle⟩⟩
    · rw [hcap] at hpos hlt
      refine .inr ⟨_, _, heq.trans h, (if_pos hpos).symm, hb.push hfree rfl (hb.table.add ip) fun ip' => ?_⟩
      rcases eq_or_ne ip' ip with rfl | hne
      · change (ip' :: st.tracked).count ip' ≤ maxPerIp
        rw [List.count_cons_self]
        exact hlt
      · change (ip :: st.tracked).count ip' ≤ maxPerIp
        rw [List.count_cons_of_ne hne.symm]
        exact hb.bound ip'

theorem Balanced.drop {live : List SseGuard} (hb : st.Balanced maxConcurrent maxPerIp)
    (hp : st.live.Perm (guard :: live)) :
    Balanced ⟨st.limits.dropSse guard, live⟩ maxConcurrent maxPerIp := by
  have htracked : st.tracked.Perm (guard.ip.toList ++ live.filterMap (·.ip)) := by
    refine (hp.filterMap _).trans (.of_eq ?_)
    rw [List.filterMap_cons]
    cases guard.ip <;> rfl
  have htable := hb.table.perm htracked
  have hpermit := hb.permit guard (hp.mem_iff.mpr List.mem_cons_self)
  have hlen : st.live.length = live.length + 1 := hp.length_eq
  have hglobal : (st.limits.dropSse guard).sseGlobal =
      if 0 < maxConcurrent then st.limits.sseGlobal.map (· + 1) else st.limits.sseGlobal := by
    rw [dropSse_eq, hpermit, releasePermit]
    simp only [decide_eq_true_eq]
    split <;> rfl
  have hrest : (st.limits.dropSse guard).ssePerIpCap = st.limits.ssePerIpCap ∧
      (st.limits.dropSse guard).ssePerIp =
        guard.ip.elim st.limits.ssePerIp (remove st.limits.ssePerIp) := by
    rw [dropSse_eq, releasePermit]
    split <;> exact ⟨rfl, rfl⟩
  refine ⟨hrest.1.trans hb.perIpCap, ?_, fun ip => ?_, fun h => ?_, fun h => ?_, fun g hg => ?_⟩
  · change Tallies (st.limits.dropSse guard).ssePerIp (live.filterMap (·.ip))
    rw [hrest.2]
    cases hip : guard.ip with
    | none => simpa [hip] using htable
    | some ip => exact Tallies.remove (by simpa [hip] using htable)
  · refine le_trans ?_ (hb.bound ip)
    rw [htracked.count_eq, List.count_append]
    exact Nat.le_add_left ..
  · obtain ⟨free, hsome, hsum⟩ := hb.enabled h
    refine ⟨free + 1, by rw [hglobal, if_pos h, hsome]; rfl, ?_⟩
    change free + 1 + live.length = maxConcurrent
    omega
  · rw [hglobal, if_neg (by omega), hb.disabled h]
  · exact hb.permit g (hp.mem_iff.mpr (List.mem_cons_of_mem _ hg))

theorem Balanced.step (hb : st.Balanced maxConcurrent maxPerIp) (m : SseMove) :
    (st.step m).Balanced maxConcurrent maxPerIp := by
  cases m with
  | acquire ip =>
    obtain ⟨h, -⟩ | ⟨guard, l, h, -, hl⟩ := hb.acquire ip
    · rw [Streams.step, h]
      exact hb
    · rw [Streams.step, h]
      exact hl
  | drop i =>
    rw [Streams.step]
    cases hi : st.live[i]? with
    | none => exact hb
    | some guard =>
      obtain ⟨hlt, rfl⟩ := List.getElem?_eq_some_iff.mp hi
      exact hb.drop (List.getElem_cons_eraseIdx_perm hlt).symm

/-- The slots and permits are conserved: what the table and the semaphore hold, whose slot a guard
holds, when a stream is refused and that this changes nothing, and that a drop finds something to
subtract from. -/
structure Conserved (st : Streams) (maxConcurrent maxPerIp : Nat) : Prop where
  table : ∀ ip, st.limits.ssePerIp.lookup ip =
    if ip ∈ st.tracked then some (st.tracked.count ip) else none
  bound : ∀ ip, st.tracked.count ip ≤ maxPerIp
  permits : 0 < maxConcurrent →
    ∃ free, st.limits.sseGlobal = some free ∧ free + st.live.length = maxConcurrent
  granted : ∀ ip guard, (st.limits.tryAcquireSse ip).1 = some guard →
    guard.ip = if 0 < maxPerIp then some ip else none
  unchanged : ∀ ip, (st.limits.tryAcquireSse ip).1 = none →
    (st.limits.tryAcquireSse ip).2 = st.limits
  full : ∀ ip, (st.limits.tryAcquireSse ip).1 = none → st.Full maxConcurrent maxPerIp ip
  exact_sub : ∀ guard ∈ st.live, ∀ ip, guard.ip = some ip →
    ∃ count, st.limits.ssePerIp.lookup ip = some (count + 1)

theorem Balanced.conserved (hb : st.Balanced maxConcurrent maxPerIp) :
    st.Conserved maxConcurrent maxPerIp := by
  refine ⟨hb.table, hb.bound, hb.enabled, fun ip guard hsome => ?_, fun ip hnone => ?_,
    fun ip hnone => ?_, ?_⟩
  · obtain ⟨h, -⟩ | ⟨guard', l, h, hip, -⟩ := hb.acquire ip
    · rw [h] at hsome
      cases hsome
    · rw [h] at hsome
      cases hsome
      exact hip
  · obtain ⟨h, -⟩ | ⟨guard, l, h, -⟩ := hb.acquire ip
    · rw [h]
    · rw [h] at hnone
      cases hnone
  · obtain ⟨-, hfull⟩ | ⟨guard, l, h, -⟩ := hb.acquire ip
    · exact hfull
    · rw [h] at hnone
      cases hnone
  · intro guard hguard ip hip
    have hmem : ip ∈ st.tracked := List.mem_filterMap.mpr ⟨guard, hguard, hip⟩
    have hpos : 0 < st.tracked.count ip := List.count_pos_iff.mpr hmem
    refine ⟨st.tracked.count ip - 1, ?_⟩
    rw [hb.table ip, if_pos hmem, Nat.sub_add_cancel hpos]

end Streams

/-- The server when it starts. -/
def noStreams (maxConcurrent maxPerIp : Nat) (dailyCreateCap dailyDomainCap verifyThrottle : Nat) :
    Streams :=
  ⟨fromConfig maxConcurrent maxPerIp dailyCreateCap dailyDomainCap verifyThrottle, []⟩

/-- Over every run of connects and disconnects, for any caps. -/
theorem sse_conserved (maxConcurrent maxPerIp dailyCreateCap dailyDomainCap verifyThrottle : Nat)
    (moves : List SseMove) :
    (moves.foldl Streams.step (noStreams maxConcurrent maxPerIp dailyCreateCap dailyDomainCap
      verifyThrottle)).Conserved maxConcurrent maxPerIp := by
  have hinit : (noStreams maxConcurrent maxPerIp dailyCreateCap dailyDomainCap
      verifyThrottle).Balanced maxConcurrent maxPerIp := by
    refine ⟨rfl, tallies_nil, fun _ => Nat.zero_le _, fun h => ?_, fun h => ?_, by simp [noStreams]⟩
    · exact ⟨maxConcurrent, if_pos h, rfl⟩
    · exact if_neg (by omega)
  have hrun : ∀ st : Streams, st.Balanced maxConcurrent maxPerIp →
      (moves.foldl Streams.step st).Balanced maxConcurrent maxPerIp := by
    induction moves with
    | nil => exact fun _ h => h
    | cons m moves ih => exact fun st h => ih (st.step m) (h.step m)
  exact (hrun _ hinit).conserved

end AnonyMail.Api
