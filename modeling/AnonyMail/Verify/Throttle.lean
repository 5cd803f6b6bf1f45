import AnonyMail.Lib.Conservation
import AnonyMail.Lib.SlidingWindow
import AnonyMail.Verify.DomainClaims
import AnonyMail.Verify.LimitedServer

/-! # The throttle of DNS verification

What the table remembers of a domain is, as far as it is recent, when its last run began. So the
throttle is a sliding window that admits one run at a time, whatever the sweep forgets. -/

namespace AnonyMail

open Calls SlidingWindow

namespace Api.RuntimeLimits

variable {l : RuntimeLimits} {d d' : String} {now n : Instant}

/-- When the run of a domain that the table remembers began. -/
def begun (l : RuntimeLimits) (d : String) : List Instant := (l.domainVerifyLast.lookup d).toList

/-- The table, without the runs that are too old to count if it is large. -/
def sweepVerify (l : RuntimeLimits) (now : Instant) : HashMap String Instant :=
  if l.domainVerifyLast.entries.length > 10000 then
    l.domainVerifyLast.retain fun _ t => now - t < l.domainVerifyMinInterval
  else l.domainVerifyLast

/-- The sweep drops no recent run. -/
theorem recent_sweepVerify : recent l.domainVerifyMinInterval now ((l.sweepVerify now).lookup d).toList =
    recent l.domainVerifyMinInterval now (l.begun d) := by
  rw [sweepVerify, begun]
  split
  · rw [HashMap.lookup_retain]
    cases l.domainVerifyLast.lookup d with
    | none => rfl
    | some t =>
      rw [Option.filter_some]
      split
      · rfl
      · next hold =>
        rw [Option.toList_none, recent_nil, Option.toList_some, eq_comm, recent,
          List.filter_eq_nil_iff]
        simpa using hold
  · rfl

theorem recent_zero (ts : List Instant) : recent 0 now ts = [] :=
  List.filter_eq_nil_iff.mpr fun t _ => by simp

theorem any_recent (o : Option Instant) (w : Nat) :
    (o.any fun t => now - t < w) = !admits w 1 o.toList now := by
  cases o with
  | none => rfl
  | some t => by_cases h : now - t < w <;> simp [admits, recent, h]

/-- A run begins as the sliding window admits it. -/
theorem tryBeginDomainVerify_eq (hpos : l.domainVerifyMinInterval ≠ 0) :
    l.tryBeginDomainVerify d now =
      if admits l.domainVerifyMinInterval 1 (l.begun d) now then
        (true, { l with domainVerifyLast := (l.sweepVerify now).insert d now })
      else (false, { l with domainVerifyLast := l.sweepVerify now }) := by
  have hbody : l.tryBeginDomainVerify d now =
      if ((l.sweepVerify now).lookup d).any fun t => now - t < l.domainVerifyMinInterval then
        (false, { l with domainVerifyLast := l.sweepVerify now })
      else (true, { l with domainVerifyLast := (l.sweepVerify now).insert d now }) := if_neg hpos
  rw [hbody, any_recent, admits, recent_sweepVerify, ← admits]
  cases admits l.domainVerifyMinInterval 1 (l.begun d) now <;> rfl

theorem fst_tryBeginDomainVerify : (l.tryBeginDomainVerify d now).1 =
    admits l.domainVerifyMinInterval 1 (l.begun d) now := by
  by_cases h0 : l.domainVerifyMinInterval = 0
  · rw [tryBeginDomainVerify, if_pos h0, h0, admits, recent_zero]
    rfl
  · rw [tryBeginDomainVerify_eq h0]
    cases admits l.domainVerifyMinInterval 1 (l.begun d) now <;> rfl

theorem interval_tryBeginDomainVerify :
    (l.tryBeginDomainVerify d now).2.domainVerifyMinInterval = l.domainVerifyMinInterval := by
  by_cases h0 : l.domainVerifyMinInterval = 0
  · rw [tryBeginDomainVerify, if_pos h0]
  · rw [tryBeginDomainVerify_eq h0]
    cases admits l.domainVerifyMinInterval 1 (l.begun d) now <;> rfl

theorem recent_begun_of_ne (hle : now ≤ n) (hne : d' ≠ d) :
    recent l.domainVerifyMinInterval n ((l.tryBeginDomainVerify d now).2.begun d') =
      recent l.domainVerifyMinInterval n (l.begun d') := by
  by_cases h0 : l.domainVerifyMinInterval = 0
  · rw [h0, recent_zero, recent_zero]
  · have hbegun : (l.tryBeginDomainVerify d now).2.begun d' =
        ((l.sweepVerify now).lookup d').toList := by
      rw [tryBeginDomainVerify_eq h0, begun]
      cases admits l.domainVerifyMinInterval 1 (l.begun d) now with
      | true => exact congrArg Option.toList (AList.lookup_insert_ne hne)
      | false => rfl
    rw [hbegun, ← recent_recent hle, recent_sweepVerify, recent_recent hle]

theorem recent_begun_self (hle : now ≤ n) :
    recent l.domainVerifyMinInterval n ((l.tryBeginDomainVerify d now).2.begun d) =
      recent l.domainVerifyMinInterval n
        (if admits l.domainVerifyMinInterval 1 (l.begun d) now then l.begun d ++ [now]
        else l.begun d) := by
  by_cases h0 : l.domainVerifyMinInterval = 0
  · rw [h0, recent_zero, recent_zero]
  · rw [tryBeginDomainVerify_eq h0]
    cases hadmits : admits l.domainVerifyMinInterval 1 (l.begun d) now with
    | true =>
      -- what was remembered before is too old to count
      have hold : recent l.domainVerifyMinInterval now (l.begun d) = [] :=
        List.eq_nil_of_length_eq_zero (Nat.lt_one_iff.mp (of_decide_eq_true hadmits))
      have hlater : recent l.domainVerifyMinInterval n (l.begun d) = [] := by
        rw [← recent_recent hle, hold, recent_nil]
      rw [if_pos rfl, if_pos rfl, recent_append, hlater, begun, AList.lookup_insert]
      rfl
    | false =>
      rw [if_neg Bool.false_ne_true, if_neg Bool.false_ne_true, ← recent_recent hle, begun,
        recent_sweepVerify, recent_recent hle]

end Api.RuntimeLimits

/-! ## Runs -/

open Api

/-- A call that asks for a run of the checks of a domain. -/
structure Verification where
  domain : String
  time : Instant
  granted : Bool

def verificationOf (x : Entry LimitedWorld Task Eff.Ans) : Option Verification :=
  match (⟨x.call, x.answer⟩ : Event Eff.Ans) with
  | ⟨.tryBeginDomainVerify domain, granted⟩ => some ⟨domain, x.before.rest.instant, granted⟩
  | _ => none

def verifications (log : List (Entry LimitedWorld Task Eff.Ans)) : List Verification :=
  log.filterMap verificationOf

/-- When runs of the domain were asked for. -/
def askedRuns (d : String) (vs : List Verification) : List Instant :=
  (vs.filter (·.domain = d)).map (·.time)

/-- When runs of the domain began. -/
def begunRuns (d : String) (vs : List Verification) : List Instant :=
  (vs.filter fun v => v.domain = d ∧ v.granted).map (·.time)

variable {app : AppState} {w w' : LimitedWorld} {e : Eff} {r : e.Ans} {ch : Choice} {d : String}
  {vs : List Verification} {v : Verification} {interval : Nat}
  {log : List (Entry LimitedWorld Task Eff.Ans)} {x : Entry LimitedWorld Task Eff.Ans}

theorem askedRuns_concat : askedRuns d (vs ++ [v]) =
    if v.domain = d then askedRuns d vs ++ [v.time] else askedRuns d vs := by
  rw [askedRuns, List.filter_append, List.map_append]
  split
  · next h => simp [askedRuns, h]
  · next h => simp [askedRuns, h]

theorem begunRuns_concat : begunRuns d (vs ++ [v]) =
    if v.domain = d ∧ v.granted then begunRuns d vs ++ [v.time] else begunRuns d vs := by
  rw [begunRuns, List.filter_append, List.map_append]
  split
  · next h => simp [begunRuns, h]
  · next h => simp [begunRuns, h]

theorem verifications_concat_of_none (h : verificationOf x = none) :
    verifications (log ++ [x]) = verifications log := by
  rw [verifications, List.filterMap_append, List.filterMap_cons_none h, List.filterMap_nil,
    List.append_nil, verifications]

/-- The table remembers, as far as it is recent, what the log tells, and runs began as the sliding
window admits them. -/
structure Throttled (interval : Nat) (w : LimitedWorld) (vs : List Verification) : Prop where
  spacing : w.limits.domainVerifyMinInterval = interval
  past : ∀ v ∈ vs, v.time ≤ w.rest.instant
  sorted : vs.Pairwise fun v v' => v.time ≤ v'.time
  admitted (d : String) : begunRuns d vs = admitted interval 1 (askedRuns d vs)
  kept (d : String) : recent interval w.rest.instant (w.limits.begun d) =
    recent interval w.rest.instant (begunRuns d vs)

/-- The table is left alone, and the clock moves on. -/
theorem Throttled.frame (h : Throttled interval w vs)
    (hlast : w'.limits.domainVerifyLast = w.limits.domainVerifyLast)
    (hinterval : w'.limits.domainVerifyMinInterval = w.limits.domainVerifyMinInterval)
    (hle : w.rest.instant ≤ w'.rest.instant) : Throttled interval w' vs where
  spacing := hinterval.trans h.spacing
  past v hv := Nat.le_trans (h.past v hv) hle
  sorted := h.sorted
  admitted := h.admitted
  kept d := by
    have hbegun : w'.limits.begun d = w.limits.begun d := by
      rw [RuntimeLimits.begun, hlast, RuntimeLimits.begun]
    rw [hbegun, ← recent_recent hle, h.kept, recent_recent hle]

/-- One more run is asked for. -/
theorem Throttled.ask (h : Throttled interval w vs) (d : String) :
    Throttled interval
      { w with limits := (w.limits.tryBeginDomainVerify d w.rest.instant).2 }
      (vs ++ [⟨d, w.rest.instant, (w.limits.tryBeginDomainVerify d w.rest.instant).1⟩]) := by
  have hgranted : (w.limits.tryBeginDomainVerify d w.rest.instant).1 =
      admits interval 1 (begunRuns d vs) w.rest.instant := by
    rw [RuntimeLimits.fst_tryBeginDomainVerify, h.spacing, admits, h.kept, admits]
  rw [hgranted]
  refine ⟨RuntimeLimits.interval_tryBeginDomainVerify.trans h.spacing, ?_, ?_, fun d' => ?_,
    fun d' => ?_⟩
  · intro v hv
    rcases List.mem_append.mp hv with hv | hv
    · exact h.past v hv
    · cases List.mem_singleton.mp hv
      exact le_rfl
  · refine List.pairwise_append.mpr ⟨h.sorted, List.pairwise_singleton .., fun v hv v' hv' => ?_⟩
    cases List.mem_singleton.mp hv'
    exact h.past v hv
  · rw [begunRuns_concat, askedRuns_concat]
    by_cases hd : d = d'
    · subst hd
      rw [if_pos rfl, admitted_concat, ← h.admitted]
      simp only [true_and]
    · rw [if_neg hd, if_neg fun hand => hd hand.1, h.admitted]
  · rw [begunRuns_concat]
    by_cases hd : d = d'
    · subst hd
      have hself := @RuntimeLimits.recent_begun_self w.limits d w.rest.instant w.rest.instant le_rfl
      have hadmits : admits interval 1 (w.limits.begun d) w.rest.instant =
          admits interval 1 (begunRuns d vs) w.rest.instant := by rw [admits, h.kept, admits]
      rw [h.spacing, hadmits] at hself
      rw [hself]
      simp only [true_and]
      split
      · rw [recent_append, recent_append, h.kept]
      · exact h.kept d
    · have hne := @RuntimeLimits.recent_begun_of_ne w.limits d d' w.rest.instant w.rest.instant le_rfl
        (Ne.symm hd)
      rw [h.spacing] at hne
      rw [if_neg fun hand => hd hand.1]
      exact hne.trans (h.kept d')

theorem Throttled.act (h : Throttled interval w (verifications log))
    (hx : execLimited app w e ch = some (r, w')) (i : Nat) (t : Task) :
    Throttled interval w' (verifications (log ++ [⟨i, t, w, e, r, w'⟩])) := by
  by_cases hask : ∃ d, e = .tryBeginDomainVerify d
  · obtain ⟨d, rfl⟩ := hask
    cases hx
    rw [verifications, List.filterMap_append]
    exact h.ask d
  · have he : ∀ d, e ≠ .tryBeginDomainVerify d := fun d heq => hask ⟨d, heq⟩
    have hnone : verificationOf ⟨i, t, w, e, r, w'⟩ = none := by
      unfold verificationOf
      split
      · next heq => exact absurd (congrArg Sigma.fst heq) (he _)
      · rfl
    obtain ⟨hlast, hinterval⟩ := throttle_frame hx he
    rw [verifications_concat_of_none hnone]
    exact h.frame hlast hinterval (le_of_eq (execLimited_instant hx).symm)

theorem Throttled.tick (h : Throttled interval w vs) {t : LimitedTick} (hx : w.tick t = some w') :
    Throttled interval w' vs := by
  obtain ⟨hlimits, -, hle⟩ | ⟨i, guard, -, rfl⟩ := tick_cases hx
  · exact h.frame (by rw [hlimits]) (by rw [hlimits]) hle
  · obtain ⟨g, p, hdrop⟩ := RuntimeLimits.dropSse_frame w.limits guard
    exact h.frame (by rw [hdrop]) (by rw [hdrop]) le_rfl

theorem throttled_of_reach {ok : LimitedConf → Move Task Choice LimitedTick → Prop} {c : LimitedConf}
    {limits : RuntimeLimits} {clock : DateTime} (hempty : limits.domainVerifyLast = ∅)
    (h : (limitedServer app).Reach ok (System.init (.start limits clock)) c) :
    Throttled limits.domainVerifyMinInterval c.world (verifications c.log) := by
  induction h with
  | refl =>
    refine ⟨rfl, nofun, .nil, fun _ => rfl, fun d => ?_⟩
    change recent _ _ (limits.begun d) = []
    rw [RuntimeLimits.begun, hempty]
    rfl
  | tail _ _ hs ih =>
    obtain ⟨t, -, rfl⟩ | ⟨i, ch, t, hist, e, k, r, w, -, -, hx, rfl⟩ | ⟨x, w, -, hx, rfl⟩ :=
      System.step_cases hs
    · exact ih
    · exact ih.act hx i t
    · exact ih.tick hx

/-! ## The lookups of a run -/

open CustomDomains

inductive DnsRecord
  | txt
  | mx
  deriving DecidableEq

/-- The call looks up a record of the domain. -/
def looksUp (kind : DnsRecord) (d : String) : Event Eff.Ans → Bool
  | ⟨.txtRecords host, _⟩ => kind = .txt ∧ host = txtHost d
  | ⟨.mxHosts name, _⟩ => kind = .mx ∧ name = d
  | _ => false

/-- A run of the checks of the domain begins. -/
def begins (d : String) : Event Eff.Ans → Bool
  | ⟨.tryBeginDomainVerify domain, granted⟩ => granted ∧ domain = d
  | _ => false

def Task.verifies : Task → Bool
  | .http (.verifyDomain ..) => true
  | _ => false

/-- A request looks a record up once, in a run that has begun. -/
def Verifies (h : Hist) (e : Eff) : Prop :=
  ∀ kind d (r : e.Ans), looksUp kind d ⟨e, r⟩ → h.any (begins d) ∧ ¬h.any (looksUp kind d)

variable {hist : Hist}

theorem looksUp_of_asks {ev : Event Eff.Ans} (he : ev.1.Asks) (kind : DnsRecord) :
    looksUp kind d ev = false := by
  obtain ⟨e, r⟩ := ev
  cases e <;> first | rfl | exact he.elim

theorem verifies_of_asks (he : e.Asks) : Verifies hist e :=
  fun kind d r hr => absurd hr (by rw [looksUp_of_asks he]; exact Bool.false_ne_true)

theorem txtHost_injective {d d' : String} (h : txtHost d = txtHost d') : d = d' := by
  rw [txtHost, txtHost] at h
  exact (String.append_right_inj _).mp h

/-- The checks, with no lookup before them. -/
theorem safe_checkAndRecord_once {cfg : Config} {record : CustomDomain}
    (hbegun : hist.any (begins record.domain)) (hnone : ∀ kind d, ¬hist.any (looksUp kind d)) :
    Safe Verifies hist (checkAndRecord cfg record) := by
  refine safe_call (fun kind d r hr => ?_) fun txts => safe_call (fun kind d r hr => ?_) fun hosts =>
    safe_call (fun _ _ _ hr => nomatch hr) fun now => safe_call (fun _ _ _ hr => nomatch hr) fun r => ?_
  · obtain ⟨rfl, hhost⟩ := of_decide_eq_true hr
    exact ⟨txtHost_injective hhost ▸ hbegun, hnone _ _⟩
  · obtain ⟨rfl, rfl⟩ := of_decide_eq_true hr
    rw [List.any_append, List.any_append]
    exact ⟨Bool.or_eq_true_iff.mpr (.inl hbegun), by simpa [looksUp] using hnone .mx record.domain⟩
  · cases r with
    | ok _ => exact safe_ret
    | error e => exact safe_ret

namespace Api

theorem asks_authorizeDomain (name : String) (hs : HeaderMap) :
    Only Eff.Asks (authorizeDomain app name hs).run := by
  intro h
  refine safe_store_bind trivial fun o => safe_okOr_bind fun record _ => safe_okOr_bind fun token _ => ?_
  split
  · exact safe_pure
  · exact safe_throw

theorem verifies_verify (name : String) (hs : HeaderMap) :
    Safe Verifies [] (CustomDomains.verify app name hs).run := by
  have hgate : Only Eff.Asks (attestationGate app hs).run :=
    only_of_yields fun _ => attestationGate_yields fun _ _ he => he.1
  have hquiet : ∀ {l : Hist}, (∀ ev ∈ l, ev.1.Asks) → ∀ kind d, ¬l.any (looksUp kind d) := by
    intro l hl kind d hany
    obtain ⟨ev, hev, hlooks⟩ := List.any_eq_true.mp hany
    rw [looksUp_of_asks (hl ev hev)] at hlooks
    cases hlooks
  refine bind_only hgate (fun _ _ => verifies_of_asks) fun l _ hl => ?_
  refine bind_only (asks_authorizeDomain name hs) (fun _ _ => verifies_of_asks) fun l' record hl' => ?_
  refine safe_perform_bind (fun _ _ _ hr => nomatch hr) fun granted => ?_
  cases granted with
  | false => exact safe_throw
  | true =>
    refine safe_lift_bind (safe_checkAndRecord_once ?_ fun kind d => ?_) fun _ r _ => ?_
    · simp [begins]
    · have hasks := hquiet (List.forall_mem_append.mpr ⟨hl, hl'⟩) kind d
      simpa [looksUp] using hasks
    · split
      · exact safe_throw
      · exact safe_pure

end Api

theorem verifies_task (app : AppState) (t : Task) :
    Safe (fun h e => t.verifies → Verifies h e) [] (t.prog app) := by
  have hany {p : Run Outcome} (ht : ¬t.verifies) : Safe (fun h e => t.verifies → Verifies h e) [] p :=
    Safe.imp ⟨Prog.obeys_trivial⟩ fun _ _ _ h => absurd h ht
  cases t with
  | http req =>
    cases req with
    | verifyDomain name hs =>
      refine Safe.map (Safe.imp ?_ fun _ _ h _ => h)
      change Safe Verifies [] (ifCustomDomains app _).run
      rw [ifCustomDomains]
      split
      · exact safe_map (Api.verifies_verify name hs)
      · exact safe_throw
    | _ => exact hany Bool.false_ne_true
  | _ => exact hany Bool.false_ne_true

theorem length_begunRuns (d : String) (log : List (Entry LimitedWorld Task Eff.Ans)) :
    (begunRuns d (verifications log)).length = log.countP fun x => begins d ⟨x.call, x.answer⟩ := by
  have hbegins (x : Entry LimitedWorld Task Eff.Ans) : begins d ⟨x.call, x.answer⟩ =
      ((verificationOf x).map fun v => decide (v.domain = d ∧ v.granted)).getD false := by
    obtain ⟨pid, tag, before, call, answer, after⟩ := x
    cases call with
    | tryBeginDomainVerify domain => exact decide_eq_decide.mpr and_comm
    | _ => rfl
  rw [begunRuns, List.length_map, ← List.countP_eq_length_filter, verifications, List.countP_filterMap]
  exact List.countP_congr fun x _ => by rw [hbegins]

def onLimited : ServerMove → Move Task Choice LimitedTick
  | .spawn t => .spawn t
  | .act i ch => .act i ch
  | .env t => .env (.tick t)

end AnonyMail
