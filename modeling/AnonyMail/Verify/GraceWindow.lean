import AnonyMail.CustomDomains

/-! # The history of a custom domain's checks

A claim starts pending, and each check computes the next status from the stored one. Over a whole
history this says: the anchor is the time of the last check that passed, and only the checks since
then matter to the status. -/

namespace AnonyMail

open CustomDomains MemoryStore Calls

/-- The result of a check and its time. -/
structure CheckResult where
  ok : Bool
  now : DateTime

/-- A check of the stored claim is applied and recorded. -/
def MemoryStore.Inner.check (s : Inner) (domain : String) (c : CheckResult) : Inner :=
  match getCustomDomain s domain with
  | some d =>
    let (status, verifiedAt) := nextStatus d c.ok c.now
    (recordCustomDomainCheck s domain status verifiedAt c.now).2
  | none => s

/-- The time of the last check that passed. -/
def lastOk (checks : List CheckResult) : Option DateTime :=
  (checks.reverse.find? (·.ok)).map (·.now)

/-- The checks that failed since then, or ever; the last one first. -/
def sinceOk (checks : List CheckResult) : List CheckResult := checks.reverse.takeWhile (!·.ok)

/-- A check that failed later than 48 hours after `anchor`. -/
def CheckResult.Late (c : CheckResult) (anchor : DateTime) : Prop :=
  c.now - anchor > Duration.hours graceHours

/-- What the claim says after these checks. -/
structure FollowsHistory (d : CustomDomain) (checks : List CheckResult) : Prop where
  verifiedAt : d.verifiedAt = lastOk checks
  pending : d.status = .pending ↔ ∀ c ∈ checks, c.ok = false
  failed : d.status = .failed ↔
    ∃ anchor, lastOk checks = some anchor ∧ ∃ c ∈ sinceOk checks, c.Late anchor

variable {checks : List CheckResult} {c : CheckResult} {d : CustomDomain} {s : Inner}
  {domain : String}

@[simp] theorem lastOk_concat : lastOk (checks ++ [c]) = if c.ok then some c.now else lastOk checks := by
  rw [lastOk, List.reverse_append, List.reverse_singleton, List.singleton_append, List.find?_cons]
  split <;> simp [lastOk, *]

@[simp] theorem sinceOk_concat : sinceOk (checks ++ [c]) = if c.ok then [] else c :: sinceOk checks := by
  rw [sinceOk, List.reverse_append, List.reverse_singleton, List.singleton_append,
    List.takeWhile_cons]
  cases c.ok <;> rfl

theorem lastOk_eq_none : lastOk checks = none ↔ ∀ c ∈ checks, c.ok = false := by
  simp [lastOk]

theorem all_failed_concat : (∀ x ∈ checks ++ [c], x.ok = false) ↔
    (∀ x ∈ checks, x.ok = false) ∧ c.ok = false := by
  rw [List.forall_mem_append, List.forall_mem_singleton]

/-- The claim after one more check. -/
theorem FollowsHistory.concat (h : FollowsHistory d checks) :
    FollowsHistory { d with status := (nextStatus d c.ok c.now).1,
                            verifiedAt := (nextStatus d c.ok c.now).2,
                            lastCheckedAt := some c.now } (checks ++ [c]) := by
  cases hok : c.ok with
  | true => constructor <;> simp [nextStatus, hok]
  | false =>
    cases hst : d.status with
    | pending =>
      have hall := h.pending.mp hst
      have hnone := lastOk_eq_none.mpr hall
      refine ⟨by simp [nextStatus, hok, hst, h.verifiedAt], ?_, ?_⟩
      · simp only [nextStatus, hst]
        exact iff_of_true (by simp) (all_failed_concat.mpr ⟨hall, hok⟩)
      · simp [nextStatus, hok, hst, hnone]
    | failed =>
      obtain ⟨anchor, hlast, x, hx, hlate⟩ := h.failed.mp hst
      have hsome : ¬∀ x ∈ checks, x.ok = false := mt h.pending.mpr (by simp [hst])
      refine ⟨by simp [nextStatus, hok, hst, h.verifiedAt], ?_, ?_⟩
      · simp only [nextStatus, hst]
        exact iff_of_false (by simp) fun hall => hsome (all_failed_concat.mp hall).1
      · simp only [nextStatus, hok, hst, lastOk_concat, sinceOk_concat, Bool.false_eq_true, if_false,
          true_iff]
        exact ⟨anchor, hlast, x, List.mem_cons_of_mem _ hx, hlate⟩
    | verified =>
      have hsome : ¬∀ x ∈ checks, x.ok = false := mt h.pending.mpr (by simp [hst])
      have hsome' : ¬∀ x ∈ checks ++ [c], x.ok = false := fun hall =>
        hsome (all_failed_concat.mp hall).1
      obtain ⟨anchor, hlast⟩ := Option.ne_none_iff_exists'.mp (mt lastOk_eq_none.mp hsome)
      have hnot : ¬∃ x ∈ sinceOk checks, x.Late anchor := fun hlate => by
        simp [h.failed.mpr ⟨anchor, hlast, hlate⟩] at hst
      have hanchor : d.verifiedAt.getD d.createdAt = anchor := by rw [h.verifiedAt, hlast]; rfl
      by_cases hlate : c.Late anchor
      · have hnext : nextStatus d false c.now = (.failed, d.verifiedAt) := by
          simp only [nextStatus, hst, hanchor, Bool.false_eq_true, if_false]
          exact if_pos hlate
        rw [hnext]
        exact ⟨by simp [hok, h.verifiedAt], iff_of_false (by simp) hsome',
          by simp [hok, hlast, hlate]⟩
      · have hnext : nextStatus d false c.now = (.verified, d.verifiedAt) := by
          simp only [nextStatus, hst, hanchor, Bool.false_eq_true, if_false]
          exact if_neg hlate
        rw [hnext]
        exact ⟨by simp [hok, h.verifiedAt], iff_of_false (by simp) hsome',
          by simpa [hok, hlast, hlate] using hnot⟩

theorem getCustomDomain_check (h : getCustomDomain s domain = some d) :
    getCustomDomain (s.check domain c) domain =
      some { d with status := (nextStatus d c.ok c.now).1,
                    verifiedAt := (nextStatus d c.ok c.now).2,
                    lastCheckedAt := some c.now } := by
  rw [getCustomDomain] at h
  simp [Inner.check, getCustomDomain, recordCustomDomainCheck, h]

/-- A run of `checkAndRecord` on the stored claim is such a check. -/
theorem check_of_checkAndRecord {app : AppState} {w w' : World} {tr : List (Event Eff.Ans)}
    {r : List DnsCheck × CustomDomainStatus × Option DateTime}
    (hd : getCustomDomain w.store d.domain = some d)
    (h : Prog.Exec (exec app) w (checkAndRecord app.config d) tr w' (.ok r)) :
    ∃ ok, w'.store = w.store.check d.domain ⟨ok, w.clock⟩ := by
  obtain ⟨_, txts, w₁, _, hx₁, -, h⟩ := Prog.exec_call.mp h
  obtain ⟨_, hosts, w₂, _, hx₂, -, h⟩ := Prog.exec_call.mp h
  obtain ⟨_, now, w₃, _, hx₃, -, h⟩ := Prog.exec_call.mp h
  obtain ⟨ch, res, w₄, _, hx₄, -, h⟩ := Prog.exec_call.mp h
  obtain rfl : w₁ = w := by
    simp only [exec] at hx₁
    split at hx₁ <;> cases hx₁
    rfl
  obtain rfl : w₂ = w₁ := by
    simp only [exec] at hx₂
    split at hx₂ <;> cases hx₂
    rfl
  cases hx₃
  refine ⟨(txtCheck d txts).ok && (mxCheck app.config hosts).ok, ?_⟩
  cases ch with
  | uuids ids =>
    simp only [exec, Option.ite_none_right_eq_some, Option.some.injEq, Prod.mk.injEq] at hx₄
    obtain ⟨-, rfl, rfl⟩ := hx₄
    obtain ⟨-, rfl, -⟩ := Prog.exec_ret.mp h
    simp only [Inner.check, hd]
    rfl
  | fail =>
    cases hx₄
    cases (Prog.exec_ret.mp h).2.2
  | _ => cases hx₄

/-- The history of the checks of a claim says what the claim is; a claim with the status `verified`
has an anchor of its own. -/
theorem claim_follows_history (s : Inner) (domain claimTokenHash txtToken : String)
    (createdAt : DateTime) (record : CustomDomain) (s₀ : Inner)
    (h : createCustomDomain s domain claimTokenHash txtToken createdAt = (.ok record, s₀))
    (checks : List CheckResult) :
    ∃ d, getCustomDomain (checks.foldl (fun s c => s.check domain c) s₀) domain = some d ∧
      FollowsHistory d checks ∧ (d.status = .verified → d.verifiedAt.isSome) := by
  suffices hrun : ∃ d, getCustomDomain (checks.foldl (fun s c => s.check domain c) s₀) domain =
      some d ∧ FollowsHistory d checks by
    obtain ⟨d, hd, hist⟩ := hrun
    refine ⟨d, hd, hist, fun hst => ?_⟩
    rw [hist.verifiedAt, Option.isSome_iff_ne_none]
    exact fun hnone => by simp [hist.pending.mpr (lastOk_eq_none.mp hnone)] at hst
  induction checks using List.reverseRecOn with
  | nil =>
    rw [createCustomDomain] at h
    split at h
    · cases h
    · cases h
      refine ⟨⟨domain, .pending, claimTokenHash, txtToken, createdAt, none, none⟩,
        by simp [getCustomDomain], rfl, ?_, ?_⟩ <;> simp [lastOk]
  | append_singleton checks c ih =>
    obtain ⟨d, hd, hist⟩ := ih
    rw [List.foldl_append]
    exact ⟨_, getCustomDomain_check hd, hist.concat⟩

/-- A claim that passed at hour 0 and failed at hours 48 and 49. -/
theorem claim_follows_history_example : ∃ d, getCustomDomain
    ([⟨true, 0⟩, ⟨false, Duration.hours 48⟩, ⟨false, Duration.hours 49⟩].foldl
      (fun s c => s.check "example.org" c)
      (createCustomDomain .empty "example.org" "" "" 0).2) "example.org" = some d ∧
    FollowsHistory d [⟨true, 0⟩, ⟨false, Duration.hours 48⟩, ⟨false, Duration.hours 49⟩] := by
  obtain ⟨d, hd, hist, -⟩ := claim_follows_history .empty "example.org" "" "" 0 _ _ rfl
    [⟨true, 0⟩, ⟨false, Duration.hours 48⟩, ⟨false, Duration.hours 49⟩]
  exact ⟨d, hd, hist⟩

end AnonyMail
