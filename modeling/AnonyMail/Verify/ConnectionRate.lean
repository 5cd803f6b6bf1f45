import AnonyMail.Lib.SlidingWindow
import AnonyMail.Smtp.RateLimiter

/-! # The connection rate limit over whole runs

What the limiter keeps of an address is, as far as it is recent, what the sliding window has
admitted of the attempts of that address. The table sweep and the attempts of other addresses do not
touch that. -/

namespace AnonyMail.Smtp

open SlidingWindow

/-- An attempt to connect. -/
abbrev Attempt := IpAddr × Instant

/-- The times of the attempts from `ip`. -/
def timesOf (ip : IpAddr) (attempts : List Attempt) : List Instant :=
  (attempts.filter fun a => a.1 = ip).map (·.2)

namespace RateLimiter

/-- One more attempt; the second component collects those that are accepted. -/
def serve (st : RateLimiter × List Attempt) (a : Attempt) : RateLimiter × List Attempt :=
  let r := st.1.checkAt a.1 a.2
  (r.2, if r.1 then st.2 ++ [a] else st.2)

def after (window max : Nat) (attempts : List Attempt) : RateLimiter :=
  (attempts.foldl serve (new window max, [])).1

def accepted (window max : Nat) (attempts : List Attempt) : List Attempt :=
  (attempts.foldl serve (new window max, [])).2

variable {l : RateLimiter} {window max : Nat} {ip ip' : IpAddr} {now : Instant}
  {attempts : List Attempt} {a : Attempt}

theorem after_concat : after window max (attempts ++ [a]) =
    ((after window max attempts).checkAt a.1 a.2).2 := by
  rw [after, List.foldl_append]
  rfl

theorem accepted_concat : accepted window max (attempts ++ [a]) =
    if ((after window max attempts).checkAt a.1 a.2).1 then accepted window max attempts ++ [a]
    else accepted window max attempts := by
  rw [accepted, List.foldl_append]
  rfl

theorem timesOf_concat : timesOf ip (attempts ++ [a]) =
    if a.1 = ip then timesOf ip attempts ++ [a.2] else timesOf ip attempts := by
  rw [timesOf, List.filter_append, List.map_append]
  split
  · next h => simp [timesOf, h]
  · next h => simp [timesOf, h]

/-- The times that the limiter keeps of an address. -/
def kept (l : RateLimiter) (ip : IpAddr) : List Instant := (l.hits.lookup ip).getD []

/-! ## One attempt -/

/-- The sweep drops no recent time. -/
theorem recent_sweepHits : recent l.window now (((l.sweepHits now).lookup ip).getD []) =
    recent l.window now (l.kept ip) := by
  rw [sweepHits, kept]
  split
  · rw [HashMap.lookup_retain]
    cases l.hits.lookup ip with
    | none => rfl
    | some times =>
      rw [Option.filter_some]
      split
      · rfl
      · next hany =>
        rw [Option.getD_none, Option.getD_some, recent_nil, eq_comm, recent, List.filter_eq_nil_iff]
        simpa using hany
  · rfl

/-- An attempt is accepted as the sliding window admits it to the times kept of its address. -/
theorem checkAt_eq : l.checkAt ip now =
    let times := recent l.window now (l.kept ip)
    if admits l.window l.max (l.kept ip) now then
      (true, { l with hits := (l.sweepHits now).insert ip (times ++ [now]) })
    else (false, { l with hits := (l.sweepHits now).insert ip times }) := by
  have hkept : (((l.sweepHits now).lookup ip).getD []).filter (fun t => now - t < l.window) =
      recent l.window now (l.kept ip) := recent_sweepHits
  simp only [checkAt, hkept]
  simp only [admits, decide_eq_true_iff, ge_iff_le, ← Nat.not_le, ite_not]

theorem checkAt_fst : (l.checkAt ip now).1 = admits l.window l.max (l.kept ip) now := by
  rw [checkAt_eq]
  cases admits l.window l.max (l.kept ip) now <;> rfl

theorem checkAt_window : (l.checkAt ip now).2.window = l.window := by
  rw [checkAt_eq]
  cases admits l.window l.max (l.kept ip) now <;> rfl

theorem checkAt_max : (l.checkAt ip now).2.max = l.max := by
  rw [checkAt_eq]
  cases admits l.window l.max (l.kept ip) now <;> rfl

theorem recent_kept_of_ne {n : Instant} (h : now ≤ n) (hne : ip' ≠ ip) :
    recent l.window n ((l.checkAt ip now).2.kept ip') = recent l.window n (l.kept ip') := by
  have hkept : (l.checkAt ip now).2.kept ip' = ((l.sweepHits now).lookup ip').getD [] := by
    rw [checkAt_eq, kept]
    cases admits l.window l.max (l.kept ip) now
    all_goals exact congrArg (Option.getD · []) (AList.lookup_insert_ne hne)
  rw [hkept, ← recent_recent h, recent_sweepHits, recent_recent h]

theorem recent_kept_self {n : Instant} (h : now ≤ n) :
    recent l.window n ((l.checkAt ip now).2.kept ip) = recent l.window n
      (if admits l.window l.max (l.kept ip) now then l.kept ip ++ [now] else l.kept ip) := by
  rw [checkAt_eq, kept]
  cases admits l.window l.max (l.kept ip) now with
  | true =>
    rw [if_pos rfl, if_pos rfl, AList.lookup_insert, Option.getD_some, recent_append, recent_append,
      recent_recent h]
  | false =>
    rw [if_neg Bool.false_ne_true, if_neg Bool.false_ne_true, AList.lookup_insert, Option.getD_some,
      recent_recent h]

/-! ## Runs -/

@[simp] theorem after_window : (after window max attempts).window = window := by
  induction attempts using List.reverseRecOn with
  | nil => rfl
  | append_singleton attempts a ih => rw [after_concat, checkAt_window, ih]

@[simp] theorem after_max : (after window max attempts).max = max := by
  induction attempts using List.reverseRecOn with
  | nil => rfl
  | append_singleton attempts a ih => rw [after_concat, checkAt_max, ih]

/-- What the limiter keeps of an address that is recent, is what the sliding window has admitted. -/
theorem recent_kept_after (hsorted : attempts.Pairwise fun a b => a.2 ≤ b.2)
    (hpast : ∀ a ∈ attempts, a.2 ≤ now) :
    recent window now ((after window max attempts).kept ip) =
      recent window now (admitted window max (timesOf ip attempts)) := by
  induction attempts using List.reverseRecOn generalizing now with
  | nil => rfl
  | append_singleton attempts a ih =>
    obtain ⟨hattempts, -, hcross⟩ := List.pairwise_append.mp hsorted
    have hnow : a.2 ≤ now := hpast a (by simp)
    have hlast : ∀ b ∈ attempts, b.2 ≤ a.2 := fun b hb => hcross b hb a (List.mem_singleton_self a)
    have hrest := ih hattempts fun b hb => hpast b (List.mem_append_left _ hb)
    have hwindow : (after window max attempts).window = window := after_window
    rw [after_concat, timesOf_concat]
    split
    · next h =>
      subst h
      have hself := @recent_kept_self (after window max attempts) a.1 a.2 now hnow
      have hadmits : admits window max ((after window max attempts).kept a.1) a.2 =
          admits window max (admitted window max (timesOf a.1 attempts)) a.2 := by
        rw [admits, admits, ih hattempts hlast]
      rw [after_window, after_max, hadmits] at hself
      rw [hself, admitted_concat]
      split
      · rw [recent_append, recent_append, hrest]
      · exact hrest
    · next h =>
      have hne := @recent_kept_of_ne (after window max attempts) a.1 ip a.2 now hnow (Ne.symm h)
      rw [after_window] at hne
      rw [hne, hrest]

theorem checkAt_after (hsorted : attempts.Pairwise fun a b => a.2 ≤ b.2)
    (hpast : ∀ a ∈ attempts, a.2 ≤ now) : ((after window max attempts).checkAt ip now).1 =
      admits window max (admitted window max (timesOf ip attempts)) now := by
  rw [checkAt_fst, after_window, after_max, admits, admits, recent_kept_after hsorted hpast]

/-- The accepted attempts of an address are those that the sliding window admits. -/
theorem timesOf_accepted (hsorted : attempts.Pairwise fun a b => a.2 ≤ b.2) :
    timesOf ip (accepted window max attempts) = admitted window max (timesOf ip attempts) := by
  induction attempts using List.reverseRecOn with
  | nil => rfl
  | append_singleton attempts a ih =>
    obtain ⟨hattempts, -, hcross⟩ := List.pairwise_append.mp hsorted
    have hlast : ∀ b ∈ attempts, b.2 ≤ a.2 := fun b hb => hcross b hb a (List.mem_singleton_self a)
    have hrest := ih hattempts
    rw [accepted_concat, checkAt_after hattempts hlast, timesOf_concat]
    by_cases h : a.1 = ip
    · subst h
      rw [if_pos rfl, admitted_concat]
      split
      · rw [timesOf_concat, if_pos rfl, hrest]
      · exact hrest
    · rw [if_neg h]
      split
      · rw [timesOf_concat, if_neg h, hrest]
      · exact hrest

/-! ## One address at a time -/

theorem timesOf_filter : timesOf ip (attempts.filter fun a => a.1 = ip) = timesOf ip attempts := by
  rw [timesOf, List.filter_filter]
  simp [timesOf]

/-- Attempts of other addresses, and the sweeps they cause, do not change the answer. -/
theorem checkAt_filter (hsorted : attempts.Pairwise fun a b => a.2 ≤ b.2)
    (hpast : ∀ a ∈ attempts, a.2 ≤ now) :
    ((after window max attempts).checkAt ip now).1 =
      ((after window max (attempts.filter fun a => a.1 = ip)).checkAt ip now).1 := by
  rw [checkAt_after hsorted hpast, checkAt_after (hsorted.filter _) fun a ha =>
    hpast a (List.mem_of_mem_filter ha), timesOf_filter]

theorem mem_keys_after {k : IpAddr} (h : ∀ a ∈ attempts, a.1 = ip)
    (hk : k ∈ (after window max attempts).hits.keys) : k = ip := by
  induction attempts using List.reverseRecOn with
  | nil => cases hk
  | append_singleton attempts a ih =>
    have hsweep : k ∈ ((after window max attempts).sweepHits a.2).keys → k = ip := by
      intro hk
      refine ih (fun b hb => h b (List.mem_append_left _ hb)) ?_
      rw [sweepHits] at hk
      split at hk
      · exact (List.filter_sublist.map Sigma.fst).subset hk
      · exact hk
    rw [after_concat, checkAt_eq] at hk
    split at hk
    all_goals
      rw [AList.keys_insert, List.mem_cons] at hk
      rcases hk with rfl | hk
      · exact h a (by simp)
      · exact hsweep (List.mem_of_mem_erase hk)

theorem length_hits_after (h : ∀ a ∈ attempts, a.1 = ip) :
    (after window max attempts).hits.entries.length ≤ 1 := by
  have hsub : (after window max attempts).hits.keys ⊆ [ip] :=
    fun k hk => List.mem_singleton.mpr (mem_keys_after h hk)
  have hlen := (List.subperm_of_subset (after window max attempts).hits.keys_nodup hsub).length_le
  rwa [AList.keys, List.keys, List.length_map] at hlen

theorem filter_timesOf {l : List Attempt} :
    (timesOf ip l).filter (· ≤ now) = timesOf ip (l.filter fun a => a.2 ≤ now) := by
  rw [timesOf, timesOf, List.filter_map, List.filter_filter, List.filter_filter]
  simp only [Function.comp_def, Bool.and_comm]

theorem length_recent_timesOf {l : List Attempt} :
    (l.filter fun a => a.1 = ip ∧ now - a.2 < window).length =
      (recent window now (timesOf ip l)).length := by
  rw [recent, timesOf, List.filter_map, List.length_map, List.filter_filter]
  simp only [Function.comp_def, Bool.decide_and, Bool.and_comm]

theorem rejected_iff (hsorted : attempts.Pairwise fun a b => a.2 ≤ b.2)
    (hpast : ∀ a ∈ attempts, a.2 ≤ now) : ((after window max attempts).checkAt ip now).1 = false ↔
      ((accepted window max attempts).filter fun a => a.1 = ip ∧ now - a.2 < window).length = max := by
  have htimes : ∀ t ∈ timesOf ip attempts, t ≤ now := by
    intro t ht
    obtain ⟨a, ha, rfl⟩ := List.mem_map.mp ht
    exact hpast a (List.mem_of_mem_filter ha)
  rw [checkAt_after hsorted hpast, not_admits_iff htimes, length_recent_timesOf,
    timesOf_accepted hsorted]

theorem length_accepted_le (hsorted : attempts.Pairwise fun a b => a.2 ≤ b.2) (ip : IpAddr)
    (now : Instant) : ((accepted window max attempts).filter fun a =>
      a.1 = ip ∧ a.2 ≤ now ∧ now - a.2 < window).length ≤ max := by
  have htimes : (timesOf ip attempts).Pairwise (· ≤ ·) :=
    List.pairwise_map.mpr (hsorted.filter _)
  have hle := @length_interval_le window max _ htimes now
  rw [← timesOf_accepted hsorted, filter_timesOf, ← length_recent_timesOf,
    List.filter_filter] at hle
  refine le_trans (le_of_eq (congrArg List.length (List.filter_congr fun a _ => ?_))) hle
  rw [← Bool.decide_and, decide_eq_decide, and_assoc, @and_comm (a.2 ≤ now)]

/-- An attempt is rejected exactly if as many attempts of its address as the limit allows were
accepted less than a window ago; other addresses and the sweep have no part in it. So no window has
more accepted attempts of an address than that. -/
theorem checkAt_exact (window max : Nat) (attempts : List Attempt)
    (hsorted : attempts.Pairwise fun a b => a.2 ≤ b.2) :
    (∀ before ip now rest, attempts = before ++ (ip, now) :: rest →
      (((after window max before).checkAt ip now).1 = false ↔
        ((accepted window max before).filter fun a =>
          a.1 = ip ∧ now - a.2 < window).length = max) ∧
      ((after window max before).checkAt ip now).1 =
        ((after window max (before.filter fun a => a.1 = ip)).checkAt ip now).1 ∧
      (after window max (before.filter fun a => a.1 = ip)).hits.entries.length ≤ 1) ∧
    ∀ ip now, ((accepted window max attempts).filter fun a =>
      a.1 = ip ∧ a.2 ≤ now ∧ now - a.2 < window).length ≤ max := by
  constructor
  · rintro before ip now rest rfl
    obtain ⟨hbefore, -, hcross⟩ := List.pairwise_append.mp hsorted
    have hpast : ∀ a ∈ before, a.2 ≤ now := fun a ha => hcross a ha _ List.mem_cons_self
    exact ⟨rejected_iff hbefore hpast, checkAt_filter hbefore hpast,
      length_hits_after fun a ha => of_decide_eq_true (List.mem_filter.mp ha).2⟩
  · exact length_accepted_le hsorted

/-- At most two per minute: the third attempt at second 0 is rejected, the one at second 61 not. -/
theorem checkAt_exact_minute :
    (((after 60 2 [(1, 0), (1, 0)]).checkAt 1 0).1 = false ↔
      ((accepted 60 2 [(1, 0), (1, 0)]).filter fun a => a.1 = 1 ∧ 0 - a.2 < 60).length = 2) ∧
    ((accepted 60 2 [(1, 0), (1, 0), (1, 0), (2, 0), (1, 61)]).filter fun a =>
      a.1 = 1 ∧ a.2 ≤ 61 ∧ 61 - a.2 < 60).length ≤ 2 := by
  obtain ⟨hcheck, hbound⟩ :=
    checkAt_exact 60 2 [(1, 0), (1, 0), (1, 0), (2, 0), (1, 61)] (by decide)
  exact ⟨(hcheck [(1, 0), (1, 0)] 1 0 [(2, 0), (1, 61)] rfl).1, hbound 1 61⟩

end RateLimiter
end AnonyMail.Smtp
