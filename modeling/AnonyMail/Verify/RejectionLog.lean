import Mathlib.Algebra.BigOperators.Group.List.Basic
import Mathlib.Algebra.GroupWithZero.Nat
import Mathlib.Data.List.Induction
import AnonyMail.Smtp.RateLimiter

/-! # The rejection log over whole runs

The entry of an address remembers the last report, or a later one, for as long as a report would
come too soon: the sweep only drops entries that are a window old. Between reports the entry counts,
so without a sweep each rejection is in one report or in the count. -/

namespace AnonyMail.Smtp

/-- A rejection that is noted, and what is returned: a number to be logged, or nothing. -/
structure Report where
  ip : IpAddr
  time : Instant
  count : Option Nat

namespace RateLimiter

def note (st : RateLimiter × List Report) (a : IpAddr × Instant) : RateLimiter × List Report :=
  let r := st.1.noteRejectionAt a.1 a.2
  (r.2, st.2 ++ [⟨a.1, a.2, r.1⟩])

/-- The limiter after these rejections, and the reports. -/
def noted (window max : Nat) (rejections : List (IpAddr × Instant)) : RateLimiter × List Report :=
  rejections.foldl note (new window max, [])

/-- The sum of the numbers logged for an address. -/
def reported (reports : List Report) (ip : IpAddr) : Nat :=
  ((reports.filter fun x => x.ip = ip).map fun x => x.count.getD 0).sum

/-- The rejections of an address that are counted and not yet logged. -/
def unreported (l : RateLimiter) (ip : IpAddr) : Nat :=
  (l.rejections.lookup ip).elim 0 (·.unreported)

variable {l : RateLimiter} {window max : Nat} {ip ip' : IpAddr} {now : Instant} {r : RejectionLog}
  {rejections : List (IpAddr × Instant)} {a : IpAddr × Instant} {reports : List Report} {x : Report}

/-! ## One rejection -/

/-- All that noting a rejection can do. -/
theorem noteRejectionAt_cases (l : RateLimiter) (ip : IpAddr) (now : Instant) :
    ((l.sweepRejections now).lookup ip = none ∧ l.noteRejectionAt ip now =
      (some 1, { l with rejections := (l.sweepRejections now).insert ip ⟨now, 0⟩ })) ∨
    (∃ r, (l.sweepRejections now).lookup ip = some r ∧ now - r.lastLogged < l.window ∧
      l.noteRejectionAt ip now = (none, { l with
        rejections := (l.sweepRejections now).insert ip ⟨r.lastLogged, r.unreported + 1⟩ })) ∨
    ∃ r, (l.sweepRejections now).lookup ip = some r ∧ l.window ≤ now - r.lastLogged ∧
      l.noteRejectionAt ip now = (some (r.unreported + 1),
        { l with rejections := (l.sweepRejections now).insert ip ⟨now, 0⟩ }) := by
  cases hr : (l.sweepRejections now).lookup ip with
  | none => exact .inl ⟨rfl, by simp only [noteRejectionAt, hr]⟩
  | some r =>
    by_cases h : now - r.lastLogged < l.window
    · exact .inr (.inl ⟨r, rfl, h, by simp only [noteRejectionAt, hr, if_pos h]⟩)
    · exact .inr (.inr ⟨r, rfl, Nat.le_of_not_lt h, by simp only [noteRejectionAt, hr, if_neg h]⟩)

/-- The sweep keeps the entries that still hold back a report. -/
theorem lookup_sweepRejections (hr : l.rejections.lookup ip = some r)
    (h : now - r.lastLogged < l.window) : (l.sweepRejections now).lookup ip = some r := by
  rw [sweepRejections]
  split
  · rw [HashMap.lookup_retain, hr, Option.filter_some, if_pos (decide_eq_true h)]
  · exact hr

theorem noteRejectionAt_window : (l.noteRejectionAt ip now).2.window = l.window := by
  obtain ⟨-, h⟩ | ⟨r, -, -, h⟩ | ⟨r, -, -, h⟩ := noteRejectionAt_cases l ip now <;> rw [h]

theorem lookup_noteRejectionAt_of_ne (hne : ip' ≠ ip) :
    (l.noteRejectionAt ip now).2.rejections.lookup ip' = (l.sweepRejections now).lookup ip' := by
  obtain ⟨-, h⟩ | ⟨r, -, -, h⟩ | ⟨r, -, -, h⟩ := noteRejectionAt_cases l ip now
  all_goals rw [h]; exact AList.lookup_insert_ne hne

/-- A report at `t` is held in the table while another one would come too soon after it. -/
def Held (l : RateLimiter) (ip : IpAddr) (t now : Instant) : Prop :=
  now - t < l.window → ∃ r, l.rejections.lookup ip = some r ∧ t ≤ r.lastLogged

theorem Held.note {t n : Instant} (h : Held l ip' t now) (hn : now ≤ n) :
    Held (l.noteRejectionAt ip now).2 ip' t n := by
  rw [Held, noteRejectionAt_window]
  intro hlt
  have hnow : now - t < l.window := Nat.lt_of_le_of_lt (Nat.sub_le_sub_right hn t) hlt
  obtain ⟨r, hr, ht⟩ := h hnow
  have hlast : now - r.lastLogged < l.window := Nat.lt_of_le_of_lt (Nat.sub_le_sub_left ht now) hnow
  have hsweep := lookup_sweepRejections hr hlast
  rcases ne_or_eq ip' ip with hne | rfl
  · exact ⟨r, by rw [lookup_noteRejectionAt_of_ne hne, hsweep], ht⟩
  · obtain ⟨hr', -⟩ | ⟨r', hr', -, heq⟩ | ⟨r', hr', hle, -⟩ := noteRejectionAt_cases l ip' now
    · cases hsweep.symm.trans hr'
    · cases hsweep.symm.trans hr'
      rw [heq]
      exact ⟨_, AList.lookup_insert _, ht⟩
    · cases hsweep.symm.trans hr'
      exact absurd hlast (Nat.not_lt.mpr hle)

/-- A rejection that is reported is held. -/
theorem held_of_report {n : Instant} (h : (l.noteRejectionAt ip now).1.isSome) :
    Held (l.noteRejectionAt ip now).2 ip now n := by
  intro _
  obtain ⟨-, heq⟩ | ⟨r, -, -, heq⟩ | ⟨r, -, -, heq⟩ := noteRejectionAt_cases l ip now
  · rw [heq]
    exact ⟨_, AList.lookup_insert _, le_refl _⟩
  · rw [heq] at h
    cases h
  · rw [heq]
    exact ⟨_, AList.lookup_insert _, le_refl _⟩

/-- No report comes too soon after one that is held. -/
theorem Held.window_le {t : Instant} (h : Held l ip t now)
    (hsome : (l.noteRejectionAt ip now).1.isSome) : l.window ≤ now - t := by
  by_contra hlt
  have hnow : now - t < l.window := Nat.lt_of_not_le hlt
  obtain ⟨r, hr, ht⟩ := h hnow
  have hlast : now - r.lastLogged < l.window := Nat.lt_of_le_of_lt (Nat.sub_le_sub_left ht now) hnow
  have hsweep := lookup_sweepRejections hr hlast
  obtain ⟨hr', -⟩ | ⟨r', -, -, heq⟩ | ⟨r', hr', hle, -⟩ := noteRejectionAt_cases l ip now
  · cases hsweep.symm.trans hr'
  · rw [heq] at hsome
    cases hsome
  · cases hsweep.symm.trans hr'
    exact absurd hlast (Nat.not_lt.mpr hle)

/-! ## Runs -/

theorem noted_concat : noted window max (rejections ++ [a]) =
    (((noted window max rejections).1.noteRejectionAt a.1 a.2).2, (noted window max rejections).2 ++
      [⟨a.1, a.2, ((noted window max rejections).1.noteRejectionAt a.1 a.2).1⟩]) := by
  rw [noted, List.foldl_append]
  rfl

@[simp] theorem noted_window : (noted window max rejections).1.window = window := by
  induction rejections using List.reverseRecOn with
  | nil => rfl
  | append_singleton rejections a ih => rw [noted_concat, noteRejectionAt_window, ih]

theorem held_of_noted (hsorted : rejections.Pairwise fun a b => a.2 ≤ b.2)
    (hpast : ∀ a ∈ rejections, a.2 ≤ now) (hx : x ∈ (noted window max rejections).2)
    (hsome : x.count.isSome) : Held (noted window max rejections).1 x.ip x.time now := by
  induction rejections using List.reverseRecOn generalizing now with
  | nil => cases hx
  | append_singleton rejections a ih =>
    obtain ⟨hrejections, -, hcross⟩ := List.pairwise_append.mp hsorted
    rw [noted_concat] at hx ⊢
    rcases List.mem_append.mp hx with hx | hx
    · refine (ih hrejections (fun b hb => ?_) hx).note (hpast a (by simp))
      exact hcross b hb a (List.mem_singleton_self a)
    · cases List.mem_singleton.mp hx
      exact held_of_report hsome

/-- Two reports of one address are a window apart. -/
theorem spaced_noted (hsorted : rejections.Pairwise fun a b => a.2 ≤ b.2) :
    (noted window max rejections).2.Pairwise fun x y =>
      x.ip = y.ip → x.count.isSome → y.count.isSome → window ≤ y.time - x.time := by
  induction rejections using List.reverseRecOn with
  | nil => exact .nil
  | append_singleton rejections a ih =>
    obtain ⟨hrejections, -, hcross⟩ := List.pairwise_append.mp hsorted
    have hlast : ∀ b ∈ rejections, b.2 ≤ a.2 := fun b hb => hcross b hb a (List.mem_singleton_self a)
    rw [noted_concat]
    refine List.pairwise_append.mpr ⟨ih hrejections, List.pairwise_singleton .., ?_⟩
    intro x hx y hy hip hxs hys
    cases List.mem_singleton.mp hy
    have hheld := held_of_noted hrejections hlast hx hxs
    have hle := Held.window_le (hip ▸ hheld) hys
    rwa [noted_window] at hle

/-! ## Accounting -/

theorem reported_concat : reported (reports ++ [x]) ip =
    reported reports ip + if x.ip = ip then x.count.getD 0 else 0 := by
  rw [reported, List.filter_append, List.map_append, List.sum_append, ← reported]
  split
  · next h => simp [h]
  · next h => simp [h]

/-- A rejection is logged with those counted before it, or counted. -/
theorem note_accounting (hlen : l.rejections.entries.length ≤ 10000) :
    (l.noteRejectionAt ip now).1.getD 0 + unreported (l.noteRejectionAt ip now).2 ip =
      unreported l ip + 1 := by
  have hsweep : l.sweepRejections now = l.rejections := if_neg (Nat.not_lt.mpr hlen)
  have hcases := noteRejectionAt_cases l ip now
  rw [hsweep] at hcases
  obtain ⟨hr, h⟩ | ⟨r, hr, -, h⟩ | ⟨r, hr, -, h⟩ := hcases
  · simp [h, unreported, hr]
  · simp [h, unreported, hr]
  · simp [h, unreported, hr]

theorem unreported_of_ne (hlen : l.rejections.entries.length ≤ 10000) (hne : ip' ≠ ip) :
    unreported (l.noteRejectionAt ip now).2 ip' = unreported l ip' := by
  have hsweep : l.sweepRejections now = l.rejections := if_neg (Nat.not_lt.mpr hlen)
  rw [unreported, lookup_noteRejectionAt_of_ne hne, hsweep, unreported]

/-- No call of the run finds so many entries that the table is swept. -/
def Unswept (window max : Nat) (rejections : List (IpAddr × Instant)) : Prop :=
  ∀ before a rest, rejections = before ++ a :: rest →
    (noted window max before).1.rejections.entries.length ≤ 10000

theorem reported_add_unreported (h : Unswept window max rejections) (ip : IpAddr) :
    reported (noted window max rejections).2 ip + unreported (noted window max rejections).1 ip =
      (rejections.filter fun a => a.1 = ip).length := by
  induction rejections using List.reverseRecOn with
  | nil => rfl
  | append_singleton rejections a ih =>
    have hrest := ih fun before b rest hb => h before b (rest ++ [a]) (by simp [hb])
    have hlen := h rejections a [] rfl
    rw [noted_concat, reported_concat, List.filter_append, List.length_append, ← hrest]
    rcases ne_or_eq ip a.1 with hne | rfl
    · rw [unreported_of_ne hlen hne, if_neg hne.symm, List.filter_singleton]
      simp [hne.symm]
    · have hnote := @note_accounting (noted window max rejections).1 a.1 a.2 hlen
      rw [if_pos rfl, List.filter_singleton]
      simp only [decide_true, cond_true, List.length_singleton]
      omega

/-- Two reports of one address are at least a window apart. In a run without a sweep, each rejection
of an address is in exactly one report, or counted and not yet reported. -/
theorem noteRejectionAt_exact (window max : Nat) (rejections : List (IpAddr × Instant))
    (hsorted : rejections.Pairwise fun a b => a.2 ≤ b.2) :
    ((noted window max rejections).2.Pairwise fun x y =>
      x.ip = y.ip → x.count.isSome → y.count.isSome → window ≤ y.time - x.time) ∧
    (Unswept window max rejections → ∀ ip,
      reported (noted window max rejections).2 ip + unreported (noted window max rejections).1 ip =
        (rejections.filter fun a => a.1 = ip).length) :=
  ⟨spaced_noted hsorted, reported_add_unreported⟩

/-- Two reports of one address, with a rejection between them, and one of another address. -/
def fourRejections : List (IpAddr × Instant) := [(1, 0), (1, 1), (2, 1), (1, 61)]

theorem noteRejectionAt_exact_four : reported (noted 60 1 fourRejections).2 1 +
    unreported (noted 60 1 fourRejections).1 1 = 3 := by
  refine (noteRejectionAt_exact 60 1 fourRejections (by decide)).2 ?_ 1
  have hsmall : ∀ n < 4, (noted 60 1 (fourRejections.take n)).1.rejections.entries.length ≤ 10000 := by
    decide
  intro before a rest h
  have hlen : fourRejections.length = before.length + (rest.length + 1) := by
    simpa using congrArg List.length h
  change 4 = _ at hlen
  have hbefore := hsmall before.length (by omega)
  rwa [h, List.take_left] at hbefore

end RateLimiter
end AnonyMail.Smtp
