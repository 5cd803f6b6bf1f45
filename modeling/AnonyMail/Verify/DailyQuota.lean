import Mathlib.Data.List.Induction
import AnonyMail.Api.Limits

/-! # Daily quotas when dates come out of order

The table has one entry for an address, whatever its date. As long as no call finds the entry of its
date gone, the entry counts what was let through; a call that does starts to count anew. -/

namespace AnonyMail.Api

open RuntimeLimits

/-- What the table has counted for an address and a date. -/
def spent (table : HashMap IpAddr (Int × Nat)) (ip : IpAddr) (today : Int) : Nat :=
  match table.lookup ip with
  | some (day, n) => if day = today then n else 0
  | none => 0

/-- The table, without the entries of other dates if it is large. -/
def sweepDays (table : HashMap IpAddr (Int × Nat)) (today : Int) : HashMap IpAddr (Int × Nat) :=
  if table.entries.length > 100000 then table.retain fun _ entry => entry.1 = today else table

section
variable {table : HashMap IpAddr (Int × Nat)} {cap n : Nat} {ip ip' : IpAddr} {today day : Int}

theorem spent_of_lookup (h : table.lookup ip = some (today, n)) : spent table ip today = n := by
  simp [spent, h]

theorem lookup_of_spent (h : spent table ip today ≠ 0) :
    table.lookup ip = some (today, spent table ip today) := by
  rw [spent] at h ⊢
  split at h
  · next d n hd =>
    split at h
    · next heq => rw [hd, heq, if_pos rfl]
    · exact absurd rfl h
  · exact absurd rfl h

/-- The sweep drops entries of other dates only. -/
theorem lookup_sweepDays : (sweepDays table today).lookup ip = table.lookup ip ∨
    (sweepDays table today).lookup ip = none ∧
      ∃ day n, table.lookup ip = some (day, n) ∧ day ≠ today := by
  rw [sweepDays]
  split
  · rw [HashMap.lookup_retain]
    cases h : table.lookup ip with
    | none => exact .inl rfl
    | some entry =>
      rw [Option.filter_some]
      split
      · exact .inl rfl
      · next hday => exact .inr ⟨rfl, entry.1, entry.2, rfl, by simpa using hday⟩
  · exact .inl rfl

theorem of_lookup_sweepDays {entry : Int × Nat}
    (h : (sweepDays table today).lookup ip = some entry) : table.lookup ip = some entry := by
  obtain heq | ⟨hnone, -⟩ := @lookup_sweepDays table ip today
  · exact heq ▸ h
  · cases h.symm.trans hnone

/-- The entry that is counted on, once it is there and has the right date. -/
theorem entry_eq {entry : Int × Nat}
    (h : ((sweepDays table today).lookup ip).getD (today, 0) = entry) :
    (if entry.1 ≠ today then (today, 0) else entry) = (today, spent table ip today) := by
  obtain heq | ⟨hnone, day, n, hday, hne⟩ := @lookup_sweepDays table ip today
  · rw [heq] at h
    rw [spent]
    cases hl : table.lookup ip with
    | none =>
      rw [hl, Option.getD_none] at h
      simp [← h]
    | some e =>
      obtain ⟨day, n⟩ := e
      rw [hl, Option.getD_some] at h
      subst h
      by_cases hday : day = today
      · simp [hday]
      · simp [hday]
  · rw [hnone, Option.getD_none] at h
    simp [← h, spent, hday, hne]

theorem noteDaily_eq (hcap : cap ≠ 0) : noteDaily table cap ip today =
    if spent table ip today < cap then
      (true, (sweepDays table today).insert ip (today, spent table ip today + 1))
    else (false, (sweepDays table today).insert ip (today, spent table ip today)) := by
  have hentry : (((sweepDays table today).orInsert ip (today, 0)).lookup ip).getD (today, 0) =
      ((sweepDays table today).lookup ip).getD (today, 0) := by
    rw [HashMap.lookup_orInsert, if_pos rfl, Option.getD_some]
  have hbody : noteDaily table cap ip today =
      let counters := (sweepDays table today).orInsert ip (today, 0)
      let entry := (counters.lookup ip).getD (today, 0)
      let entry := if entry.1 ≠ today then (today, 0) else entry
      if entry.2 ≥ cap then (false, counters.insert ip entry)
      else (true, counters.insert ip (entry.1, entry.2 + 1)) := if_neg hcap
  rw [hbody]
  simp only [hentry, entry_eq rfl, HashMap.orInsert_insert, ge_iff_le, ← Nat.not_lt, ite_not]

theorem fst_noteDaily (hcap : cap ≠ 0) :
    (noteDaily table cap ip today).1 = decide (spent table ip today < cap) := by
  rw [noteDaily_eq hcap]
  split
  · next h => exact (decide_eq_true h).symm
  · next h => exact (decide_eq_false h).symm

theorem lookup_noteDaily_self (hcap : cap ≠ 0) : (noteDaily table cap ip today).2.lookup ip =
    some (today, spent table ip today + if spent table ip today < cap then 1 else 0) := by
  rw [noteDaily_eq hcap]
  split
  · exact AList.lookup_insert _
  · exact AList.lookup_insert _

theorem lookup_noteDaily_of_ne {entry : Int × Nat} (hcap : cap ≠ 0) (hne : ip' ≠ ip)
    (h : (noteDaily table cap ip today).2.lookup ip' = some entry) :
    table.lookup ip' = some entry := by
  rw [noteDaily_eq hcap] at h
  split at h
  all_goals
    rw [AList.lookup_insert_ne hne] at h
    exact of_lookup_sweepDays h

/-- What is counted for other addresses and other dates can only be lost. -/
theorem spent_noteDaily_le (hcap : cap ≠ 0) (hne : (ip', day) ≠ (ip, today)) :
    spent (noteDaily table cap ip today).2 ip' day ≤ spent table ip' day := by
  rcases Nat.eq_zero_or_pos (spent (noteDaily table cap ip today).2 ip' day) with h0 | hpos
  · rw [h0]
    exact Nat.zero_le _
  have hlookup := lookup_of_spent (Nat.ne_of_gt hpos)
  rcases eq_or_ne ip' ip with rfl | hip
  · rw [lookup_noteDaily_self hcap, Option.some.injEq, Prod.mk.injEq] at hlookup
    exact absurd (by rw [hlookup.1]) hne
  · exact Nat.le_of_eq (spent_of_lookup (lookup_noteDaily_of_ne hcap hip hlookup)).symm

end

/-! ## Runs -/

inductive Quota
  | addresses
  | domains

/-- An address, and the date that the handler has read. -/
abbrev DailyCall := IpAddr × Int

namespace Quota

def cap : Quota → RuntimeLimits → Nat
  | addresses, l => l.dailyCreateCap
  | domains, l => l.dailyDomainCap

def table : Quota → RuntimeLimits → HashMap IpAddr (Int × Nat)
  | addresses, l => l.createdToday
  | domains, l => l.domainsToday

def note : Quota → RuntimeLimits → DailyCall → Bool × RuntimeLimits
  | addresses, l, c => l.noteAddressCreated c.1 c.2
  | domains, l, c => l.noteDomainCreated c.1 c.2

/-- One more call; the second component collects those that are granted. -/
def serve (q : Quota) (st : RuntimeLimits × List DailyCall) (c : DailyCall) :
    RuntimeLimits × List DailyCall :=
  let r := q.note st.1 c
  (r.2, if r.1 then st.2 ++ [c] else st.2)

def after (q : Quota) (l : RuntimeLimits) (calls : List DailyCall) : RuntimeLimits :=
  (calls.foldl q.serve (l, [])).1

def granted (q : Quota) (l : RuntimeLimits) (calls : List DailyCall) : List DailyCall :=
  (calls.foldl q.serve (l, [])).2

/-- A call for an address and a date that have been called for finds their entry in the table. -/
def Keeps (q : Quota) (l : RuntimeLimits) (before : List DailyCall) (c : DailyCall) : Prop :=
  c ∈ before → ∃ n, (q.table (q.after l before)).lookup c.1 = some (c.2, n)

variable {q : Quota} {l : RuntimeLimits} {calls : List DailyCall} {c c' : DailyCall} {n : Nat}

theorem note_fst : (q.note l c).1 = (noteDaily (q.table l) (q.cap l) c.1 c.2).1 := by
  cases q <;> rfl

theorem table_note : q.table (q.note l c).2 = (noteDaily (q.table l) (q.cap l) c.1 c.2).2 := by
  cases q <;> rfl

theorem cap_note : q.cap (q.note l c).2 = q.cap l := by
  cases q <;> rfl

theorem after_concat : q.after l (calls ++ [c]) = (q.note (q.after l calls) c).2 := by
  rw [after, List.foldl_append]
  rfl

@[simp] theorem cap_after : q.cap (q.after l calls) = q.cap l := by
  induction calls using List.reverseRecOn with
  | nil => rfl
  | append_singleton calls c ih => rw [after_concat, cap_note, ih]

theorem table_concat : q.table (q.after l (calls ++ [c])) =
    (noteDaily (q.table (q.after l calls)) (q.cap l) c.1 c.2).2 := by
  rw [after_concat, table_note, cap_after]

theorem granted_concat (hcap : q.cap l ≠ 0) : q.granted l (calls ++ [c]) =
    if spent (q.table (q.after l calls)) c.1 c.2 < q.cap l then q.granted l calls ++ [c]
    else q.granted l calls := by
  have h : q.granted l (calls ++ [c]) =
      if (q.note (q.after l calls) c).1 then q.granted l calls ++ [c] else q.granted l calls := by
    rw [granted, List.foldl_append]
    rfl
  rw [h, note_fst, cap_after, fst_noteDaily hcap]
  simp only [decide_eq_true_eq]

theorem count_granted_self (hcap : q.cap l ≠ 0) : (q.granted l (calls ++ [c])).count c =
    (q.granted l calls).count c +
      if spent (q.table (q.after l calls)) c.1 c.2 < q.cap l then 1 else 0 := by
  rw [granted_concat hcap]
  split
  · rw [List.count_append, List.count_singleton_self]
  · rfl

theorem count_granted_of_ne (hcap : q.cap l ≠ 0) (hne : c' ≠ c) :
    (q.granted l (calls ++ [c])).count c' = (q.granted l calls).count c' := by
  rw [granted_concat hcap]
  split
  · rw [List.count_append, List.count_singleton, if_neg (by simpa using hne.symm), Nat.add_zero]
  · rfl

/-- What is counted has been granted. -/
theorem spent_le_count (hcap : q.cap l ≠ 0) (hl : q.table l = ∅) :
    spent (q.table (q.after l calls)) c.1 c.2 ≤ (q.granted l calls).count c := by
  induction calls using List.reverseRecOn with
  | nil =>
    rw [after, List.foldl_nil, hl]
    exact Nat.zero_le _
  | append_singleton calls c' ih =>
    rw [table_concat]
    rcases eq_or_ne c c' with rfl | hne
    · rw [spent_of_lookup (lookup_noteDaily_self hcap), count_granted_self hcap]
      exact Nat.add_le_add_right ih _
    · rw [count_granted_of_ne hcap hne]
      exact Nat.le_trans (spent_noteDaily_le hcap hne) ih

theorem mem_of_mem_granted (hcap : q.cap l ≠ 0) (h : c ∈ q.granted l calls) : c ∈ calls := by
  induction calls using List.reverseRecOn with
  | nil => cases h
  | append_singleton calls c' ih =>
    rw [granted_concat hcap] at h
    split at h
    · rw [List.mem_append] at h ⊢
      exact h.imp_left ih
    · exact List.mem_append_left _ (ih h)

/-- The first call for an address and a date is granted. -/
theorem count_pos (hcap : q.cap l ≠ 0) (hl : q.table l = ∅) (h : c ∈ calls) :
    0 < (q.granted l calls).count c := by
  induction calls using List.reverseRecOn with
  | nil => cases h
  | append_singleton calls c' ih =>
    rcases eq_or_ne c c' with rfl | hne
    · have hspent := @spent_le_count q l calls c hcap hl
      rw [count_granted_self hcap]
      split <;> omega
    · rw [count_granted_of_ne hcap hne]
      exact ih ((List.mem_append.mp h).resolve_right fun h => hne (List.mem_singleton.mp h))

/-- In a run in which all calls find their entries, an entry counts all that was granted for it. -/
theorem count_of_keeps (hcap : q.cap l ≠ 0) (hl : q.table l = ∅)
    (h : ∀ before c rest, calls = before ++ c :: rest → q.Keeps l before c) :
    (∀ c n, (q.table (q.after l calls)).lookup c.1 = some (c.2, n) →
      (q.granted l calls).count c = n) ∧
    (∀ c, (q.granted l calls).count c ≤ q.cap l) := by
  induction calls using List.reverseRecOn with
  | nil =>
    refine ⟨fun c n hn => ?_, fun c => Nat.zero_le _⟩
    rw [after, List.foldl_nil, hl] at hn
    cases hn
  | append_singleton calls c ih =>
    obtain ⟨hcount, hle⟩ := ih fun before c' rest hb => h before c' (rest ++ [c]) (by simp [hb])
    have hspent : (q.granted l calls).count c = spent (q.table (q.after l calls)) c.1 c.2 := by
      by_cases hc : c ∈ calls
      · obtain ⟨n, hn⟩ := h calls c [] rfl hc
        rw [hcount c n hn, spent_of_lookup hn]
      · have h0 := List.count_eq_zero.mpr fun hg => hc (mem_of_mem_granted hcap hg)
        have hle := @spent_le_count q l calls c hcap hl
        omega
    constructor
    · intro c' n hn
      rw [table_concat] at hn
      rcases eq_or_ne c'.1 c.1 with hip | hip
      · rw [hip, lookup_noteDaily_self hcap, Option.some.injEq, Prod.mk.injEq] at hn
        rw [Prod.ext hip hn.1.symm, count_granted_self hcap, hspent, hn.2]
      · rw [count_granted_of_ne hcap fun heq => hip (congrArg Prod.fst heq)]
        exact hcount c' n (lookup_noteDaily_of_ne hcap hip hn)
    · intro c'
      rcases eq_or_ne c' c with rfl | hne
      · rw [count_granted_self hcap, hspent]
        have hle := hle c'
        split <;> omega
      · rw [count_granted_of_ne hcap hne]
        exact hle c'

/-- Calls that repeat an address and a date are granted until the entry is used up. -/
theorem count_replicate (hcap : q.cap l ≠ 0) (n : Nat)
    (hn : spent (q.table (q.after l calls)) c.1 c.2 + n ≤ q.cap l) :
    spent (q.table (q.after l (calls ++ List.replicate n c))) c.1 c.2 =
        spent (q.table (q.after l calls)) c.1 c.2 + n ∧
      (q.granted l (calls ++ List.replicate n c)).count c = (q.granted l calls).count c + n := by
  induction n with
  | zero => exact ⟨by simp, by simp⟩
  | succ n ih =>
    obtain ⟨hspent, hcount⟩ := ih (by omega)
    have hlt : spent (q.table (q.after l (calls ++ List.replicate n c))) c.1 c.2 < q.cap l := by
      omega
    rw [List.replicate_succ', ← List.append_assoc, table_concat, count_granted_self hcap,
      spent_of_lookup (lookup_noteDaily_self hcap), if_pos hlt, hspent, hcount]
    exact ⟨rfl, rfl⟩

/-- No more calls than the cap allows are granted for an address and a date, in every run in which
a repeated call finds its entry; and any run with a call that does not can go on to break the
quota. -/
theorem daily_quota (q : Quota) (l : RuntimeLimits) (hl : q.table l = ∅) (hcap : 0 < q.cap l) :
    (∀ calls, (∀ before c rest, calls = before ++ c :: rest → q.Keeps l before c) →
      ∀ c, (q.granted l calls).count c ≤ q.cap l) ∧
    ∀ before c, ¬q.Keeps l before c → ∃ rest c,
      q.cap l < (q.granted l (before ++ rest)).count c := by
  have hcap' : q.cap l ≠ 0 := Nat.ne_of_gt hcap
  refine ⟨fun calls h => (count_of_keeps hcap' hl h).2, fun before c hlost => ?_⟩
  rw [Keeps, not_forall] at hlost
  obtain ⟨hmem, hnone⟩ := hlost
  have hspent : spent (q.table (q.after l before)) c.1 c.2 = 0 := by
    by_contra h
    exact hnone ⟨_, lookup_of_spent h⟩
  have hpos := count_pos hcap' hl hmem
  have hroom : spent (q.table (q.after l before)) c.1 c.2 + q.cap l ≤ q.cap l := by omega
  have hcount := (count_replicate hcap' (q.cap l) hroom).2
  exact ⟨List.replicate (q.cap l) c, c, by omega⟩

/-! One creation a day, and requests that pass midnight in the wrong order. -/

def onePerDay : RuntimeLimits := fromConfig 0 0 1 1 0

def aroundMidnight : List DailyCall := [(7, 20000), (7, 20001), (7, 20000)]

theorem daily_quota_onePerDay : (addresses.granted onePerDay [(7, 20000), (7, 20000)]).count
    (7, 20000) ≤ 1 := by
  refine (daily_quota addresses onePerDay rfl (by decide)).1 _ (fun before c rest h hc => ?_) _
  rcases before with _ | ⟨b, _ | ⟨b', before⟩⟩
  · cases hc
  · cases h
    exact ⟨1, by decide⟩
  · simp at h

theorem not_daily_quota : ¬∀ (q : Quota) (l : RuntimeLimits), q.table l = ∅ → 0 < q.cap l →
    ∀ (d : Int) (calls : List DailyCall), (∀ c ∈ calls, c.2 = d ∨ c.2 = d + 1) →
      ∀ c, (q.granted l calls).count c ≤ q.cap l := by
  intro h
  have hle := h addresses onePerDay rfl (by decide) 20000 aroundMidnight (by decide) (7, 20000)
  revert hle
  decide

end Quota
end AnonyMail.Api
