import Mathlib.Data.List.Induction

/-! # Sliding windows

Of a sequence of events at natural-number times, an event is admitted if fewer than `limit` of the
admitted ones are less than `window` ago. -/

namespace SlidingWindow

variable {window limit now now' : Nat} {ts : List Nat}

/-- The events less than `window` ago. -/
def recent (window now : Nat) (ts : List Nat) : List Nat := ts.filter fun t => now - t < window

def admits (window limit : Nat) (ts : List Nat) (now : Nat) : Bool :=
  (recent window now ts).length < limit

/-- The events that are admitted when they come in the order of the list. -/
def admitted (window limit : Nat) (events : List Nat) : List Nat :=
  events.foldl (fun ts now => if admits window limit ts now then ts ++ [now] else ts) []

@[simp] theorem recent_nil : recent window now [] = [] := rfl

theorem recent_append (ts ts' : List Nat) :
    recent window now (ts ++ ts') = recent window now ts ++ recent window now ts' :=
  List.filter_append ..

/-- What is recent now was recent before. -/
theorem recent_recent (h : now ≤ now') (ts : List Nat) :
    recent window now' (recent window now ts) = recent window now' ts := by
  rw [recent, recent, List.filter_filter]
  refine List.filter_congr fun t _ => ?_
  rw [Bool.and_eq_left_iff_imp, decide_eq_true_iff, decide_eq_true_iff]
  omega

theorem length_recent_anti (h : now ≤ now') (ts : List Nat) :
    (recent window now' ts).length ≤ (recent window now ts).length := by
  rw [← recent_recent h]
  exact List.length_filter_le ..

theorem admitted_concat (events : List Nat) (now : Nat) :
    admitted window limit (events ++ [now]) =
      if admits window limit (admitted window limit events) now then
        admitted window limit events ++ [now]
      else admitted window limit events := by
  rw [admitted, List.foldl_append]
  rfl

/-- Never more than `limit` admitted events are recent. -/
theorem length_recent_admitted {events : List Nat} (h : ∀ t ∈ events, t ≤ now) :
    (recent window now (admitted window limit events)).length ≤ limit := by
  induction events using List.reverseRecOn generalizing now with
  | nil => exact Nat.zero_le _
  | append_singleton events t ih =>
    have ht : t ≤ now := h t (by simp)
    have hevents : ∀ t ∈ events, t ≤ now := fun t ht => h t (List.mem_append_left _ ht)
    rw [admitted_concat]
    split
    · next hadmits =>
      have hlt : (recent window t (admitted window limit events)).length < limit :=
        of_decide_eq_true hadmits
      have hanti := @length_recent_anti window t now ht (admitted window limit events)
      have hone : (recent window now [t]).length ≤ 1 := List.length_filter_le ..
      rw [recent_append, List.length_append]
      omega
    · exact ih hevents

theorem not_admits_iff {events : List Nat} (h : ∀ t ∈ events, t ≤ now) :
    admits window limit (admitted window limit events) now = false ↔
      (recent window now (admitted window limit events)).length = limit := by
  have hle := @length_recent_admitted window limit now events h
  rw [admits, decide_eq_false_iff_not]
  omega

/-- No more than `limit` are admitted in any half-open interval as long as the window. -/
theorem length_interval_le {events : List Nat} (hsorted : events.Pairwise (· ≤ ·)) (now : Nat) :
    (recent window now ((admitted window limit events).filter (· ≤ now))).length ≤ limit := by
  induction events using List.reverseRecOn with
  | nil => exact Nat.zero_le _
  | append_singleton events t ih =>
    obtain ⟨hevents, -, hcross⟩ := List.pairwise_append.mp hsorted
    rcases Nat.lt_or_ge now t with ht | ht
    · have hdrop : (admitted window limit (events ++ [t])).filter (· ≤ now) =
          (admitted window limit events).filter (· ≤ now) := by
        rw [admitted_concat]
        split
        · simp [List.filter_append, ht]
        · rfl
      rw [hdrop]
      exact ih hevents
    · have hpast : ∀ x ∈ events ++ [t], x ≤ now := by
        intro x hx
        rcases List.mem_append.mp hx with hx | hx
        · exact Nat.le_trans (hcross x hx t (List.mem_singleton_self t)) ht
        · exact List.mem_singleton.mp hx ▸ ht
      have hsub := (List.filter_sublist (l := admitted window limit (events ++ [t]))
        (p := (· ≤ now))).filter fun t => now - t < window
      exact Nat.le_trans hsub.length_le (length_recent_admitted hpast)

theorem mem_of_mem_admitted {events : List Nat} {t : Nat} (h : t ∈ admitted window limit events) :
    t ∈ events := by
  induction events using List.reverseRecOn with
  | nil => cases h
  | append_singleton events now ih =>
    rw [admitted_concat] at h
    split at h
    · exact List.mem_append.mpr ((List.mem_append.mp h).imp_left ih)
    · exact List.mem_append_left _ (ih h)

/-- If one event at a time is admitted, they are at least a window apart. -/
theorem pairwise_admitted_one {events : List Nat} (hsorted : events.Pairwise (· ≤ ·)) :
    (admitted window 1 events).Pairwise fun s t => s + window ≤ t := by
  induction events using List.reverseRecOn with
  | nil => exact .nil
  | append_singleton events now ih =>
    obtain ⟨hevents, -, hcross⟩ := List.pairwise_append.mp hsorted
    rw [admitted_concat]
    split
    · next hadmits =>
      refine List.pairwise_append.mpr ⟨ih hevents, List.pairwise_singleton .., fun s hs t ht => ?_⟩
      cases List.mem_singleton.mp ht
      have hnone : recent window now (admitted window 1 events) = [] :=
        List.eq_nil_of_length_eq_zero (Nat.lt_one_iff.mp (of_decide_eq_true hadmits))
      have hold := List.filter_eq_nil_iff.mp hnone s hs
      have hle := hcross s (mem_of_mem_admitted hs) now (List.mem_singleton_self now)
      rw [decide_eq_true_iff] at hold
      omega
    · exact ih hevents

end SlidingWindow
