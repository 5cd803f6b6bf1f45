import Mathlib.Data.List.Sort
import Mathlib.Order.Basic

/-! # Ranks in a sorted list

An element with a key of its own stands, in a list sorted by descending keys, right after the
elements with larger keys. So the number of these, its rank, says which prefixes of the list hold
the element, without mention of the sorted list. -/

namespace Rank

variable {α κ : Type} [LinearOrder κ] {key : α → κ} {l l' l₁ l₂ : List α} {x : α} {n : Nat}

/-- The number of elements with a key larger than `k`. -/
def rank (key : α → κ) (l : List α) (k : κ) : Nat := l.countP fun y => k < key y

abbrev Descending (key : α → κ) (l : List α) : Prop := l.Pairwise fun a b => key b ≤ key a

theorem descending_insertionSort (key : α → κ) {r : α → α → Prop} [DecidableRel r]
    (hr : ∀ a b, r a b ↔ key b ≤ key a) (l : List α) : Descending key (l.insertionSort r) := by
  have htotal : Std.Total r := ⟨fun a b => by rw [hr, hr]; exact le_total ..⟩
  have htrans : IsTrans α r := ⟨fun a b c => by rw [hr, hr, hr]; exact fun h₁ h₂ => h₂.trans h₁⟩
  exact (List.pairwise_insertionSort r l).imp fun h => (hr _ _).mp h

theorem Descending.rank_eq (hs : Descending key (l₁ ++ x :: l₂))
    (hne : ∀ y ∈ l₁, key y ≠ key x) : rank key (l₁ ++ l₂) (key x) = l₁.length := by
  obtain ⟨-, htail, hcross⟩ := List.pairwise_append.mp hs
  have h₁ : rank key l₁ (key x) = l₁.length := by
    refine List.countP_eq_length.mpr fun y hy => decide_eq_true ?_
    exact lt_of_le_of_ne (hcross y hy x List.mem_cons_self) (hne y hy).symm
  have h₂ : rank key l₂ (key x) = 0 := by
    refine List.countP_eq_zero.mpr fun y hy => ?_
    rw [decide_eq_true_eq, not_lt]
    exact (List.pairwise_cons.mp htail).1 y hy
  rw [rank, List.countP_append]
  exact congrArg₂ (· + ·) h₁ h₂

/-- `x` splits a sorted list at its rank among the other elements. -/
theorem Descending.split (hs : Descending key l) (hp : l.Perm (x :: l'))
    (hne : ∀ y ∈ l', key y ≠ key x) :
    ∃ l₁ l₂, l = l₁ ++ x :: l₂ ∧ x ∉ l₁ ∧ x ∉ l₂ ∧ l₁.length = rank key l' (key x) := by
  obtain ⟨l₁, l₂, rfl⟩ := List.append_of_mem (hp.mem_iff.mpr List.mem_cons_self)
  have hrest : (l₁ ++ l₂).Perm l' := (List.perm_middle.symm.trans hp).cons_inv
  have hne' : ∀ y ∈ l₁ ++ l₂, key y ≠ key x := fun y hy => hne y (hrest.mem_iff.mp hy)
  refine ⟨l₁, l₂, rfl, fun h => ?_, fun h => ?_, ?_⟩
  · exact hne' x (List.mem_append_left _ h) rfl
  · exact hne' x (List.mem_append_right _ h) rfl
  · rw [← hs.rank_eq fun y hy => hne' y (List.mem_append_left _ hy)]
    exact hrest.countP_eq _

theorem Descending.mem_drop_iff (hs : Descending key l) (hp : l.Perm (x :: l'))
    (hne : ∀ y ∈ l', key y ≠ key x) : x ∈ l.drop n ↔ n ≤ rank key l' (key x) := by
  obtain ⟨l₁, l₂, rfl, -, h₂, hlen⟩ := hs.split hp hne
  rw [← hlen]
  constructor
  · intro h
    by_contra hlt
    have hle : l₁.length + 1 ≤ n := by omega
    have hdrop : (l₁ ++ x :: l₂).drop n <:+ l₂ := by
      obtain ⟨k, rfl⟩ := Nat.exists_eq_add_of_le hle
      rw [← List.drop_drop]
      simpa using List.drop_suffix k l₂
    exact h₂ (hdrop.mem h)
  · intro hle
    rw [List.drop_append_of_le_length hle]
    exact List.mem_append_right _ List.mem_cons_self

theorem Descending.mem_take_iff (hs : Descending key l) (hp : l.Perm (x :: l'))
    (hne : ∀ y ∈ l', key y ≠ key x) : x ∈ l.take n ↔ rank key l' (key x) < n := by
  obtain ⟨l₁, l₂, rfl, h₁, -, hlen⟩ := hs.split hp hne
  rw [← hlen]
  constructor
  · intro h
    by_contra hlt
    rw [List.take_append_of_le_length (by omega)] at h
    exact h₁ (List.mem_of_mem_take h)
  · intro hlt
    obtain ⟨k, rfl⟩ := Nat.exists_eq_add_of_le hlt
    rw [List.take_append]
    refine List.mem_append_right _ ?_
    rw [show l₁.length + 1 + k - l₁.length = k + 1 by omega]
    exact List.mem_cons_self

/-- In a sorted list, the elements up to `x` are those with a key not below its key. -/
theorem Descending.filter_ge (hs : Descending key (l₁ ++ x :: l₂))
    (hne : ∀ y ∈ l₂, key y ≠ key x) :
    (l₁ ++ x :: l₂).filter (fun y => key x ≤ key y) = l₁ ++ [x] := by
  obtain ⟨-, htail, hcross⟩ := List.pairwise_append.mp hs
  have h₁ : l₁.filter (fun y => key x ≤ key y) = l₁ :=
    List.filter_eq_self.mpr fun y hy => decide_eq_true (hcross y hy x List.mem_cons_self)
  have h₂ : l₂.filter (fun y => key x ≤ key y) = [] := by
    refine List.filter_eq_nil_iff.mpr fun y hy => ?_
    rw [decide_eq_true_eq, not_le]
    exact lt_of_le_of_ne ((List.pairwise_cons.mp htail).1 y hy) (hne y hy)
  rw [List.filter_append, h₁, List.filter_cons_of_pos (p := fun y => key x ≤ key y) (by simp), h₂]

/-- In a strictly sorted list, the elements before `x` are those with a larger key. -/
theorem filter_gt (hs : (l₁ ++ x :: l₂).Pairwise fun a b => key b < key a) :
    (l₁ ++ x :: l₂).filter (fun y => key x < key y) = l₁ := by
  obtain ⟨-, htail, hcross⟩ := List.pairwise_append.mp hs
  have h₁ : l₁.filter (fun y => key x < key y) = l₁ :=
    List.filter_eq_self.mpr fun y hy => decide_eq_true (hcross y hy x List.mem_cons_self)
  have h₂ : (x :: l₂).filter (fun y => key x < key y) = [] := by
    refine List.filter_eq_nil_iff.mpr fun y hy => ?_
    rw [decide_eq_true_eq, not_lt]
    rcases List.mem_cons.mp hy with rfl | hy
    · exact le_refl _
    · exact ((List.pairwise_cons.mp htail).1 y hy).le
  rw [List.filter_append, h₁, h₂, List.append_nil]

/-- A list with distinct keys has one descending order. -/
theorem Descending.eq_of_perm (hs : Descending key l) (hs' : Descending key l') (hp : l.Perm l')
    (hinj : ∀ a ∈ l, ∀ b ∈ l, key a = key b → a = b) : l = l' := by
  refine hp.eq_of_pairwise (fun a b ha hb hab hba => ?_) hs hs'
  exact hinj a ha b (hp.mem_iff.mpr hb) (le_antisymm hba hab)

end Rank
