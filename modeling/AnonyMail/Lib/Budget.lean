import Mathlib.Algebra.BigOperators.Group.List.Basic
import Mathlib.Algebra.GroupWithZero.Nat

/-! # The longest prefix within a budget

`fitting b l` is the length of the longest prefix of `l` whose sum is at most `b`. What is used of
it is `le_fitting_iff`: prefixes within the budget are those that are not longer. -/

namespace Budget

def fitting : Nat → List Nat → Nat
  | _, [] => 0
  | b, x :: l => if x ≤ b then fitting (b - x) l + 1 else 0

variable {b n x : Nat} {l : List Nat}

theorem le_fitting_iff (hn : n ≤ l.length) : n ≤ fitting b l ↔ (l.take n).sum ≤ b := by
  induction l generalizing b n with
  | nil =>
    obtain rfl : n = 0 := Nat.le_zero.mp hn
    simp
  | cons x l ih =>
    cases n with
    | zero => simp
    | succ n =>
      rw [fitting, List.take_succ_cons, List.sum_cons]
      split
      · next hx =>
        rw [Nat.add_le_add_iff_right, ih (Nat.le_of_succ_le_succ hn)]
        omega
      · next hx => omega

theorem fitting_le_length : fitting b l ≤ l.length := by
  induction l generalizing b with
  | nil => exact Nat.le_refl _
  | cons x l ih =>
    rw [fitting]
    split
    · exact Nat.succ_le_succ ih
    · exact Nat.zero_le _

theorem fitting_cons_of_le (hx : x ≤ b) : fitting b (x :: l) = fitting (b - x) l + 1 := if_pos hx

theorem fitting_cons_of_lt (hx : b < x) : fitting b (x :: l) = 0 := if_neg (Nat.not_le.mpr hx)

end Budget
