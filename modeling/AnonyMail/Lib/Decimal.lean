import Mathlib.Init

/-! # Decimal text of natural numbers

The way Rust's unsigned integers read their decimal form, with a largest value, and that they read
back what is written. -/

namespace Decimal

/-- Why a text is no number. -/
inductive IntErrorKind
  | empty
  | invalidDigit
  | posOverflow
  deriving DecidableEq, Repr

def toDigit (c : Char) : Option Nat := if c.isDigit then some (c.toNat - '0'.toNat) else none

/-- One more digit of a number that is at most `max`. -/
def push (max n : Nat) (c : Char) : Except IntErrorKind Nat :=
  match toDigit c with
  | none => .error .invalidDigit
  | some d => if n * 10 + d ≤ max then .ok (n * 10 + d) else .error .posOverflow

/-- `from_str` of the unsigned integers up to `max`: a sign `+` is allowed, a `-` is not. -/
def parse (max : Nat) : List Char → Except IntErrorKind Nat
  | [] => .error .empty
  | ['+'] => .error .invalidDigit
  | '+' :: digits => digits.foldlM (push max) 0
  | digits => digits.foldlM (push max) 0

theorem toDigit_digitChar {d : Nat} (h : d < 10) : toDigit d.digitChar = some d := by
  have : ∀ d < 10, toDigit d.digitChar = some d := by decide
  exact this d h

theorem push_digitChar {max d : Nat} (n : Nat) (hd : d < 10) (h : n * 10 + d ≤ max) :
    push max n d.digitChar = .ok (n * 10 + d) := by
  rw [push, toDigit_digitChar hd]
  exact if_pos h

/-- What is pushed digit by digit is the number. The induction takes the last digit off. -/
theorem foldlM_push_toDigits {max : Nat} (n : Nat) (h : n ≤ max) :
    (Nat.toDigits 10 n).foldlM (push max) 0 = .ok n := by
  induction n using Nat.strongRecOn with
  | ind n ih =>
    rw [Nat.toDigits_eq_if (by decide)]
    split
    · next hn =>
      have hfirst : push max 0 n.digitChar = .ok n := by
        have := @push_digitChar max _ 0 hn (by omega)
        rwa [Nat.zero_mul, Nat.zero_add] at this
      simp [hfirst]
    · next hn =>
      have hlast : push max (n / 10) (n % 10).digitChar = .ok n := by
        have := @push_digitChar max _ (n / 10) (Nat.mod_lt n (by decide)) (by omega)
        rwa [Nat.div_add_mod'] at this
      rw [List.foldlM_append, ih (n / 10) (by omega) (by omega)]
      change (push max (n / 10) (n % 10).digitChar >>= pure) = .ok n
      rw [hlast]
      rfl

theorem parse_toDigits {max n : Nat} (h : n ≤ max) : parse max (Nat.toDigits 10 n) = .ok n := by
  have hdigit : ∀ c ∈ Nat.toDigits 10 n, c.isDigit := fun c hc =>
    Nat.isDigit_of_mem_toDigits (by decide) (by decide) hc
  unfold parse
  split
  · next heq => exact absurd heq Nat.toDigits_ne_nil
  · next heq => exact absurd (hdigit '+' (by rw [heq]; simp)) (by decide)
  · next heq => exact absurd (hdigit '+' (by rw [heq]; simp)) (by decide)
  · exact foldlM_push_toDigits n h

/-- Reading a number gives back what was written. -/
theorem parse_repr {max n : Nat} (h : n ≤ max) : parse max (Nat.repr n).toList = .ok n := by
  rw [Nat.toList_repr]
  exact parse_toDigits h

end Decimal
