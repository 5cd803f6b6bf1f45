import Mathlib.Algebra.BigOperators.Group.List.Basic
import Mathlib.Algebra.GroupWithZero.Nat
import Mathlib.Data.List.Basic

/-! # Bounded broadcast channels

A channel keeps the last values sent, up to its capacity, and each receiver has a position of its own
among all values sent. `Broadcast` is the contract of an implementation: a receiver gets the values
sent after it has subscribed, one after the other, and is told how many it has missed when more than
the capacity lie before it. `Reads` says what the answers to a receiver tell of the values sent.
`Broadcast.ring` is an implementation. -/

namespace Broadcast

inductive Received (α : Type)
  | value (a : α)
  /-- The receiver has fallen behind, and this many values have been passed over. -/
  | lagged (n : Nat)
  /-- There is no sender left, and nothing to read. -/
  | closed
  deriving DecidableEq, Repr

variable {α : Type} {capacity : Nat} {log l : List α} {i j n : Nat} {r : Received α}
  {rs : List (Received α)}

/-- While there is a sender, this answer takes a receiver of the log from one position to the next.
What has been passed over is older than the values kept. -/
inductive Answers (capacity : Nat) (log : List α) : Nat → Received α → Nat → Prop
  | value {i : Nat} {a : α} : log[i]? = some a → Answers capacity log i (.value a) (i + 1)
  | lagged {i n : Nat} : 0 < n → i + n + capacity ≤ log.length →
    Answers capacity log i (.lagged n) (i + n)

/-- These answers, one after the other. -/
inductive Reads (capacity : Nat) (log : List α) : Nat → List (Received α) → Nat → Prop
  | nil {i : Nat} : Reads capacity log i [] i
  | concat {i j k : Nat} {rs : List (Received α)} {r : Received α} :
    Reads capacity log i rs j → Answers capacity log j r k → Reads capacity log i (rs ++ [r]) k

def values (rs : List (Received α)) : List α := rs.filterMap fun
  | .value a => some a
  | .lagged _ | .closed => none

@[simp] theorem values_nil : values ([] : List (Received α)) = [] := rfl

@[simp] theorem values_concat_value (a : α) : values (rs ++ [.value a]) = values rs ++ [a] := by
  simp [values]

@[simp] theorem values_concat_lagged : values (rs ++ [.lagged n]) = values rs := by simp [values]

@[simp] theorem values_concat_closed : values (rs ++ [.closed]) = values rs := by simp [values]

/-- How many values have been passed over. -/
def missed (rs : List (Received α)) : Nat := (rs.map fun
  | .lagged n => n
  | .value _ | .closed => 0).sum

theorem Answers.append (h : Answers capacity log i r j) : Answers capacity (log ++ l) i r j := by
  cases h with
  | value h => exact .value (List.getElem?_append_left (List.getElem?_eq_some_iff.mp h).1 ▸ h)
  | lagged h0 h =>
    refine .lagged h0 (Nat.le_trans h ?_)
    rw [List.length_append]
    exact Nat.le_add_right _ _

theorem Reads.append (h : Reads capacity log i rs j) : Reads capacity (log ++ l) i rs j := by
  induction h with
  | nil => exact .nil
  | concat _ ha ih => exact ih.concat ha.append

theorem Answers.lt (h : Answers capacity log i r j) : i < j ∧ j ≤ log.length := by
  cases h with
  | value h => exact ⟨Nat.lt_succ_self i, (List.getElem?_eq_some_iff.mp h).1⟩
  | lagged h0 h => omega

theorem Reads.le (h : Reads capacity log i rs j) : i ≤ j := by
  induction h with
  | nil => exact Nat.le_refl _
  | concat _ ha ih => exact Nat.le_trans ih (Nat.le_of_lt ha.lt.1)

/-- What lies between two positions. -/
def between (log : List α) (i j : Nat) : List α := (log.take j).drop i

theorem between_self (log : List α) (i : Nat) : between log i i = [] :=
  List.drop_eq_nil_of_le (List.length_take_le ..)

theorem between_append (hij : i ≤ j) (hj : j ≤ log.length) (k : Nat) :
    between log i (j + k) = between log i j ++ (log.drop j).take k := by
  rw [between, List.take_add, List.drop_append_of_le_length, between]
  rwa [List.length_take, Nat.min_eq_left hj]

theorem between_length (hj : log.length ≤ j) : between log i j = log.drop i := by
  rw [between, List.take_of_length_le hj]

/-- The values that a receiver has got are values sent, in the order in which they were sent. -/
theorem Reads.sublist (h : Reads capacity log i rs j) (hi : i ≤ log.length) :
    (values rs).Sublist (between log i j) ∧ j ≤ log.length := by
  induction h with
  | nil => exact ⟨List.nil_sublist _, hi⟩
  | concat hr ha ih =>
    obtain ⟨hle, hj⟩ := ih
    refine ⟨?_, ha.lt.2⟩
    cases ha with
    | value ha =>
      obtain ⟨hlt, rfl⟩ := List.getElem?_eq_some_iff.mp ha
      rw [values_concat_value, between_append hr.le hj, List.drop_eq_getElem_cons hlt]
      exact hle.append (List.Sublist.refl _)
    | lagged _ ha =>
      rw [values_concat_lagged, between_append hr.le hj]
      exact hle.trans (List.sublist_append_left ..)

/-- A receiver that has missed nothing has got all that lies behind it. -/
theorem Reads.values_eq (h : Reads capacity log i rs j) (hi : i ≤ log.length)
    (hlag : ∀ n, .lagged n ∉ rs) : values rs = between log i j := by
  induction h with
  | nil => exact (between_self _ _).symm
  | concat hr ha ih =>
    have hj := (hr.sublist hi).2
    have hvalues := ih fun n hn => hlag n (List.mem_append_left _ hn)
    cases ha with
    | value ha =>
      obtain ⟨hlt, rfl⟩ := List.getElem?_eq_some_iff.mp ha
      rw [values_concat_value, between_append hr.le hj, List.drop_eq_getElem_cons hlt, hvalues]
      rfl
    | lagged => exact absurd (List.mem_append_right _ (List.mem_singleton_self _)) (hlag _)

/-- Each value that lies behind a receiver has been received, or reported as missed. -/
theorem Reads.count (h : Reads capacity log i rs j) : j = i + (values rs).length + missed rs := by
  induction h with
  | nil => rfl
  | concat _ ha ih =>
    cases ha with
    | value => simp [ih, missed]; omega
    | lagged => simp [ih, missed]; omega

/-- A receiver misses something only if more than the capacity has been sent since it subscribed. -/
theorem Reads.capacity_lt (h : Reads capacity log i rs j) (hn : .lagged n ∈ rs) :
    i + capacity < log.length := by
  induction h with
  | nil => cases hn
  | concat hr ha ih =>
    obtain hn | hn := List.mem_append.mp hn
    · exact ih hn
    · cases List.mem_singleton.mp hn
      cases ha with
      | lagged h0 ha =>
        have hle := hr.le
        omega

/-- What the answers `rs` tell of the values sent since the receiver has subscribed. -/
structure Follows (capacity : Nat) (sent : List α) (rs : List (Received α)) (caughtUp : Prop) :
    Prop where
  order : (values rs).Sublist sent
  lag (n : Nat) : .lagged n ∈ rs → capacity < sent.length
  initial : (∀ n, .lagged n ∉ rs) → values rs <+: sent
  count : caughtUp → sent.length = (values rs).length + missed rs
  all : caughtUp → (∀ n, .lagged n ∉ rs) → values rs = sent

theorem Reads.follows {caughtUp : Prop} (h : Reads capacity log i rs j) (hi : i ≤ log.length)
    (hend : caughtUp → log.length ≤ j) : Follows capacity (log.drop i) rs caughtUp := by
  have hpre : between log i j <+: log.drop i := by
    rw [between, List.drop_take]
    exact List.take_prefix ..
  obtain ⟨hle, hj⟩ := h.sublist hi
  refine ⟨hle.trans hpre.sublist, fun n hn => ?_, fun hlag => h.values_eq hi hlag ▸ hpre, fun hc => ?_,
    fun hc hlag => ?_⟩
  · have hlt := h.capacity_lt hn
    rw [List.length_drop]
    omega
  · have hcount := h.count
    have hc := hend hc
    rw [List.length_drop]
    omega
  · rw [h.values_eq hi hlag, between_length (hend hc)]

/-- A receiver is not closed while there is a sender. -/
theorem Reads.not_closed (h : Reads capacity log i rs j) : .closed ∉ rs := by
  induction h with
  | nil => exact List.not_mem_nil
  | concat _ ha ih =>
    intro hmem
    obtain hmem | hmem := List.mem_append.mp hmem
    · exact ih hmem
    · cases List.mem_singleton.mp hmem
      cases ha

end Broadcast

open Broadcast in
/-- An implementation of channels that keep their sender. -/
structure Broadcast (α : Type) where
  Chan : Type
  Rx : Type
  capacity : Nat
  new : Chan
  send : Chan → α → Chan
  subscribe : Chan → Rx
  /-- `none` while there is nothing to read. -/
  recv : Chan → Rx → Option (Received α × Rx)
  /-- All values sent. -/
  sent : Chan → List α
  position : Rx → Nat
  sent_new : sent new = []
  sent_send (c : Chan) (a : α) : sent (send c a) = sent c ++ [a]
  position_subscribe (c : Chan) : position (subscribe c) = (sent c).length
  recv_some {c : Chan} {rx rx' : Rx} {r : Received α} : recv c rx = some (r, rx') →
    Answers capacity (sent c) (position rx) r (position rx')
  recv_none {c : Chan} {rx : Rx} : recv c rx = none → (sent c).length ≤ position rx

namespace Broadcast

variable {α : Type} {capacity : Nat}

theorem sent_foldl (B : Broadcast α) (c : B.Chan) (l : List α) :
    B.sent (l.foldl B.send c) = B.sent c ++ l := by
  induction l generalizing c with
  | nil => exact (List.append_nil _).symm
  | cons a l ih => rw [List.foldl_cons, ih, B.sent_send, List.append_assoc, List.singleton_append]

/-! ## The last values sent -/

/-- Of the values sent only the number is used. -/
structure Ring (α : Type) (capacity : Nat) where
  sent : List α
  kept : List α
  kept_eq : kept = sent.drop (sent.length - capacity)

namespace Ring

def new : Ring α capacity := ⟨[], [], List.drop_nil.symm⟩

def send (c : Ring α capacity) (a : α) : Ring α capacity where
  sent := c.sent ++ [a]
  kept := (c.kept ++ [a]).drop (c.kept.length + 1 - capacity)
  kept_eq := by
    have hle : c.sent.length - capacity ≤ c.sent.length := Nat.sub_le ..
    rw [c.kept_eq, ← List.drop_append_of_le_length hle, List.drop_drop, List.length_append,
      List.length_drop, List.length_singleton]
    congr 1
    omega

/-- The position of the oldest value kept. -/
def oldest (c : Ring α capacity) : Nat := c.sent.length - c.kept.length

def recv (c : Ring α capacity) (pos : Nat) : Option (Received α × Nat) :=
  if c.sent.length ≤ pos then none
  else if pos < c.oldest then some (.lagged (c.oldest - pos), c.oldest)
  else c.kept[pos - c.oldest]?.map fun a => (.value a, pos + 1)

theorem oldest_eq (c : Ring α capacity) : c.oldest = c.sent.length - capacity := by
  rw [oldest, c.kept_eq, List.length_drop]
  omega

theorem kept_getElem? (c : Ring α capacity) {pos : Nat} (h : c.oldest ≤ pos) :
    c.kept[pos - c.oldest]? = c.sent[pos]? := by
  rw [c.kept_eq, List.getElem?_drop, c.oldest_eq]
  congr 1
  rw [c.oldest_eq] at h
  omega

theorem recv_some {c : Ring α capacity} {pos pos' : Nat} {r : Received α}
    (h : c.recv pos = some (r, pos')) : Answers capacity c.sent pos r pos' := by
  unfold recv at h
  split at h
  · cases h
  · split at h
    · next hlt =>
      cases h
      have hold := c.oldest_eq
      have hsum : pos + (c.oldest - pos) = c.oldest := Nat.add_sub_cancel' (Nat.le_of_lt hlt)
      have hanswer : Answers capacity c.sent pos (.lagged (c.oldest - pos))
          (pos + (c.oldest - pos)) := .lagged (by omega) (by omega)
      rwa [hsum] at hanswer
    · next hge =>
      rw [c.kept_getElem? (Nat.le_of_not_lt hge)] at h
      obtain ⟨a, ha, heq⟩ := Option.map_eq_some_iff.mp h
      cases heq
      exact .value ha

theorem recv_none {c : Ring α capacity} {pos : Nat} (h : c.recv pos = none) :
    c.sent.length ≤ pos := by
  unfold recv at h
  split at h
  · assumption
  · split at h
    · cases h
    · next hge =>
      rw [c.kept_getElem? (Nat.le_of_not_lt hge), Option.map_eq_none_iff] at h
      exact List.getElem?_eq_none_iff.mp h

end Ring

def ring (α : Type) (capacity : Nat) : Broadcast α where
  Chan := Ring α capacity
  Rx := Nat
  capacity := capacity
  new := Ring.new
  send := Ring.send
  subscribe c := c.sent.length
  recv := Ring.recv
  sent := Ring.sent
  position pos := pos
  sent_new := rfl
  sent_send _ _ := rfl
  position_subscribe _ := rfl
  recv_some := Ring.recv_some
  recv_none := Ring.recv_none

end Broadcast
