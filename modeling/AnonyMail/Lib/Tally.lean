import AnonyMail.Lib.HashMap

/-! # Tables of counts

A bag of keys as a table from the keys that occur in it to the number of their occurrences. -/

namespace Tally

variable {κ : Type} [DecidableEq κ] {m : HashMap κ Nat} {l l' : List κ} {k : κ}

/-- The table holds the keys of the list, each with the number of its occurrences. -/
def Tallies (m : HashMap κ Nat) (l : List κ) : Prop :=
  ∀ k, m.lookup k = if k ∈ l then some (l.count k) else none

def add (m : HashMap κ Nat) (k : κ) : HashMap κ Nat := m.insert k ((m.lookup k).getD 0 + 1)

/-- One occurrence less; a key with none left is taken out. -/
def remove (m : HashMap κ Nat) (k : κ) : HashMap κ Nat :=
  match m.lookup k with
  | some n => if n - 1 = 0 then m.erase k else m.insert k (n - 1)
  | none => m

theorem tallies_nil : Tallies (∅ : HashMap κ Nat) [] := fun _ => rfl

theorem Tallies.getD (h : Tallies m l) (k : κ) : (m.lookup k).getD 0 = l.count k := by
  rw [h k]
  split
  · rfl
  · next hk => exact (List.count_eq_zero.mpr hk).symm

theorem Tallies.perm (h : Tallies m l) (hp : l.Perm l') : Tallies m l' := by
  intro k
  rw [h k, hp.count_eq]
  simp only [hp.mem_iff]

theorem Tallies.add (h : Tallies m l) (k : κ) : Tallies (add m k) (k :: l) := by
  intro k'
  rw [Tally.add, h.getD]
  rcases eq_or_ne k' k with rfl | hne
  · rw [AList.lookup_insert, if_pos List.mem_cons_self, List.count_cons_self]
  · rw [AList.lookup_insert_ne hne, h k', List.count_cons_of_ne hne.symm]
    simp only [List.mem_cons, hne, false_or]

/-- A key that occurs is counted at least once, so the subtraction is exact. -/
theorem Tallies.lookup_cons (h : Tallies m (k :: l)) : m.lookup k = some (l.count k + 1) := by
  rw [h k, if_pos List.mem_cons_self, List.count_cons_self]

theorem Tallies.remove (h : Tallies m (k :: l)) : Tallies (remove m k) l := by
  intro k'
  rw [Tally.remove, h.lookup_cons]
  simp only [Nat.add_sub_cancel]
  rcases eq_or_ne k' k with rfl | hne
  · split
    · next h0 => rw [AList.lookup_erase, if_neg (List.count_eq_zero.mp h0)]
    · next h0 => rw [AList.lookup_insert, if_pos (List.count_pos_iff.mp (Nat.pos_of_ne_zero h0))]
  · have hk := h k'
    rw [List.count_cons_of_ne hne.symm] at hk
    simp only [List.mem_cons, hne, false_or] at hk
    split
    · rw [AList.lookup_erase_ne hne, hk]
    · rw [AList.lookup_insert_ne hne, hk]

end Tally
