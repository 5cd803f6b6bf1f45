import Mathlib.Data.List.Forall2
import Mathlib.Data.List.Nodup

/-! # Lists with unique keys

A table with a unique index is a list without two elements of one key. `upsert` changes the element
of a key by `merge`, or appends a new one. `updateFirst` is the loop over a vector that changes the
first element it finds. -/

namespace KeyedList

variable {α κ : Type} [DecidableEq κ]

abbrev Keyed (key : α → κ) (l : List α) : Prop := (l.map key).Nodup

def upsert (key : α → κ) (merge : α → α) (new : α) (l : List α) : List α :=
  if key new ∈ l.map key then l.map fun x => if key x = key new then merge x else x else l ++ [new]

variable {key : α → κ} {merge : α → α} {new x y : α} {l : List α} {p : α → Bool}

omit [DecidableEq κ] in
theorem Keyed.eq (h : Keyed key l) (hx : x ∈ l) (hy : y ∈ l) (hkey : key x = key y) : x = y :=
  List.inj_on_of_nodup_map h hx hy hkey

omit [DecidableEq κ] in
/-- A search by key finds the element with the key. -/
theorem Keyed.find?_eq (h : Keyed key l) (hp : ∀ y ∈ l, p y ↔ key y = key x) (hx : x ∈ l) :
    l.find? p = some x := by
  cases hf : l.find? p with
  | none => exact absurd ((hp x hx).mpr rfl) (List.find?_eq_none.mp hf x hx)
  | some y =>
    have hy := List.mem_of_find?_eq_some hf
    rw [h.eq hy hx ((hp y hy).mp (List.find?_some hf))]

theorem upsert_of_mem (h : key new ∈ l.map key) :
    upsert key merge new l = l.map fun x => if key x = key new then merge x else x := if_pos h

theorem upsert_of_not_mem (h : key new ∉ l.map key) : upsert key merge new l = l ++ [new] := if_neg h

/-- The keys are the same but for the new one. -/
theorem map_key_upsert (hmerge : ∀ x, key (merge x) = key x) :
    (upsert key merge new l).map key =
      if key new ∈ l.map key then l.map key else l.map key ++ [key new] := by
  by_cases h : key new ∈ l.map key
  · rw [upsert_of_mem h, if_pos h, List.map_map]
    refine List.map_congr_left fun x _ => ?_
    simp only [Function.comp_apply]
    split
    · exact hmerge x
    · rfl
  · rw [upsert_of_not_mem h, if_neg h, List.map_append, List.map_singleton]

theorem Keyed.upsert (h : Keyed key l) (hmerge : ∀ x, key (merge x) = key x) :
    Keyed key (upsert key merge new l) := by
  rw [Keyed, map_key_upsert hmerge]
  split
  · exact h
  · next hnew => exact (List.nodup_append.mpr
      ⟨h, List.nodup_singleton _, fun k hk k' hk' => by
        rw [List.mem_singleton.mp hk']; exact fun heq => hnew (heq ▸ hk)⟩)

/-- An element with another key is there before and after. -/
theorem mem_upsert_of_ne (hmerge : ∀ x, key (merge x) = key x) (hx : key x ≠ key new) :
    x ∈ upsert key merge new l ↔ x ∈ l := by
  by_cases h : key new ∈ l.map key
  · rw [upsert_of_mem h, List.mem_map]
    constructor
    · rintro ⟨y, hy, rfl⟩
      split at hx
      · next heq => exact absurd ((hmerge y).trans heq) hx
      · next hne =>
        rw [if_neg hne]
        exact hy
    · exact fun hmem => ⟨x, hmem, if_neg hx⟩
  · rw [upsert_of_not_mem h, List.mem_append, List.mem_singleton, or_iff_left]
    exact fun heq => hx (heq ▸ rfl)

/-- What stands under the new key afterwards. -/
theorem of_mem_upsert (hx : x ∈ upsert key merge new l) (hkey : key x = key new) :
    x = new ∨ ∃ y ∈ l, key y = key new ∧ x = merge y := by
  by_cases h : key new ∈ l.map key
  · rw [upsert_of_mem h, List.mem_map] at hx
    obtain ⟨y, hy, rfl⟩ := hx
    split at hkey
    · next heq => exact .inr ⟨y, hy, heq, if_pos heq⟩
    · next hne => exact absurd hkey hne
  · rw [upsert_of_not_mem h, List.mem_append, List.mem_singleton] at hx
    exact .inl (hx.resolve_left fun hx => h (hkey ▸ List.mem_map_of_mem hx))

theorem merge_mem_upsert (hy : y ∈ l) (hkey : key y = key new) : merge y ∈ upsert key merge new l := by
  rw [upsert_of_mem (hkey ▸ List.mem_map_of_mem hy)]
  exact List.mem_map.mpr ⟨y, hy, if_pos hkey⟩

/-! ## Updating one element in place -/

section
variable {β : Type} {g : α → α} {f : α → β} {q : α → Bool}

/-- Change the first element that `p` accepts. -/
def updateFirst (p : α → Bool) (g : α → α) : List α → List α
  | [] => []
  | x :: l => if p x then g x :: l else x :: updateFirst p g l

omit [DecidableEq κ]

theorem map_updateFirst (hf : ∀ x, f (g x) = f x) (l : List α) :
    (updateFirst p g l).map f = l.map f := by
  induction l with
  | nil => rfl
  | cons x l ih =>
    rw [updateFirst]
    split
    · rw [List.map_cons, hf, List.map_cons]
    · rw [List.map_cons, ih, List.map_cons]

theorem filter_updateFirst_of_not (hq : ∀ x, p x → q x = false ∧ q (g x) = false) (l : List α) :
    (updateFirst p g l).filter q = l.filter q := by
  induction l with
  | nil => rfl
  | cons x l ih =>
    rw [updateFirst]
    split
    · next hp => simp [hq x hp]
    · rw [List.filter_cons, List.filter_cons, ih]

theorem filter_updateFirst (hq : ∀ x, p x → q x ∧ q (g x)) (l : List α) :
    (updateFirst p g l).filter q = updateFirst p g (l.filter q) := by
  induction l with
  | nil => rfl
  | cons x l ih =>
    rw [updateFirst]
    split
    · next hp =>
      obtain ⟨hx, hgx⟩ := hq x hp
      rw [List.filter_cons_of_pos hgx, List.filter_cons_of_pos hx, updateFirst, if_pos hp]
    · next hp =>
      rw [List.filter_cons, List.filter_cons, ih]
      split
      · rw [updateFirst, if_neg hp]
      · rfl

theorem forall₂_updateFirst (p : α → Bool) (g : α → α) (l : List α) :
    List.Forall₂ (fun x y => y = x ∨ p x ∧ y = g x) l (updateFirst p g l) := by
  induction l with
  | nil => exact .nil
  | cons x l ih =>
    rw [updateFirst]
    split
    · next hp => exact .cons (.inr ⟨hp, rfl⟩) (List.forall₂_same.mpr fun _ _ => .inl rfl)
    · exact .cons (.inl rfl) ih

/-- If `p` accepts at most one element, it does not matter that the first one is meant. -/
theorem updateFirst_eq_map (h : l.Pairwise fun x y => p x → ¬p y) :
    updateFirst p g l = l.map fun x => if p x then g x else x := by
  induction l with
  | nil => rfl
  | cons x l ih =>
    obtain ⟨hx, hl⟩ := List.pairwise_cons.mp h
    rw [updateFirst, List.map_cons]
    split
    · next hp =>
      have hrest : l.map (fun y => if p y then g y else y) = l.map id :=
        List.map_congr_left fun y hy => if_neg (hx y hy hp)
      rw [hrest, List.map_id]
    · rw [ih hl]

end

end KeyedList
