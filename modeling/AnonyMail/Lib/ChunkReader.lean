import Mathlib.Data.List.Basic

/-! # Buffered readers

A stream as a buffered reader sees it: the non-empty pieces in which it arrives, the first of
them possibly consumed in part. How a stream is cut into pieces is up to the sender and the
network, so what matters of a reader is its content `flat`; what a consumer computes may still
depend on the pieces, and this module says how a delimiter splits them. -/

namespace ChunkReader

abbrev Chunk (α : Type) := {l : List α // l ≠ []}

variable {α : Type} {cs ps rest : List (Chunk α)} {c : Chunk α} {d : α} {l q t w : List α}

/-- The content still to be read. -/
def flat (cs : List (Chunk α)) : List α := cs.flatMap (·.1)

@[simp] theorem flat_nil : flat ([] : List (Chunk α)) = [] := rfl

@[simp] theorem flat_cons : flat (c :: cs) = c.1 ++ flat cs := rfl

@[simp] theorem flat_append : flat (ps ++ cs) = flat ps ++ flat cs := List.flatMap_append

theorem length_pos (p : Chunk α) : 0 < p.1.length := List.length_pos_of_ne_nil p.2

theorem flat_length_pos (h : cs ≠ []) : 0 < (flat cs).length := by
  obtain ⟨c, cs, rfl⟩ := List.exists_cons_of_ne_nil h
  have hc := length_pos c
  rw [flat_cons, List.length_append]
  omega

/-- Drop the first `n` elements of the first piece. -/
def consume (n : Nat) : List (Chunk α) → List (Chunk α)
  | [] => []
  | c :: cs => if h : c.1.drop n = [] then cs else ⟨c.1.drop n, h⟩ :: cs

theorem flat_consume (n : Nat) : flat (consume n (c :: cs)) = c.1.drop n ++ flat cs := by
  rw [consume]
  split
  · next h => simp [h]
  · rfl

/-! ## Splitting at a delimiter -/

theorem append_cons_inj {p q l t : List α} (hp : d ∉ p) (hl : d ∉ l)
    (h : p ++ d :: q = l ++ d :: t) : p = l ∧ q = t := by
  induction p generalizing l with
  | nil =>
    cases l with
    | nil => simpa using h
    | cons x l => simp only [List.nil_append, List.cons_append, List.cons.injEq] at h; simp [h.1] at hl
  | cons x p ih =>
    cases l with
    | nil => simp only [List.nil_append, List.cons_append, List.cons.injEq] at h; simp [h.1] at hp
    | cons y l =>
      simp only [List.cons_append, List.cons.injEq] at h
      obtain ⟨rfl, rfl⟩ := ih (List.not_mem_of_not_mem_cons hp) (List.not_mem_of_not_mem_cons hl) h.2
      exact ⟨by rw [h.1], rfl⟩

theorem findIdx?_append_cons [BEq α] [LawfulBEq α] (hq : d ∉ q) :
    (q ++ d :: w).findIdx? (· == d) = some q.length := by
  induction q with
  | nil => simp [List.findIdx?_cons]
  | cons x q ih =>
    have hx : (x == d) = false := by simpa using (List.ne_of_not_mem_cons hq).symm
    simp [List.findIdx?_cons, hx, ih (List.not_mem_of_not_mem_cons hq)]

theorem findIdx?_eq_none_of_not_mem [BEq α] [LawfulBEq α] (hq : d ∉ q) :
    q.findIdx? (· == d) = none := by
  rw [List.findIdx?_eq_none_iff]
  intro x hx
  simpa using fun h : x = d => hq (h ▸ hx)

/-- A reader whose next delimiter is `d`: whole pieces `ps` without `d`, then a piece that has it
after `q`. -/
structure Split (d : α) (cs ps : List (Chunk α)) (c : Chunk α) (rest : List (Chunk α))
    (q w : List α) : Prop where
  eq : cs = ps ++ c :: rest
  free : ∀ p ∈ ps, d ∉ p.1
  chunk : c.1 = q ++ d :: w
  free_last : d ∉ q

theorem exists_split (h : d ∈ flat cs) : ∃ ps c rest q w, Split d cs ps c rest q w := by
  induction cs with
  | nil => simp at h
  | cons c cs ih =>
    by_cases hc : d ∈ c.1
    · obtain ⟨q, w, hq, hd⟩ := List.eq_append_cons_of_mem hc
      exact ⟨[], c, cs, q, w, rfl, by simp, hq, hd⟩
    · have hcs : d ∈ flat cs := by simpa [hc] using h
      obtain ⟨ps, c', rest, q, w, rfl, h2, h3, h4⟩ := ih hcs
      exact ⟨c :: ps, c', rest, q, w, rfl, by simpa [hc] using h2, h3, h4⟩

namespace Split

variable (H : Split d cs ps c rest q w)
include H

theorem flat_eq : flat cs = (flat ps ++ q) ++ d :: (w ++ flat rest) := by
  rw [H.eq, flat_append, flat_cons, H.chunk]; simp

theorem not_mem : d ∉ flat ps ++ q := by
  rw [List.mem_append, flat, List.mem_flatMap]
  rintro (⟨p, hp, hd⟩ | hd)
  · exact H.free p hp hd
  · exact H.free_last hd

/-- The pieces up to the delimiter are the content up to it. -/
theorem line_eq (hl : d ∉ l) (h : flat cs = l ++ d :: t) : l = flat ps ++ q ∧ t = w ++ flat rest := by
  obtain ⟨h1, h2⟩ := append_cons_inj H.not_mem hl (H.flat_eq ▸ h)
  exact ⟨h1.symm, h2.symm⟩

theorem flat_after : flat (consume (q.length + 1) (c :: rest)) = w ++ flat rest := by
  rw [flat_consume, H.chunk]; simp

end Split

/-! ## A reader that gives up past a bound -/

/-- The pieces left when a reader that holds `n` elements and may hold `cap` takes a piece that
does not fit; `none` if all pieces fit. -/
def giveUp (cap : Nat) : Nat → List (Chunk α) → Option (List (Chunk α))
  | _, [] => none
  | n, p :: ps => if n + p.1.length > cap then some ps else giveUp cap (n + p.1.length) ps

/-- How many elements such a reader holds after the pieces, starting over with none each time it
gives up. -/
def held (cap n : Nat) (ps : List (Chunk α)) : Nat :=
  ps.foldl (fun n p => if n + p.1.length > cap then 0 else n + p.1.length) n

@[simp] theorem held_nil (cap n : Nat) : held cap n ([] : List (Chunk α)) = n := rfl

theorem held_cons (cap n : Nat) (p : Chunk α) (ps : List (Chunk α)) :
    held cap n (p :: ps) = held cap (if n + p.1.length > cap then 0 else n + p.1.length) ps := rfl

theorem held_of_giveUp_eq_none {cap n : Nat} {ps : List (Chunk α)} (h : giveUp cap n ps = none) :
    held cap n ps = n + (flat ps).length := by
  induction ps generalizing n with
  | nil => simp
  | cons p ps ih =>
    unfold giveUp at h
    split at h
    · cases h
    · next hp =>
      rw [held_cons, if_neg hp, ih h, flat_cons, List.length_append]
      omega

/-- Where the reader gives up, it starts over on what is left. -/
theorem held_of_giveUp {cap n : Nat} {ps ps' : List (Chunk α)} (h : giveUp cap n ps = some ps') :
    ∃ p qs, ps = p :: qs ++ ps' ∧ held cap n ps = held cap 0 ps' ∧ held cap n (p :: qs) = 0 := by
  induction ps generalizing n with
  | nil => cases h
  | cons p ps ih =>
    unfold giveUp at h
    split at h
    · next hp =>
      cases h
      exact ⟨p, [], rfl, by rw [held_cons, if_pos hp], by rw [held_cons, if_pos hp, held_nil]⟩
    · next hp =>
      obtain ⟨p', qs, rfl, h2, h3⟩ := ih h
      refine ⟨p, p' :: qs, rfl, ?_, ?_⟩
      · rw [held_cons, if_neg hp, h2]
      · rw [held_cons, if_neg hp, h3]

theorem held_append (cap n : Nat) (ps qs : List (Chunk α)) :
    held cap n (ps ++ qs) = held cap (held cap n ps) qs := List.foldl_append

end ChunkReader
