import Mathlib.Algebra.Order.BigOperators.Group.List
import Mathlib.Algebra.Order.Group.Multiset
import Mathlib.Algebra.Order.Group.Nat
import Mathlib.Tactic.Abel
import AnonyMail.Lib.Interleave

/-! # Conservation in a system of call trees

Calls bring things in, and take them out again into the world. What a process has brought in and not
yet taken out it holds, as its calls so far tell. `System.Reach.conserved`: in every run, what has
been brought in is, as a multiset, what is in the world and what the processes hold.
`System.Reach.distinct`: keys that are new when they are brought in are brought in once. -/

namespace Calls

variable {β γ : Type}

theorem perm_flatMap_set {f : β → List γ} {l : List β} {i : Nat} {x y : β} (h : l[i]? = some x) :
    ((l.set i y).flatMap f ++ f x).Perm (l.flatMap f ++ f y) := by
  induction l generalizing i with
  | nil => simp at h
  | cons z l ih =>
    cases i with
    | zero =>
      cases h
      simp only [List.set_cons_zero, List.flatMap_cons]
      rw [← Multiset.coe_eq_coe]
      simp only [← Multiset.coe_add]
      abel
    | succ i =>
      simp only [List.set_cons_succ, List.flatMap_cons, List.append_assoc]
      exact (ih h).append_left _

/-- Something that comes at most once, and only when something else has come. -/
theorem countP_le_of_preceded {l : List β} {P Q : β → Bool}
    (h : ∀ l₁ x l₂, l = l₁ ++ x :: l₂ → P x → l₁.any Q ∧ ¬l₁.any P) : l.countP P ≤ l.countP Q := by
  rcases Nat.eq_zero_or_pos (l.countP P) with h0 | hpos
  · rw [h0]
    exact Nat.zero_le _
  obtain ⟨x, hx, hP⟩ := List.countP_pos_iff.mp hpos
  obtain ⟨l₁, l₂, rfl⟩ := List.append_of_mem hx
  obtain ⟨hQ, hfirst⟩ := h l₁ x l₂ rfl hP
  have hone : (l₁ ++ x :: l₂).countP P = 1 := by
    have hbefore : l₁.countP P = 0 := List.countP_eq_zero.mpr fun y hy hPy =>
      hfirst (List.any_eq_true.mpr ⟨y, hy, hPy⟩)
    have hafter : l₂.countP P = 0 := by
      refine List.countP_eq_zero.mpr fun y hy hPy => ?_
      obtain ⟨l₃, l₄, rfl⟩ := List.append_of_mem hy
      have hlast := h (l₁ ++ x :: l₃) y l₄ (by simp) hPy
      exact hlast.2 (List.any_eq_true.mpr ⟨x, by simp, hP⟩)
    rw [List.countP_append, List.countP_cons_of_pos hP, hbefore, hafter]
  have hbegun : 0 < l₁.countP Q := List.countP_pos_iff.mpr (List.any_eq_true.mp hQ)
  rw [hone, List.countP_append]
  omega

namespace System

variable {σ τ ε χ η α : Type} {ρ : ε → Type} {S : System σ τ ε χ η ρ α}
  {ok : Conf σ τ ρ α → Move τ χ η → Prop} {w : σ} {c : Conf σ τ ρ α}
  {inflow : Entry σ τ ρ → List β}

theorem Reach.conserved (h : S.Reach ok (init w) c) (held : List (Event ρ) → List β)
    (out : σ → List β) (hnone : out w = []) (hnil : held [] = [])
    (hact : ∀ {c i t hist e k ch r w'}, S.Reach ok (init w) c →
      c.procs[i]? = some ⟨t, hist, .call e k⟩ → S.exec c.world e ch = some (r, w') →
      (out c.world ++ held hist ++ inflow ⟨i, t, c.world, e, r, w'⟩).Perm
        (out w' ++ held (hist ++ [⟨e, r⟩])))
    (henv : ∀ {v x v'}, S.env v x = some v' → out v' = out v) :
    (c.log.flatMap inflow).Perm (out c.world ++ c.procs.flatMap fun p => held p.hist) := by
  induction h with
  | refl => simp [init, hnone]
  | @tail c _ _ hc _ hs ih =>
    obtain ⟨t, -, rfl⟩ | ⟨i, ch, t, hist, e, k, r, w', -, hi, hx, rfl⟩ | ⟨x, w', -, hx, rfl⟩ :=
      step_cases hs
    · rw [List.flatMap_append, List.flatMap_singleton, hnil, List.append_nil]
      exact ih
    · have hset := perm_flatMap_set (f := fun p : Proc τ ρ α => held p.hist)
        (y := ⟨t, hist ++ [⟨e, r⟩], k r⟩) hi
      rw [List.flatMap_append, List.flatMap_singleton]
      have hstep := hact hc hi hx
      rw [← Multiset.coe_eq_coe] at ih hset hstep ⊢
      simp only [← Multiset.coe_add] at ih hset hstep ⊢
      refine add_right_cancel (b := (held hist : Multiset β)) ?_
      calc _ = ↑(out c.world) + ↑(held hist) + ↑(inflow ⟨i, t, c.world, e, r, w'⟩) +
            (↑(c.procs.flatMap fun p => held p.hist) : Multiset β) := by rw [ih]; abel
        _ = ↑(out w') + ((↑(c.procs.flatMap fun p => held p.hist) : Multiset β) +
            ↑(held (hist ++ [⟨e, r⟩]))) := by rw [hstep]; abel
        _ = _ := by rw [← hset, add_assoc]
    · rw [henv hx]
      exact ih

/-- What the log tells is what the processes have done, in some order. -/
theorem Reach.log_perm (h : S.Reach ok (init w) c) (out : τ → Event ρ → List β) :
    (c.log.flatMap fun x => out x.tag ⟨x.call, x.answer⟩).Perm
      (c.procs.flatMap fun p => p.hist.flatMap (out p.tag)) := by
  induction h with
  | refl => exact .refl _
  | @tail c _ _ _ _ hs ih =>
    obtain ⟨t, -, rfl⟩ | ⟨i, ch, t, hist, e, k, r, w', -, hi, -, rfl⟩ | ⟨x, w', -, -, rfl⟩ :=
      step_cases hs
    · rw [List.flatMap_append, List.flatMap_singleton, List.flatMap_nil, List.append_nil]
      exact ih
    · have hset := perm_flatMap_set (f := fun p : Proc τ ρ α => p.hist.flatMap (out p.tag))
        (y := ⟨t, hist ++ [⟨e, r⟩], k r⟩) hi
      rw [List.flatMap_append, List.flatMap_singleton] at hset ⊢
      rw [← Multiset.coe_eq_coe] at ih hset ⊢
      simp only [← Multiset.coe_add] at ih hset ⊢
      refine add_right_cancel (b := (hist.flatMap (out t) : Multiset β)) ?_
      rw [hset, ih]
      abel
    · exact ih

theorem Reach.countP_log (h : S.Reach ok (init w) c) (P : τ → Event ρ → Bool) :
    c.log.countP (fun x => P x.tag ⟨x.call, x.answer⟩) =
      (c.procs.map fun p => p.hist.countP (P p.tag)).sum := by
  have hperm := h.log_perm fun t ev => if P t ev then [()] else []
  have hcount {γ : Type} (l : List γ) (p : γ → Bool) :
      (l.flatMap fun a => if p a then [()] else []).length = l.countP p := by
    induction l with
    | nil => rfl
    | cons a l ih =>
      rw [List.flatMap_cons, List.length_append, ih, List.countP_cons, Nat.add_comm]
      split <;> rfl
  have hlength := hperm.length_eq
  rw [hcount, List.length_flatMap] at hlength
  simpa only [hcount] using hlength

/-- If no process has more calls of one kind than of another, no run has. -/
theorem Reach.countP_log_le (h : S.Reach ok (init w) c) {P Q : τ → Event ρ → Bool}
    (hle : ∀ p ∈ c.procs, p.hist.countP (P p.tag) ≤ p.hist.countP (Q p.tag)) :
    c.log.countP (fun x => P x.tag ⟨x.call, x.answer⟩) ≤
      c.log.countP fun x => Q x.tag ⟨x.call, x.answer⟩ := by
  rw [h.countP_log, h.countP_log]
  exact List.sum_le_sum hle

theorem Reach.distinct {κ : Type} {key : Entry σ τ ρ → List κ} (h : S.Reach ok (init w) c)
    (drawn : σ → List κ)
    (hact : ∀ {v e ch r v'} (i : Nat) (t : τ), S.exec v e ch = some (r, v') →
      (key ⟨i, t, v, e, r, v'⟩).Nodup ∧
      (∀ k ∈ key ⟨i, t, v, e, r, v'⟩, k ∉ drawn v ∧ k ∈ drawn v') ∧ drawn v ⊆ drawn v')
    (henv : ∀ {v x v'}, S.env v x = some v' → drawn v ⊆ drawn v') :
    (c.log.flatMap key).Nodup ∧ ∀ k ∈ c.log.flatMap key, k ∈ drawn c.world := by
  induction h with
  | refl => exact ⟨List.nodup_nil, nofun⟩
  | tail _ _ hs ih =>
    obtain ⟨hnodup, hdrawn⟩ := ih
    obtain ⟨t, -, rfl⟩ | ⟨i, ch, t, hist, e, k, r, w', -, -, hx, rfl⟩ | ⟨x, w', -, hx, rfl⟩ :=
      step_cases hs
    · exact ⟨hnodup, hdrawn⟩
    · obtain ⟨hkeys, hnew, hmono⟩ := hact i t hx
      rw [List.flatMap_append, List.flatMap_singleton]
      refine ⟨List.nodup_append'.mpr ⟨hnodup, hkeys, fun k hk hk' => ?_⟩, fun k hk => ?_⟩
      · exact (hnew k hk').1 (hdrawn k hk)
      · exact (List.mem_append.mp hk).elim (fun hk => hmono (hdrawn k hk)) fun hk => (hnew k hk).2
    · exact ⟨hnodup, fun k hk => henv hx (hdrawn k hk)⟩

end System
end Calls
