import Mathlib.Data.List.Forall2
import AnonyMail.Lib.Interleave

/-! # Simulation between systems of call trees

Two systems serve the same requests with programs that make the same calls; they differ in how a
call is answered. `Prog.Like N A R p q` says that `p` and `q` make the same calls, of the kind `N`,
for as long as the answers of the two sides are related by `A`, and that their results are then
related by `R`.

`Simulation` is the step condition on the worlds, relative to a relation `W`: a call that the
second system answers can be answered by the first. `Simulation.reach` lifts it to runs: what the
second system does in any interleaving, the first does in the same one. -/

namespace Calls

variable {ε : Type} {ρ : ε → Type} {α β γ δ : Type}

/-! ## Programs -/

namespace Prog

inductive Like (N : ε → Prop) (A : (e : ε) → ρ e → ρ e → Prop) (R : α → β → Prop) :
    Prog ε ρ α → Prog ε ρ β → Prop
  | ret {a : α} {b : β} : R a b → Like N A R (.ret a) (.ret b)
  | call {e : ε} {k : ρ e → Prog ε ρ α} {k' : ρ e → Prog ε ρ β} :
    N e → (∀ r r', A e r r' → Like N A R (k r) (k' r')) → Like N A R (.call e k) (.call e k')

variable {N : ε → Prop} {A : (e : ε) → ρ e → ρ e → Prop} {R : α → β → Prop}

theorem Like.bind {p : Prog ε ρ α} {q : Prog ε ρ β} {f : α → Prog ε ρ γ} {g : β → Prog ε ρ δ}
    {R' : γ → δ → Prop} (h : Like N A R p q) (hf : ∀ a b, R a b → Like N A R' (f a) (g b)) :
    Like N A R' (p >>= f) (q >>= g) := by
  induction h with
  | ret hR => exact hf _ _ hR
  | call he _ ih => exact .call he ih

theorem Like.mono {R' : α → β → Prop} {p : Prog ε ρ α} {q : Prog ε ρ β} (h : Like N A R p q)
    (hR : ∀ a b, R a b → R' a b) : Like N A R' p q := by
  induction h with
  | ret h => exact .ret (hR _ _ h)
  | call he _ ih => exact .call he ih

/-- A call to which both sides give the same answer. -/
theorem Like.call_exact {e : ε} {k : ρ e → Prog ε ρ α} {k' : ρ e → Prog ε ρ β} (he : N e)
    (hA : ∀ r r', A e r r' → r = r') (hk : ∀ r, Like N A R (k r) (k' r)) :
    Like N A R (.call e k) (.call e k') :=
  .call he fun r _ hr => hA r _ hr ▸ hk r

end Prog

/-! ## Configurations -/

section Lists

variable {R : α → β → Prop} {l : List α} {l' : List β} {i : Nat}

theorem exists_of_forall₂_getElem? {y : β} (h : List.Forall₂ R l l') (hy : l'[i]? = some y) :
    ∃ x, l[i]? = some x ∧ R x y := by
  induction h generalizing i with
  | nil => simp at hy
  | cons hxy _ ih =>
    cases i with
    | zero => exact ⟨_, rfl, Option.some.inj hy ▸ hxy⟩
    | succ i => exact ih hy

theorem forall₂_set {x : α} {y : β} (h : List.Forall₂ R l l') (hxy : R x y) :
    List.Forall₂ R (l.set i x) (l'.set i y) := by
  induction h generalizing i with
  | nil => exact .nil
  | cons h _ ih =>
    cases i with
    | zero => exact .cons hxy ‹_›
    | succ i => exact .cons h ih

theorem forall₂_concat {x : α} {y : β} (h : List.Forall₂ R l l') (hxy : R x y) :
    List.Forall₂ R (l ++ [x]) (l' ++ [y]) := List.rel_append h (.cons hxy .nil)

end Lists

variable {σ σ' τ χ χ' η : Type}

/-- The same call, with answers that are related. -/
inductive Event.Like (A : (e : ε) → ρ e → ρ e → Prop) : Event ρ → Event ρ → Prop
  | intro {e : ε} {r r' : ρ e} : A e r r' → Event.Like A ⟨e, r⟩ ⟨e, r'⟩

/-- Two processes that serve the same request have come equally far. -/
structure Proc.Like (N : ε → Prop) (A : (e : ε) → ρ e → ρ e → Prop) (Q : τ → α → β → Prop)
    (p : Proc τ ρ α) (p' : Proc τ ρ β) : Prop where
  tag : p.tag = p'.tag
  hist : List.Forall₂ (Event.Like A) p.hist p'.hist
  rest : Prog.Like N A (Q p.tag) p.rest p'.rest

structure Entry.Like (A : (e : ε) → ρ e → ρ e → Prop) (W : σ → σ' → Prop)
    (x : Entry σ τ ρ) (x' : Entry σ' τ ρ) : Prop where
  pid : x.pid = x'.pid
  tag : x.tag = x'.tag
  before : W x.before x'.before
  event : Event.Like A ⟨x.call, x.answer⟩ ⟨x'.call, x'.answer⟩
  after : W x.after x'.after

structure Conf.Like (N : ε → Prop) (A : (e : ε) → ρ e → ρ e → Prop) (Q : τ → α → β → Prop)
    (W : σ → σ' → Prop) (c : Conf σ τ ρ α) (c' : Conf σ' τ ρ β) : Prop where
  world : W c.world c'.world
  procs : List.Forall₂ (Proc.Like N A Q) c.procs c'.procs
  log : List.Forall₂ (Entry.Like A W) c.log c'.log

/-- The same move, up to what the world chooses. -/
inductive Move.Like : Move τ χ η → Move τ χ' η → Prop
  | spawn (t : τ) : Move.Like (.spawn t) (.spawn t)
  | act (i : Nat) (ch : χ) (ch' : χ') : Move.Like (.act i ch) (.act i ch')
  | env (x : η) : Move.Like (.env x) (.env x)

/-! ## Runs -/

/-- What the system `S'` answers, `S` can answer. -/
structure Simulation (S : System σ τ ε χ η ρ α) (S' : System σ' τ ε χ' η ρ β) (N : ε → Prop)
    (A : (e : ε) → ρ e → ρ e → Prop) (Q : τ → α → β → Prop) (W : σ → σ' → Prop) : Prop where
  prog (t : τ) : Prog.Like N A (Q t) (S.prog t) (S'.prog t)
  exec {w : σ} {w' w₁' : σ'} {e : ε} {ch' : χ'} {r' : ρ e} :
    W w w' → N e → S'.exec w' e ch' = some (r', w₁') →
      ∃ ch r w₁, S.exec w e ch = some (r, w₁) ∧ A e r r' ∧ W w₁ w₁'
  env {w : σ} {w' w₁' : σ'} {x : η} :
    W w w' → S'.env w' x = some w₁' → ∃ w₁, S.env w x = some w₁ ∧ W w₁ w₁'

namespace Simulation

variable {S : System σ τ ε χ η ρ α} {S' : System σ' τ ε χ' η ρ β} {N : ε → Prop}
  {A : (e : ε) → ρ e → ρ e → Prop} {Q : τ → α → β → Prop} {W : σ → σ' → Prop}
  {c : Conf σ τ ρ α} {c' c₁' : Conf σ' τ ρ β}

theorem step (H : Simulation S S' N A Q W) (h : c.Like N A Q W c') {m' : Move τ χ' η}
    (hs : S'.step c' m' = some c₁') :
    ∃ m c₁, Move.Like m m' ∧ S.step c m = some c₁ ∧ c₁.Like N A Q W c₁' := by
  obtain ⟨t, rfl, rfl⟩ | ⟨i, ch', t, hist, e, k, r', w', rfl, hi, hx, rfl⟩ | ⟨x, w', rfl, hx, rfl⟩ :=
    System.step_cases hs
  · exact ⟨.spawn t, _, .spawn t, rfl, h.world, forall₂_concat h.procs ⟨rfl, .nil, H.prog t⟩, h.log⟩
  · obtain ⟨⟨tag, hist', rest⟩, hp, rfl, hhist, hrest⟩ := exists_of_forall₂_getElem? h.procs hi
    cases hrest with
    | @call _ k₀ _ he hk =>
      obtain ⟨ch, r, w, hexec, hr, hw⟩ := H.exec h.world he hx
      have hstep : S.step c (.act i ch) = some ⟨w, c.procs.set i ⟨tag, hist' ++ [⟨e, r⟩], k₀ r⟩,
          c.log ++ [⟨i, tag, c.world, e, r, w⟩]⟩ := by
        simp only [System.step, hp, hexec, Option.map_some]
      refine ⟨.act i ch, _, .act i ch ch', hstep, hw, ?_, ?_⟩
      · exact forall₂_set h.procs ⟨rfl, forall₂_concat hhist ⟨hr⟩, hk r r' hr⟩
      · exact forall₂_concat h.log ⟨rfl, rfl, h.world, ⟨hr⟩, hw⟩
  · obtain ⟨w, henv, hw⟩ := H.env h.world hx
    refine ⟨.env x, { c with world := w }, .env x, ?_, hw, h.procs, h.log⟩
    rw [System.step, henv]
    rfl

/-- Every run of `S'` is, move by move, a run of `S`. -/
theorem reach (H : Simulation S S' N A Q W) {ok : Conf σ τ ρ α → Move τ χ η → Prop}
    {ok' : Conf σ' τ ρ β → Move τ χ' η → Prop} {w : σ} {w' : σ'} (hw : W w w')
    (hok : ∀ {c c' m m'}, c.Like N A Q W c' → Move.Like m m' → ok' c' m' → ok c m)
    (h : S'.Reach ok' (System.init w') c') :
    ∃ c, S.Reach ok (System.init w) c ∧ c.Like N A Q W c' := by
  induction h with
  | refl => exact ⟨_, .refl, hw, .nil, .nil⟩
  | tail _ hok' hs ih =>
    obtain ⟨c, hc, hlike⟩ := ih
    obtain ⟨m, c₁, hm, hstep, hlike₁⟩ := H.step hlike hs
    exact ⟨c₁, hc.tail (hok hlike hm hok') hstep, hlike₁⟩

end Simulation

end Calls
