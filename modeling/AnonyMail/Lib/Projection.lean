import AnonyMail.Lib.Interleave

/-! # Refinement mappings between systems of call trees

Two systems serve the same requests with the same programs. The world of the second holds more, and
`f` forgets it. `Projection` is the step condition on the worlds: what the second system answers, the
first can answer in the world that `f` shows, and the first sees the surroundings of the second change
as its own do or not at all. `Projection.reach` lifts it to runs. -/

namespace Calls

variable {σ σ' τ ε χ χ' η η' : Type} {ρ : ε → Type} {α : Type}

def Entry.map (f : σ' → σ) (x : Entry σ' τ ρ) : Entry σ τ ρ :=
  ⟨x.pid, x.tag, f x.before, x.call, x.answer, f x.after⟩

/-- The processes are those of `c`. -/
def Conf.map (f : σ' → σ) (c : Conf σ' τ ρ α) : Conf σ τ ρ α :=
  ⟨f c.world, c.procs, c.log.map (Entry.map f)⟩

/-- The same move, up to what the world chooses and how the surroundings change. -/
inductive Move.Shows : Move τ χ η → Move τ χ' η' → Prop
  | spawn (t : τ) : Move.Shows (.spawn t) (.spawn t)
  | act (i : Nat) (ch : χ) (ch' : χ') : Move.Shows (.act i ch) (.act i ch')
  | env (x : η) (x' : η') : Move.Shows (.env x) (.env x')

/-- What `S'` does, `S` does in the worlds that `f` shows. -/
structure Projection (S : System σ τ ε χ η ρ α) (S' : System σ' τ ε χ' η' ρ α) (f : σ' → σ) :
    Prop where
  prog (t : τ) : S'.prog t = S.prog t
  exec {w w₁ : σ'} {e : ε} {ch' : χ'} {r : ρ e} :
    S'.exec w e ch' = some (r, w₁) → ∃ ch, S.exec (f w) e ch = some (r, f w₁)
  env {w w₁ : σ'} {x' : η'} :
    S'.env w x' = some w₁ → f w₁ = f w ∨ ∃ x, S.env (f w) x = some (f w₁)

namespace Projection

variable {S : System σ τ ε χ η ρ α} {S' : System σ' τ ε χ' η' ρ α} {f : σ' → σ}
  {c c₁ : Conf σ' τ ρ α} {m' : Move τ χ' η'}

theorem step (H : Projection S S' f) (hs : S'.step c m' = some c₁) :
    c₁.map f = c.map f ∨ ∃ m, Move.Shows m m' ∧ S.step (c.map f) m = some (c₁.map f) := by
  obtain ⟨t, rfl, rfl⟩ | ⟨i, ch', t, hist, e, k, r, w, rfl, hi, hx, rfl⟩ | ⟨x', w, rfl, hx, rfl⟩ :=
    System.step_cases hs
  · exact .inr ⟨.spawn t, .spawn t, by rw [System.step, H.prog]; rfl⟩
  · obtain ⟨ch, hexec⟩ := H.exec hx
    refine .inr ⟨.act i ch, .act i ch ch', ?_⟩
    simp only [System.step, Conf.map, hi, hexec, Option.map_some, List.map_append]
    rfl
  · obtain hsame | ⟨x, henv⟩ := H.env hx
    · exact .inl (congrArg (fun w => (⟨w, c.procs, c.log.map (Entry.map f)⟩ : Conf σ τ ρ α)) hsame)
    · refine .inr ⟨.env x, .env x x', ?_⟩
      have hworld : S.env (c.map f).world x = some (f w) := henv
      rw [System.step, hworld]
      rfl

/-- The mapping takes the runs of `S'` to runs of `S`. -/
theorem reach (H : Projection S S' f) {ok : Conf σ τ ρ α → Move τ χ η → Prop}
    {ok' : Conf σ' τ ρ α → Move τ χ' η' → Prop} {w : σ'}
    (hok : ∀ {c m m'}, Move.Shows m m' → ok' c m' → ok (c.map f) m)
    (h : S'.Reach ok' (System.init w) c) : S.Reach ok (System.init (f w)) (c.map f) := by
  induction h with
  | refl => exact .refl
  | tail _ hallowed hs ih =>
    obtain heq | ⟨m, hm, hstep⟩ := H.step hs
    · rwa [heq]
    · exact ih.tail (hok hm hallowed) hstep

end Projection

end Calls
