import AnonyMail.Lib.Interleave

/-! # Calls carried out by programs

`Prog.implement impl p` is the program `p` with each call `e` carried out by the program `impl e`,
whose calls are of another kind. `Carries impl h h'` says that the calls `h'` carry out the calls
`h`, one after another. What is known of `p` and of each `impl e` is known of the whole:
`Obeys.implement`.

A system whose programs are those of another system with their calls carried out so refines it, if
each `impl e` takes effect with its last call: `Reach.implement`. -/

namespace Calls

namespace Prog

variable {ε ε' : Type} {ρ : ε → Type} {ρ' : ε' → Type} {α : Type}

/-- Carry out each call of a program. -/
def implement (impl : (e : ε) → Prog ε' ρ' (ρ e)) : Prog ε ρ α → Prog ε' ρ' α
  | .ret a => .ret a
  | .call e k => impl e >>= fun r => (k r).implement impl

/-- The calls `h'` carry out the calls `h`. -/
inductive Carries (impl : (e : ε) → Prog ε' ρ' (ρ e)) : List (Event ρ) → List (Event ρ') → Prop
  | nil : Carries impl [] []
  | concat {h : List (Event ρ)} {h' tr : List (Event ρ')} {e : ε} {r : ρ e} :
    Carries impl h h' → Runs (impl e) tr r → Carries impl (h ++ [⟨e, r⟩]) (h' ++ tr)

variable {impl : (e : ε) → Prog ε' ρ' (ρ e)}

/-- How the last call was carried out. -/
theorem Carries.last {h : List (Event ρ)} {h' : List (Event ρ')} {ev : Event ρ}
    (hc : Carries impl (h ++ [ev]) h') :
    ∃ h₀ tr, h' = h₀ ++ tr ∧ Carries impl h h₀ ∧ Runs (impl ev.1) tr ev.2 := by
  generalize hl : h ++ [ev] = l at hc
  cases hc with
  | nil => simp at hl
  | concat hc hr =>
    obtain ⟨rfl, hev⟩ := List.append_inj' hl rfl
    cases List.singleton_inj.mp hev
    exact ⟨_, _, rfl, hc, hr⟩

/-- The calls that a program makes are those of one of its runs. -/
theorem Obeys.runs {Φ : List (Event ρ) → ε → Prop} {Q : List (Event ρ) → α → Prop}
    {h : List (Event ρ)} {p : Prog ε ρ α} (H : Obeys Φ Q h p) :
    Obeys Φ (fun h' a => ∃ tr, h' = h ++ tr ∧ Runs p tr a) h p := by
  induction p generalizing h with
  | ret a => exact ⟨[], (List.append_nil h).symm, .ret⟩
  | call e k ih =>
    refine ⟨H.1, fun r => (ih r (H.2 r)).mono ?_⟩
    rintro _ a ⟨tr, rfl, hr⟩
    exact ⟨⟨e, r⟩ :: tr, by rw [List.append_assoc, List.singleton_append], .call hr⟩

theorem Obeys.implement {Φ : List (Event ρ) → ε → Prop} {Q : List (Event ρ) → α → Prop}
    {Φ' : List (Event ρ') → ε' → Prop} {Q' : List (Event ρ') → α → Prop} {h : List (Event ρ)}
    {h' : List (Event ρ')} {p : Prog ε ρ α} (H : Obeys Φ Q h p) (hc : Carries impl h h')
    (hcall : ∀ h h' e, Carries impl h h' → Φ h e → Obeys Φ' (fun _ _ => True) h' (impl e))
    (hret : ∀ h h' a, Carries impl h h' → Q h a → Q' h' a) :
    Obeys Φ' Q' h' (p.implement impl) := by
  induction p generalizing h h' with
  | ret a => exact hret h h' a hc H
  | call e k ih =>
    refine obeys_bind.mpr ((hcall h h' e hc H.1).runs.mono ?_)
    rintro _ r ⟨tr, rfl, hr⟩
    exact ih r (H.2 r) (hc.concat hr)

end Prog

/-! ## Refinement -/

namespace System

variable {σ σ' τ ε ε' χ χ' η η' : Type} {ρ : ε → Type} {ρ' : ε' → Type} {α : Type}
  (S : System σ τ ε χ η ρ α) (S' : System σ' τ ε' χ' η' ρ' α) (view : σ' → σ)

/-- The last call that the program makes is, on the states in view, the call `e` with the result of
the program for an answer; the calls before it are not seen. -/
def TakesEffect (e : ε) : Prog ε' ρ' (ρ e) → Prop
  | .ret _ => False
  | .call e' k => ∀ w ch r' w', S'.exec w e' ch = some (r', w') →
    (∃ r ch', k r' = .ret r ∧ S.exec (view w) e ch' = some (r, view w')) ∨
      (view w' = view w ∧ TakesEffect e (k r'))

/-- The program `p'` carries out what is left of `p`, and may be in the middle of its next call. -/
def Remains (impl : (e : ε) → Prog ε' ρ' (ρ e)) (p : Prog ε ρ α) (p' : Prog ε' ρ' α) : Prop :=
  match p with
  | .ret a => p' = .ret a
  | .call e k => ∃ q, TakesEffect S S' view e q ∧ p' = q >>= fun r => (k r).implement impl

/-- The process `q` serves the same request as `p` and is as far with it. -/
def Mirrors (impl : (e : ε) → Prog ε' ρ' (ρ e)) (p : Proc τ ρ α) (q : Proc τ ρ' α) : Prop :=
  p.tag = q.tag ∧ Remains S S' view impl p.rest q.rest

/-- The configurations agree on what is in view. -/
structure Refines (impl : (e : ε) → Prog ε' ρ' (ρ e)) (c : Conf σ τ ρ α) (c' : Conf σ' τ ρ' α) :
    Prop where
  world : c.world = view c'.world
  length : c.procs.length = c'.procs.length
  procs : ∀ (i : Nat) p q, c.procs[i]? = some p → c'.procs[i]? = some q → Mirrors S S' view impl p q

variable {S S' view} {impl : (e : ε) → Prog ε' ρ' (ρ e)} {c : Conf σ τ ρ α} {c' c'' : Conf σ' τ ρ' α}

theorem remains_implement (himpl : ∀ e, TakesEffect S S' view e (impl e)) (p : Prog ε ρ α) :
    Remains S S' view impl p (p.implement impl) := by
  cases p with
  | ret a => rfl
  | call e k => exact ⟨impl e, himpl e, rfl⟩

theorem Refines.spawn (H : Refines S S' view impl c c')
    (hprog : ∀ t, S'.prog t = (S.prog t).implement impl)
    (himpl : ∀ e, TakesEffect S S' view e (impl e)) (t : τ) :
    Refines S S' view impl { c with procs := c.procs ++ [⟨t, [], S.prog t⟩] }
      { c' with procs := c'.procs ++ [⟨t, [], S'.prog t⟩] } := by
  refine ⟨H.world, by simp [H.length], fun i p q hp hq => ?_⟩
  rw [List.getElem?_append] at hp hq
  rw [← H.length] at hq
  split at hp
  · next hlt =>
    rw [if_pos hlt] at hq
    exact H.procs i p q hp hq
  · next hlt =>
    rw [if_neg hlt] at hq
    cases List.mem_singleton.mp (List.mem_of_getElem? hp)
    cases List.mem_singleton.mp (List.mem_of_getElem? hq)
    exact ⟨rfl, (hprog t).symm ▸ remains_implement himpl _⟩

/-- A process on either side moves on, and the two are still as far. -/
theorem Refines.set (H : Refines S S' view impl c c') {i : Nat} {p : Proc τ ρ α} {q : Proc τ ρ' α}
    {w : σ'} {log : List (Entry σ τ ρ)} {log' : List (Entry σ' τ ρ')}
    (hpq : Mirrors S S' view impl p q) :
    Refines S S' view impl ⟨view w, c.procs.set i p, log⟩ ⟨w, c'.procs.set i q, log'⟩ := by
  refine ⟨rfl, by simp [H.length], fun j p' q' hp' hq' => ?_⟩
  obtain ⟨hij, rfl⟩ | ⟨hij, hp'⟩ := getElem?_act hp' <;>
    obtain ⟨hij', rfl⟩ | ⟨hij', hq'⟩ := getElem?_act hq'
  · exact hpq
  · exact absurd hij hij'
  · exact absurd hij' hij
  · exact H.procs j p' q' hp' hq'

/-- A call of the refined system is the call that it carries out, or is not seen. -/
theorem Refines.act (H : Refines S S' view impl c c')
    (himpl : ∀ e, TakesEffect S S' view e (impl e)) {i : Nat} {t : τ} {hist : List (Event ρ')}
    {e' : ε'} {k' : ρ' e' → Prog ε' ρ' α} {ch : χ'} {r' : ρ' e'} {w : σ'}
    (hi : c'.procs[i]? = some ⟨t, hist, .call e' k'⟩)
    (hx : S'.exec c'.world e' ch = some (r', w)) (log : List (Entry σ' τ ρ')) :
    ∃ c₁, S.Reach (fun _ _ => True) c c₁ ∧ Refines S S' view impl c₁
      ⟨w, c'.procs.set i ⟨t, hist ++ [⟨e', r'⟩], k' r'⟩, log⟩ := by
  have hlt : i < c.procs.length := H.length ▸ (List.getElem?_eq_some_iff.mp hi).1
  obtain ⟨⟨t, hist₀, rest⟩, hp⟩ : ∃ p, c.procs[i]? = some p := ⟨_, List.getElem?_eq_getElem hlt⟩
  obtain ⟨rfl, hrest⟩ := H.procs i _ _ hp hi
  cases rest with
  | ret a => cases hrest
  | call e k =>
    obtain ⟨q, hq, heq⟩ := hrest
    cases q with
    | ret r => exact hq.elim
    | call e'' k'' =>
      cases heq
      obtain ⟨r, ch', hret, hexec⟩ | ⟨hview, hq⟩ := hq _ _ _ _ hx
      · -- the last call of `impl e`
        have hstep : S.step c (.act i ch') = some ⟨view w, c.procs.set i ⟨t, hist₀ ++ [⟨e, r⟩], k r⟩,
            c.log ++ [⟨i, t, c.world, e, r, view w⟩]⟩ := by
          simp [step, hp, H.world, hexec]
        refine ⟨_, .tail .refl trivial hstep, H.set ⟨rfl, ?_⟩⟩
        show Remains S S' view impl (k r) ((k'' r').bind fun r => (k r).implement impl)
        rw [hret]
        exact remains_implement himpl (k r)
      · have hset : c.procs.set i ⟨t, hist₀, .call e k⟩ = c.procs := by
          rw [← (List.getElem?_eq_some_iff.mp hp).2, List.set_getElem_self]
        have hmirrors : Mirrors S S' view impl ⟨t, hist₀, .call e k⟩
            ⟨t, hist ++ [⟨e', r'⟩], (k'' r').bind fun r => (k r).implement impl⟩ :=
          ⟨rfl, k'' r', hq, rfl⟩
        have hrefines : Refines S S' view impl ⟨view w, c.procs.set i _, c.log⟩
            ⟨w, c'.procs.set i _, log⟩ := H.set hmirrors
        rw [hset, hview, ← H.world] at hrefines
        exact ⟨c, .refl, hrefines⟩

/-- Every run of the refined system is a run of the other one, as far as is in view. -/
theorem Reach.implement {ok : Conf σ' τ ρ' α → Move τ χ' η' → Prop} {w : σ'}
    (hprog : ∀ t, S'.prog t = (S.prog t).implement impl)
    (himpl : ∀ e, TakesEffect S S' view e (impl e))
    (henv : ∀ c w x w', S'.env w x = some w' → c.world = view w →
      S.Reach (fun _ _ => True) c { c with world := view w' })
    (h : S'.Reach ok (init w) c') :
    ∃ c, S.Reach (fun _ _ => True) (init (view w)) c ∧ Refines S S' view impl c c' := by
  induction h with
  | refl => exact ⟨init (view w), .refl, rfl, rfl, by simp [init]⟩
  | tail _ _ hs ih =>
    obtain ⟨c, hc, H⟩ := ih
    obtain ⟨t, -, rfl⟩ | ⟨i, ch, t, hist, e, k, r, w, -, hi, hx, rfl⟩ | ⟨x, w, -, hw, rfl⟩ :=
      step_cases hs
    · exact ⟨_, .tail hc trivial (m := .spawn t) rfl, H.spawn hprog himpl t⟩
    · obtain ⟨c₁, h₁, H₁⟩ := H.act himpl hi hx _
      exact ⟨c₁, hc.trans h₁, H₁⟩
    · exact ⟨_, hc.trans (henv c _ x w hw H.world), rfl, H.length, H.procs⟩

end System
end Calls
