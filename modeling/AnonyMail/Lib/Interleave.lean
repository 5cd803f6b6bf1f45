import Mathlib.Data.List.Induction
import AnonyMail.Lib.Prog

/-! # Interleavings of call trees

Many programs run in turn on one shared state, one call at a time. A schedule is a list of moves:
start a program, let one of the started programs make its next call, or let the surroundings
change the state (a clock that moves on). The next configuration is computed, so that a run is
the fold of `System.step` over a schedule and a concrete interleaving can be evaluated.

Each process keeps the calls it has made with their answers (`Proc.hist`), and the configuration
keeps every call in the order in which it took effect, with the state before and after it
(`Conf.log`). Neither is read by the programs.

`System.Reach ok` are the configurations reached by runs each of whose moves meets `ok`, a
condition on the move and the configuration before it. The rules:

* `Reach.invariant`: what holds at the start and is kept by every allowed move holds throughout;
* `Reach.obeys`: what `Prog.Obeys` says of each program started holds of each call of the run. -/

namespace Calls

/-- The calls `exec` answers and the changes `env` the surroundings can make. -/
structure System (σ τ ε χ η : Type) (ρ : ε → Type) (α : Type) where
  /-- The program that serves the request `t`. -/
  prog : τ → Prog ε ρ α
  exec : σ → (e : ε) → χ → Option (ρ e × σ)
  env : σ → η → Option σ

structure Proc (τ : Type) {ε : Type} (ρ : ε → Type) (α : Type) where
  tag : τ
  hist : List (Event ρ)
  rest : Prog ε ρ α

/-- A call that took effect. -/
structure Entry (σ τ : Type) {ε : Type} (ρ : ε → Type) where
  pid : Nat
  tag : τ
  before : σ
  call : ε
  answer : ρ call
  after : σ

structure Conf (σ τ : Type) {ε : Type} (ρ : ε → Type) (α : Type) where
  world : σ
  procs : List (Proc τ ρ α)
  log : List (Entry σ τ ρ)

inductive Move (τ χ η : Type)
  | spawn (t : τ)
  | act (pid : Nat) (c : χ)
  | env (x : η)

/-- The last element of a list is the one singled out, or comes after it. -/
theorem concat_eq_split {β : Type} {l l₁ l₂ : List β} {x y : β} (h : l ++ [x] = l₁ ++ y :: l₂) :
    (l = l₁ ∧ x = y) ∨ ∃ l₂', l = l₁ ++ y :: l₂' ∧ l₂ = l₂' ++ [x] := by
  rcases List.eq_nil_or_concat' l₂ with rfl | ⟨l₂', z, rfl⟩
  · obtain ⟨h1, h2⟩ := List.append_inj' h rfl
    exact .inl ⟨h1, List.singleton_inj.mp h2⟩
  · rw [← List.cons_append, ← List.append_assoc] at h
    obtain ⟨h1, h2⟩ := List.append_inj' h rfl
    exact .inr ⟨l₂', h1, by rw [h2]⟩

/-- Behind the last entry that `start` accepts, `p` accepts one. -/
def since {β : Type} (start p : β → Bool) (log : List β) : Bool :=
  (log.reverse.takeWhile (!start ·)).any p

theorem since_concat {β : Type} {start p : β → Bool} {log : List β} {x : β} :
    since start p (log ++ [x]) = (!start x && (p x || since start p log)) := by
  rw [since, List.reverse_append, List.reverse_singleton, List.singleton_append, List.takeWhile_cons]
  cases start x <;> rfl

namespace System

variable {σ τ ε χ η : Type} {ρ : ε → Type} {α : Type} (S : System σ τ ε χ η ρ α)

/-- Nothing has been started yet. -/
def init (w : σ) : Conf σ τ ρ α := ⟨w, [], []⟩

def step (c : Conf σ τ ρ α) : Move τ χ η → Option (Conf σ τ ρ α)
  | .spawn t => some { c with procs := c.procs ++ [⟨t, [], S.prog t⟩] }
  | .act i ch =>
    match c.procs[i]? with
    | some ⟨t, h, .call e k⟩ =>
      (S.exec c.world e ch).map fun (r, w) =>
        ⟨w, c.procs.set i ⟨t, h ++ [⟨e, r⟩], k r⟩, c.log ++ [⟨i, t, c.world, e, r, w⟩]⟩
    | _ => none
  | .env x => (S.env c.world x).map fun w => { c with world := w }

/-- Make the moves of a schedule, as long as they meet `ok`. -/
def run (ok : Conf σ τ ρ α → Move τ χ η → Prop) [∀ c m, Decidable (ok c m)] (c : Conf σ τ ρ α) :
    List (Move τ χ η) → Option (Conf σ τ ρ α)
  | [] => some c
  | m :: ms => if ok c m then (S.step c m).bind fun c' => run ok c' ms else none

variable {S}

/-- All a move can do. -/
theorem step_cases {c c' : Conf σ τ ρ α} {m : Move τ χ η} (h : S.step c m = some c') :
    (∃ t, m = .spawn t ∧ c' = { c with procs := c.procs ++ [⟨t, [], S.prog t⟩] }) ∨
    (∃ i ch t hist e k r w, m = .act i ch ∧ c.procs[i]? = some ⟨t, hist, .call e k⟩ ∧
      S.exec c.world e ch = some (r, w) ∧
      c' = ⟨w, c.procs.set i ⟨t, hist ++ [⟨e, r⟩], k r⟩, c.log ++ [⟨i, t, c.world, e, r, w⟩]⟩) ∨
    (∃ x w, m = .env x ∧ S.env c.world x = some w ∧ c' = { c with world := w }) := by
  cases m with
  | spawn t => exact .inl ⟨t, rfl, by simpa [step] using h.symm⟩
  | act i ch =>
    refine .inr (.inl ?_)
    simp only [step] at h
    split at h
    · next t hist e k hi =>
      simp only [Option.map_eq_some_iff, Prod.exists] at h
      obtain ⟨r, w, hx, rfl⟩ := h
      exact ⟨i, ch, t, hist, e, k, r, w, rfl, hi, hx, rfl⟩
    · cases h
  | env x =>
    simp only [step, Option.map_eq_some_iff] at h
    obtain ⟨w, hw, rfl⟩ := h
    exact .inr (.inr ⟨x, w, rfl, hw, rfl⟩)

variable (S) in
/-- The configurations reached from `c₀` by moves that meet `ok`. -/
inductive Reach (ok : Conf σ τ ρ α → Move τ χ η → Prop) (c₀ : Conf σ τ ρ α) :
    Conf σ τ ρ α → Prop
  | refl : Reach ok c₀ c₀
  | tail {c c' : Conf σ τ ρ α} {m : Move τ χ η} :
    Reach ok c₀ c → ok c m → S.step c m = some c' → Reach ok c₀ c'

namespace Reach

variable {ok : Conf σ τ ρ α → Move τ χ η → Prop} {c₀ c c' : Conf σ τ ρ α}

theorem trans {c₁ : Conf σ τ ρ α} (h : S.Reach ok c₀ c₁) (h' : S.Reach ok c₁ c) :
    S.Reach ok c₀ c := by
  induction h' with
  | refl => exact h
  | tail _ hok hs ih => exact .tail ih hok hs

theorem of_run [∀ c m, Decidable (ok c m)] {ms : List (Move τ χ η)}
    (h : S.run ok c₀ ms = some c) : S.Reach ok c₀ c := by
  induction ms generalizing c₀ with
  | nil => cases h; exact .refl
  | cons m ms ih =>
    obtain ⟨hok, h⟩ := Option.ite_none_right_eq_some.mp h
    obtain ⟨c₁, h1, h2⟩ := Option.bind_eq_some_iff.mp h
    exact (Reach.tail .refl hok h1).trans (ih h2)

/-- A run that is evaluated reaches a configuration with the properties that it shows. -/
theorem exists_of_run [∀ c m, Decidable (ok c m)] {ms : List (Move τ χ η)}
    {P : Conf σ τ ρ α → Bool} (h : (S.run ok c₀ ms).any P) : ∃ c, S.Reach ok c₀ c ∧ P c := by
  obtain ⟨c, hc, hP⟩ := (Option.any_eq_true ..).mp h
  exact ⟨c, of_run hc, hP⟩

theorem invariant {I : Conf σ τ ρ α → Prop} (h : S.Reach ok c₀ c) (h₀ : I c₀)
    (hstep : ∀ {c c' m}, S.Reach ok c₀ c → I c → ok c m → S.step c m = some c' → I c') : I c := by
  induction h with
  | refl => exact h₀
  | tail hc hok hs ih => exact hstep hc ih hok hs

/-- The move with which a call took effect, and the runs before and after it. -/
theorem split_log {w : σ} {l₁ l₂ : List (Entry σ τ ρ)} {e : Entry σ τ ρ}
    (h : S.Reach ok (init w) c) (he : c.log = l₁ ++ e :: l₂) :
    ∃ c₁ c₂ ch hist k, S.Reach ok (init w) c₁ ∧ c₁.log = l₁ ∧ c₁.world = e.before ∧
      c₁.procs[e.pid]? = some ⟨e.tag, hist, .call e.call k⟩ ∧ ok c₁ (.act e.pid ch) ∧
      S.step c₁ (.act e.pid ch) = some c₂ ∧
      S.exec e.before e.call ch = some (e.answer, e.after) ∧ c₂.world = e.after ∧
      S.Reach ok c₂ c := by
  induction h generalizing l₂ with
  | refl => simp [init] at he
  | @tail c₁ c₂ m hc hok hs ih =>
    -- either the entry is in the log before the move, or the move has added it
    have hcase : (∃ l₂', c₁.log = l₁ ++ e :: l₂') ∨ (c₁.log = l₁ ∧ c₂.log = c₁.log ++ [e]) := by
      obtain ⟨t, -, rfl⟩ | ⟨i, ch, t, hist, e', k, r, w, -, -, -, rfl⟩ | ⟨x, w, -, -, rfl⟩ :=
        step_cases hs
      · exact .inl ⟨l₂, he⟩
      · obtain ⟨hl, rfl⟩ | ⟨l₂', hl, -⟩ := concat_eq_split he
        · exact .inr ⟨hl, rfl⟩
        · exact .inl ⟨l₂', hl⟩
      · exact .inl ⟨l₂, he⟩
    rcases hcase with ⟨l₂', he'⟩ | ⟨hl, he'⟩
    · obtain ⟨d₁, d₂, ch, hist, k, h1, h2, h3, h4, h5, h6, h7, h8, h9⟩ := ih he'
      exact ⟨d₁, d₂, ch, hist, k, h1, h2, h3, h4, h5, h6, h7, h8, h9.tail hok hs⟩
    · obtain ⟨t, -, rfl⟩ | ⟨i, ch, t, hist, e', k, r, w, rfl, hi, hx, rfl⟩ | ⟨x, w, -, -, rfl⟩ :=
        step_cases hs
      · simp at he'
      · cases List.singleton_inj.mp (List.append_cancel_left he')
        exact ⟨c₁, _, ch, hist, k, hc, hl, rfl, hi, hok, hs, hx, rfl, .refl⟩
      · simp at he'

end Reach

/-! ## Processes -/

/-- What a process has done and will do is allowed by the protocol `Φ` of its request. -/
def Lawful (Φ : τ → List (Event ρ) → ε → Prop) (p : Proc τ ρ α) : Prop :=
  Prog.Obeys (Φ p.tag) (fun _ _ => True) p.hist p.rest

variable {Φ : τ → List (Event ρ) → ε → Prop} {c c' : Conf σ τ ρ α} {m : Move τ χ η}

theorem mem_spawn {p : Proc τ ρ α} {t : τ}
    (h : p ∈ c.procs ++ [⟨t, [], S.prog t⟩]) : p ∈ c.procs ∨ p = ⟨t, [], S.prog t⟩ := by
  simpa using h

theorem mem_act {p q : Proc τ ρ α} {i : Nat} (h : p ∈ c.procs.set i q) :
    p ∈ c.procs ∨ p = q := List.mem_or_eq_of_mem_set h

theorem getElem?_act {p q : Proc τ ρ α} {i j : Nat} (h : (c.procs.set i q)[j]? = some p) :
    (j = i ∧ p = q) ∨ (j ≠ i ∧ c.procs[j]? = some p) := by
  by_cases hij : i = j
  · subst hij
    rw [List.getElem?_set_self'] at h
    obtain ⟨_, -, hp⟩ := Option.map_eq_some_iff.mp h
    exact .inl ⟨rfl, hp.symm⟩
  · rw [List.getElem?_set_ne hij] at h
    exact .inr ⟨Ne.symm hij, h⟩

theorem getElem?_spawn {p q : Proc τ ρ α} {j : Nat} (h : (c.procs ++ [q])[j]? = some p) :
    c.procs[j]? = some p ∨ p = q := by
  rw [List.getElem?_append] at h
  split at h
  · exact .inl h
  · exact .inr (List.mem_singleton.mp (List.mem_of_getElem? h))

/-- A process is never lost, and what it has done stays done. -/
theorem proc_step {p : Proc τ ρ α} (hs : S.step c m = some c') (hp : p ∈ c.procs) :
    ∃ p' ∈ c'.procs, p'.tag = p.tag ∧ p.hist <+: p'.hist := by
  obtain ⟨t, -, rfl⟩ | ⟨i, ch, t, hist, e, k, r, w, -, hi, -, rfl⟩ | ⟨x, w, -, -, rfl⟩ :=
    step_cases hs
  · exact ⟨p, List.mem_append_left _ hp, rfl, List.prefix_refl _⟩
  · obtain ⟨j, hj⟩ := List.getElem?_of_mem hp
    by_cases hij : i = j
    · subst hij
      cases hi.symm.trans hj
      exact ⟨_, List.mem_set (List.getElem?_eq_some_iff.mp hi).1 _, rfl, List.prefix_append ..⟩
    · refine ⟨p, List.mem_of_getElem? (i := j) ?_, rfl, List.prefix_refl _⟩
      rw [List.getElem?_set_ne hij, hj]
  · exact ⟨p, hp, rfl, List.prefix_refl _⟩

section
variable {Q : τ → List (Event ρ) → α → Prop}

theorem obeys_step (hprog : ∀ t, Prog.Obeys (Φ t) (Q t) [] (S.prog t))
    (hc : ∀ p ∈ c.procs, Prog.Obeys (Φ p.tag) (Q p.tag) p.hist p.rest)
    (hs : S.step c m = some c') :
    ∀ p ∈ c'.procs, Prog.Obeys (Φ p.tag) (Q p.tag) p.hist p.rest := by
  intro p hp
  obtain ⟨t, -, rfl⟩ | ⟨i, ch, t, hist, e, k, r, w, -, hi, -, rfl⟩ | ⟨x, w, -, -, rfl⟩ :=
    step_cases hs
  · rcases mem_spawn hp with hp | rfl
    · exact hc p hp
    · exact hprog t
  · rcases mem_act hp with hp | rfl
    · exact hc p hp
    · exact (hc _ (List.mem_of_getElem? hi)).2 r
  · exact hc p hp

/-- What `Prog.Obeys` says of the programs holds of the processes of a run. -/
theorem Reach.obeys {ok : Conf σ τ ρ α → Move τ χ η → Prop} {w : σ}
    (hprog : ∀ t, Prog.Obeys (Φ t) (Q t) [] (S.prog t)) (h : S.Reach ok (init w) c) :
    ∀ p ∈ c.procs, Prog.Obeys (Φ p.tag) (Q p.tag) p.hist p.rest :=
  h.invariant (by simp [init]) fun _ hc _ hs => obeys_step hprog hc hs

end

/-- What is left of a process is what its program leaves after the calls it has made. -/
theorem Reach.leaves {ok : Conf σ τ ρ α → Move τ χ η → Prop} {w : σ} (h : S.Reach ok (init w) c) :
    ∀ p ∈ c.procs, Prog.Leaves (S.prog p.tag) p.hist p.rest := by
  induction h with
  | refl => simp [init]
  | tail _ _ hs ih =>
    intro p hp
    obtain ⟨t, -, rfl⟩ | ⟨i, ch, t, hist, e, k, r, w, -, hi, -, rfl⟩ | ⟨x, w, -, -, rfl⟩ :=
      step_cases hs
    · rcases mem_spawn hp with hp | rfl
      · exact ih p hp
      · exact .nil
    · rcases mem_act hp with hp | rfl
      · exact ih p hp
      · exact (ih _ (List.mem_of_getElem? hi)).concat r
    · exact ih p hp

/-- What holds of each request that is started holds of the requests of the processes. -/
theorem Reach.tags {ok : Conf σ τ ρ α → Move τ χ η → Prop} {w : σ} {P : τ → Prop}
    (hspawn : ∀ c t, ok c (.spawn t) → P t) (h : S.Reach ok (init w) c) :
    ∀ p ∈ c.procs, P p.tag := by
  induction h with
  | refl => simp [init]
  | tail _ hok hs ih =>
    intro p hp
    obtain ⟨t, rfl, rfl⟩ | ⟨i, ch, t, hist, e, k, r, w, -, hi, -, rfl⟩ | ⟨x, w, -, -, rfl⟩ :=
      step_cases hs
    · rcases mem_spawn hp with hp | rfl
      · exact ih p hp
      · exact hspawn _ t hok
    · rcases mem_act hp with hp | rfl
      · exact ih p hp
      · exact ih ⟨t, hist, .call e k⟩ (List.mem_of_getElem? hi)
    · exact ih p hp

theorem Reach.mono {ok ok' : Conf σ τ ρ α → Move τ χ η → Prop} {c₀ : Conf σ τ ρ α}
    (h : S.Reach ok c₀ c) (himp : ∀ c m, ok c m → ok' c m) : S.Reach ok' c₀ c := by
  induction h with
  | refl => exact .refl
  | tail _ hok hs ih => exact .tail ih (himp _ _ hok) hs

theorem step_length_le (hs : S.step c m = some c') : c.procs.length ≤ c'.procs.length := by
  obtain ⟨t, -, rfl⟩ | ⟨i, ch, t, hist, e, k, r, w, -, -, -, rfl⟩ | ⟨x, w, -, -, rfl⟩ :=
    step_cases hs <;> simp

theorem Reach.length_le {ok : Conf σ τ ρ α → Move τ χ η → Prop} {c₀ : Conf σ τ ρ α}
    (h : S.Reach ok c₀ c) : c₀.procs.length ≤ c.procs.length := by
  induction h with
  | refl => exact Nat.le_refl _
  | tail _ _ hs ih => exact Nat.le_trans ih (step_length_le hs)

/-- If programs are started only when all others are over, at most one is not over. -/
theorem Reach.alone {ok : Conf σ τ ρ α → Move τ χ η → Prop} {w : σ}
    (isOver : Proc τ ρ α → Bool)
    (hact : ∀ w e ch r w' t hist k, S.exec w e ch = some (r, w') → ¬isOver ⟨t, hist, .call e k⟩)
    (hspawn : ∀ c t, ok c (.spawn t) → ∀ p ∈ c.procs, isOver p) (h : S.Reach ok (init w) c) :
    ∀ (i j : Nat) p q, c.procs[i]? = some p → c.procs[j]? = some q → ¬isOver p → ¬isOver q →
      i = j := by
  induction h with
  | refl => simp [init]
  | @tail c₁ _ _ _ hok hs ih =>
    intro i j p q hi hj hp hq
    obtain ⟨t, rfl, rfl⟩ | ⟨l, ch, t, hist, e, k, r, w, -, hl, hx, rfl⟩ | ⟨x, w, -, -, rfl⟩ :=
      step_cases hs
    · have hlast : ∀ (i : Nat) p, (c₁.procs ++ [⟨t, [], S.prog t⟩])[i]? = some p → ¬isOver p →
          i = c₁.procs.length := by
        intro i p hi hp
        rw [List.getElem?_append] at hi
        split at hi
        · exact absurd (hspawn _ t hok p (List.mem_of_getElem? hi)) hp
        · have hlt := (List.getElem?_eq_some_iff.mp hi).1
          rw [List.length_singleton] at hlt
          omega
      rw [hlast i p hi hp, hlast j q hj hq]
    · have hl' := hact _ e ch r w t hist k hx
      obtain ⟨rfl, -⟩ | ⟨-, hi'⟩ := getElem?_act hi <;>
        obtain ⟨rfl, -⟩ | ⟨-, hj'⟩ := getElem?_act hj
      · rfl
      · exact ih i j _ q hl hj' hl' hq
      · exact ih i j p _ hi' hl hp hl'
      · exact ih i j p q hi' hj' hp hq
    · exact ih i j p q hi hj hp hq

/-- Every process of a run keeps to the protocol of its request. -/
theorem Reach.lawful {ok : Conf σ τ ρ α → Move τ χ η → Prop} {w : σ}
    (hprog : ∀ t, Prog.Obeys (Φ t) (fun _ _ => True) [] (S.prog t))
    (h : S.Reach ok (init w) c) : ∀ p ∈ c.procs, Lawful Φ p := h.obeys hprog

/-- Each call that a process has made was allowed by the protocol of its request. -/
theorem Reach.kept {ok : Conf σ τ ρ α → Move τ χ η → Prop} {w : σ}
    (hprog : ∀ t, Prog.Obeys (Φ t) (fun _ _ => True) [] (S.prog t)) (h : S.Reach ok (init w) c) :
    ∀ p ∈ c.procs, ∀ h₁ e r h₂, p.hist = h₁ ++ ⟨e, r⟩ :: h₂ → Φ p.tag h₁ e := by
  induction h with
  | refl => simp [init]
  | tail hc _ hs ih =>
    intro p hp h₁ e r h₂ heq
    obtain ⟨t, -, rfl⟩ | ⟨i, ch, t, hist, e', k, r', w, -, hi, -, rfl⟩ | ⟨x, w, -, -, rfl⟩ :=
      step_cases hs
    · rcases mem_spawn hp with hp | rfl
      · exact ih p hp h₁ e r h₂ heq
      · simp at heq
    · rcases mem_act hp with hp | rfl
      · exact ih p hp h₁ e r h₂ heq
      · have hmem := List.mem_of_getElem? hi
        obtain ⟨rfl, h2⟩ | ⟨h₂', hl, -⟩ := concat_eq_split heq
        · cases h2
          exact (hc.lawful hprog _ hmem).1
        · exact ih _ hmem h₁ e r h₂' hl
    · exact ih p hp h₁ e r h₂ heq

/-- The calls of the log are those that the processes have made. -/
theorem Reach.mem_hist_of_log {ok : Conf σ τ ρ α → Move τ χ η → Prop} {w : σ}
    (h : S.Reach ok (init w) c) :
    ∀ e ∈ c.log, ∃ p, c.procs[e.pid]? = some p ∧ p.tag = e.tag ∧ ⟨e.call, e.answer⟩ ∈ p.hist := by
  induction h with
  | refl => simp [init]
  | tail _ _ hs ih =>
    intro e he
    obtain ⟨t, -, rfl⟩ | ⟨i, ch, t, hist, e', k, r, w, -, hi, -, rfl⟩ | ⟨x, w, -, -, rfl⟩ :=
      step_cases hs
    · obtain ⟨p, hp, h⟩ := ih e he
      exact ⟨p, by rw [List.getElem?_append_left (List.getElem?_eq_some_iff.mp hp).1, hp], h⟩
    · have hlt := (List.getElem?_eq_some_iff.mp hi).1
      rcases List.mem_append.mp he with he | he
      · obtain ⟨p, hp, htag, hmem⟩ := ih e he
        by_cases hij : i = e.pid
        · subst hij
          cases hi.symm.trans hp
          exact ⟨_, List.getElem?_set_self hlt, htag, List.mem_append_left _ hmem⟩
        · exact ⟨p, by rw [List.getElem?_set_ne hij, hp], htag, hmem⟩
      · cases List.mem_singleton.mp he
        exact ⟨_, List.getElem?_set_self hlt, rfl, by simp⟩
    · exact ih e he

/-- The calls that the processes have made are in the log. -/
theorem Reach.mem_log_of_hist {ok : Conf σ τ ρ α → Move τ χ η → Prop} {w : σ} {i : Nat}
    {p : Proc τ ρ α} {ev : Event ρ} (h : S.Reach ok (init w) c) (hp : c.procs[i]? = some p)
    (hev : ev ∈ p.hist) :
    ∃ e ∈ c.log, e.pid = i ∧ e.tag = p.tag ∧ (⟨e.call, e.answer⟩ : Event ρ) = ev := by
  induction h generalizing p with
  | refl => simp [init] at hp
  | tail _ _ hs ih =>
    obtain ⟨t, -, rfl⟩ | ⟨j, ch, t, hist, e', k, r, w, -, hj, -, rfl⟩ | ⟨x, w, -, -, rfl⟩ :=
      step_cases hs
    · rcases getElem?_spawn hp with hp | rfl
      · exact ih hp hev
      · cases hev
    · obtain ⟨rfl, rfl⟩ | ⟨-, hp'⟩ := getElem?_act hp
      · rcases List.mem_append.mp hev with hev | hev
        · obtain ⟨e, he, h⟩ := ih hj hev
          exact ⟨e, List.mem_append_left _ he, h⟩
        · exact ⟨_, List.mem_append_right _ (List.mem_singleton_self _), rfl, rfl,
            (List.mem_singleton.mp hev).symm⟩
      · obtain ⟨e, he, h⟩ := ih hp' hev
        exact ⟨e, List.mem_append_left _ he, h⟩
    · exact ih hp hev

/-- The move with which a process got an answer, and the runs before and after it. -/
theorem Reach.move_of_hist {ok : Conf σ τ ρ α → Move τ χ η → Prop} {w : σ} {i : Nat}
    {p : Proc τ ρ α} {e : ε} {r : ρ e} (h : S.Reach ok (init w) c) (hp : c.procs[i]? = some p)
    (hev : ⟨e, r⟩ ∈ p.hist) :
    ∃ c₁ c₂ ch hist k, S.Reach ok (init w) c₁ ∧ ok c₁ (.act i ch) ∧
      c₁.procs[i]? = some ⟨p.tag, hist, .call e k⟩ ∧
      S.exec c₁.world e ch = some (r, c₂.world) ∧ S.Reach ok c₂ c := by
  obtain ⟨⟨pid, tag, before, call, answer, after⟩, he, rfl, rfl, hev⟩ := h.mem_log_of_hist hp hev
  cases hev
  obtain ⟨l₁, l₂, hlog⟩ := List.append_of_mem he
  obtain ⟨c₁, c₂, ch, hist, k, h₁, -, hw, hi, hok, -, hx, hw₂, h₂⟩ := h.split_log hlog
  exact ⟨c₁, c₂, ch, hist, k, h₁, hok, hi, by rw [hw, hw₂]; exact hx, h₂⟩

/-- The calls of the process `i`, in the order in which they took effect. -/
def callsOf (i : Nat) (log : List (Entry σ τ ρ)) : List (Event ρ) :=
  (log.filter (·.pid = i)).map fun e => ⟨e.call, e.answer⟩

theorem callsOf_append (i : Nat) (l l' : List (Entry σ τ ρ)) :
    callsOf i (l ++ l') = callsOf i l ++ callsOf i l' := by
  simp [callsOf]

/-- What a process has done is what the log has of it. -/
theorem Reach.hist_eq {ok : Conf σ τ ρ α → Move τ χ η → Prop} {w : σ} (h : S.Reach ok (init w) c)
    (i : Nat) : (c.procs[i]?).elim [] (·.hist) = callsOf i c.log := by
  induction h with
  | refl => simp [init, callsOf]
  | @tail c₁ _ _ _ _ hs ih =>
    obtain ⟨t, -, rfl⟩ | ⟨j, ch, t, hist, e, k, r, w, -, hj, -, rfl⟩ | ⟨x, w, -, -, rfl⟩ :=
      step_cases hs
    · rw [← ih, List.getElem?_append]
      split
      · rfl
      · next hlt =>
        rw [List.getElem?_eq_none (l := c₁.procs) (Nat.le_of_not_lt hlt)]
        cases i - c₁.procs.length <;> rfl
    · rw [callsOf_append, ← ih]
      by_cases hij : j = i
      · subst hij
        rw [List.getElem?_set_self (List.getElem?_eq_some_iff.mp hj).1, hj]
        simp [callsOf]
      · rw [List.getElem?_set_ne hij]
        simp [callsOf, hij]
    · exact ih

/-- The entry of one of the calls of a process. -/
theorem split_callsOf {i : Nat} {log : List (Entry σ τ ρ)} {h₁ h₂ : List (Event ρ)} {ev : Event ρ}
    (h : callsOf i log = h₁ ++ ev :: h₂) : ∃ l₁ e l₂, log = l₁ ++ e :: l₂ ∧ e.pid = i ∧
      (⟨e.call, e.answer⟩ : Event ρ) = ev ∧ callsOf i l₁ = h₁ ∧ callsOf i l₂ = h₂ := by
  obtain ⟨_, _, hfilter, rfl, hlast⟩ := List.map_eq_append_iff.mp h
  obtain ⟨e, es, rfl, hev, rfl⟩ := List.map_eq_cons_iff.mp hlast
  obtain ⟨l, l', rfl, rfl, hrest⟩ := List.filter_eq_append_iff.mp hfilter
  obtain ⟨l₁, l₂, rfl, hnot, hpid, rfl⟩ := List.filter_eq_cons_iff.mp hrest
  refine ⟨l ++ l₁, e, l₂, (List.append_assoc ..).symm, of_decide_eq_true hpid, hev, ?_, rfl⟩
  have hnone : callsOf i l₁ = [] := by rw [callsOf, List.filter_eq_nil_iff.mpr hnot, List.map_nil]
  rw [callsOf_append, hnone, List.append_nil]
  rfl

/-! ## Schedules -/

section
variable {ok : Conf σ τ ρ α → Move τ χ η → Prop} [∀ c m, Decidable (ok c m)]
  {ms ms₁ ms₂ : List (Move τ χ η)}

theorem run_cons : S.run ok c (m :: ms) = some c' ↔
    ok c m ∧ ∃ c₁, S.step c m = some c₁ ∧ S.run ok c₁ ms = some c' := by
  rw [run, Option.ite_none_right_eq_some, Option.bind_eq_some_iff]

theorem run_append : S.run ok c (ms₁ ++ ms₂) = some c' ↔
    ∃ c₁, S.run ok c ms₁ = some c₁ ∧ S.run ok c₁ ms₂ = some c' := by
  induction ms₁ generalizing c with
  | nil => simp [run]
  | cons m ms₁ ih =>
    simp only [List.cons_append, run_cons, ih]
    constructor
    · rintro ⟨hok, c₁, hs, c₂, h₁, h₂⟩
      exact ⟨c₂, ⟨hok, c₁, hs, h₁⟩, h₂⟩
    · rintro ⟨c₂, ⟨hok, c₁, hs, h₁⟩, h₂⟩
      exact ⟨hok, c₁, hs, c₂, h₁, h₂⟩

theorem run_concat (h : S.run ok c ms = some c') (hok : ok c' m) {c₁ : Conf σ τ ρ α}
    (hs : S.step c' m = some c₁) : S.run ok c (ms ++ [m]) = some c₁ :=
  run_append.mpr ⟨c', h, run_cons.mpr ⟨hok, c₁, hs, rfl⟩⟩

theorem run_mono {ok' : Conf σ τ ρ α → Move τ χ η → Prop} [∀ c m, Decidable (ok' c m)]
    (h : S.run ok c ms = some c') (himp : ∀ c m, ok c m → ok' c m) : S.run ok' c ms = some c' := by
  induction ms generalizing c with
  | nil => exact h
  | cons m ms ih =>
    obtain ⟨hok, c₁, hs, h⟩ := run_cons.mp h
    exact run_cons.mpr ⟨himp _ _ hok, c₁, hs, ih h⟩

/-- What holds after a schedule held before it, or a move of the schedule has brought it about. -/
theorem run_onset {P : Conf σ τ ρ α → Prop} (h : S.run ok c ms = some c') (hP : P c') :
    P c ∨ ∃ ms₁ m ms₂ c₁ c₂, ms = ms₁ ++ m :: ms₂ ∧ S.run ok c ms₁ = some c₁ ∧ ¬P c₁ ∧ ok c₁ m ∧
      S.step c₁ m = some c₂ ∧ P c₂ := by
  induction ms generalizing c with
  | nil => cases h; exact .inl hP
  | cons m ms ih =>
    obtain ⟨hok, c₁, hs, h⟩ := run_cons.mp h
    obtain hP₁ | ⟨ms₁, m', ms₂, d₁, d₂, rfl, hrun, hrest⟩ := ih h
    · by_cases hPc : P c
      · exact .inl hPc
      · exact .inr ⟨[], m, ms, c, c₁, rfl, rfl, hPc, hok, hs, hP₁⟩
    · exact .inr ⟨m :: ms₁, m', ms₂, d₁, d₂, rfl, run_cons.mpr ⟨hok, c₁, hs, hrun⟩, hrest⟩

/-- The move with which a process made a call, and the schedules before and after it. -/
theorem run_split_hist {w : σ} {i : Nat} {p : Proc τ ρ α} {h₁ h₂ : List (Event ρ)} {ev : Event ρ}
    (h : S.run ok (init w) ms = some c) (hp : c.procs[i]? = some p) (heq : p.hist = h₁ ++ ev :: h₂) :
    ∃ ms₁ ch ms₂ c₁ c₂ k, ms = ms₁ ++ .act i ch :: ms₂ ∧ S.run ok (init w) ms₁ = some c₁ ∧
      c₁.procs[i]? = some ⟨p.tag, h₁, .call ev.1 k⟩ ∧ ok c₁ (.act i ch) ∧
      S.exec c₁.world ev.1 ch = some (ev.2, c₂.world) ∧ S.step c₁ (.act i ch) = some c₂ ∧
      c₂.procs[i]? = some ⟨p.tag, h₁ ++ [ev], k ev.2⟩ ∧ S.run ok c₂ ms₂ = some c := by
  induction ms using List.reverseRecOn generalizing c p h₂ with
  | nil => cases h; cases hp
  | append_singleton ms m ih =>
    obtain ⟨c₀, h₀, h⟩ := run_append.mp h
    obtain ⟨hok, c₁, hs, h⟩ := run_cons.mp h
    cases h
    have hlater : ∀ {p' h₂'}, c₀.procs[i]? = some p' → p'.hist = h₁ ++ ev :: h₂' → p'.tag = p.tag →
        ∃ ms₁ ch ms₂ c₁ c₂ k, ms ++ [m] = ms₁ ++ .act i ch :: ms₂ ∧ S.run ok (init w) ms₁ = some c₁ ∧
          c₁.procs[i]? = some ⟨p.tag, h₁, .call ev.1 k⟩ ∧ ok c₁ (.act i ch) ∧
          S.exec c₁.world ev.1 ch = some (ev.2, c₂.world) ∧ S.step c₁ (.act i ch) = some c₂ ∧
          c₂.procs[i]? = some ⟨p.tag, h₁ ++ [ev], k ev.2⟩ ∧ S.run ok c₂ ms₂ = some c := by
      intro p' h₂' hp' heq' htag
      obtain ⟨ms₁, ch, ms₂, d₁, d₂, k, rfl, hd₁, hi, hok', hx, hs', hi', hd₂⟩ := ih h₀ hp' heq'
      exact ⟨ms₁, ch, ms₂ ++ [m], d₁, d₂, k, by simp, hd₁, htag ▸ hi, hok', hx, hs', htag ▸ hi',
        run_concat hd₂ hok hs⟩
    obtain ⟨t, -, rfl⟩ | ⟨j, ch, t, hist, e, k, r, w', rfl, hj, hx, rfl⟩ | ⟨x, w', -, -, rfl⟩ :=
      step_cases hs
    · rcases getElem?_spawn hp with hp | rfl
      · exact hlater hp heq rfl
      · simp at heq
    · obtain ⟨rfl, rfl⟩ | ⟨-, hp'⟩ := getElem?_act hp
      · obtain ⟨rfl, rfl⟩ | ⟨h₂', hl, -⟩ := concat_eq_split heq
        · exact ⟨ms, ch, [], c₀, _, k, rfl, h₀, hj, hok, hx, hs, hp, rfl⟩
        · exact hlater hj hl rfl
      · exact hlater hp' heq rfl
    · exact hlater hp heq rfl

end

end System
end Calls
