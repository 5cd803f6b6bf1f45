import Mathlib.Data.List.Basic

/-! # Programs as call trees

A program that touches its surroundings only through calls is a tree: a leaf is a result, a node
is a call with one subtree for each answer. Different surroundings interpret the same tree:
answers chosen at will (`Prog.Runs`), a state that is changed by each call (`Prog.Exec`), or many
trees run in turn on one shared state (the module on interleavings).

`Prog.Obeys` is the program logic for such trees. `Obeys Φ Q h p` says that `p`, started after the
calls `h`, makes only calls that `Φ` allows after the calls made so far, whatever the answers are,
and that each result satisfies `Q`. -/

namespace Calls

/-- `ε` are the calls, `ρ e` the answers to the call `e`. -/
inductive Prog (ε : Type) (ρ : ε → Type) (α : Type) : Type
  | ret : α → Prog ε ρ α
  | call : (e : ε) → (ρ e → Prog ε ρ α) → Prog ε ρ α

/-- A call together with the answer it got. -/
abbrev Event {ε : Type} (ρ : ε → Type) := (e : ε) × ρ e

variable {ε : Type} {ρ : ε → Type} {α β : Type}

namespace Prog

protected def bind : Prog ε ρ α → (α → Prog ε ρ β) → Prog ε ρ β
  | .ret a, f => f a
  | .call e k, f => .call e fun r => (k r).bind f

instance : Monad (Prog ε ρ) where
  pure := .ret
  bind := Prog.bind

/-- The program that makes one call and returns its answer. -/
def perform (e : ε) : Prog ε ρ (ρ e) := .call e .ret

@[simp] theorem ret_bind (a : α) (f : α → Prog ε ρ β) : (Prog.ret a >>= f) = f a := rfl

@[simp] theorem call_bind (e : ε) (k : ρ e → Prog ε ρ α) (f : α → Prog ε ρ β) :
    (Prog.call e k >>= f) = .call e fun r => k r >>= f := rfl

instance : LawfulMonad (Prog ε ρ) := by
  refine LawfulMonad.mk' _ (fun p => ?_) (fun a f => rfl) fun p f g => ?_ <;>
    induction p with
    | ret a => rfl
    | call e k ih => exact congrArg (Prog.call e) (funext ih)

/-- There is nothing left to do. -/
def Done : Prog ε ρ α → Prop
  | .ret _ => True
  | .call .. => False

@[simp] theorem done_ret (a : α) : (Prog.ret a : Prog ε ρ α).Done := trivial

@[simp] theorem not_done_call (e : ε) (k : ρ e → Prog ε ρ α) : ¬(Prog.call e k).Done := id

instance (p : Prog ε ρ α) : Decidable p.Done :=
  match p with
  | .ret _ => .isTrue trivial
  | .call .. => .isFalse id

/-! ## The logic of calls -/

section
variable (Φ : List (Event ρ) → ε → Prop)

def Obeys (Q : List (Event ρ) → α → Prop) : List (Event ρ) → Prog ε ρ α → Prop
  | h, .ret a => Q h a
  | h, .call e k => Φ h e ∧ ∀ r, Obeys Q (h ++ [⟨e, r⟩]) (k r)

variable {Φ} {Q Q' : List (Event ρ) → α → Prop} {h : List (Event ρ)}

@[simp] theorem obeys_ret {a : α} : Obeys Φ Q h (.ret a) ↔ Q h a := .rfl

@[simp] theorem obeys_call {e : ε} {k : ρ e → Prog ε ρ α} :
    Obeys Φ Q h (.call e k) ↔ Φ h e ∧ ∀ r, Obeys Φ Q (h ++ [⟨e, r⟩]) (k r) := .rfl

theorem Obeys.mono {p : Prog ε ρ α} (H : Obeys Φ Q h p) (hQ : ∀ h a, Q h a → Q' h a) :
    Obeys Φ Q' h p := by
  induction p generalizing h with
  | ret a => exact hQ _ _ H
  | call e k ih => exact ⟨H.1, fun r => ih r (H.2 r)⟩

/-- What has been done stays done. -/
theorem obeys_mem {ev : Event ρ} {p : Prog ε ρ α} (hev : ev ∈ h) :
    Obeys (fun _ _ => True) (fun h' _ => ev ∈ h') h p := by
  induction p generalizing h with
  | ret a => exact hev
  | call e k ih => exact ⟨trivial, fun r => ih r (List.mem_append_left _ hev)⟩

theorem obeys_extends {p : Prog ε ρ α} :
    Obeys (fun _ _ => True) (fun h' _ => h <+: h') h p := by
  induction p generalizing h with
  | ret a => exact List.prefix_refl h
  | call e k ih =>
    refine ⟨trivial, fun r => (ih r).mono fun h' a hle => ?_⟩
    exact (List.prefix_append ..).trans hle

theorem obeys_trivial {p : Prog ε ρ α} : Obeys (fun _ _ => True) (fun _ _ => True) h p := by
  induction p generalizing h with
  | ret a => trivial
  | call e k ih => exact ⟨trivial, fun r => ih r⟩

theorem obeys_bind {p : Prog ε ρ α} {f : α → Prog ε ρ β} {R : List (Event ρ) → β → Prop} :
    Obeys Φ R h (p >>= f) ↔ Obeys Φ (fun h' a => Obeys Φ R h' (f a)) h p := by
  induction p generalizing h with
  | ret a => rfl
  | call e k ih => exact and_congr_right fun _ => forall_congr' fun r => ih r

theorem obeys_map {p : Prog ε ρ α} {f : α → β} {R : List (Event ρ) → β → Prop} :
    Obeys Φ R h (f <$> p) ↔ Obeys Φ (fun h' a => R h' (f a)) h p := by
  rw [map_eq_pure_bind, obeys_bind]
  rfl

end

/-! ## Answers chosen at will -/

/-- `Runs p tr a`: with the answers recorded in `tr`, the program `p` makes the calls of `tr` in
this order and returns `a`. -/
inductive Runs : Prog ε ρ α → List (Event ρ) → α → Prop
  | ret {a : α} : Runs (.ret a) [] a
  | call {e : ε} {k : ρ e → Prog ε ρ α} {r : ρ e} {tr : List (Event ρ)} {a : α} :
    Runs (k r) tr a → Runs (.call e k) (⟨e, r⟩ :: tr) a

@[simp] theorem runs_ret {a b : α} {tr : List (Event ρ)} :
    Runs (.ret a : Prog ε ρ α) tr b ↔ tr = [] ∧ b = a := by
  constructor
  · rintro ⟨⟩; exact ⟨rfl, rfl⟩
  · rintro ⟨rfl, rfl⟩; exact .ret

@[simp] theorem runs_call {e : ε} {k : ρ e → Prog ε ρ α} {tr : List (Event ρ)} {a : α} :
    Runs (.call e k) tr a ↔ ∃ r tr', tr = ⟨e, r⟩ :: tr' ∧ Runs (k r) tr' a := by
  constructor
  · rintro ⟨⟩; exact ⟨_, _, rfl, ‹_›⟩
  · rintro ⟨r, tr', rfl, h⟩; exact .call h

theorem runs_bind {p : Prog ε ρ α} {f : α → Prog ε ρ β} {tr : List (Event ρ)} {b : β} :
    Runs (p >>= f) tr b ↔ ∃ a tr₁ tr₂, tr = tr₁ ++ tr₂ ∧ Runs p tr₁ a ∧ Runs (f a) tr₂ b := by
  induction p generalizing tr with
  | ret a => simp
  | call e k ih =>
    simp only [call_bind, runs_call, ih]
    constructor
    · rintro ⟨r, _, rfl, a, tr₁, tr₂, rfl, h1, h2⟩
      exact ⟨a, ⟨e, r⟩ :: tr₁, tr₂, rfl, ⟨r, tr₁, rfl, h1⟩, h2⟩
    · rintro ⟨a, _, tr₂, rfl, ⟨r, tr₁, rfl, h1⟩, h2⟩
      exact ⟨r, _, rfl, a, tr₁, tr₂, rfl, h1, h2⟩

/-- `Makes p tr e`: with the answers recorded in `tr`, the program `p` makes the calls of `tr` and
then the call `e`, to which there may be no answer. -/
inductive Makes : Prog ε ρ α → List (Event ρ) → ε → Prop
  | here {e : ε} {k : ρ e → Prog ε ρ α} : Makes (.call e k) [] e
  | later {e e' : ε} {k : ρ e' → Prog ε ρ α} {r : ρ e'} {tr : List (Event ρ)} :
    Makes (k r) tr e → Makes (.call e' k) (⟨e', r⟩ :: tr) e

theorem not_makes_ret {a : α} {tr : List (Event ρ)} {e : ε} :
    ¬Makes (.ret a : Prog ε ρ α) tr e := nofun

theorem Runs.makes {p : Prog ε ρ α} {tr tr' : List (Event ρ)} {ev : Event ρ} {a : α}
    (h : Runs p (tr ++ ev :: tr') a) : Makes p tr ev.1 := by
  induction tr generalizing p with
  | nil => cases h; exact .here
  | cons ev' tr ih => cases h; exact .later (ih ‹_›)

theorem Makes.of_bind {p : Prog ε ρ α} {f : α → Prog ε ρ β} {tr : List (Event ρ)} {e : ε}
    (h : Makes (p >>= f) tr e) : Makes p tr e ∨
      ∃ a tr₁ tr₂, tr = tr₁ ++ tr₂ ∧ Runs p tr₁ a ∧ Makes (f a) tr₂ e := by
  induction p generalizing tr with
  | ret a => exact .inr ⟨a, [], tr, rfl, .ret, h⟩
  | call e' k ih =>
    cases h with
    | here => exact .inl .here
    | later h =>
      obtain h | ⟨a, tr₁, tr₂, rfl, h₁, h₂⟩ := ih _ h
      · exact .inl (.later h)
      · exact .inr ⟨a, _ :: tr₁, tr₂, rfl, .call h₁, h₂⟩

theorem Obeys.makes {Φ : List (Event ρ) → ε → Prop} {Q : List (Event ρ) → α → Prop}
    {h tr : List (Event ρ)} {p : Prog ε ρ α} {e : ε} (H : Obeys Φ Q h p) (hm : Makes p tr e) :
    Φ (h ++ tr) e := by
  induction hm generalizing h with
  | here => simpa using H.1
  | later _ ih => simpa using ih (H.2 _)

theorem Obeys.result {Φ : List (Event ρ) → ε → Prop} {Q : List (Event ρ) → α → Prop}
    {h tr : List (Event ρ)} {p : Prog ε ρ α} {a : α} (H : Obeys Φ Q h p) (hr : Runs p tr a) :
    Q (h ++ tr) a := by
  induction hr generalizing h with
  | ret => simpa using H
  | call _ ih => simpa using ih (H.2 _)

/-- `Leaves p tr q`: with the answers recorded in `tr`, the program `p` makes the calls of `tr` in
this order and has `q` left to do. -/
inductive Leaves : Prog ε ρ α → List (Event ρ) → Prog ε ρ α → Prop
  | nil {p : Prog ε ρ α} : Leaves p [] p
  | call {e : ε} {k : ρ e → Prog ε ρ α} {r : ρ e} {tr : List (Event ρ)} {q : Prog ε ρ α} :
    Leaves (k r) tr q → Leaves (.call e k) (⟨e, r⟩ :: tr) q

theorem Leaves.concat {p : Prog ε ρ α} {tr : List (Event ρ)} {e : ε} {k : ρ e → Prog ε ρ α}
    (h : Leaves p tr (.call e k)) (r : ρ e) : Leaves p (tr ++ [⟨e, r⟩]) (k r) := by
  generalize hq : Prog.call e k = q at h
  induction h with
  | nil => exact hq ▸ .call .nil
  | call _ ih => exact .call (ih hq)

theorem leaves_ret {a : α} {tr : List (Event ρ)} {q : Prog ε ρ α} :
    Leaves (.ret a) tr q ↔ tr = [] ∧ q = .ret a := by
  constructor
  · rintro ⟨⟩; exact ⟨rfl, rfl⟩
  · rintro ⟨rfl, rfl⟩; exact .nil

theorem Runs.leaves {p : Prog ε ρ α} {tr : List (Event ρ)} {a : α} (h : Runs p tr a) :
    Leaves p tr (.ret a) := by
  induction h with
  | ret => exact .nil
  | call _ ih => exact .call ih

theorem Leaves.runs {p : Prog ε ρ α} {tr : List (Event ρ)} {a : α} (h : Leaves p tr (.ret a)) :
    Runs p tr a := by
  generalize hq : Prog.ret a = q at h
  induction h with
  | nil => exact hq ▸ .ret
  | call _ ih => exact .call (ih hq)

/-- Either the first part is not over, or it has returned. -/
theorem Leaves.of_bind {p : Prog ε ρ α} {f : α → Prog ε ρ β} {tr : List (Event ρ)}
    {q : Prog ε ρ β} (h : Leaves (p >>= f) tr q) :
    (∃ p', Leaves p tr p' ∧ ¬p'.Done ∧ q = p' >>= f) ∨
      ∃ a tr₁ tr₂, tr = tr₁ ++ tr₂ ∧ Runs p tr₁ a ∧ Leaves (f a) tr₂ q := by
  induction p generalizing tr with
  | ret a => exact .inr ⟨a, [], tr, rfl, .ret, h⟩
  | call e k ih =>
    cases h with
    | nil => exact .inl ⟨_, .nil, id, rfl⟩
    | call h =>
      obtain ⟨p', hp, hq⟩ | ⟨a, tr₁, tr₂, rfl, hr, hl⟩ := ih _ h
      · exact .inl ⟨p', .call hp, hq⟩
      · exact .inr ⟨a, _ :: tr₁, tr₂, rfl, .call hr, hl⟩

theorem Obeys.leaves {Φ : List (Event ρ) → ε → Prop} {Q : List (Event ρ) → α → Prop}
    {h tr : List (Event ρ)} {p q : Prog ε ρ α} (H : Obeys Φ Q h p) (hl : Leaves p tr q) :
    Obeys Φ Q (h ++ tr) q := by
  induction hl generalizing h with
  | nil => simpa using H
  | call _ ih => simpa using ih (H.2 _)

/-- A program whose calls can be answered can be run to its end. -/
theorem Leaves.exists_runs {Φ : List (Event ρ) → ε → Prop} {Q : List (Event ρ) → α → Prop}
    {p q : Prog ε ρ α} {h tr : List (Event ρ)} (hl : Leaves p tr q) (H : Obeys Φ Q h p)
    (hΦ : ∀ h e, Φ h e → Nonempty (ρ e)) : ∃ more a, Runs p (tr ++ more) a := by
  induction hl generalizing h with
  | nil =>
    next p =>
    induction p generalizing h with
    | ret a => exact ⟨[], a, .ret⟩
    | call e k ih =>
      obtain ⟨r⟩ := hΦ h e H.1
      obtain ⟨more, a, hr⟩ := ih r (H.2 r)
      exact ⟨_, a, .call hr⟩
  | call _ ih =>
    obtain ⟨more, a, hr⟩ := ih (H.2 _)
    exact ⟨more, a, .call hr⟩

/-! ## Calls that change a state -/

section
variable {σ χ : Type} (exec : σ → (e : ε) → χ → Option (ρ e × σ))

/-- `Exec exec s p tr s' a`: run alone on the state `s`, with some choices of the surroundings, `p`
makes the calls `tr`, returns `a` and leaves the state `s'`. -/
inductive Exec : σ → Prog ε ρ α → List (Event ρ) → σ → α → Prop
  | ret {s : σ} {a : α} : Exec s (.ret a) [] s a
  | call {s s₁ s' : σ} {e : ε} {k : ρ e → Prog ε ρ α} {c : χ} {r : ρ e} {tr : List (Event ρ)}
    {a : α} : exec s e c = some (r, s₁) → Exec s₁ (k r) tr s' a →
    Exec s (.call e k) (⟨e, r⟩ :: tr) s' a

variable {exec} {s s' : σ} {tr : List (Event ρ)}

@[simp] theorem exec_ret {a b : α} :
    Exec exec s (.ret a) tr s' b ↔ tr = [] ∧ s' = s ∧ b = a := by
  constructor
  · rintro ⟨⟩; exact ⟨rfl, rfl, rfl⟩
  · rintro ⟨rfl, rfl, rfl⟩; exact .ret

@[simp] theorem exec_call {e : ε} {k : ρ e → Prog ε ρ α} {a : α} :
    Exec exec s (.call e k) tr s' a ↔ ∃ c r s₁ tr', exec s e c = some (r, s₁) ∧
      tr = ⟨e, r⟩ :: tr' ∧ Exec exec s₁ (k r) tr' s' a := by
  constructor
  · rintro ⟨⟩; exact ⟨_, _, _, _, ‹_›, rfl, ‹_›⟩
  · rintro ⟨c, r, s₁, tr', hx, rfl, h⟩; exact .call hx h

theorem exec_bind {p : Prog ε ρ α} {f : α → Prog ε ρ β} {b : β} :
    Exec exec s (p >>= f) tr s' b ↔ ∃ a tr₁ s₁ tr₂, tr = tr₁ ++ tr₂ ∧ Exec exec s p tr₁ s₁ a ∧
      Exec exec s₁ (f a) tr₂ s' b := by
  induction p generalizing s tr with
  | ret a => simp
  | call e k ih =>
    simp only [call_bind, exec_call, ih]
    constructor
    · rintro ⟨c, r, s₁, _, hx, rfl, a, tr₁, s₂, tr₂, rfl, h1, h2⟩
      exact ⟨a, _, s₂, tr₂, rfl, ⟨c, r, s₁, tr₁, hx, rfl, h1⟩, h2⟩
    · rintro ⟨a, _, s₂, tr₂, rfl, ⟨c, r, s₁, tr₁, hx, rfl, h1⟩, h2⟩
      exact ⟨c, r, s₁, _, hx, rfl, a, tr₁, s₂, tr₂, rfl, h1, h2⟩

theorem Exec.runs {p : Prog ε ρ α} {a : α} (h : Exec exec s p tr s' a) : Runs p tr a := by
  induction h with
  | ret => exact .ret
  | call _ _ ih => exact .call ih

/-- A run of one call, in a state that gives its answer. -/
theorem Runs.exec_one {p : Prog ε ρ α} {e : ε} {r : ρ e} {a : α} {c : χ} (h : Runs p [⟨e, r⟩] a)
    (hx : exec s e c = some (r, s')) : Exec exec s p [⟨e, r⟩] s' a := by
  cases p with
  | ret b => cases h
  | call e' k =>
    obtain ⟨r', tr', heq, hk⟩ := runs_call.mp h
    cases heq
    refine .call hx ?_
    generalize k r = p at hk
    cases hk
    exact .ret

variable (exec) in
/-- Run a program with these choices, one for each call. -/
def play : List χ → σ → Prog ε ρ α → Option (List (Event ρ) × σ × α)
  | _, s, .ret a => some ([], s, a)
  | [], _, .call .. => none
  | c :: cs, s, .call e k => (exec s e c).bind fun (r, s₁) =>
    (play cs s₁ (k r)).map fun (tr, x) => (⟨e, r⟩ :: tr, x)

theorem exec_of_play {cs : List χ} {p : Prog ε ρ α} {a : α}
    (h : play exec cs s p = some (tr, s', a)) : Exec exec s p tr s' a := by
  induction p generalizing cs s tr with
  | ret b =>
    unfold play at h
    cases h
    exact .ret
  | call e k ih =>
    cases cs with
    | nil => cases h
    | cons c cs =>
      obtain ⟨⟨r, s₁⟩, hx, h⟩ := Option.bind_eq_some_iff.mp h
      obtain ⟨⟨tr', x⟩, h, heq⟩ := Option.map_eq_some_iff.mp h
      cases heq
      exact .call hx (ih r h)

theorem exists_of_play {cs : List χ} {p : Prog ε ρ α} {P : List (Event ρ) × σ × α → Bool}
    (h : (play exec cs s p).any P) : ∃ tr s' a, Exec exec s p tr s' a ∧ P (tr, s', a) := by
  obtain ⟨⟨tr, s', a⟩, hp, hP⟩ := (Option.any_eq_true ..).mp h
  exact ⟨tr, s', a, exec_of_play hp, hP⟩

end

end Prog
end Calls
