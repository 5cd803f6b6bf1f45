import Mathlib.Data.List.Basic

/-! # Backtracking search

Regular expressions with bounded repetition and one capture group, with the leftmost-first semantics
of backtracking engines: of the matches at the first place where there is one, the match of the first
alternative counts, and a greedy repetition tries another turn first. `Match` says what the matches
are, `runs` lists them in the order of preference, and the two agree (`mem_runs_iff`). -/

variable {α : Type}

inductive Regex (α : Type)
  | empty
  /-- One character of a set. -/
  | set (p : α → Bool)
  /-- No character, but a condition on the ones before and after. -/
  | assert (p : Option α → Option α → Bool)
  | seq (r t : Regex α)
  | alt (r t : Regex α)
  /-- At least `lo` and at most `hi` turns. -/
  | rep (greedy : Bool) (lo hi : Nat) (r : Regex α)
  | group (r : Regex α)

namespace Regex

/-- One after the other. -/
def cat (l : List (Regex α)) : Regex α := l.foldr .seq .empty

/-- The first one that leads to a match. -/
def alts : List (Regex α) → Regex α
  | [] => .set fun _ => false
  | [r] => r
  | r :: l => .alt r (alts l)

/-- A place in a text and the group, if it has been passed: what is before it and what it has
captured. What is before a place is listed from there on backwards. -/
structure Cursor (α : Type) where
  before : List α
  after : List α
  group : Option (List α × List α)

/-- The characters `l` are between the places. -/
structure Cursor.Reads (s s' : Cursor α) (l : List α) : Prop where
  after : s.after = l ++ s'.after
  before : s'.before = l.reverse ++ s.before

/-- The text between two places. -/
def Cursor.upTo (s s' : Cursor α) : List α := s.after.take (s.after.length - s'.after.length)

inductive Match : Regex α → Cursor α → Cursor α → Prop
  | empty : Match .empty s s
  | set : p a → Match (.set p) ⟨before, a :: after, g⟩ ⟨a :: before, after, g⟩
  | assert : p s.before.head? s.after.head? → Match (.assert p) s s
  | seq : Match r s s' → Match t s' s'' → Match (.seq r t) s s''
  | left : Match r s s' → Match (.alt r t) s s'
  | right : Match t s s' → Match (.alt r t) s s'
  | done : Match (.rep greedy 0 hi r) s s
  | more : Match r s s' → Match (.rep greedy (lo - 1) hi r) s' s'' →
    Match (.rep greedy lo (hi + 1) r) s s''
  | group : Match r s s' → Match (.group r) s { s' with group := some (s.before, s.upTo s') }

/-! ## Search -/

def repeatRuns (run : Cursor α → List (Cursor α)) (greedy : Bool) :
    Nat → Nat → Cursor α → List (Cursor α)
  | 0, 0, s => [s]
  | _ + 1, 0, _ => []
  | 0, hi + 1, s =>
    let more := (run s).flatMap (repeatRuns run greedy 0 hi)
    if greedy then more ++ [s] else s :: more
  | lo + 1, hi + 1, s => (run s).flatMap (repeatRuns run greedy lo hi)

/-- The ends of the matches from a place on, in the order of preference. -/
def runs : Regex α → Cursor α → List (Cursor α)
  | .empty, s => [s]
  | .set p, s =>
    match s.after with
    | a :: after => if p a then [⟨a :: s.before, after, s.group⟩] else []
    | [] => []
  | .assert p, s => if p s.before.head? s.after.head? then [s] else []
  | .seq r t, s => (runs r s).flatMap (runs t)
  | .alt r t, s => runs r s ++ runs t s
  | .rep greedy lo hi r, s => repeatRuns (runs r) greedy lo hi s
  | .group r, s => (runs r s).map fun s' => { s' with group := some (s.before, s.upTo s') }

/-- A match: what is before it, and where it ends. -/
structure Captures (α : Type) where
  start : List α
  stop : Cursor α

/-- What the group has captured. -/
def Captures.text (m : Captures α) : List α := (m.stop.group.map (·.2)).getD []

def matchAt (r : Regex α) (before after : List α) : Option (Cursor α) :=
  (runs r ⟨before, after, none⟩).head?

/-- The matches after `skip` more characters, from left to right, each from the end of the one before
it on. (An expression that matches an empty text is tried again one character later.) -/
def findIter (r : Regex α) : Nat → List α → List α → List (Captures α)
  | 0, before, [] => ((matchAt r before []).map (Captures.mk before)).toList
  | _ + 1, _, [] => []
  | skip + 1, before, a :: after => findIter r skip (a :: before) after
  | 0, before, a :: after =>
    match matchAt r before (a :: after) with
    | none => findIter r 0 (a :: before) after
    | some s => ⟨before, s⟩ :: findIter r (after.length - s.after.length) (a :: before) after

def capturesIter (r : Regex α) (text : List α) : List (Captures α) := findIter r 0 [] text

def captures (r : Regex α) (text : List α) : Option (Captures α) := (capturesIter r text).head?

/-! ## The list of matches -/

theorem mem_repeatRuns_iff {r : Regex α} (ih : ∀ {s s'}, s' ∈ runs r s ↔ Match r s s') :
    ∀ {lo hi s s'}, s' ∈ repeatRuns (runs r) greedy lo hi s ↔ Match (.rep greedy lo hi r) s s' := by
  intro lo hi
  induction hi generalizing lo with
  | zero =>
    intro s s'
    cases lo with
    | zero =>
      rw [repeatRuns, List.mem_singleton]
      exact ⟨fun h => h ▸ .done, fun h => by cases h; rfl⟩
    | succ lo => exact ⟨nofun, nofun⟩
  | succ hi ihi =>
    intro s s'
    have hmore : s' ∈ (runs r s).flatMap (repeatRuns (runs r) greedy (lo - 1) hi) ↔
        ∃ s₁, Match r s s₁ ∧ Match (.rep greedy (lo - 1) hi r) s₁ s' := by
      simp only [List.mem_flatMap, ih, ihi]
    cases lo with
    | zero =>
      have hmem : s' ∈ repeatRuns (runs r) greedy 0 (hi + 1) s ↔
          s' ∈ (runs r s).flatMap (repeatRuns (runs r) greedy 0 hi) ∨ s' = s := by
        cases greedy <;> simp [repeatRuns, or_comm]
      rw [hmem, hmore]
      constructor
      · rintro (⟨s₁, h₁, h₂⟩ | rfl)
        · exact .more h₁ h₂
        · exact .done
      · intro h
        cases h with
        | done => exact .inr rfl
        | more h₁ h₂ => exact .inl ⟨_, h₁, h₂⟩
    | succ lo =>
      refine hmore.trans ⟨fun ⟨s₁, h₁, h₂⟩ => .more h₁ h₂, fun h => ?_⟩
      cases h with
      | more h₁ h₂ => exact ⟨_, h₁, h₂⟩

/-- The search finds the matches, and nothing else. -/
theorem mem_runs_iff {r : Regex α} {s s' : Cursor α} : s' ∈ runs r s ↔ Match r s s' := by
  induction r generalizing s s' with
  | empty =>
    rw [runs, List.mem_singleton]
    exact ⟨fun h => h ▸ .empty, fun h => by cases h; rfl⟩
  | set p =>
    obtain ⟨before, _ | ⟨a, after⟩, g⟩ := s
    · exact ⟨nofun, nofun⟩
    · simp only [runs, List.mem_ite_nil_right, List.mem_singleton]
      refine ⟨fun ⟨ha, h⟩ => h ▸ .set ha, fun h => ?_⟩
      cases h with
      | set ha => exact ⟨ha, rfl⟩
  | assert p =>
    simp only [runs, List.mem_ite_nil_right, List.mem_singleton]
    constructor
    · rintro ⟨hp, rfl⟩
      exact .assert hp
    · intro h
      cases h with
      | assert hp => exact ⟨hp, rfl⟩
  | seq r t ihr iht =>
    simp only [runs, List.mem_flatMap, ihr, iht]
    refine ⟨fun ⟨s₁, h₁, h₂⟩ => .seq h₁ h₂, fun h => ?_⟩
    cases h with
    | seq h₁ h₂ => exact ⟨_, h₁, h₂⟩
  | alt r t ihr iht =>
    simp only [runs, List.mem_append, ihr, iht]
    constructor
    · rintro (h | h)
      · exact .left h
      · exact .right h
    · intro h
      cases h with
      | left h => exact .inl h
      | right h => exact .inr h
  | rep greedy lo hi r ih => exact mem_repeatRuns_iff ih
  | group r ih =>
    simp only [runs, List.mem_map, ih]
    refine ⟨fun ⟨s₁, h₁, h⟩ => h ▸ .group h₁, fun h => ?_⟩
    cases h with
    | group h₁ => exact ⟨_, h₁, rfl⟩

/-! ## What is read -/

namespace Cursor.Reads

variable {s s' s'' : Cursor α} {l l' : List α}

theorem refl (s : Cursor α) : s.Reads s [] := ⟨rfl, rfl⟩

theorem cons {a : α} {before after : List α} :
    Cursor.Reads ⟨before, a :: after, g⟩ ⟨a :: before, after, g'⟩ [a] := ⟨rfl, rfl⟩

theorem trans (h : s.Reads s' l) (h' : s'.Reads s'' l') : s.Reads s'' (l ++ l') :=
  ⟨by rw [h.after, h'.after, List.append_assoc], by rw [h'.before, h.before]; simp⟩

theorem eq_of_nil (h : s.Reads s' []) (hgroup : s'.group = s.group) : s' = s := by
  obtain ⟨before, after, g⟩ := s
  obtain ⟨before', after', g'⟩ := s'
  obtain rfl : after = after' := h.after
  obtain rfl : before' = before := h.before
  obtain rfl : g' = g := hgroup
  rfl

/-- The first character is read first. -/
theorem split {a : α} (h : s.Reads s' (a :: l)) :
    ∃ s₁, s.Reads s₁ [a] ∧ s₁.group = s.group ∧ s₁.Reads s' l :=
  ⟨⟨a :: s.before, l ++ s'.after, s.group⟩, ⟨h.after, rfl⟩, rfl, rfl, by rw [h.before]; simp⟩

theorem upTo_eq (h : s.Reads s' l) : s.upTo s' = l := by
  rw [Cursor.upTo, h.after, List.length_append, Nat.add_sub_cancel, List.take_left]

end Cursor.Reads

/-- A match reads forward. -/
theorem Match.reads {r : Regex α} {s s' : Cursor α} (h : Match r s s') : s.Reads s' (s.upTo s') := by
  have hread : ∃ l, s.Reads s' l := by
    induction h with
    | empty | assert | done => exact ⟨[], .refl _⟩
    | set => exact ⟨[_], rfl, rfl⟩
    | seq _ _ ih₁ ih₂ | more _ _ ih₁ ih₂ =>
      obtain ⟨l, h₁⟩ := ih₁
      obtain ⟨l', h₂⟩ := ih₂
      exact ⟨l ++ l', h₁.trans h₂⟩
    | left _ ih | right _ ih => exact ih
    | group _ ih =>
      obtain ⟨l, h⟩ := ih
      exact ⟨l, h.after, h.before⟩
  obtain ⟨l, hl⟩ := hread
  exact hl.upTo_eq.symm ▸ hl

/-- No group is inside. -/
def NoGroup : Regex α → Prop
  | .empty | .set _ | .assert _ => True
  | .seq r t | .alt r t => NoGroup r ∧ NoGroup t
  | .rep _ _ _ r => NoGroup r
  | .group _ => False

theorem Match.group_eq {r : Regex α} {s s' : Cursor α} (h : Match r s s') (hr : NoGroup r) :
    s'.group = s.group := by
  induction h with
  | empty | set | assert | done => rfl
  | seq _ _ ih₁ ih₂ => exact (ih₂ hr.2).trans (ih₁ hr.1)
  | left _ ih => exact ih hr.1
  | right _ ih => exact ih hr.2
  | more _ _ ih₁ ih₂ => exact (ih₂ hr).trans (ih₁ hr)
  | group => exact hr.elim

theorem match_set {p : α → Bool} {s s' : Cursor α} :
    Match (.set p) s s' ↔ ∃ a, p a ∧ s.Reads s' [a] ∧ s'.group = s.group := by
  constructor
  · intro h
    cases h with
    | set ha => exact ⟨_, ha, .cons, rfl⟩
  · rintro ⟨a, ha, ⟨hafter, hbefore⟩, hgroup⟩
    obtain ⟨before, after, g⟩ := s
    obtain ⟨before', after', g'⟩ := s'
    obtain rfl : after = a :: after' := hafter
    obtain rfl : before' = a :: before := hbefore
    obtain rfl : g' = g := hgroup
    exact .set ha

/-- Repeating a set reads that many of its characters. -/
theorem match_rep_set {p : α → Bool} {s s' : Cursor α} {lo hi : Nat} :
    Match (.rep greedy lo hi (.set p)) s s' ↔
      ∃ l, s.Reads s' l ∧ s'.group = s.group ∧ lo ≤ l.length ∧ l.length ≤ hi ∧ ∀ a ∈ l, p a := by
  induction hi generalizing lo s with
  | zero =>
    constructor
    · intro h
      cases h with
      | done => exact ⟨[], .refl _, by simp⟩
    · rintro ⟨l, hl, hgroup, hlo, hhi, -⟩
      cases List.length_eq_zero_iff.mp (Nat.le_zero.mp hhi)
      cases Nat.le_zero.mp hlo
      cases hl.eq_of_nil hgroup
      exact .done
  | succ hi ih =>
    constructor
    · intro h
      cases h with
      | done => exact ⟨[], .refl _, by simp⟩
      | more h₁ h₂ =>
        obtain ⟨a, ha, hread, hgroup⟩ := match_set.mp h₁
        obtain ⟨l, hl, hgroup', hlo, hhi, hall⟩ := ih.mp h₂
        refine ⟨a :: l, hread.trans hl, hgroup'.trans hgroup, ?_, Nat.succ_le_succ hhi,
          List.forall_mem_cons.mpr ⟨ha, hall⟩⟩
        rw [List.length_cons]
        omega
    · rintro ⟨l, hl, hgroup, hlo, hhi, hall⟩
      cases l with
      | nil =>
        cases Nat.le_zero.mp hlo
        cases hl.eq_of_nil hgroup
        exact .done
      | cons a l =>
        obtain ⟨ha, hall⟩ := List.forall_mem_cons.mp hall
        obtain ⟨s₁, hread, hgroup₁, hl⟩ := hl.split
        refine .more (match_set.mpr ⟨a, ha, hread, hgroup₁⟩)
          (ih.mpr ⟨l, hl, hgroup.trans hgroup₁.symm, ?_, Nat.le_of_succ_le_succ hhi, hall⟩)
        rw [List.length_cons] at hlo
        omega

/-! ## Sequences -/

theorem match_cat_nil {s s' : Cursor α} : Match (cat []) s s' ↔ s' = s :=
  ⟨fun h => by cases h; rfl, fun h => h ▸ .empty⟩

theorem match_cat_cons {r : Regex α} {l : List (Regex α)} {s s' : Cursor α} :
    Match (cat (r :: l)) s s' ↔ ∃ s₁, Match r s s₁ ∧ Match (cat l) s₁ s' := by
  constructor
  · intro h
    cases h with
    | seq h₁ h₂ => exact ⟨_, h₁, h₂⟩
  · rintro ⟨s₁, h₁, h₂⟩
    exact .seq h₁ h₂

theorem match_cat_append {l l' : List (Regex α)} {s s' : Cursor α} :
    Match (cat (l ++ l')) s s' ↔ ∃ s₁, Match (cat l) s s₁ ∧ Match (cat l') s₁ s' := by
  induction l generalizing s with
  | nil => simp [match_cat_nil]
  | cons r l ih =>
    simp only [List.cons_append, match_cat_cons, ih]
    constructor
    · rintro ⟨s₁, h₁, s₂, h₂, h₃⟩
      exact ⟨s₂, ⟨s₁, h₁, h₂⟩, h₃⟩
    · rintro ⟨s₂, ⟨s₁, h₁, h₂⟩, h₃⟩
      exact ⟨s₁, h₁, s₂, h₂, h₃⟩

theorem match_assert {p : Option α → Option α → Bool} {s s' : Cursor α} :
    Match (.assert p) s s' ↔ s' = s ∧ p s.before.head? s.after.head? := by
  constructor
  · intro h
    cases h with
    | assert hp => exact ⟨rfl, hp⟩
  · rintro ⟨rfl, hp⟩
    exact .assert hp

theorem noGroup_cat {l : List (Regex α)} : NoGroup (cat l) ↔ ∀ r ∈ l, NoGroup r := by
  induction l with
  | nil => simp [cat, NoGroup]
  | cons r l ih => simpa [cat, NoGroup] using fun _ => ih

theorem noGroup_alts {l : List (Regex α)} (h : ∀ r ∈ l, NoGroup r) : NoGroup (alts l) := by
  induction l with
  | nil => trivial
  | cons r l ih =>
    obtain ⟨hr, hl⟩ := List.forall_mem_cons.mp h
    cases l with
    | nil => exact hr
    | cons t l => exact ⟨hr, ih hl⟩

theorem match_alts {l : List (Regex α)} {s s' : Cursor α} (h : Match (alts l) s s') :
    ∃ r ∈ l, Match r s s' := by
  induction l with
  | nil =>
    obtain ⟨_, ha, -⟩ := match_set.mp h
    cases ha
  | cons r l ih =>
    cases l with
    | nil => exact ⟨r, List.mem_cons_self, h⟩
    | cons t l =>
      cases h with
      | left h => exact ⟨r, List.mem_cons_self, h⟩
      | right h =>
        obtain ⟨r', hr', h⟩ := ih h
        exact ⟨r', List.mem_cons_of_mem _ hr', h⟩

/-- Nothing is read at the end of a text. -/
theorem Match.after_nil {r : Regex α} {s s' : Cursor α} (h : Match r s s') (hs : s.after = []) :
    s'.after = [] :=
  (List.append_eq_nil_iff.mp (h.reads.after.symm.trans hs)).2

/-- A group with an assertion after it, in a sequence: what is read before and in the group, and what
the rest of the sequence matches. -/
structure Captured (g : Regex α) (p : Option α → Option α → Bool) (post : List (Regex α))
    (s s' : Cursor α) (l captured : List α) (s₁ s₂ : Cursor α) : Prop where
  reads : s.Reads s₁ l
  inner : Match g s₁ s₂
  captures : s₁.Reads s₂ captured
  holds : p s₂.before.head? s₂.after.head?
  rest : Match (cat post) { s₂ with group := some (s₁.before, captured) } s'

theorem match_group {pre post : List (Regex α)} {g : Regex α} {p : Option α → Option α → Bool}
    {s s' : Cursor α} (h : Match (cat (pre ++ .group g :: .assert p :: post)) s s') :
    ∃ l captured s₁ s₂, Captured g p post s s' l captured s₁ s₂ := by
  obtain ⟨s₁, hpre, h⟩ := match_cat_append.mp h
  obtain ⟨s₂, hg, h⟩ := match_cat_cons.mp h
  obtain ⟨s₃, hassert, hrest⟩ := match_cat_cons.mp h
  obtain ⟨rfl, hp⟩ := match_assert.mp hassert
  cases hg with
  | group hg => exact ⟨_, _, s₁, _, hpre.reads, hg, hg.reads, hp, hrest⟩

/-! ## What is found -/

/-- A match that is found is the first one at its place. -/
theorem mem_findIter {r : Regex α} {m : Captures α} {skip before after}
    (h : m ∈ findIter r skip before after) :
    ∃ l rest, after = l ++ rest ∧ m.start = l.reverse ++ before ∧
      matchAt r m.start rest = some m.stop := by
  have hcons : ∀ {a : α} {before after : List α},
      (∃ l rest, after = l ++ rest ∧ m.start = l.reverse ++ (a :: before) ∧
        matchAt r m.start rest = some m.stop) →
      ∃ l rest, a :: after = l ++ rest ∧ m.start = l.reverse ++ before ∧
        matchAt r m.start rest = some m.stop := by
    rintro a before after ⟨l, rest, rfl, hstart, hmatch⟩
    exact ⟨a :: l, rest, rfl, by simp [hstart], hmatch⟩
  fun_induction findIter r skip before after with
  | case1 before =>
    simp only [Option.mem_toList, Option.map_eq_some_iff] at h
    obtain ⟨s, hs, rfl⟩ := h
    exact ⟨[], [], rfl, rfl, hs⟩
  | case2 => cases h
  | case3 skip before a after ih => exact hcons (ih h)
  | case4 before a after hnone ih => exact hcons (ih h)
  | case5 before a after s hs ih =>
    obtain rfl | h := List.mem_cons.mp h
    · exact ⟨[], a :: after, rfl, rfl, hs⟩
    · exact hcons (ih h)

/-- The match is at the first place where there is one, and the first one there. -/
structure IsFirst (r : Regex α) (before after : List α) (m : Captures α) (l rest : List α) :
    Prop where
  text : after = l ++ rest
  start : m.start = l.reverse ++ before
  found : matchAt r m.start rest = some m.stop
  none : ∀ l' rest', after = l' ++ rest' → l'.length < l.length →
    matchAt r (l'.reverse ++ before) rest' = none

theorem isFirst_of_some {r : Regex α} {m : Captures α} {before after : List α} {s : Cursor α}
    (h : matchAt r before after = some s) :
    (∃ l rest, IsFirst r before after m l rest) ↔ m = ⟨before, s⟩ := by
  constructor
  · rintro ⟨l, rest, htext, hstart, hfound, hnone⟩
    cases l with
    | nil =>
      cases htext
      obtain ⟨start, stop⟩ := m
      cases hstart
      rw [Option.some.inj (h.symm.trans hfound)]
    | cons a l => cases h.symm.trans (hnone [] after rfl (Nat.zero_lt_succ _))
  · rintro rfl
    exact ⟨[], after, rfl, rfl, h, fun _ _ _ hlt => absurd hlt (Nat.not_lt_zero _)⟩

/-- The search goes on after a place without a match. -/
theorem isFirst_of_none {r : Regex α} {m : Captures α} {before after : List α} {a : α}
    (h : matchAt r before (a :: after) = none) :
    (∃ l rest, IsFirst r before (a :: after) m l rest) ↔
      ∃ l rest, IsFirst r (a :: before) after m l rest := by
  constructor
  · rintro ⟨l, rest, htext, hstart, hfound, hnone⟩
    cases l with
    | nil =>
      cases htext
      rw [hstart] at hfound
      cases h.symm.trans hfound
    | cons b l =>
      cases htext
      refine ⟨l, rest, rfl, by simpa using hstart, hfound, fun l' rest' htext hlt => ?_⟩
      have := hnone (a :: l') rest' (congrArg _ htext) (Nat.succ_lt_succ hlt)
      rwa [List.reverse_cons, List.append_assoc] at this
  · rintro ⟨l, rest, rfl, hstart, hfound, hnone⟩
    refine ⟨a :: l, rest, rfl, by simp [hstart], hfound, fun l' rest' htext hlt => ?_⟩
    cases l' with
    | nil =>
      cases htext
      exact h
    | cons b l' =>
      obtain ⟨rfl, htail⟩ := List.cons.inj htext
      have := hnone l' rest' htail (Nat.lt_of_succ_lt_succ hlt)
      rwa [List.reverse_cons, List.append_assoc]

theorem head?_findIter {r : Regex α} {m : Captures α} {before after : List α} :
    (findIter r 0 before after).head? = some m ↔ ∃ l rest, IsFirst r before after m l rest := by
  induction after generalizing before with
  | nil =>
    rw [findIter]
    cases h : matchAt r before [] with
    | none =>
      refine ⟨nofun, fun ⟨l, rest, htext, hstart, hfound, _⟩ => ?_⟩
      obtain ⟨rfl, rfl⟩ := List.append_eq_nil_iff.mp htext.symm
      rw [hstart] at hfound
      cases h.symm.trans hfound
    | some s =>
      rw [isFirst_of_some h]
      exact ⟨fun heq => (Option.some.inj heq).symm, fun heq => heq ▸ rfl⟩
  | cons a after ih =>
    rw [findIter]
    cases h : matchAt r before (a :: after) with
    | none => exact ih.trans (isFirst_of_none h).symm
    | some s =>
      rw [isFirst_of_some h]
      exact ⟨fun heq => (Option.some.inj heq).symm, fun heq => heq ▸ rfl⟩

theorem captures_eq_some {r : Regex α} {m : Captures α} {text : List α} :
    captures r text = some m ↔ ∃ l rest, IsFirst r [] text m l rest := head?_findIter

theorem match_of_matchAt {r : Regex α} {before after : List α} {s : Cursor α}
    (h : matchAt r before after = some s) : Match r ⟨before, after, none⟩ s :=
  mem_runs_iff.mp (List.mem_of_head? h)

theorem matchAt_eq_none {r : Regex α} {before after : List α} :
    matchAt r before after = none ↔ ∀ s, ¬Match r ⟨before, after, none⟩ s := by
  rw [matchAt, List.head?_eq_none_iff, List.eq_nil_iff_forall_not_mem]
  exact forall_congr' fun s => not_congr mem_runs_iff

/-- The matches of `captures_iter` are matches of the expression. -/
theorem match_of_mem_capturesIter {r : Regex α} {m : Captures α} {text : List α}
    (h : m ∈ capturesIter r text) :
    ∃ l rest, text = l ++ rest ∧ m.start = l.reverse ∧
      Match r ⟨l.reverse, rest, none⟩ m.stop := by
  obtain ⟨l, rest, htext, hstart, hfound⟩ := mem_findIter h
  rw [List.append_nil] at hstart
  rw [hstart] at hfound
  exact ⟨l, rest, htext, hstart, match_of_matchAt hfound⟩

theorem mem_capturesIter {r : Regex α} {m : Captures α} {text : List α}
    (h : captures r text = some m) : m ∈ capturesIter r text := List.mem_of_head? h

/-- What the group of a match that is found has captured, as a part of the text. -/
structure Captures.In (m : Captures α) (text before captured after : List α) : Prop where
  text_eq : text = before ++ captured ++ after
  group : m.stop.group = some (before.reverse, captured)

theorem Captures.In.text_captured {m : Captures α} {t : List α} (h : m.In t before captured after) :
    m.text = captured := by
  rw [Captures.text, h.group]
  rfl

theorem captured_of_mem {pre post : List (Regex α)} {g : Regex α}
    {p : Option α → Option α → Bool} {m : Captures α} {text : List α}
    (h : m ∈ capturesIter (cat (pre ++ .group g :: .assert p :: post)) text)
    (hpost : ∀ r ∈ post, NoGroup r) :
    ∃ before captured after, m.In text before captured after ∧
      (∃ s₁ s₂, Match g s₁ s₂ ∧ s₁.Reads s₂ captured) ∧
      p (captured.reverse ++ before.reverse).head? after.head? ∧
      ∃ s, s.after = after ∧ Match (cat post) s m.stop := by
  obtain ⟨l, rest, htext, -, hmatch⟩ := match_of_mem_capturesIter h
  obtain ⟨l', captured, s₁, s₂, hreads, hinner, hcaptures, hp, hrest⟩ := match_group hmatch
  have hbefore : s₁.before = (l ++ l').reverse := by rw [hreads.before, List.reverse_append]
  refine ⟨l ++ l', captured, s₂.after, ⟨?_, ?_⟩, ⟨s₁, s₂, hinner, hcaptures⟩, ?_,
    { s₂ with group := some (s₁.before, captured) }, rfl, hrest⟩
  · rw [htext, List.append_assoc, List.append_assoc]
    exact congrArg _ (hreads.after.trans (congrArg _ hcaptures.after))
  · rw [hrest.group_eq (noGroup_cat.mpr hpost), hbefore]
  · rwa [hcaptures.before, hbefore] at hp

end Regex
