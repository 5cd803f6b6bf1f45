import Mathlib.Data.List.AList

/-! # Hash maps

A map as an association list without duplicate keys. What is said of a map is said through
`AList.lookup`, so nothing depends on the order of iteration. -/

/-- `HashMap<κ, α>`. -/
abbrev HashMap (κ α : Type) := AList (fun _ : κ => α)

namespace HashMap

variable {κ α : Type} {m : HashMap κ α} {k : κ} {v : α}

def values (m : HashMap κ α) : List α := m.entries.map (·.2)

/-- Keep the entries that `p` accepts. -/
def retain (p : κ → α → Bool) (m : HashMap κ α) : HashMap κ α :=
  ⟨m.entries.filter fun x => p x.1 x.2, m.nodupKeys.sublist List.filter_sublist⟩

variable [DecidableEq κ]

def eraseAll (m : HashMap κ α) (ks : List κ) : HashMap κ α := ks.foldl (fun m k => m.erase k) m

/-- `entry(k).or_insert(v)`. -/
def orInsert (m : HashMap κ α) (k : κ) (v : α) : HashMap κ α := if k ∈ m then m else m.insert k v

theorem mem_values : v ∈ m.values ↔ ∃ k, m.lookup k = some v := by
  simp only [values, List.mem_map]
  constructor
  · rintro ⟨⟨k, v⟩, h, rfl⟩; exact ⟨k, AList.mem_lookup_iff.mpr h⟩
  · rintro ⟨k, h⟩; exact ⟨⟨k, v⟩, AList.mem_lookup_iff.mp h, rfl⟩

@[simp] theorem lookup_retain (p : κ → α → Bool) (m : HashMap κ α) (k : κ) :
    (m.retain p).lookup k = (m.lookup k).filter (p k) := by
  ext v
  rw [AList.lookup, ← Option.mem_def, ← AList.lookup, AList.mem_lookup_iff]
  simp [retain, Option.filter_eq_some_iff, ← AList.mem_lookup_iff]

theorem lookup_orInsert (m : HashMap κ α) (k k' : κ) (v : α) :
    (m.orInsert k v).lookup k' = if k' = k then some ((m.lookup k).getD v) else m.lookup k' := by
  rw [orInsert]
  split
  · next hk =>
    obtain ⟨w, hw⟩ := Option.isSome_iff_exists.mp (AList.lookup_isSome.mpr hk)
    split
    · next h => rw [h, hw, Option.getD_some]
    · rfl
  · next hk =>
    split
    · next h => rw [h, AList.lookup_insert, AList.lookup_eq_none.mpr hk, Option.getD_none]
    · next h => exact AList.lookup_insert_ne h

theorem orInsert_insert (m : HashMap κ α) (k : κ) (v w : α) :
    (m.orInsert k v).insert k w = m.insert k w := by
  rw [orInsert]
  split
  · rfl
  · exact AList.insert_insert ..

@[simp] theorem lookup_eraseAll (m : HashMap κ α) (ks : List κ) (k : κ) :
    (m.eraseAll ks).lookup k = if k ∈ ks then none else m.lookup k := by
  induction ks generalizing m with
  | nil => simp [eraseAll]
  | cons x ks ih =>
    rw [eraseAll, List.foldl_cons, ← eraseAll, ih]
    by_cases h : k = x
    · subst h; simp
    · simp [h, AList.lookup_erase_ne h]

theorem lookup_erase_eq (m : HashMap κ α) (k k' : κ) :
    (m.erase k).lookup k' = if k' = k then none else m.lookup k' := by
  split
  · next h => subst h; exact AList.lookup_erase ..
  · next h => exact AList.lookup_erase_ne h

/-! ## Erasing and retaining -/

theorem kerase_eq_filter {l : List ((_ : κ) × α)} (hl : l.NodupKeys) (k : κ) :
    l.kerase k = l.filter fun x => x.1 ≠ k := by
  induction l with
  | nil => rfl
  | cons x l ih =>
    obtain ⟨hx, hl⟩ := List.nodupKeys_cons.mp hl
    by_cases h : k = x.1
    · have hrest : ∀ y ∈ l, decide (y.1 ≠ k) = true := by
        intro y hy
        refine decide_eq_true fun heq => hx ?_
        rw [← h, ← heq]
        exact List.mem_map_of_mem hy
      rw [List.kerase_cons_eq h, List.filter_cons_of_neg (by simp [h]),
        List.filter_eq_self.mpr hrest]
    · rw [List.kerase_cons_ne h, ih hl, List.filter_cons_of_pos (by simpa using Ne.symm h)]

theorem entries_eraseAll (m : HashMap κ α) (ks : List κ) :
    (m.eraseAll ks).entries = m.entries.filter fun x => x.1 ∉ ks := by
  induction ks generalizing m with
  | nil => simp [eraseAll]
  | cons k ks ih =>
    have herase : (m.erase k).entries = m.entries.filter fun x => x.1 ≠ k :=
      kerase_eq_filter m.nodupKeys k
    rw [eraseAll, List.foldl_cons, ← eraseAll, ih, herase, List.filter_filter]
    simp only [List.mem_cons, not_or, ← Bool.decide_and, and_comm]

/-- Erasing the keys of the entries that are not to be kept. -/
theorem eraseAll_eq_retain {p : κ → α → Bool} {ks : List κ}
    (h : ∀ k v, m.lookup k = some v → (k ∉ ks ↔ p k v)) : m.eraseAll ks = m.retain p := by
  refine AList.ext ?_
  rw [entries_eraseAll]
  refine List.filter_congr fun x hx => ?_
  rw [Bool.eq_iff_iff, decide_eq_true_iff]
  exact h x.1 x.2 (AList.mem_lookup_iff.mpr hx)

omit [DecidableEq κ] in
theorem retain_retain (p q : κ → α → Bool) (m : HashMap κ α) :
    (m.retain p).retain q = m.retain fun k v => p k v && q k v := by
  refine AList.ext ?_
  simp only [retain, List.filter_filter, Bool.and_comm]

/-! ## Sizes -/

omit [DecidableEq κ] in
theorem length_retain_le (p : κ → α → Bool) (m : HashMap κ α) :
    (m.retain p).entries.length ≤ m.entries.length := List.length_filter_le ..

theorem retain_eq_self {p : κ → α → Bool} (h : ∀ k v, m.lookup k = some v → p k v) :
    m.retain p = m :=
  AList.ext (List.filter_eq_self.mpr fun x hx => h x.1 x.2 (AList.mem_lookup_iff.mpr hx))

theorem length_retain_lt {p : κ → α → Bool} (hk : m.lookup k = some v) (hp : ¬p k v) :
    (m.retain p).entries.length < m.entries.length := by
  refine List.length_filter_lt_length_iff_exists.mpr ⟨⟨k, v⟩, AList.mem_lookup_iff.mp hk, hp⟩

theorem length_insert (m : HashMap κ α) (k : κ) (v : α) :
    (m.insert k v).entries.length = if k ∈ m then m.entries.length else m.entries.length + 1 := by
  have hkeys : ∀ m : HashMap κ α, m.keys.length = m.entries.length := fun m => List.length_map ..
  rw [← hkeys, AList.keys_insert, List.length_cons]
  split
  · next hk =>
    have hpos := List.length_pos_of_mem (AList.mem_keys.mp hk)
    rw [List.length_erase_of_mem hk, hkeys] at *
    omega
  · next hk => rw [List.erase_of_not_mem hk, hkeys]

/-! ## Counting values -/

variable {p : α → Bool}

/-- The number of entries whose value `p` accepts. -/
def count (p : α → Bool) (m : HashMap κ α) : Nat := (m.values.filter p).length

omit [DecidableEq κ] in
theorem count_eq_countP : count p m = m.entries.countP fun x => p x.2 := by
  rw [count, ← List.countP_eq_length_filter, values, List.countP_map]
  rfl

omit [DecidableEq κ] in
theorem count_mono {p' : α → Bool} (h : ∀ v, p v → p' v) : count p m ≤ count p' m := by
  rw [count_eq_countP, count_eq_countP]
  exact List.countP_mono_left fun x _ => h x.2

omit [DecidableEq κ] in
/-- What is counted before some values are dropped, and what is counted then. -/
theorem count_add_count_retain {q r : α → Bool} (h : ∀ v, r v = (p v || q v)) :
    count p m + count q (m.retain fun _ v => !p v) = count r m := by
  simp only [count_eq_countP, retain, h]
  rw [List.countP_eq_countP_filter_add m.entries (fun x => p x.2 || q x.2) fun x => p x.2]
  simp only [List.countP_filter]
  refine congrArg₂ Nat.add (List.countP_congr fun x _ => ?_) (List.countP_congr fun x _ => ?_)
  · cases p x.2 <;> simp
  · cases p x.2 <;> simp

/-- The values that count are all stored under one key. -/
theorem count_le_one (k : κ) (h : ∀ k' v, m.lookup k' = some v → p v → k' = k) : count p m ≤ 1 := by
  rw [count_eq_countP]
  have hle : m.entries.countP (fun x => p x.2) ≤ m.entries.countP (fun x => x.1 == k) := by
    refine List.countP_mono_left fun x hx hp => ?_
    exact beq_iff_eq.mpr (h x.1 x.2 (AList.mem_lookup_iff.mpr hx) hp)
  refine le_trans hle ?_
  have hkeys : m.entries.countP (fun x => x.1 == k) = m.keys.count k := by
    rw [AList.keys, List.keys, List.count, List.countP_map]
    rfl
  rw [hkeys]
  exact List.nodup_iff_count_le_one.mp m.keys_nodup k

theorem count_erase_le (m : HashMap κ α) (k : κ) : count p (m.erase k) ≤ count p m := by
  rw [count_eq_countP, count_eq_countP]
  exact (List.kerase_sublist k m.entries).countP_le

theorem count_eraseAll_le (m : HashMap κ α) (ks : List κ) :
    count p (m.eraseAll ks) ≤ count p m := by
  induction ks generalizing m with
  | nil => exact le_refl _
  | cons k ks ih => exact le_trans (ih (m.erase k)) (count_erase_le m k)

theorem count_insert (m : HashMap κ α) (k : κ) (v : α) :
    count p (m.insert k v) = count p (m.erase k) + if p v then 1 else 0 := by
  rw [count_eq_countP, count_eq_countP, AList.entries_insert, List.countP_cons]
  rfl

theorem count_insert_le (m : HashMap κ α) (k : κ) (v : α) :
    count p (m.insert k v) ≤ count p m + 1 := by
  have h := count_erase_le (p := p) m k
  rw [count_insert]
  split <;> omega

/-- An entry that is replaced by one that counts no more. -/
theorem count_insert_of_imp {v' : α} (hk : m.lookup k = some v') (h : p v → p v') :
    count p (m.insert k v) ≤ count p m := by
  have hmem : k ∈ m.entries.keys := AList.mem_keys.mp (AList.lookup_isSome.mp (by rw [hk]; rfl))
  obtain ⟨w, l₁, l₂, -, hl, herase⟩ := List.exists_of_kerase hmem
  have hw : (⟨k, w⟩ : (_ : κ) × α) ∈ m.entries := by
    rw [hl]
    exact List.mem_append_right _ List.mem_cons_self
  cases (AList.mem_lookup_iff.mpr hw).symm.trans hk
  have hm : count p m = count p (m.erase k) + if p v' then 1 else 0 := by
    have herase' : (m.erase k).entries = l₁ ++ l₂ := herase
    rw [count_eq_countP, count_eq_countP, herase', hl, List.countP_append, List.countP_append,
      List.countP_cons, Nat.add_assoc]
  rw [count_insert, hm]
  cases hv : p v with
  | false => simp
  | true => simp [h hv]

end HashMap
