import AnonyMail.Lib.HashMap

/-! # Tables with a primary key

A table is a list of rows. `Represents key rows m` says that the rows, in some order, are the values
of the map `m`, each stored under its primary key. A statement on the table is then an operation on
the map: `INSERT` of a new key, `UPDATE` and `DELETE` by key, `DELETE` by a condition, and the
searches and counts. -/

namespace Table

variable {κ α : Type} {key : α → κ} {m : HashMap κ α} {rows : List α} {k : κ} {x v : α}

/-- Every value of the map is stored under its key. -/
def Keys (key : α → κ) [DecidableEq κ] (m : HashMap κ α) : Prop :=
  ∀ k v, m.lookup k = some v → key v = k

variable [DecidableEq κ]

structure Represents (key : α → κ) (rows : List α) (m : HashMap κ α) : Prop where
  perm : rows.Perm m.values
  keys : Keys key m

namespace Keys

variable (h : Keys key m)
include h

theorem mem_values : x ∈ m.values ↔ m.lookup (key x) = some x := by
  rw [HashMap.mem_values]
  exact ⟨fun ⟨k, hk⟩ => (h k x hk).symm ▸ hk, fun hk => ⟨_, hk⟩⟩

theorem map_key : m.values.map key = m.keys := by
  rw [HashMap.values, List.map_map]
  exact List.map_congr_left fun y hy => h y.1 y.2 (AList.mem_lookup_iff.mpr hy)

theorem insert (hx : key x = k) : Keys key (m.insert k x) := by
  intro k' v hv
  by_cases hk : k' = k
  · subst hk
    cases (AList.lookup_insert _).symm.trans hv
    exact hx
  · exact h k' v ((AList.lookup_insert_ne hk).symm.trans hv)

theorem retain (p : κ → α → Bool) : Keys key (m.retain p) := by
  intro k v hv
  rw [HashMap.lookup_retain] at hv
  exact h k v (Option.filter_eq_some_iff.mp hv).1

theorem values_retain {p : α → Bool} {q : κ → α → Bool} (hq : ∀ x, q (key x) x = p x) :
    (m.retain q).values = m.values.filter p := by
  rw [HashMap.values, HashMap.retain, HashMap.values, List.filter_map]
  refine congrArg _ (List.filter_congr fun y hy => ?_)
  have hy := h y.1 y.2 (AList.mem_lookup_iff.mpr hy)
  rw [Function.comp_apply, ← hq, hy]

omit h in
theorem erase_eq_retain (k : κ) : m.erase k = m.retain fun k' _ => k' != k := by
  refine AList.ext ((HashMap.kerase_eq_filter m.nodupKeys k).trans ?_)
  exact List.filter_congr fun x _ => by rw [Bool.eq_iff_iff, decide_eq_true_iff, bne_iff_ne]

theorem values_erase (k : κ) :
    HashMap.values (m.erase k) = m.values.filter (key · != k) := by
  rw [erase_eq_retain]
  exact h.values_retain fun _ => rfl

theorem erase (k : κ) : Keys key (m.erase k) := erase_eq_retain (m := m) k ▸ h.retain _

theorem values_insert (k : κ) (v : α) :
    HashMap.values (m.insert k v) = v :: m.values.filter (key · != k) := by
  rw [← h.values_erase, HashMap.values, AList.entries_insert]
  rfl

end Keys

namespace Represents

theorem nil : Represents key [] (∅ : HashMap κ α) := ⟨.nil, nofun⟩

variable (h : Represents key rows m)
include h

theorem mem_iff : x ∈ rows ↔ m.lookup (key x) = some x := by
  rw [h.perm.mem_iff, h.keys.mem_values]

/-- The primary key is unique. -/
theorem nodup : (rows.map key).Nodup := by
  rw [(h.perm.map key).nodup_iff, h.keys.map_key]
  exact m.keys_nodup

theorem find?_eq (k : κ) : (rows.find? fun x => key x == k) = m.lookup k := by
  cases hf : rows.find? fun x => key x == k with
  | some x =>
    have hx := h.mem_iff.mp (List.mem_of_find?_eq_some hf)
    have hk : (key x == k) = true := List.find?_some (p := fun x => key x == k) hf
    rwa [eq_of_beq hk, eq_comm] at hx
  | none =>
    refine (Option.eq_none_iff_forall_ne_some.mpr fun v hv => ?_).symm
    have hkey := h.keys k v hv
    exact List.find?_eq_none.mp hf v (h.mem_iff.mpr (hkey ▸ hv)) (beq_iff_eq.mpr hkey)

theorem any_eq (k : κ) : (rows.any fun x => key x == k) = decide (k ∈ m) := by
  have hsome : (rows.any fun x => key x == k) = (rows.find? fun x => key x == k).isSome := by
    rw [Bool.eq_iff_iff, List.find?_isSome, List.any_eq_true]
  rw [hsome, h.find?_eq, Bool.eq_iff_iff, AList.lookup_isSome, decide_eq_true_iff]

/-- A condition on the row of a key. -/
theorem any_and (k : κ) (p : α → Bool) :
    (rows.any fun x => key x == k && p x) = (m.lookup k).any p := by
  rw [← h.find?_eq, Bool.eq_iff_iff, List.any_eq_true, Option.any_eq_true]
  constructor
  · rintro ⟨x, hx, hp⟩
    obtain ⟨hk, hp⟩ := Bool.and_eq_true_iff.mp hp
    refine ⟨x, ?_, hp⟩
    rw [h.find?_eq, ← eq_of_beq hk]
    exact h.mem_iff.mp hx
  · rintro ⟨x, hx, hp⟩
    exact ⟨x, List.mem_of_find?_eq_some hx, Bool.and_eq_true_iff.mpr
      ⟨List.find?_some (p := fun x => key x == k) hx, hp⟩⟩

theorem length_filter (p : α → Bool) : (rows.filter p).length = (m.values.filter p).length :=
  (h.perm.filter p).length_eq

theorem insert (hx : key x = k) (hk : k ∉ m) : Represents key (rows ++ [x]) (m.insert k x) := by
  refine ⟨?_, h.keys.insert hx⟩
  have hrest : m.values.filter (key · != k) = m.values :=
    List.filter_eq_self.mpr fun y hy => bne_iff_ne.mpr fun hy' =>
      hk (AList.lookup_isSome.mp (hy' ▸ h.keys.mem_values.mp hy ▸ rfl))
  rw [h.keys.values_insert, hrest]
  exact (List.perm_append_singleton x rows).trans (h.perm.cons x)

theorem delete {p : α → Bool} {q : κ → α → Bool} (hq : ∀ x, q (key x) x = p x) :
    Represents key (rows.filter p) (m.retain q) :=
  ⟨h.keys.values_retain hq ▸ h.perm.filter p, h.keys.retain q⟩

theorem erase (k : κ) : Represents key (rows.filter (key · != k)) (m.erase k) :=
  ⟨h.keys.values_erase k ▸ h.perm.filter _, h.keys.erase k⟩

/-- The row of a key and the others. -/
theorem perm_cons (hk : m.lookup k = some v) : rows.Perm (v :: rows.filter (key · != k)) := by
  have hkey := h.keys k v hk
  have hone : rows.filter (fun x => !(key x != k)) = [v] := by
    have hnodup : (rows.filter fun x => !(key x != k)).Nodup :=
      (List.Nodup.of_map key h.nodup).filter _
    refine List.perm_singleton.mp ((List.perm_ext_iff_of_nodup hnodup
      (List.nodup_singleton v)).mpr fun x => ?_)
    rw [List.mem_filter, List.mem_singleton, h.mem_iff]
    constructor
    · rintro ⟨hx, hxk⟩
      obtain rfl : key x = k := by simpa using hxk
      exact Option.some.inj (hx.symm.trans hk)
    · rintro rfl
      exact ⟨hkey.symm ▸ hk, by simp [hkey]⟩
  have hsplit := List.filter_append_perm (fun x => !(key x != k)) rows
  rw [hone] at hsplit
  simpa using hsplit.symm

theorem update {f : α → α} (hk : m.lookup k = some v) (hf : key (f v) = key v) :
    Represents key (rows.map fun x => if key x = k then f x else x) (m.insert k (f v)) := by
  have hkey := h.keys k v hk
  refine ⟨?_, h.keys.insert (hf.trans hkey)⟩
  have hrest : (rows.filter (key · != k)).map (fun x => if key x = k then f x else x) =
      rows.filter (key · != k) := by
    refine (List.map_congr_left fun x hx => ?_).trans (List.map_id _)
    exact if_neg (bne_iff_ne.mp (List.mem_filter.mp hx).2)
  have hperm := (h.perm_cons hk).map fun x => if key x = k then f x else x
  rw [List.map_cons, if_pos hkey, hrest] at hperm
  rw [h.keys.values_insert]
  exact hperm.trans ((h.perm.filter _).cons _)

/-- Without a row of this key that meets the condition nothing is updated. -/
theorem update_none {f : α → α} {p : α → Bool} (hk : (m.lookup k).any p = false) :
    (rows.map fun x => if key x == k && p x then f x else x) = rows := by
  refine (List.map_congr_left fun x hx => ?_).trans (List.map_id _)
  refine if_neg fun hp => ?_
  rw [← h.any_and] at hk
  exact List.any_eq_false.mp hk x hx hp

/-- The row of this key meets the condition. -/
theorem update_some {f : α → α} {p : α → Bool} (hk : m.lookup k = some v) (hp : p v) :
    (rows.map fun x => if key x == k && p x then f x else x) =
      rows.map fun x => if key x = k then f x else x := by
  refine List.map_congr_left fun x hx => ?_
  by_cases hxk : key x = k
  · have hx := h.mem_iff.mp hx
    rw [hxk, hk] at hx
    cases hx
    simp [hxk, hp]
  · simp [hxk]

end Represents
end Table
