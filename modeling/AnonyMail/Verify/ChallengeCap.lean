import Mathlib.Data.List.Induction
import AnonyMail.Attest
import AnonyMail.Lib.Encoding

/-! # The cap on outstanding challenges

The sweeps drop what is old, and the insertion that follows does not ask what they have dropped. So
the cap is kept exactly as long as each challenge that is issued at the cap finds one that has spent
half its time. -/

namespace AnonyMail

open ChallengeStore Encoding

inductive ChallengeCall
  /-- The random bytes, and the clock reading before the lock is taken. -/
  | issue (bytes : Vector UInt8 32) (now : Instant)
  | consume (challenge : String) (now : Instant)

namespace ChallengeCall

def time : ChallengeCall → Instant
  | issue _ now | consume _ now => now

def apply (ttl : Nat) (issued : ChallengeStore) : ChallengeCall → ChallengeStore
  | issue bytes now => issued.issueWithin ttl (base64Url bytes.toList) now
  | consume challenge now => (issued.consumeWithin ttl challenge now).2

/-- A call that issues a challenge has room for it, draws one that is outstanding, or finds one that
has spent half its time. -/
def HasRoom (ttl : Nat) (issued : ChallengeStore) : ChallengeCall → Prop
  | issue bytes now => issued.entries.length < maxOutstandingChallenges ∨
    base64Url bytes.toList ∈ issued ∨ ∃ x t, issued.lookup x = some t ∧ ttl / 2 ≤ now - t
  | consume _ _ => True

end ChallengeCall

namespace ChallengeStore

/-- The store after these calls. -/
def after (ttl : Nat) (calls : List ChallengeCall) : ChallengeStore :=
  calls.foldl (ChallengeCall.apply ttl) ∅

variable {ttl : Nat} {issued : ChallengeStore} {challenge : String} {now : Instant}
  {calls : List ChallengeCall} {call : ChallengeCall}

/-- What `issue` leaves before it inserts. -/
def swept (ttl : Nat) (issued : ChallengeStore) (now : Instant) : ChallengeStore :=
  if issued.entries.length ≥ maxOutstandingChallenges then
    if (issued.retain fun _ t => now - t < ttl).entries.length ≥ maxOutstandingChallenges then
      (issued.retain fun _ t => now - t < ttl).retain fun _ t => now - t < ttl / 2
    else issued.retain fun _ t => now - t < ttl
  else issued

theorem issueWithin_eq : issued.issueWithin ttl challenge now =
    (issued.swept ttl now).insert challenge now := rfl

theorem swept_of_lt (h : issued.entries.length < maxOutstandingChallenges) :
    issued.swept ttl now = issued := if_neg (Nat.not_le.mpr h)

/-- Nothing is dropped if all challenges are young. -/
theorem swept_of_young (h : ∀ x t, issued.lookup x = some t → now - t < ttl / 2) :
    issued.swept ttl now = issued := by
  have hall : issued.retain (fun _ t => decide (now - t < ttl)) = issued :=
    HashMap.retain_eq_self fun x t hx => decide_eq_true
      (Nat.lt_of_lt_of_le (h x t hx) (Nat.div_le_self ttl 2))
  have hhalf : issued.retain (fun _ t => decide (now - t < ttl / 2)) = issued :=
    HashMap.retain_eq_self fun x t hx => decide_eq_true (h x t hx)
  simp only [swept, hall, hhalf, ite_self]

theorem lookup_swept {x : String} {t : Instant} (hx : issued.lookup x = some t)
    (ht : now - t < ttl / 2) : (issued.swept ttl now).lookup x = some t := by
  have ht' : now - t < ttl := Nat.lt_of_lt_of_le ht (Nat.div_le_self ttl 2)
  have hkept : (issued.retain fun _ t => decide (now - t < ttl)).lookup x = some t := by
    rw [HashMap.lookup_retain, hx, Option.filter_some, if_pos (decide_eq_true ht')]
  rw [swept]
  split
  · split
    · rw [HashMap.lookup_retain, hkept, Option.filter_some, if_pos (decide_eq_true ht)]
    · exact hkept
  · exact hx

/-- At the cap, a challenge that is not young makes room. -/
theorem length_swept_lt {x : String} {t : Instant}
    (hle : issued.entries.length ≤ maxOutstandingChallenges) (hx : issued.lookup x = some t)
    (ht : ttl / 2 ≤ now - t) : (issued.swept ttl now).entries.length < maxOutstandingChallenges := by
  rw [swept]
  split
  · split
    · next hfull =>
      have hkept : now - t < ttl := by
        by_contra hold
        have hlt := HashMap.length_retain_lt (p := fun _ t => decide (now - t < ttl)) hx
          (by simpa using hold)
        omega
      have hx' : (issued.retain fun _ t => decide (now - t < ttl)).lookup x = some t := by
        rw [HashMap.lookup_retain, hx, Option.filter_some, if_pos (decide_eq_true hkept)]
      refine Nat.lt_of_lt_of_le (HashMap.length_retain_lt hx' ?_)
        (Nat.le_trans (HashMap.length_retain_le ..) hle)
      simpa using ht
    · next hroom => exact Nat.lt_of_not_le hroom
  · next hroom => exact Nat.lt_of_not_le hroom

theorem length_swept_le (hle : issued.entries.length ≤ maxOutstandingChallenges) :
    (issued.swept ttl now).entries.length ≤ maxOutstandingChallenges := by
  rw [swept]
  split
  · split
    · exact Nat.le_trans (HashMap.length_retain_le ..)
        (Nat.le_trans (HashMap.length_retain_le ..) hle)
    · exact Nat.le_trans (HashMap.length_retain_le ..) hle
  · exact hle

/-- Within the cap, a call stays within it exactly if it has room. -/
theorem length_apply_le_iff (hle : issued.entries.length ≤ maxOutstandingChallenges) :
    (call.apply ttl issued).entries.length ≤ maxOutstandingChallenges ↔
      call.HasRoom ttl issued := by
  cases call with
  | consume challenge now =>
    refine iff_of_true ?_ trivial
    exact Nat.le_trans (List.kerase_sublist _ _).length_le hle
  | issue bytes now =>
    rw [ChallengeCall.apply, issueWithin_eq, HashMap.length_insert, ChallengeCall.HasRoom]
    constructor
    · intro h
      by_contra hroom
      rw [not_or, not_or] at hroom
      obtain ⟨hfull, hnew, hyoung⟩ := hroom
      have hsame : issued.swept ttl now = issued := by
        refine swept_of_young fun x t hx => Nat.lt_of_not_le fun ht => hyoung ⟨x, t, hx, ht⟩
      rw [hsame, if_neg hnew] at h
      exact hfull h
    · intro hroom
      split
      · exact length_swept_le hle
      next hnew =>
      rcases hroom with hlt | hmem | ⟨x, t, hx, ht⟩
      · rw [swept_of_lt hlt]
        exact hlt
      · obtain ⟨t, ht⟩ := Option.isSome_iff_exists.mp (AList.lookup_isSome.mpr hmem)
        rcases Nat.lt_or_ge (now - t) (ttl / 2) with hyoung | hold
        · refine absurd (AList.lookup_isSome.mp ?_) hnew
          rw [lookup_swept ht hyoung]
          rfl
        · exact length_swept_lt hle ht hold
      · exact length_swept_lt hle hx ht

theorem after_concat : after ttl (calls ++ [call]) = call.apply ttl (after ttl calls) := by
  rw [after, List.foldl_append]
  rfl

/-- A run keeps the cap exactly if each of its calls has room. -/
theorem capped_iff (ttl : Nat) (calls : List ChallengeCall) :
    (∀ before, before <+: calls → (after ttl before).entries.length ≤ maxOutstandingChallenges) ↔
      ∀ before call rest, calls = before ++ call :: rest → call.HasRoom ttl (after ttl before) := by
  constructor
  · rintro h before call rest rfl
    have hbefore := h before (List.prefix_append ..)
    have hcall := h (before ++ [call]) ⟨rest, by simp⟩
    rw [after_concat] at hcall
    exact (length_apply_le_iff hbefore).mp hcall
  · intro h before
    induction before using List.reverseRecOn with
    | nil => exact fun _ => Nat.zero_le _
    | append_singleton before call ih =>
      rintro ⟨rest, hcalls⟩
      rw [List.append_assoc, List.singleton_append] at hcalls
      rw [after_concat]
      exact (length_apply_le_iff (ih ⟨_, hcalls⟩)).mpr (h before call rest hcalls.symm)

/-! ## A flood -/

/-- While all challenges are young, each new one is added. -/
theorem length_flood {bytes : List (Vector UInt8 32)} {now : Instant} (hpos : 0 < ttl / 2)
    (hnodup : bytes.Nodup) :
    (after ttl (bytes.map (.issue · now))).entries.length = bytes.length ∧
      (∀ x t, (after ttl (bytes.map (.issue · now))).lookup x = some t →
        t = now ∧ ∃ b ∈ bytes, x = base64Url b.toList) := by
  induction bytes using List.reverseRecOn with
  | nil => exact ⟨rfl, fun x t h => by cases h⟩
  | append_singleton bytes b ih =>
    obtain ⟨hbytes, -, hcross⟩ := List.nodup_append.mp hnodup
    obtain ⟨hlen, hlookup⟩ := ih hbytes
    have hyoung : (after ttl (bytes.map (.issue · now))).swept ttl now =
        after ttl (bytes.map (.issue · now)) := by
      refine swept_of_young fun x t hx => ?_
      rw [(hlookup x t hx).1, Nat.sub_self]
      exact hpos
    have hnew : base64Url b.toList ∉ after ttl (bytes.map (.issue · now)) := by
      intro hmem
      obtain ⟨t, ht⟩ := Option.isSome_iff_exists.mp (AList.lookup_isSome.mpr hmem)
      obtain ⟨-, b', hb', heq⟩ := hlookup _ t ht
      exact hcross b' hb' b (List.mem_singleton_self b) (Vector.toList_inj.mp (base64Url_inj heq)).symm
    rw [List.map_append, List.map_singleton, after_concat, ChallengeCall.apply, issueWithin_eq, hyoung]
    constructor
    · rw [HashMap.length_insert, if_neg hnew, hlen, List.length_append, List.length_singleton]
    · intro x t hx
      rcases eq_or_ne x (base64Url b.toList) with rfl | hne
      · rw [AList.lookup_insert, Option.some.injEq] at hx
        exact ⟨hx.symm, b, by simp, rfl⟩
      · rw [AList.lookup_insert_ne hne] at hx
        obtain ⟨ht, b', hb', heq⟩ := hlookup x t hx
        exact ⟨ht, b', List.mem_append_left _ hb', heq⟩

/-- The `n`-th of many different arrays. -/
def nthBytes (n : Nat) : Vector UInt8 32 := .ofFn fun i => .ofNat (n / 256 ^ i.val)

theorem nthBytes_inj {n n' : Nat} (hn : n < 256 ^ 3) (hn' : n' < 256 ^ 3)
    (h : nthBytes n = nthBytes n') : n = n' := by
  have hbyte : ∀ i : Fin 32, n / 256 ^ i.val % 256 = n' / 256 ^ i.val % 256 := by
    intro i
    have hi := congrArg (fun v : Vector UInt8 32 => v[i].toNat) h
    simpa [nthBytes] using hi
  have h₀ : n % 256 = n' % 256 := by simpa using hbyte 0
  have h₁ : n / 256 % 256 = n' / 256 % 256 := by simpa using hbyte 1
  have h₂ : n / 65536 % 256 = n' / 65536 % 256 := by simpa using hbyte 2
  omega

/-- One challenge more than the cap, all at one time. -/
def flood : List ChallengeCall :=
  ((List.range (maxOutstandingChallenges + 1)).map nthBytes).map (.issue · 0)

theorem nodup_nthBytes {n : Nat} (hn : n ≤ 256 ^ 3) : ((List.range n).map nthBytes).Nodup := by
  refine List.Nodup.map_on (fun a ha b hb hab => ?_) List.nodup_range
  rw [List.mem_range] at ha hb
  exact nthBytes_inj (by omega) (by omega) hab

/-- A flood within one instant passes the cap, with the TTL that the server uses. -/
theorem not_capped : ¬∀ ttl, 0 < ttl → ∀ calls : List ChallengeCall,
    calls.Pairwise (fun c c' => c.time ≤ c'.time) → ∀ before, before <+: calls →
      (after ttl before).entries.length ≤ maxOutstandingChallenges := by
  intro h
  have hsorted : flood.Pairwise fun c c' => c.time ≤ c'.time :=
    List.pairwise_map.mpr (List.pairwise_of_forall fun _ _ => le_refl 0)
  have hle := h ChallengeStore.ttl (by decide) flood hsorted flood (List.prefix_refl _)
  have hnodup := nodup_nthBytes (n := maxOutstandingChallenges + 1) (by decide)
  rw [flood, (length_flood (by decide) hnodup).1, List.length_map, List.length_range] at hle
  omega

end ChallengeStore
end AnonyMail
