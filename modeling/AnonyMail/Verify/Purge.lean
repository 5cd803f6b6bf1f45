import Mathlib.Order.MinMax
import AnonyMail.Verify.Integrity

/-! # Purging expired mailboxes

A purge collects addresses from the stored mailboxes and takes them out of three collections. Since
each mailbox is stored under its own address, this is to keep the entries that are still active, and
two purges keep what a purge at the later of their times keeps. -/

namespace AnonyMail

open MemoryStore

/-- There is a mailbox at `a`, and it is not active. -/
def expired (s : Inner) (now : DateTime) (a : String) : Bool :=
  decide (a ∈ s.mailboxes) && !mailboxIsActive s a now

/-- `s'` is `s` without the mailboxes that have expired, of which there are `n`. -/
structure Purged (s : Inner) (now : DateTime) (n : Nat) (s' : Inner) : Prop where
  count : n = (s.mailboxes.keys.filter (expired s now)).length
  mailboxes : ∀ a, s'.mailboxes.lookup a = if expired s now a then none else s.mailboxes.lookup a
  messages : s'.messages = s.messages.filter fun e => !expired s now e.message.mailboxAddress
  subscriptions : s'.subscriptions =
    s.subscriptions.filter fun x => !expired s now x.mailboxAddress
  customDomains : s'.customDomains = s.customDomains
  attestedDevices : s'.attestedDevices = s.attestedDevices

/-- Purging `s` is exact, and it composes. -/
structure Purges (s : Inner) : Prop where
  purged : ∀ now, Purged s now (purgeExpired s now).1 (purgeExpired s now).2
  active : ∀ now a, (getMailbox (purgeExpired s now).2 a).isSome = mailboxIsActive s a now
  state : ∀ t₁ t₂, (purgeExpired (purgeExpired s t₁).2 t₂).2 = (purgeExpired s (max t₁ t₂)).2
  count : ∀ t₁ t₂, (purgeExpired s t₁).1 + (purgeExpired (purgeExpired s t₁).2 t₂).1 =
    (purgeExpired s (max t₁ t₂)).1

variable {s : Inner} {now t₁ t₂ : DateTime} {a : String}

theorem expired_iff : expired s now a ↔ ∃ mb, s.mailboxes.lookup a = some mb ∧ mb.expiresAt ≤ now := by
  rw [expired, Bool.and_eq_true, decide_eq_true_iff, mem_mailboxes_iff, mailboxIsActive]
  constructor
  · rintro ⟨⟨mb, hmb⟩, hact⟩
    rw [hmb] at hact
    exact ⟨mb, hmb, by simpa using hact⟩
  · rintro ⟨mb, hmb, hx⟩
    exact ⟨⟨mb, hmb⟩, by simpa [hmb] using hx⟩

theorem expired_of_none (h : s.mailboxes.lookup a = none) : expired s now a = false := by
  rw [Bool.eq_false_iff]
  intro hx
  obtain ⟨mb, hmb, -⟩ := expired_iff.mp hx
  cases h.symm.trans hmb

theorem expired_of_some {mb : Mailbox} (h : s.mailboxes.lookup a = some mb) :
    expired s now a = decide (mb.expiresAt ≤ now) := by
  rw [Bool.eq_iff_iff, expired_iff, h]
  simp

/-- The addresses that a purge collects. -/
theorem mem_collected (hs : Named s) :
    a ∈ (s.mailboxes.values.filter fun m => m.expiresAt ≤ now).map (·.address) ↔ expired s now a := by
  rw [expired_iff, List.mem_map]
  constructor
  · rintro ⟨mb, hmb, rfl⟩
    obtain ⟨hval, hx⟩ := List.mem_filter.mp hmb
    obtain ⟨k, hk⟩ := HashMap.mem_values.mp hval
    rw [hs k mb hk]
    exact ⟨mb, hk, of_decide_eq_true hx⟩
  · rintro ⟨mb, hmb, hx⟩
    exact ⟨mb, List.mem_filter.mpr ⟨HashMap.mem_values.mpr ⟨a, hmb⟩, decide_eq_true hx⟩, hs a mb hmb⟩

/-- A purge keeps what is not at an expired address. -/
theorem purgeExpired_eq (hs : Named s) :
    purgeExpired s now = (HashMap.count (·.expiresAt ≤ now) s.mailboxes,
      { s with
        mailboxes := s.mailboxes.retain fun _ m => !decide (m.expiresAt ≤ now)
        messages := s.messages.filter fun e => !expired s now e.message.mailboxAddress
        subscriptions := s.subscriptions.filter fun x => !expired s now x.mailboxAddress }) := by
  have hcontains : ∀ a, ((s.mailboxes.values.filter fun m => m.expiresAt ≤ now).map
      (·.address)).contains a = expired s now a := by
    intro a
    rw [Bool.eq_iff_iff, List.contains_iff_mem]
    exact mem_collected hs
  have hmailboxes : s.mailboxes.eraseAll ((s.mailboxes.values.filter fun m =>
      m.expiresAt ≤ now).map (·.address)) =
      s.mailboxes.retain fun _ m => !decide (m.expiresAt ≤ now) := by
    refine HashMap.eraseAll_eq_retain fun k mb hk => ?_
    rw [mem_collected hs, expired_of_some hk]
    simp
  rw [purgeExpired]
  simp only [hcontains, hmailboxes, List.length_map, HashMap.count]

theorem Purged.of_named (hs : Named s) :
    Purged s now (purgeExpired s now).1 (purgeExpired s now).2 := by
  rw [purgeExpired_eq hs]
  refine ⟨?_, fun a => ?_, rfl, rfl, rfl, rfl⟩
  · rw [HashMap.count_eq_countP, ← List.countP_eq_length_filter, AList.keys, List.keys,
      List.countP_map]
    refine List.countP_congr fun x hx => ?_
    rw [Function.comp_apply, expired_of_some (AList.mem_lookup_iff.mpr hx)]
  · rw [HashMap.lookup_retain]
    cases hmb : s.mailboxes.lookup a with
    | none => simp
    | some mb =>
      rw [Option.filter_some, expired_of_some hmb]
      cases decide (mb.expiresAt ≤ now) <;> rfl

theorem getMailbox_purgeExpired (hs : Named s) :
    (getMailbox (purgeExpired s now).2 a).isSome = mailboxIsActive s a now := by
  rw [getMailbox, (Purged.of_named hs).mailboxes, mailboxIsActive]
  cases hmb : s.mailboxes.lookup a with
  | none => simp
  | some mb =>
    rw [expired_of_some hmb, Option.any_some]
    by_cases hx : mb.expiresAt ≤ now
    · simp [hx]
    · simp [hx, not_le.mp hx]

theorem Named.purgeExpired (hs : Named s) : Named (purgeExpired s now).2 := by
  intro a mb hmb
  rw [(Purged.of_named hs).mailboxes, Option.ite_none_left_eq_some] at hmb
  exact hs a mb hmb.2

/-- What has expired by the later time has expired by the earlier one, or expires at the second of
two purges. -/
theorem expired_max (hs : Named s) : expired s (max t₁ t₂) a =
    (expired s t₁ a || expired (MemoryStore.purgeExpired s t₁).2 t₂ a) := by
  cases hmb : s.mailboxes.lookup a with
  | none =>
    rw [expired_of_none hmb, expired_of_none hmb, expired_of_none, Bool.or_false]
    rw [(Purged.of_named hs).mailboxes, hmb, ite_self]
  | some mb =>
    rw [expired_of_some hmb, expired_of_some hmb]
    by_cases hx : mb.expiresAt ≤ t₁
    · simp [hx]
    · have hkept : (MemoryStore.purgeExpired s t₁).2.mailboxes.lookup a = some mb := by
        rw [(Purged.of_named hs).mailboxes, expired_of_some hmb, hmb]
        simp [hx]
      rw [expired_of_some hkept]
      simp [hx]

theorem purgeExpired_purgeExpired (hs : Named s) :
    (purgeExpired (purgeExpired s t₁).2 t₂).2 = (purgeExpired s (max t₁ t₂)).2 := by
  have hx : ∀ a, (!expired s (max t₁ t₂) a) =
      (!expired (purgeExpired s t₁).2 t₂ a && !expired s t₁ a) := by
    intro a
    rw [expired_max hs, Bool.not_or, Bool.and_comm]
  have hmax : ∀ x : DateTime, (!decide (x ≤ max t₁ t₂)) = (!decide (x ≤ t₁) && !decide (x ≤ t₂)) := by
    intro x
    rw [← Bool.not_or, ← Bool.decide_or]
    simp only [le_max_iff]
  rw [purgeExpired_eq hs.purgeExpired, @purgeExpired_eq s (max t₁ t₂) hs]
  simp only [hx, hmax]
  rw [@purgeExpired_eq s t₁ hs]
  simp only [List.filter_filter, HashMap.retain_retain]

theorem count_purgeExpired (hs : Named s) :
    (purgeExpired s t₁).1 + (purgeExpired (purgeExpired s t₁).2 t₂).1 =
      (purgeExpired s (max t₁ t₂)).1 := by
  rw [purgeExpired_eq hs.purgeExpired, purgeExpired_eq hs, purgeExpired_eq hs]
  refine HashMap.count_add_count_retain fun mb => ?_
  simp [Bool.decide_or]

theorem named_storeAfter (quotas : MailboxQuotas) (calls : List StoreCall) :
    Named (storeAfter quotas calls) := by
  induction calls using List.reverseRecOn with
  | nil => exact fun _ _ h => by cases h
  | append_singleton calls call ih =>
    obtain ⟨op, now, ids⟩ := call
    rw [storeAfter_concat]
    exact ih.apply

/-- In every state of the store, a purge removes what is not active and nothing else, and two purges
are one at the later time. -/
theorem purges_storeAfter (quotas : MailboxQuotas) (calls : List StoreCall) :
    Purges (storeAfter quotas calls) := by
  have hs := named_storeAfter quotas calls
  exact ⟨fun _ => .of_named hs, fun _ _ => getMailbox_purgeExpired hs,
    fun _ _ => purgeExpired_purgeExpired hs, fun _ _ => count_purgeExpired hs⟩

end AnonyMail
