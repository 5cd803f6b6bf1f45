import Mathlib.Data.List.Induction
import AnonyMail.Verify.Frames
import AnonyMail.Verify.Quotas

/-! # Referential integrity of the in-memory store

The SQL schemas refuse a message or a subscription for a mailbox that does not exist. The in-memory
store has no such check: `save_message` and `add_subscription` leave something behind for the next
mailbox of that address, and these two are the only methods that do. -/

namespace AnonyMail

open MemoryStore KeyedList

/-- The addresses of the messages and subscriptions. -/
def MemoryStore.Inner.occupied (s : Inner) : List String :=
  s.messages.map (·.message.mailboxAddress) ++ s.subscriptions.map (·.mailboxAddress)

/-- Every message and every subscription belongs to a mailbox that exists. -/
def Intact (s : Inner) : Prop := ∀ a ∈ s.occupied, a ∈ s.mailboxes

/-- The address to which a call adds something. -/
def StoreOp.deposits : StoreOp → Option String
  | .saveMessage a _ | .addSubscription a .. => some a
  | _ => none

variable {q : MailboxQuotas} {s : Inner} {now : DateTime} {ids : List Uuid} {a b : String}

theorem mem_occupied : a ∈ s.occupied ↔
    (∃ e ∈ s.messages, e.message.mailboxAddress = a) ∨
      ∃ x ∈ s.subscriptions, x.mailboxAddress = a := by
  simp only [Inner.occupied, List.mem_append, List.mem_map]

theorem occupied_mono {s' : Inner} (ha : a ∈ s'.occupied) (hm : s'.messages ⊆ s.messages)
    (hx : s'.subscriptions ⊆ s.subscriptions) : a ∈ s.occupied := by
  obtain ⟨e, he, h⟩ | ⟨x, hx', h⟩ := mem_occupied.mp ha
  · exact mem_occupied.mpr (.inl ⟨e, hm he, h⟩)
  · exact mem_occupied.mpr (.inr ⟨x, hx hx', h⟩)

/-! ## One call -/

/-- Where something is after a call, it was before, unless the call has put it there; and the call
has not removed the mailbox. -/
theorem occupied_apply (op : StoreOp) (ha : a ∈ (op.apply q s now ids).2.occupied) :
    op.deposits = some a ∨ a ∈ s.occupied ∧ op ≠ .deleteMailbox a ∧
      ∀ t mb, op = .purgeExpired t → mb ∈ s.mailboxes.values → mb.address = a → t < mb.expiresAt := by
  cases op with
  | deleteMailbox b =>
    refine .inr ⟨occupied_mono ha (List.filter_subset_self ..) (List.filter_subset_self ..), ?_, by simp⟩
    rintro ⟨⟩
    obtain ⟨e, he, rfl⟩ | ⟨x, hx, rfl⟩ := mem_occupied.mp ha
    · simp [StoreOp.apply, deleteMailbox] at he
    · simp [StoreOp.apply, deleteMailbox] at hx
  | purgeExpired t =>
    refine .inr ⟨occupied_mono ha (List.filter_subset_self ..) (List.filter_subset_self ..), by simp, ?_⟩
    rintro _ mb ⟨⟩ hmb haddr
    refine not_le.mp fun hle => ?_
    have hexp : a ∈ (s.mailboxes.values.filter fun m => m.expiresAt ≤ t).map (·.address) :=
      List.mem_map.mpr ⟨mb, List.mem_filter.mpr ⟨hmb, decide_eq_true hle⟩, haddr⟩
    obtain ⟨e, he, rfl⟩ | ⟨x, hx, rfl⟩ := mem_occupied.mp ha
    · have hkept := (List.mem_filter.mp he).2
      rw [List.contains_iff_mem.mpr hexp] at hkept
      cases hkept
    · have hkept := (List.mem_filter.mp hx).2
      rw [List.contains_iff_mem.mpr hexp] at hkept
      cases hkept
  | saveMessage b m =>
    obtain ⟨e, he, rfl⟩ | hx := mem_occupied.mp ha
    · obtain he | he := List.mem_append.mp (mem_enforceQuotas.mp he).1
      · exact .inr ⟨mem_occupied.mpr (.inl ⟨e, he, rfl⟩), by simp, by simp⟩
      · cases List.mem_singleton.mp he
        exact .inl rfl
    · exact .inr ⟨mem_occupied.mpr (.inr hx), by simp, by simp⟩
  | addSubscription b kind endpoint p256dh auth limit =>
    rw [StoreOp.apply, addSubscription] at ha
    split at ha
    · refine .inr ⟨?_, by simp, by simp⟩
      simpa [Inner.occupied, refresh_eq, map_updateFirst] using ha
    · dsimp only at ha
      split at ha
      · exact .inr ⟨ha, by simp, by simp⟩
      · obtain he | ⟨x, hx, rfl⟩ := mem_occupied.mp ha
        · exact .inr ⟨mem_occupied.mpr (.inl he), by simp, by simp⟩
        · obtain hx | hx := List.mem_append.mp hx
          · exact .inr ⟨mem_occupied.mpr (.inr ⟨x, hx, rfl⟩), by simp, by simp⟩
          · cases List.mem_singleton.mp hx
            exact .inl rfl
  | markSeen b id =>
    refine .inr ⟨?_, by simp, by simp⟩
    simpa [Inner.occupied, StoreOp.apply, markSeen, setSeen_eq, map_updateFirst] using ha
  | deleteMessage | deleteAllMessages =>
    exact .inr ⟨occupied_mono ha (List.filter_subset_self ..) (List.Subset.refl _), by simp, by simp⟩
  | deleteSubscription =>
    exact .inr ⟨occupied_mono ha (List.Subset.refl _) (List.filter_subset_self ..), by simp, by simp⟩
  | createMailbox | extendMailbox | rotateOwnerToken | createCustomDomain | recordCustomDomainCheck
  | advanceAttestedDeviceCounter =>
    refine .inr ⟨?_, by simp, by simp⟩
    simp only [StoreOp.apply, createMailbox, extendMailbox, rotateOwnerToken, createCustomDomain,
      recordCustomDomainCheck, advanceAttestedDeviceCounter] at ha
    split at ha
    all_goals first | exact ha | (split at ha <;> exact ha)
  | _ => exact .inr ⟨ha, by simp, by simp⟩

/-- A mailbox stays unless it is deleted or purged. -/
theorem mem_mailboxes_apply (op : StoreOp) (ha : a ∈ s.mailboxes) (hdel : op ≠ .deleteMailbox a)
    (hpurge : ∀ t mb, op = .purgeExpired t → mb ∈ s.mailboxes.values → mb.address = a →
      t < mb.expiresAt) : a ∈ (op.apply q s now ids).2.mailboxes := by
  rw [mem_mailboxes_iff] at ha ⊢
  obtain h | ⟨-, _, _, _, _, -, h⟩ | ⟨x, mb, -, -, h⟩ | ⟨hash, mb, -, -, h⟩ | ⟨hop, -⟩ |
    ⟨t, mb, hop, hmb, haddr, hle, -⟩ := mailbox_apply op a
  · rwa [h]
  · exact ⟨_, h⟩
  · exact ⟨_, h⟩
  · exact ⟨_, h⟩
  · exact absurd hop hdel
  · exact absurd hle (not_le.mpr (hpurge t mb hop hmb haddr))

theorem deposits_mailboxes {op : StoreOp} (hop : op.deposits = some a) :
    (op.apply q s now ids).2.mailboxes = s.mailboxes := by
  cases op with
  | saveMessage => rfl
  | addSubscription =>
    simp only [StoreOp.apply, addSubscription]
    repeat' split
    all_goals rfl
  | _ => cases hop

theorem Intact.apply {op : StoreOp} (hs : Intact s)
    (hdep : ∀ a, op.deposits = some a → a ∈ s.mailboxes) : Intact (op.apply q s now ids).2 := by
  intro a ha
  obtain hop | ⟨ha, hdel, hpurge⟩ := occupied_apply op ha
  · rw [deposits_mailboxes hop]
    exact hdep a hop
  · exact mem_mailboxes_apply op (hs a ha) hdel hpurge

/-! ## Deposits for a mailbox that does not exist -/

/-- The first message of a mailbox is kept, whatever the quotas are. -/
theorem occupied_saveMessage {m : NewMessage} {id : Uuid} {attachmentIds : List Uuid}
    (hfree : a ∉ s.occupied) : a ∈ (saveMessage q s a m id attachmentIds now).2.occupied := by
  have hnone : ∀ e ∈ s.messages, e.message.mailboxAddress ≠ a :=
    fun e he h => hfree (mem_occupied.mpr (.inl ⟨e, he, h⟩))
  refine mem_occupied.mpr (.inl ⟨_, mem_enforceQuotas.mpr
    ⟨List.mem_append_right _ (List.mem_singleton_self _), ?_⟩, rfl⟩)
  have hsorted : ∀ e : MemoryStore.Entry, e.message.mailboxAddress = a →
      newestFirstOf (s.messages ++ [e]) a = [e.row] := by
    intro e he
    have hperm := @newestFirstOf_concat s.messages a e he
    rw [List.filter_eq_nil_iff.mpr fun x hx => by simpa using hnone x hx] at hperm
    exact List.perm_singleton.mp hperm
  rw [evicted, hsorted _ rfl, List.mem_append, not_or]
  refine ⟨?_, ?_⟩
  · split
    · next hpos => simp [List.drop_eq_nil_of_le, Nat.one_le_iff_ne_zero.mpr hpos.ne']
    · exact List.not_mem_nil
  · split
    · exact not_mem_overBytes
    · exact List.not_mem_nil

theorem occupied_addSubscription {kind : SubscriptionKind} {endpoint p256dh auth : String}
    {limit : Nat} {id : Uuid} (hfree : a ∉ s.occupied) :
    a ∈ (addSubscription s a kind endpoint p256dh auth limit id now).2.occupied := by
  have hnone : ∀ x ∈ s.subscriptions, x.mailboxAddress ≠ a :=
    fun x hx h => hfree (mem_occupied.mpr (.inr ⟨x, hx, h⟩))
  have hfind : (s.subscriptions.find? fun x => x.mailboxAddress == a && x.endpoint == endpoint) =
      none := List.find?_eq_none.mpr fun x hx => by simp [hnone x hx]
  have hcount : (s.subscriptions.filter fun x => x.mailboxAddress == a) = [] :=
    List.filter_eq_nil_iff.mpr fun x hx => by simpa using hnone x hx
  rw [addSubscription, hfind]
  simp only [hcount, List.length_nil]
  rw [if_neg (by omega)]
  exact mem_occupied.mpr (.inr ⟨⟨id, a, kind, endpoint, p256dh, auth, now⟩, by simp, rfl⟩)

/-- From a state that is intact, a call leads to one exactly if what it adds has a mailbox. -/
theorem intact_apply_iff (op : StoreOp) (hs : Intact s) :
    Intact (op.apply q s now ids).2 ↔ ∀ a, op.deposits = some a → a ∈ s.mailboxes := by
  refine ⟨fun h a hop => ?_, hs.apply⟩
  by_contra hmem
  refine hmem (deposits_mailboxes hop ▸ h a ?_)
  have hfree : a ∉ s.occupied := fun ha => hmem (hs a ha)
  cases op with
  | saveMessage => cases hop; exact occupied_saveMessage hfree
  | addSubscription => cases hop; exact occupied_addSubscription hfree
  | _ => cases hop

/-! ## Runs -/

theorem storeAfter_concat (quotas : MailboxQuotas) (calls : List StoreCall) (op : StoreOp)
    (now : DateTime) (ids : List Uuid) : storeAfter quotas (calls ++ [(op, now, ids)]) =
      (op.apply quotas (storeAfter quotas calls) now ids).2 := by
  rw [storeAfter, List.foldl_append]
  rfl

/-- The states of the run, and what a mailbox has that is created in one of them. -/
structure Integral (quotas : MailboxQuotas) (calls : List StoreCall) : Prop where
  intact : ∀ pre, pre <+: calls → Intact (storeAfter quotas pre)
  fresh : ∀ pre, pre <+: calls → ∀ a d x o dev now mb s',
    createMailbox (storeAfter quotas pre) a d x o dev now = (.ok mb, s') →
    (∀ limit since, listMessages s' a limit since = []) ∧ listSubscriptions s' a = []

/-- A mailbox that is created while the store is intact is empty. -/
theorem Intact.createMailbox_empty {d : String} {x : DateTime} {o dev : Option String} {mb : Mailbox}
    {s' : Inner} (hs : Intact s) (h : createMailbox s a d x o dev now = (.ok mb, s')) :
    (∀ limit since, listMessages s' a limit since = []) ∧ listSubscriptions s' a = [] := by
  rw [createMailbox] at h
  split at h
  · cases h
  next hmem =>
  cases h
  have hfree : a ∉ s.occupied := fun ha => hmem (hs a ha)
  have hmsg : (s.messages.filter fun e => e.message.mailboxAddress == a) = [] :=
    List.filter_eq_nil_iff.mpr fun e he h =>
      hfree (mem_occupied.mpr (.inl ⟨e, he, eq_of_beq h⟩))
  refine ⟨fun limit since => ?_, ?_⟩
  · simp [listMessages, hmsg]
  · exact List.filter_eq_nil_iff.mpr fun x hx h =>
      hfree (mem_occupied.mpr (.inr ⟨x, hx, eq_of_beq h⟩))

/-- What each call of the run adds has a mailbox when the call is made. -/
def Addressed (quotas : MailboxQuotas) (calls : List StoreCall) : Prop :=
  ∀ pre op now ids post, calls = pre ++ (op, now, ids) :: post →
    ∀ a, op.deposits = some a → a ∈ (storeAfter quotas pre).mailboxes

theorem intact_of_addressed {quotas : MailboxQuotas} {calls : List StoreCall}
    (h : Addressed quotas calls) : Intact (storeAfter quotas calls) := by
  induction calls using List.reverseRecOn with
  | nil => exact fun _ ha => absurd ha List.not_mem_nil
  | append_singleton calls call ih =>
    obtain ⟨op, now, ids⟩ := call
    rw [storeAfter_concat]
    refine (ih fun pre op' now' ids' post hcalls => ?_).apply fun a hop => ?_
    · exact h pre op' now' ids' (post ++ [(op, now, ids)]) (by simp [hcalls])
    · exact h calls op now ids [] rfl a hop

/-- The store is intact throughout a run exactly if each message and each subscription is added to a
mailbox that exists. -/
theorem integral_iff (quotas : MailboxQuotas) (calls : List StoreCall) :
    Integral quotas calls ↔ Addressed quotas calls := by
  constructor
  · rintro ⟨hintact, -⟩ pre op now ids post rfl
    have hpre := hintact pre (List.prefix_append ..)
    have hpost := hintact (pre ++ [(op, now, ids)]) ⟨post, by simp⟩
    rw [storeAfter_concat] at hpost
    exact (intact_apply_iff op hpre).mp hpost
  · intro h
    have hintact : ∀ pre, pre <+: calls → Intact (storeAfter quotas pre) := by
      rintro pre ⟨post, rfl⟩
      refine intact_of_addressed fun pre' op now ids post' hpre => ?_
      exact h pre' op now ids (post' ++ post) (by simp [hpre])
    exact ⟨hintact, fun pre hpre _ _ _ _ _ _ _ _ hc => (hintact pre hpre).createMailbox_empty hc⟩

/-- A message is saved after its mailbox has been deleted, as happens when an owner deletes the
mailbox between RCPT and the end of DATA. -/
theorem not_integral : ¬∀ quotas calls, Integral quotas calls := by
  intro H
  have hintact := (H .unlimited
    [(.createMailbox "a@example.com" "example.com" 10 none none, 0, []),
      (.deleteMailbox "a@example.com", 1, []),
      (.saveMessage "a@example.com" emptyMessage, 2, [1])]).intact _ (List.prefix_refl _)
  have hmem := hintact "a@example.com" (by decide +kernel)
  revert hmem
  decide +kernel

end AnonyMail
