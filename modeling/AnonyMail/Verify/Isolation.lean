import AnonyMail.Verify.Quotas

/-! # Isolation of mailboxes

All mailboxes share the vectors of the in-memory store. `Inner.view a` is the part of a state that
belongs to the mailbox `a`. A call addressed to another mailbox leaves it as it is, and a call
addressed to `a` reads nothing else. Quotas evict by message id alone, so the first of these needs
that ids do not repeat among the messages of a store. -/

namespace AnonyMail

open MemoryStore KeyedList

/-- What belongs to one mailbox. -/
structure View where
  row : Option Mailbox
  messages : List MemoryStore.Entry
  subscriptions : List PushSubscription
  deriving DecidableEq

def MemoryStore.Inner.view (s : Inner) (a : String) : View where
  row := s.mailboxes.lookup a
  messages := s.messages.filter fun e => e.message.mailboxAddress == a
  subscriptions := s.subscriptions.filter fun x => x.mailboxAddress == a

/-- The mailbox that a call is addressed to. -/
def StoreOp.target : StoreOp → Option String
  | .createMailbox a .. | .getMailbox a | .mailboxIsActive a _ | .extendMailbox a _
  | .deleteMailbox a | .rotateOwnerToken a _ | .saveMessage a _ | .listMessages a .. | .getMessage a _
  | .getRawMessage a _ | .getAttachment a .. | .deleteMessage a _ | .markSeen a _
  | .deleteAllMessages a | .addSubscription a .. | .listSubscriptions a
  | .deleteSubscription a _ => some a
  | _ => none

/-- The UUIDs that a call draws are as many as it needs, and none is in use as a message id. -/
structure Fresh (s : Inner) (op : StoreOp) (ids : List Uuid) : Prop where
  length : ids.length = op.uuids
  unused : ∀ e ∈ s.messages, e.message.id ∉ ids

/-- The states of a store, whatever its quotas are. -/
inductive Reachable : Inner → Prop
  | empty : Reachable .empty
  | call {q : MailboxQuotas} {s : Inner} {op : StoreOp} {now : DateTime} {ids : List Uuid} :
    Reachable s → Fresh s op ids → Reachable (op.apply q s now ids).2

variable {q : MailboxQuotas} {s s' : Inner} {op : StoreOp} {now : DateTime} {ids : List Uuid}
  {a b : String} {id : Uuid} {l : List MemoryStore.Entry}

/-! ## Message ids do not repeat -/

def Distinct (l : List MemoryStore.Entry) : Prop := (l.map (·.message.id)).Nodup

theorem Distinct.filter {p : MemoryStore.Entry → Bool} (h : Distinct l) : Distinct (l.filter p) :=
  h.sublist (List.filter_sublist.map _)

/-- The UUID of a message is among those drawn. -/
theorem Fresh.headD_mem {m : NewMessage} (h : Fresh s (.saveMessage a m) ids) : ids.headD 0 ∈ ids := by
  cases ids with
  | nil => exact absurd h.length.symm (Nat.succ_ne_zero _)
  | cons id ids => exact List.mem_cons_self

theorem Distinct.apply (h : Distinct s.messages) (hfresh : Fresh s op ids) :
    Distinct (op.apply q s now ids).2.messages := by
  cases op with
  | deleteMailbox | purgeExpired | deleteMessage | deleteAllMessages => exact h.filter
  | saveMessage b m =>
    rw [StoreOp.apply, saveMessage, enforceQuotas_eq_filter]
    refine Distinct.filter ?_
    rw [Distinct, List.map_append, List.map_singleton, ← List.concat_eq_append]
    refine h.concat fun hid => ?_
    obtain ⟨e, he, hid⟩ := List.mem_map.mp hid
    exact hfresh.unused e he (hid ▸ hfresh.headD_mem)
  | markSeen b id =>
    show ((setSeen b id s.messages).map (·.message.id)).Nodup
    rw [setSeen_eq, map_updateFirst]
    · exact h
    · exact fun _ => rfl
  | createMailbox | extendMailbox | rotateOwnerToken | addSubscription | createCustomDomain
  | recordCustomDomainCheck | advanceAttestedDeviceCounter =>
    simp only [StoreOp.apply, createMailbox, extendMailbox, rotateOwnerToken, addSubscription,
      createCustomDomain, recordCustomDomainCheck, advanceAttestedDeviceCounter]
    repeat' split
    all_goals exact h
  | _ => exact h

theorem Reachable.distinct (h : Reachable s) : Distinct s.messages := by
  induction h with
  | empty => exact List.nodup_nil
  | call _ hfresh ih => exact ih.apply hfresh

/-! ## Calls addressed to another mailbox -/

/-- Quotas drop messages of their mailbox only. -/
theorem mem_evicted (h : id ∈ evicted l b newId q) :
    ∃ e ∈ l, e.message.mailboxAddress = b ∧ e.message.id = id := by
  have hsorted : ∀ x ∈ newestFirstOf l b, ∃ e ∈ l, e.message.mailboxAddress = b ∧
      e.message.id = x.2.1 := by
    intro x hx
    obtain ⟨e, he, rfl⟩ := List.mem_map.mp ((List.perm_insertionSort _ _).mem_iff.mp hx)
    obtain ⟨he, hb⟩ := List.mem_filter.mp he
    exact ⟨e, he, eq_of_beq hb, rfl⟩
  have hbytes : ∀ (maxBytes running : Nat) (xs : List (DateTime × Uuid × Nat)),
      id ∈ overBytes maxBytes newId running xs → ∃ x ∈ xs, x.2.1 = id := by
    intro maxBytes running xs hid
    induction xs generalizing running with
    | nil => cases hid
    | cons x xs ih =>
      rw [overBytes] at hid
      split at hid
      · obtain rfl | hid := List.mem_cons.mp hid
        · exact ⟨x, List.mem_cons_self, rfl⟩
        · obtain ⟨y, hy, h⟩ := ih _ hid
          exact ⟨y, List.mem_cons_of_mem _ hy, h⟩
      · obtain ⟨y, hy, h⟩ := ih _ hid
        exact ⟨y, List.mem_cons_of_mem _ hy, h⟩
  obtain h | h := List.mem_append.mp h
  · split at h
    · obtain ⟨x, hx, rfl⟩ := List.mem_map.mp h
      exact hsorted x (List.mem_of_mem_drop hx)
    · cases h
  · split at h
    · obtain ⟨x, hx, rfl⟩ := hbytes _ _ _ h
      exact hsorted x hx
    · cases h

/-- Dropping only what is not at `a` leaves what is at `a`. -/
theorem filter_filter_of_imp {α : Type} {p r : α → Bool} {l : List α} (h : ∀ x ∈ l, p x → r x) :
    (l.filter r).filter p = l.filter p := by
  rw [List.filter_filter]
  refine List.filter_congr fun x hx => ?_
  cases hp : p x with
  | false => rfl
  | true => simp [h x hx hp]

theorem filter_setSeen_of_ne (hab : a ≠ b) :
    ((setSeen b id l).filter fun e => e.message.mailboxAddress == a) =
      l.filter fun e => e.message.mailboxAddress == a := by
  rw [setSeen_eq]
  refine filter_updateFirst_of_not (fun e hat => ?_) l
  have he : e.message.mailboxAddress = b := eq_of_beq (Bool.and_eq_true_iff.mp hat).1
  simp [he, hab.symm]

theorem filter_refresh_of_ne (hab : a ≠ b) {endpoint : String} {kind : SubscriptionKind}
    {p256dh auth : String} {l : List PushSubscription} :
    ((refresh b endpoint kind p256dh auth l).filter fun x => x.mailboxAddress == a) =
      l.filter fun x => x.mailboxAddress == a := by
  rw [refresh_eq]
  refine filter_updateFirst_of_not (fun x hat => ?_) l
  simp [(of_decide_eq_true hat).1, hab.symm]

/-- The messages of `a` after a message has been saved in `b`. -/
theorem filter_saveMessage_of_ne (hab : a ≠ b) (hs : Distinct (l ++ [e]))
    (he : e.message.mailboxAddress = b) :
    ((enforceQuotas (l ++ [e]) b newId q).filter fun e => e.message.mailboxAddress == a) =
      l.filter fun e => e.message.mailboxAddress == a := by
  rw [enforceQuotas_eq_filter, filter_filter_of_imp]
  · simp [he, hab.symm]
  intro x hx hxa
  rw [Bool.not_eq_true', List.contains_eq_mem, decide_eq_false_iff_not]
  intro hid
  obtain ⟨y, hy, hyb, hid⟩ := mem_evicted hid
  cases List.inj_on_of_nodup_map hs hy hx hid
  exact hab ((eq_of_beq hxa).symm.trans hyb)

theorem view_apply_of_ne (hab : a ≠ b) (hs : Distinct s.messages) (hop : op.target = some b)
    (hfresh : Fresh s op ids) : (op.apply q s now ids).2.view a = s.view a := by
  cases op with
  | createMailbox b' d x o dev =>
    cases hop
    simp only [StoreOp.apply, createMailbox]
    split
    · rfl
    · simp [Inner.view, AList.lookup_insert_ne hab]
  | extendMailbox b' x =>
    cases hop
    simp only [StoreOp.apply, extendMailbox]
    split
    · simp [Inner.view, AList.lookup_insert_ne hab]
    · rfl
  | rotateOwnerToken b' h =>
    cases hop
    simp only [StoreOp.apply, rotateOwnerToken]
    split
    · simp [Inner.view, AList.lookup_insert_ne hab]
    · rfl
  | deleteMailbox b' =>
    cases hop
    rw [Inner.view, Inner.view, View.mk.injEq]
    refine ⟨AList.lookup_erase_ne hab, filter_filter_of_imp ?_, filter_filter_of_imp ?_⟩
    · intro e _ he
      simp [eq_of_beq he, hab]
    · intro x _ hx
      simp [eq_of_beq hx, hab]
  | saveMessage b' m =>
    cases hop
    rw [Inner.view, Inner.view, View.mk.injEq]
    refine ⟨rfl, filter_saveMessage_of_ne hab ?_ rfl, rfl⟩
    have hdistinct : Distinct ((StoreOp.saveMessage b m).apply .unlimited s now ids).2.messages :=
      hs.apply hfresh
    simpa [StoreOp.apply, saveMessage, enforceQuotas] using hdistinct
  | deleteMessage b' id =>
    cases hop
    rw [Inner.view, Inner.view, View.mk.injEq]
    refine ⟨rfl, filter_filter_of_imp ?_, rfl⟩
    intro e _ he
    simp [Entry.isAt, eq_of_beq he, hab]
  | markSeen b' id =>
    cases hop
    rw [Inner.view, Inner.view, View.mk.injEq]
    exact ⟨rfl, filter_setSeen_of_ne hab, rfl⟩
  | deleteAllMessages b' =>
    cases hop
    rw [Inner.view, Inner.view, View.mk.injEq]
    refine ⟨rfl, filter_filter_of_imp ?_, rfl⟩
    intro e _ he
    simp [eq_of_beq he, hab]
  | addSubscription b' kind endpoint p256dh auth limit =>
    cases hop
    simp only [StoreOp.apply, addSubscription]
    split
    · rw [Inner.view, Inner.view, View.mk.injEq]
      exact ⟨rfl, rfl, filter_refresh_of_ne hab⟩
    · split
      · rfl
      · simp [Inner.view, hab.symm]
  | deleteSubscription b' endpoint =>
    cases hop
    rw [Inner.view, Inner.view, View.mk.injEq]
    refine ⟨rfl, rfl, filter_filter_of_imp ?_⟩
    intro x _ hx
    simp [eq_of_beq hx, hab]
  | getMailbox | mailboxIsActive | listMessages | getMessage | getRawMessage | getAttachment
  | listSubscriptions => rfl
  | _ => cases hop

/-! ## Calls addressed to the mailbox -/

/-- Looking for something at `a` is looking among what is at `a`. -/
theorem find?_of_imp {α : Type} {p r : α → Bool} {l : List α} (h : ∀ x, r x → p x) :
    (l.filter p).find? r = l.find? r := by
  rw [List.find?_filter]
  congr 1
  funext x
  cases hr : r x with
  | false => simp
  | true => simp [h x hr]

theorem find?_isAt : s.messages.find? (·.isAt a id) = (s.view a).messages.find? (·.isAt a id) :=
  (find?_of_imp fun _ h => (Bool.and_eq_true_iff.mp h).1).symm

/-- Taking something at `a` out of a list takes as much out of what is at `a`. -/
theorem length_filter_not_of_imp {α : Type} {p r : α → Bool} {l : List α} (h : ∀ x, r x → p x) :
    (l.filter fun x => !r x).length + (l.filter p).length =
      ((l.filter p).filter fun x => !r x).length + l.length := by
  have hr : (l.filter p).filter r = l.filter r := by
    rw [List.filter_filter]
    refine List.filter_congr fun x _ => ?_
    cases hr : r x with
    | false => rfl
    | true => simp [h x hr]
  have h₁ := List.length_eq_length_filter_add (l := l) r
  have h₂ := List.length_eq_length_filter_add (l := l.filter p) r
  rw [hr] at h₂
  omega

theorem filter_setSeen : ((setSeen a id l).filter fun e => e.message.mailboxAddress == a) =
    setSeen a id (l.filter fun e => e.message.mailboxAddress == a) := by
  rw [setSeen_eq, setSeen_eq]
  refine filter_updateFirst (fun e hat => ?_) l
  exact and_self_iff.mpr (Bool.and_eq_true_iff.mp hat).1

theorem filter_refresh {endpoint : String} {kind : SubscriptionKind} {p256dh auth : String}
    {l : List PushSubscription} :
    ((refresh a endpoint kind p256dh auth l).filter fun x => x.mailboxAddress == a) =
      refresh a endpoint kind p256dh auth (l.filter fun x => x.mailboxAddress == a) := by
  rw [refresh_eq, refresh_eq]
  refine filter_updateFirst (fun x hat => ?_) l
  exact and_self_iff.mpr (beq_iff_eq.mpr (of_decide_eq_true hat).1)

/-- The messages of `a` after a message has been saved there. -/
theorem filter_saveMessage (he : e.message.mailboxAddress = a) :
    ((enforceQuotas (l ++ [e]) a newId q).filter fun e => e.message.mailboxAddress == a) =
      enforceQuotas ((l.filter fun e => e.message.mailboxAddress == a) ++ [e]) a newId q := by
  have hl : (l.filter fun e => e.message.mailboxAddress == a) ++ [e] =
      (l ++ [e]).filter fun e => e.message.mailboxAddress == a := by
    rw [List.filter_append, List.filter_singleton, he, beq_self_eq_true, cond_true]
  have hev : evicted ((l ++ [e]).filter fun e => e.message.mailboxAddress == a) a newId q =
      evicted (l ++ [e]) a newId q := by
    rw [evicted, evicted, newestFirstOf, newestFirstOf, List.filter_filter]
    simp only [Bool.and_self]
  rw [hl, enforceQuotas_eq_filter, enforceQuotas_eq_filter, hev, List.filter_filter,
    List.filter_filter]
  exact List.filter_congr fun _ _ => Bool.and_comm ..

/-- How many entries a call takes out, told from what is at `a`. -/
theorem length_filter_not_congr {α : Type} {p r : α → Bool} {l l' : List α} (h : ∀ x, r x → p x)
    (hl : l.filter p = l'.filter p) :
    (l.filter fun x => !r x).length + l'.length = (l'.filter fun x => !r x).length + l.length := by
  have h₁ := length_filter_not_of_imp (l := l) h
  have h₂ := length_filter_not_of_imp (l := l') h
  rw [hl] at h₁
  omega

theorem apply_congr (hop : op.target = some a) (h : s.view a = s'.view a) :
    (op.apply q s now ids).1 = (op.apply q s' now ids).1 ∧
      (op.apply q s now ids).2.view a = (op.apply q s' now ids).2.view a := by
  have hfind : ∀ id, s.messages.find? (·.isAt a id) = s'.messages.find? (·.isAt a id) :=
    fun id => by rw [find?_isAt, h, ← find?_isAt]
  obtain ⟨hrow, hmsg, hsub⟩ := View.mk.inj h
  cases op with
  | createMailbox a' d x o dev =>
    cases hop
    have hmem : a ∈ s.mailboxes ↔ a ∈ s'.mailboxes := by
      rw [← AList.lookup_isSome, hrow, AList.lookup_isSome]
    by_cases ha : a ∈ s.mailboxes
    · have ha' := hmem.mp ha
      simp only [StoreOp.apply, createMailbox, ha, ha', if_true, true_and]
      exact h
    · have ha' := mt hmem.mpr ha
      simp only [StoreOp.apply, createMailbox, ha, ha', if_false]
      simp [Inner.view, hmsg, hsub]
  | getMailbox a' | mailboxIsActive a' t =>
    cases hop
    exact ⟨by simp only [StoreOp.apply, getMailbox, mailboxIsActive, hrow], h⟩
  | extendMailbox a' x =>
    cases hop
    simp only [StoreOp.apply, extendMailbox, hrow]
    cases s'.mailboxes.lookup a with
    | none => exact ⟨rfl, h⟩
    | some mb => simp [Inner.view, hmsg, hsub]
  | rotateOwnerToken a' hash =>
    cases hop
    simp only [StoreOp.apply, rotateOwnerToken, hrow]
    cases s'.mailboxes.lookup a with
    | none => exact ⟨rfl, h⟩
    | some mb => simp [Inner.view, hmsg, hsub]
  | deleteMailbox a' =>
    cases hop
    refine ⟨by simp [StoreOp.apply, deleteMailbox, hrow], ?_⟩
    rw [Inner.view, Inner.view, View.mk.injEq]
    simp only [StoreOp.apply, deleteMailbox, AList.lookup_erase, true_and]
    rw [List.filter_comm, hmsg, List.filter_comm, List.filter_comm (l := s.subscriptions), hsub,
      List.filter_comm (l := s'.subscriptions)]
    exact ⟨rfl, rfl⟩
  | saveMessage a' m =>
    cases hop
    refine ⟨rfl, ?_⟩
    rw [Inner.view, Inner.view, View.mk.injEq]
    refine ⟨hrow, ?_, hsub⟩
    simp only [StoreOp.apply, saveMessage]
    rw [filter_saveMessage, filter_saveMessage, hmsg] <;> rfl
  | listMessages a' limit since =>
    cases hop
    exact ⟨by simp only [StoreOp.apply, listMessages, hfind, hmsg], h⟩
  | getMessage a' id | getRawMessage a' id =>
    cases hop
    exact ⟨by simp only [StoreOp.apply, getMessage, getRawMessage, hfind], h⟩
  | getAttachment a' id att =>
    cases hop
    exact ⟨by simp only [StoreOp.apply, getAttachment, hfind], h⟩
  | deleteMessage a' id =>
    cases hop
    have hlen := length_filter_not_congr
      (fun (e : MemoryStore.Entry) (h : e.isAt a id) => (Bool.and_eq_true_iff.mp h).1) hmsg
    refine ⟨?_, ?_⟩
    · simp only [StoreOp.apply, deleteMessage, Except.ok.injEq, bne, Bool.not_eq_eq_eq_not,
        Bool.not_not]
      rw [Bool.eq_iff_iff, beq_iff_eq, beq_iff_eq]
      omega
    · rw [Inner.view, Inner.view, View.mk.injEq]
      refine ⟨hrow, ?_, hsub⟩
      simp only [StoreOp.apply, deleteMessage]
      rw [List.filter_comm, hmsg, List.filter_comm]
  | markSeen a' id =>
    cases hop
    refine ⟨by simp only [StoreOp.apply, markSeen, hfind], ?_⟩
    rw [Inner.view, Inner.view, View.mk.injEq]
    refine ⟨hrow, ?_, hsub⟩
    simp only [StoreOp.apply, markSeen]
    rw [filter_setSeen, filter_setSeen, hmsg]
  | deleteAllMessages a' =>
    cases hop
    have hlen := length_filter_not_congr
      (fun (e : MemoryStore.Entry) (h : e.message.mailboxAddress == a) => h) hmsg
    have hcount : (deleteAllMessages s a).1 = (deleteAllMessages s' a).1 := by
      have h₁ := List.length_filter_le (fun e => !e.message.mailboxAddress == a) s.messages
      have h₂ := List.length_filter_le (fun e => !e.message.mailboxAddress == a) s'.messages
      simp only [deleteAllMessages, bne]
      omega
    refine ⟨congrArg Except.ok hcount, ?_⟩
    rw [Inner.view, Inner.view, View.mk.injEq]
    refine ⟨hrow, ?_, hsub⟩
    simp only [StoreOp.apply, deleteAllMessages]
    rw [List.filter_comm, hmsg, List.filter_comm]
  | addSubscription a' kind endpoint p256dh auth limit =>
    cases hop
    have hexist : ∀ s : Inner, (s.subscriptions.find? fun x => x.mailboxAddress == a &&
        x.endpoint == endpoint) = (s.view a).subscriptions.find? fun x =>
          x.mailboxAddress == a && x.endpoint == endpoint :=
      fun s => (find?_of_imp fun _ h => (Bool.and_eq_true_iff.mp h).1).symm
    simp only [StoreOp.apply, addSubscription]
    rw [hexist s, hexist s', h, hsub]
    cases (s'.view a).subscriptions.find? _ with
    | some x =>
      refine ⟨rfl, ?_⟩
      rw [Inner.view, Inner.view, View.mk.injEq]
      exact ⟨hrow, hmsg, by rw [filter_refresh, filter_refresh, hsub]⟩
    | none =>
      dsimp only
      split
      · exact ⟨rfl, h⟩
      · refine ⟨rfl, ?_⟩
        rw [Inner.view, Inner.view, View.mk.injEq]
        exact ⟨hrow, hmsg, by rw [List.filter_append, List.filter_append, hsub]⟩
  | listSubscriptions a' =>
    cases hop
    exact ⟨by simp only [StoreOp.apply, listSubscriptions, hsub], h⟩
  | deleteSubscription a' endpoint =>
    cases hop
    have hlen := length_filter_not_congr (fun (x : PushSubscription)
      (h : x.mailboxAddress == a && x.endpoint == endpoint) => (Bool.and_eq_true_iff.mp h).1) hsub
    refine ⟨?_, ?_⟩
    · simp only [StoreOp.apply, deleteSubscription, Except.ok.injEq, bne, Bool.not_eq_eq_eq_not,
        Bool.not_not]
      rw [Bool.eq_iff_iff, beq_iff_eq, beq_iff_eq]
      omega
    · rw [Inner.view, Inner.view, View.mk.injEq]
      refine ⟨hrow, hmsg, ?_⟩
      simp only [StoreOp.apply, deleteSubscription]
      rw [List.filter_comm, hsub, List.filter_comm]
  | _ => cases hop

/-! ## Isolation -/

/-- A call addressed to `b` leaves another mailbox as it is, and a call addressed to `a` depends on
the mailbox `a` only. -/
theorem mailbox_isolated (q : MailboxQuotas) (op : StoreOp) (now : DateTime) (ids : List Uuid) :
    (∀ s a b, Reachable s → a ≠ b → op.target = some b → Fresh s op ids →
      (op.apply q s now ids).2.view a = s.view a) ∧
    ∀ s s' a, op.target = some a → s.view a = s'.view a →
      (op.apply q s now ids).1 = (op.apply q s' now ids).1 ∧
        (op.apply q s now ids).2.view a = (op.apply q s' now ids).2.view a := by
  refine ⟨fun s a b hs hab hop hfresh => ?_, fun s s' a hop h => apply_congr hop h⟩
  exact view_apply_of_ne hab hs.distinct hop hfresh

/-- Two mailboxes with one message each, and room for one. -/
def twoMailboxes : Inner := storeAfter oneMessageQuota
  [(.createMailbox "a@example.com" "example.com" 10 none none, 0, []),
    (.createMailbox "b@example.com" "example.com" 10 none none, 0, []),
    (.saveMessage "a@example.com" emptyMessage, 1, [1]),
    (.saveMessage "b@example.com" emptyMessage, 1, [2])]

theorem reachable_twoMailboxes : Reachable twoMailboxes := by
  refine .call (.call (.call (.call .empty ?_) ?_) ?_) ?_ <;> exact ⟨rfl, by decide +kernel⟩

theorem mailbox_isolated_two :
    ((StoreOp.saveMessage "b@example.com" emptyMessage).apply oneMessageQuota twoMailboxes 2
      [3]).2.view "a@example.com" = twoMailboxes.view "a@example.com" ∧
    (twoMailboxes.view "a@example.com").messages.length = 1 ∧
    ((StoreOp.listMessages "a@example.com" 0 none).apply oneMessageQuota twoMailboxes 2 []).1 =
      ((StoreOp.listMessages "a@example.com" 0 none).apply oneMessageQuota
        { twoMailboxes with messages := twoMailboxes.messages.take 1 } 2 []).1 :=
  ⟨(mailbox_isolated oneMessageQuota (.saveMessage "b@example.com" emptyMessage) 2 [3]).1 _ _ _
      reachable_twoMailboxes (by decide) rfl ⟨rfl, by decide +kernel⟩,
    by decide +kernel,
    ((mailbox_isolated oneMessageQuota (.listMessages "a@example.com" 0 none) 2 []).2 _ _ _ rfl
      (by decide +kernel)).1⟩

end AnonyMail
