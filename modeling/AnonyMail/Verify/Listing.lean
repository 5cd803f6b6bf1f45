import AnonyMail.Lib.KeyedList
import AnonyMail.Verify.Retention

/-! # Listing a mailbox

A listing is the inbox, cut in front of the cursor's message: since no two messages share a key,
to filter by a larger key and then to sort is to sort and then to cut. -/

namespace AnonyMail

open Rank KeyedList

def MessageSummary.key (x : MessageSummary) : DateTime ×ₗ Uuid := toLex (x.receivedAt, x.id)

namespace MemoryStore

def Entry.summary (e : Entry) : MessageSummary :=
  ⟨e.message.id, e.message.mailFrom, e.message.subject, e.message.receivedAt,
    !e.message.attachments.isEmpty, e.message.seen⟩

/-- The key of the message that a cursor names, if it is in the mailbox. -/
def anchor (s : Inner) (address : String) (since : Option Uuid) : Option (DateTime ×ₗ Uuid) :=
  since.bind fun id => (s.messages.find? (·.isAt address id)).map Entry.key

variable {s : Inner} {address : String} {since : Option Uuid} {id : Uuid} {e : Entry}

theorem isAt_iff : e.isAt address id ↔ e.message.mailboxAddress = address ∧ e.message.id = id := by
  rw [Entry.isAt, Bool.and_eq_true, beq_iff_eq, beq_iff_eq]

@[simp] theorem anchor_none : anchor s address none = none := rfl

theorem anchor_of_mem (hids : (messageIds s.messages).Nodup) (he : e ∈ s.messages) :
    anchor s e.message.mailboxAddress (some e.message.id) = some e.key := by
  have hkeyed : Keyed (fun e : Entry => e.message.id) s.messages := hids
  have hp : ∀ y ∈ s.messages, y.isAt e.message.mailboxAddress e.message.id ↔
      y.message.id = e.message.id := by
    intro y hy
    refine ⟨fun hat => (isAt_iff.mp hat).2, fun hid => isAt_iff.mpr ⟨?_, hid⟩⟩
    rw [eq_of_id_eq hids hy he hid]
  rw [anchor, Option.bind_some, hkeyed.find?_eq hp he, Option.map_some]

theorem anchor_of_not_mem
    (h : ∀ e ∈ s.messages, e.message.mailboxAddress = address → e.message.id ≠ id) :
    anchor s address (some id) = none := by
  rw [anchor, Option.bind_some, Option.map_eq_none_iff, List.find?_eq_none]
  exact fun e he hat => h e he (isAt_iff.mp hat).1 (isAt_iff.mp hat).2

/-- Filtering the messages and sorting them can be done in either order. -/
theorem insertionSort_filter (hids : (messageIds s.messages).Nodup) (p : Entry → Bool) :
    (((s.messages.filter fun e => e.message.mailboxAddress == address).filter p).map
        Entry.summary).insertionSort
      (fun a b => newestFirst (a.receivedAt, a.id) (b.receivedAt, b.id)) =
      ((inbox s.messages address).filter p).map Entry.summary := by
  rw [← List.map_insertionSort _ _ Entry.summary _ fun _ _ _ _ => Iff.rfl]
  refine congrArg (List.map Entry.summary) ?_
  refine (descending_insertionSort Entry.key (fun _ _ => newestFirst_iff) _).eq_of_perm
    (descending_inbox.filter _) ?_ fun a ha b hb hab => ?_
  · exact (List.perm_insertionSort _ _).trans (inbox_perm.filter p).symm
  · rw [List.mem_insertionSort] at ha hb
    have hid : a.message.id = b.message.id := congrArg (·.2) (toLex.injective hab)
    exact eq_of_id_eq hids (List.mem_of_mem_filter (List.mem_of_mem_filter ha))
      (List.mem_of_mem_filter (List.mem_of_mem_filter hb)) hid

/-- The filter asks whether the entry is newer than the cursor's message. -/
theorem newer_than_anchor :
    ((since.bind fun id => (s.messages.find? (·.isAt address id)).map fun e =>
        (e.message.receivedAt, e.message.id)).all fun a =>
      !decide (newestFirst a (e.message.receivedAt, e.message.id))) =
      (anchor s address since).all (· < e.key) := by
  cases since with
  | none => rfl
  | some id =>
    rw [anchor, Option.bind_some, Option.bind_some, Option.all_map, Option.all_map]
    refine congrArg (Option.all · _) (funext fun x => ?_)
    refine decide_not.symm.trans (decide_eq_decide.mpr ?_)
    rw [newestFirst_iff, not_le]
    rfl

theorem listMessages_eq (hids : (messageIds s.messages).Nodup) :
    listMessages s address 0 since =
      ((inbox s.messages address).filter fun e => (anchor s address since).all (· < e.key)).map
        Entry.summary := by
  rw [← insertionSort_filter hids, listMessages, if_neg (Nat.lt_irrefl 0)]
  refine congrArg (fun p => List.insertionSort _ (List.map Entry.summary (List.filter p _))) ?_
  exact funext fun e => newer_than_anchor

theorem listMessages_zero_none (hids : (messageIds s.messages).Nodup) :
    listMessages s address 0 none = (inbox s.messages address).map Entry.summary := by
  rw [listMessages_eq hids]
  exact congrArg (List.map Entry.summary) (List.filter_eq_self.mpr fun _ _ => rfl)

/-- A listing never reads the cursor but through its message. -/
theorem listMessages_congr {since' : Option Uuid} {n : Nat}
    (h : anchor s address since = anchor s address since') :
    listMessages s address n since = listMessages s address n since' := by
  rw [listMessages, listMessages]
  simp only [newer_than_anchor, h]

theorem listMessages_take {n : Nat} (hn : 0 < n) :
    listMessages s address n since = (listMessages s address 0 since).take n := by
  rw [listMessages, listMessages, if_pos hn, if_neg (Nat.lt_irrefl 0)]

theorem strict_descending_inbox (hids : (messageIds s.messages).Nodup) :
    (inbox s.messages address).Pairwise fun a b => b.key < a.key := by
  have hne : (inbox s.messages address).Pairwise fun a b => a.message.id ≠ b.message.id :=
    List.pairwise_map.mp (nodup_ids_inbox hids)
  refine (descending_inbox.and hne).imp fun {a b} h => lt_of_le_of_ne h.1 fun heq => ?_
  exact h.2 (congrArg (·.2) (toLex.injective heq)).symm

/-- The messages in front of an entry of the inbox are those with a larger key. -/
theorem inbox_split (hids : (messageIds s.messages).Nodup) (he : e ∈ s.messages) :
    ∃ t, inbox s.messages e.message.mailboxAddress =
      ((inbox s.messages e.message.mailboxAddress).filter fun x => e.key < x.key) ++ e :: t := by
  obtain ⟨l₁, l₂, hl⟩ := List.append_of_mem (mem_inbox.mpr ⟨he, rfl⟩)
  have hstrict := @strict_descending_inbox s e.message.mailboxAddress hids
  refine ⟨l₂, ?_⟩
  rw [hl] at hstrict ⊢
  rw [filter_gt hstrict]

theorem listMessages_split (hids : (messageIds s.messages).Nodup) (he : e ∈ s.messages) :
    ∃ t, listMessages s e.message.mailboxAddress 0 none =
      listMessages s e.message.mailboxAddress 0 (some e.message.id) ++ e.summary :: t := by
  obtain ⟨t, ht⟩ := inbox_split hids he
  refine ⟨t.map Entry.summary, ?_⟩
  rw [listMessages_zero_none hids, listMessages_eq hids, anchor_of_mem hids he]
  conv_lhs => rw [ht, List.map_append, List.map_cons]
  rfl

/-- The whole listing has each message of the mailbox once, in the strict order of times and ids. A
cursor in the mailbox cuts it in front of its message, any other cursor is no cursor, and a limit
takes a prefix. -/
theorem listMessages_exact (s : Inner) (hids : (messageIds s.messages).Nodup) (address : String) :
    (listMessages s address 0 none).Pairwise (fun a b => b.key < a.key) ∧
    (listMessages s address 0 none).Perm
      ((s.messages.filter fun e => e.message.mailboxAddress == address).map Entry.summary) ∧
    (∀ e ∈ s.messages, e.message.mailboxAddress = address →
      ∃ t, listMessages s address 0 none =
        listMessages s address 0 (some e.message.id) ++ [e.summary] ++ t) ∧
    (∀ id n, (∀ e ∈ s.messages, e.message.mailboxAddress = address → e.message.id ≠ id) →
      listMessages s address n (some id) = listMessages s address n none) ∧
    ∀ n since, 0 < n →
      listMessages s address n since = (listMessages s address 0 since).take n := by
  refine ⟨?_, ?_, ?_, fun id n h => listMessages_congr (anchor_of_not_mem h),
    fun n since => listMessages_take⟩
  · rw [listMessages_zero_none hids]
    exact List.pairwise_map.mpr (strict_descending_inbox hids)
  · rw [listMessages_zero_none hids]
    exact inbox_perm.map _
  · rintro e he rfl
    obtain ⟨t, ht⟩ := listMessages_split hids he
    exact ⟨t, by rw [ht, List.append_assoc, List.singleton_append]⟩

/-! Three messages of one instant, the second of them in another mailbox. -/

def receive (s : Inner) (address : String) (id : Uuid) : Inner :=
  (saveMessage .unlimited s address emptyMessage id [] 0).2

def sameInstant : Inner :=
  receive (receive (receive .empty "a@example.com" 1) "b@example.com" 2) "a@example.com" 3

theorem listMessages_exact_sameInstant :
    (listMessages sameInstant "a@example.com" 0 none).Pairwise (fun a b => b.key < a.key) ∧
    listMessages sameInstant "a@example.com" 5 (some 2) =
      listMessages sameInstant "a@example.com" 5 none ∧
    listMessages sameInstant "a@example.com" 1 none =
      (listMessages sameInstant "a@example.com" 0 none).take 1 := by
  obtain ⟨hdesc, -, -, hforeign, htake⟩ :=
    listMessages_exact sameInstant (by decide) "a@example.com"
  exact ⟨hdesc, hforeign 2 5 (by decide), htake 1 none (by decide)⟩

end MemoryStore
end AnonyMail
