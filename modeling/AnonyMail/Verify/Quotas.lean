import Mathlib.Data.Prod.Lex
import AnonyMail.Effects
import AnonyMail.Lib.Rank
import AnonyMail.Store.Sql

/-! # The message just saved and the quotas

The byte cap exempts the new message, the count cap does not: it keeps the first messages in the
order of `(received_at, id)`, and a new message need not be among them when its clock reading is not
later than those of the messages that are there. -/

namespace AnonyMail

open Rank

theorem newestFirst_iff {a b : DateTime × Uuid} :
    MemoryStore.newestFirst a b ↔ toLex b ≤ toLex a := Prod.Lex.le_iff.symm

namespace MemoryStore

def Entry.key (e : Entry) : DateTime ×ₗ Uuid := toLex (e.message.receivedAt, e.message.id)

/-- The number of messages of the mailbox that are newer than a message with this time and id. -/
def newer (s : Inner) (address : String) (receivedAt : DateTime) (id : Uuid) : Nat :=
  rank Entry.key (s.messages.filter fun e => e.message.mailboxAddress == address)
    (toLex (receivedAt, id))

/-- The ids that `enforceQuotas` drops. -/
def evicted (messages : List Entry) (address : String) (newId : Uuid) (quotas : MailboxQuotas) :
    List Uuid :=
  let sorted := newestFirstOf messages address
  (if quotas.maxMessages > 0 then (sorted.drop quotas.maxMessages).map (·.2.1) else []) ++
    if quotas.maxBytes > 0 then overBytes quotas.maxBytes newId 0 sorted else []

variable {messages : List Entry} {address : String} {newId : Uuid} {quotas : MailboxQuotas}

theorem enforceQuotas_eq_filter : enforceQuotas messages address newId quotas =
    messages.filter fun e => !(evicted messages address newId quotas).contains e.message.id := by
  rw [enforceQuotas]
  split
  · next h => simp [evicted, h, MailboxQuotas.unlimited]
  · change (if (evicted messages address newId quotas).isEmpty then messages else
      messages.filter fun e => !(evicted messages address newId quotas).contains e.message.id) = _
    split
    · next h => simp [List.isEmpty_iff.mp h]
    · rfl

theorem mem_enforceQuotas {e : Entry} : e ∈ enforceQuotas messages address newId quotas ↔
    e ∈ messages ∧ e.message.id ∉ evicted messages address newId quotas := by
  rw [enforceQuotas_eq_filter, List.mem_filter]
  simp only [Bool.not_eq_true', List.contains_eq_mem, decide_eq_false_iff_not]

theorem not_mem_overBytes {maxBytes running : Nat} {l : List (DateTime × Uuid × Nat)} :
    newId ∉ overBytes maxBytes newId running l := by
  induction l generalizing running with
  | nil => simp [overBytes]
  | cons x l ih =>
    rw [overBytes]
    split
    · next h => exact List.not_mem_cons_of_ne_of_not_mem h.2.symm ih
    · exact ih

/-- An entry as the quotas see it. -/
def Entry.row (e : Entry) : DateTime × Uuid × Nat :=
  (e.message.receivedAt, e.message.id, e.message.rawSize.toNat)

def rowKey (x : DateTime × Uuid × Nat) : DateTime ×ₗ Uuid := toLex (x.1, x.2.1)

theorem descending_newestFirstOf : Descending rowKey (newestFirstOf messages address) :=
  descending_insertionSort rowKey (fun _ _ => newestFirst_iff) _

theorem newestFirstOf_concat {e : Entry} (he : e.message.mailboxAddress = address) :
    (newestFirstOf (messages ++ [e]) address).Perm
      (e.row :: (messages.filter fun x => x.message.mailboxAddress == address).map Entry.row) := by
  refine (List.perm_insertionSort _ _).trans ?_
  simp only [List.filter_append, List.map_append]
  exact List.perm_append_comm.trans (by simp [he]; rfl)

/-- The id of an entry with a fresh id is past the first `n` ids if `n` entries are newer. -/
theorem mem_drop_newestFirstOf {s : Inner} {e : Entry} {n : Nat}
    (he : e.message.mailboxAddress = address)
    (hfresh : ∀ x ∈ s.messages, x.message.id ≠ e.message.id) :
    e.message.id ∈ ((newestFirstOf (s.messages ++ [e]) address).drop n).map (·.2.1) ↔
      n ≤ newer s address e.message.receivedAt e.message.id := by
  have hperm := @newestFirstOf_concat s.messages _ _ he
  generalize hothers : (s.messages.filter fun x => x.message.mailboxAddress == address).map
    Entry.row = others at hperm
  have hid : ∀ x ∈ others, x.2.1 ≠ e.message.id := by
    intro x hx
    obtain ⟨y, hy, rfl⟩ := List.mem_map.mp (hothers ▸ hx)
    exact hfresh y (List.mem_of_mem_filter hy)
  have hrank : rank rowKey others (rowKey e.row) =
      newer s address e.message.receivedAt e.message.id := by
    rw [← hothers]
    exact List.countP_map ..
  have hne : ∀ x ∈ others, rowKey x ≠ rowKey e.row :=
    fun x hx h => hid x hx (congrArg (·.2) (toLex.injective h))
  rw [← hrank, ← descending_newestFirstOf.mem_drop_iff hperm hne, List.mem_map]
  constructor
  · rintro ⟨x, hx, hxid⟩
    obtain rfl | hmem := List.mem_cons.mp (hperm.mem_iff.mp (List.mem_of_mem_drop hx))
    · exact hx
    · exact absurd hxid (hid x hmem)
  · exact fun h => ⟨_, h, rfl⟩

theorem mem_evicted_concat {s : Inner} {e : Entry} (he : e.message.mailboxAddress = address)
    (hfresh : ∀ x ∈ s.messages, x.message.id ≠ e.message.id) :
    e.message.id ∈ evicted (s.messages ++ [e]) address e.message.id quotas ↔
      0 < quotas.maxMessages ∧
        quotas.maxMessages ≤ newer s address e.message.receivedAt e.message.id := by
  have hbytes : e.message.id ∉ if quotas.maxBytes > 0 then
      overBytes quotas.maxBytes e.message.id 0 (newestFirstOf (s.messages ++ [e]) address)
      else [] := by
    split
    · exact not_mem_overBytes
    · exact List.not_mem_nil
  rw [evicted, List.mem_append, or_iff_left hbytes]
  split
  · next hpos => rw [mem_drop_newestFirstOf he hfresh, and_iff_right hpos]
  · next hpos => exact iff_of_false List.not_mem_nil fun h => hpos h.1

/-- The message `id` is in the mailbox. -/
def Inner.Has (s : Inner) (address : String) (id : Uuid) : Prop :=
  ∃ e ∈ s.messages, e.isAt address id

theorem has_enforceQuotas {e : Entry} (he : e.message.mailboxAddress = address) :
    (∃ x ∈ enforceQuotas (messages ++ [e]) address e.message.id quotas,
      x.isAt address e.message.id) ↔
      e.message.id ∉ evicted (messages ++ [e]) address e.message.id quotas := by
  constructor
  · rintro ⟨x, hx, hat⟩
    have hid : x.message.id = e.message.id := eq_of_beq (Bool.and_eq_true_iff.mp hat).2
    exact hid ▸ (mem_enforceQuotas.mp hx).2
  · intro hid
    exact ⟨e, mem_enforceQuotas.mpr ⟨by simp, hid⟩, by simp [Entry.isAt, he]⟩

theorem saveMessage_has_iff {s : Inner} {m : NewMessage} {id : Uuid} {attachmentIds : List Uuid}
    {receivedAt : DateTime} (hfresh : ∀ e ∈ s.messages, e.message.id ≠ id) :
    (saveMessage quotas s address m id attachmentIds receivedAt).2.Has address id ↔
      quotas.maxMessages = 0 ∨ newer s address receivedAt id < quotas.maxMessages := by
  refine (has_enforceQuotas rfl).trans ((not_congr (mem_evicted_concat rfl hfresh)).trans ?_)
  rw [not_and, Nat.not_le, Nat.pos_iff_ne_zero, or_iff_not_imp_left]

end MemoryStore

namespace SqlStore

def MessageRow.key (row : MessageRow) : DateTime ×ₗ Uuid := toLex (row.receivedAt, row.id)

/-- As `MemoryStore.newer`. -/
def newer (db : Tables) (address : String) (receivedAt : DateTime) (id : Uuid) : Nat :=
  rank MessageRow.key (db.inbox address) (toLex (receivedAt, id))

def Tables.Has (db : Tables) (address : String) (id : Uuid) : Prop :=
  ∃ row ∈ db.messages, row.mailboxAddress = address ∧ row.id = id

variable {db db' : Tables} {address : String} {id : Uuid} {quotas : MailboxQuotas}

theorem mem_deleteMessages {p : MessageRow → Bool} {row : MessageRow} :
    row ∈ (db.deleteMessages p).messages ↔ row ∈ db.messages ∧ ¬p row := by
  simp [Tables.deleteMessages]

theorem has_deleteOverBytes {maxBytes : Nat} :
    (db.deleteOverBytes address maxBytes id).Has address id ↔ db.Has address id := by
  constructor
  · rintro ⟨row, hrow, hat⟩
    exact ⟨row, (mem_deleteMessages.mp hrow).1, hat⟩
  · rintro ⟨row, hrow, haddr, rfl⟩
    refine ⟨row, mem_deleteMessages.mpr ⟨hrow, ?_⟩, haddr, rfl⟩
    simp

theorem inbox_insertMessage {row : MessageRow} {attachments : List AttachmentRow} :
    ((db.insertMessage row attachments).inbox row.mailboxAddress).Perm
      (row :: db.inbox row.mailboxAddress) := by
  rw [Tables.inbox, Tables.insertMessage, List.filter_append]
  exact List.perm_append_comm.trans (by simp [Tables.inbox])

/-- A new row is among the first `n` of its mailbox if fewer than `n` rows are newer. -/
theorem mem_take_inbox {row : MessageRow} {attachments : List AttachmentRow} {n : Nat}
    (hfresh : ∀ r ∈ db.messages, r.id ≠ row.id) :
    row.id ∈ ((((db.insertMessage row attachments).inbox row.mailboxAddress).insertionSort
        newestFirst).take n).map (·.id) ↔
      newer db row.mailboxAddress row.receivedAt row.id < n := by
  have hid : ∀ r ∈ db.inbox row.mailboxAddress, r.id ≠ row.id :=
    fun r hr => hfresh r (List.mem_of_mem_filter hr)
  have hne : ∀ r ∈ db.inbox row.mailboxAddress, r.key ≠ row.key :=
    fun r hr h => hid r hr (congrArg (·.2) (toLex.injective h))
  have hsorted := descending_insertionSort MessageRow.key (r := newestFirst)
    (fun _ _ => newestFirst_iff) ((db.insertMessage row attachments).inbox row.mailboxAddress)
  have hperm := (List.perm_insertionSort newestFirst _).trans
    (@inbox_insertMessage db row attachments)
  rw [List.mem_map, newer, ← MessageRow.key, ← hsorted.mem_take_iff hperm hne]
  constructor
  · rintro ⟨r, hr, hrid⟩
    obtain rfl | hmem := List.mem_cons.mp (hperm.mem_iff.mp (List.mem_of_mem_take hr))
    · exact hr
    · exact absurd hrid (hid r hmem)
  · exact fun h => ⟨row, h, rfl⟩

theorem has_deleteOverCount {row : MessageRow} {attachments : List AttachmentRow} {n : Nat}
    (hfresh : ∀ r ∈ db.messages, r.id ≠ row.id) :
    ((db.insertMessage row attachments).deleteOverCount row.mailboxAddress n).Has
        row.mailboxAddress row.id ↔
      newer db row.mailboxAddress row.receivedAt row.id < n := by
  rw [← mem_take_inbox hfresh]
  constructor
  · rintro ⟨r, hr, haddr, hid⟩
    have hkept := (mem_deleteMessages.mp hr).2
    rw [haddr, hid] at hkept
    simpa using hkept
  · intro hkept
    refine ⟨row, mem_deleteMessages.mpr ⟨by simp [Tables.insertMessage], ?_⟩, rfl, rfl⟩
    simpa using hkept

theorem saveMessage_has_iff {m : NewMessage} {attachmentIds : List Uuid} {receivedAt : DateTime}
    {stored : StoredMessage} (hfresh : ∀ row ∈ db.messages, row.id ≠ id)
    (h : saveMessage db quotas address m id attachmentIds receivedAt = (.ok stored, db')) :
    db'.Has address stored.id ↔
      quotas.maxMessages = 0 ∨ newer db address receivedAt id < quotas.maxMessages := by
  rw [saveMessage] at h
  split at h
  · cases h
  · cases h
    have hbytes : ∀ db : Tables, (if quotas.maxBytes > 0 then
        db.deleteOverBytes address quotas.maxBytes id else db).Has address id ↔
          db.Has address id := by
      intro db
      split
      · exact has_deleteOverBytes
      · rfl
    refine (hbytes _).trans ?_
    split
    · next hpos => exact (has_deleteOverCount hfresh).trans (or_iff_right hpos.ne').symm
    · next hpos =>
      exact iff_of_true ⟨_, List.mem_append_right _ List.mem_cons_self, rfl, rfl⟩
        (.inl (Nat.eq_zero_of_not_pos hpos))

end SqlStore

/-- On both stores, a message is there after it has been saved if there is no count cap, or fewer
messages of the mailbox are newer than the cap admits. -/
theorem saved_kept_iff (quotas : MailboxQuotas) (address : String) (m : NewMessage) (id : Uuid)
    (attachmentIds : List Uuid) (receivedAt : DateTime) :
    (∀ s : MemoryStore.Inner, (∀ e ∈ s.messages, e.message.id ≠ id) →
      ∀ stored s', MemoryStore.saveMessage quotas s address m id attachmentIds receivedAt =
        (stored, s') →
      (s'.Has address stored.id ↔ quotas.maxMessages = 0 ∨
        MemoryStore.newer s address receivedAt id < quotas.maxMessages)) ∧
    (∀ db : SqlStore.Tables, (∀ row ∈ db.messages, row.id ≠ id) →
      ∀ stored db', SqlStore.saveMessage db quotas address m id attachmentIds receivedAt =
        (.ok stored, db') →
      (db'.Has address stored.id ↔ quotas.maxMessages = 0 ∨
        SqlStore.newer db address receivedAt id < quotas.maxMessages)) := by
  refine ⟨fun s hfresh stored s' h => ?_, fun db hfresh stored db' h => ?_⟩
  · cases h
    exact MemoryStore.saveMessage_has_iff hfresh
  · exact SqlStore.saveMessage_has_iff hfresh h

/-! Messages with nothing in them, in one mailbox that holds one message. -/

def emptyMessage : NewMessage := ⟨"", none, none, none, none, 0, none, []⟩

def oneMessageQuota : MailboxQuotas := ⟨1, 0⟩

def oneMailbox : SqlStore.Tables := ⟨[⟨"a@example.com", "example.com", 0, 10, none, none⟩], [], []⟩

theorem saved_kept_first :
    (∃ stored s', MemoryStore.saveMessage oneMessageQuota .empty "a@example.com" emptyMessage 1 [] 0 =
      (stored, s') ∧ s'.Has "a@example.com" stored.id) ∧
    ∃ stored db', SqlStore.saveMessage oneMailbox oneMessageQuota "a@example.com" emptyMessage 1 [] 0 =
      (.ok stored, db') ∧ db'.Has "a@example.com" stored.id := by
  have h := saved_kept_iff oneMessageQuota "a@example.com" emptyMessage 1 [] 0
  constructor
  · have hkept := h.1 .empty (List.forall_mem_nil _) _ _ rfl
    exact ⟨_, _, rfl, hkept.mpr (.inr (by decide))⟩
  · have hkept := h.2 oneMailbox (List.forall_mem_nil _) _ _ rfl
    exact ⟨_, _, rfl, hkept.mpr (.inr (by decide))⟩

/-- The tables after these messages have been saved in mailboxes that exist. -/
def tablesAfter (quotas : MailboxQuotas) (mailboxes : List Mailbox)
    (saves : List (String × NewMessage × Uuid × List Uuid × DateTime)) : SqlStore.Tables :=
  saves.foldl (fun db (address, m, id, ids, t) =>
    (SqlStore.saveMessage db quotas address m id ids t).2) ⟨mailboxes, [], []⟩

/-- The clock is set back by one between two saves: the second message is dropped at once. -/
theorem not_saved_kept :
    (¬∀ quotas calls address m id attachmentIds receivedAt stored s',
      (calls.flatMap (·.2.2) ++ id :: attachmentIds).Nodup →
      MemoryStore.saveMessage quotas (storeAfter quotas calls) address m id attachmentIds receivedAt =
        (stored, s') → s'.Has address stored.id) ∧
    (¬∀ quotas mailboxes saves address m id attachmentIds receivedAt stored db',
      (saves.flatMap (fun x => x.2.2.1 :: x.2.2.2.1) ++ id :: attachmentIds).Nodup →
      SqlStore.saveMessage (tablesAfter quotas mailboxes saves) quotas address m id attachmentIds
        receivedAt = (.ok stored, db') → db'.Has address stored.id) := by
  constructor
  · intro H
    have hhas := H oneMessageQuota
      [(.createMailbox "a@example.com" "example.com" 10 none none, 0, []),
        (.saveMessage "a@example.com" emptyMessage, 1, [1])]
      "a@example.com" emptyMessage 2 [] 0 _ _ (by decide) rfl
    obtain ⟨e, he, hat⟩ := hhas
    revert e
    decide +kernel
  · intro H
    have hhas := H oneMessageQuota oneMailbox.mailboxes
      [("a@example.com", emptyMessage, 1, [], 1)] "a@example.com" emptyMessage 2 [] 0 _ _
      (by decide) rfl
    obtain ⟨row, hrow, hat⟩ := hhas
    revert row
    decide +kernel

end AnonyMail
