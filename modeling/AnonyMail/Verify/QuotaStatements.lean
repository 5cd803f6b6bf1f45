import AnonyMail.Verify.Retention

/-! # The quota statements of the SQL stores

Two `DELETE` statements do what the in-memory store does with one pass over a sorted list. The
position of a message in the newest-first order says on both sides whether it stays: the messages
before it are counted against one cap, their sizes and its own against the other. The sides part
where the byte cap, bound as a signed 64-bit parameter, turns negative. -/

namespace AnonyMail

open Rank MemoryStore

/-- The row that holds an entry, but for its attachments. -/
def MemoryStore.Entry.toRow (e : Entry) : SqlStore.MessageRow :=
  { id := e.message.id, mailboxAddress := e.message.mailboxAddress, mailFrom := e.message.mailFrom,
    subject := e.message.subject, messageDate := e.message.messageDate,
    textBody := e.message.textBody, htmlBody := e.message.htmlBody, rawSize := e.message.rawSize,
    receivedAt := e.message.receivedAt, rawContent := e.raw, seen := e.message.seen }

/-! ## Positions in memory -/

namespace MemoryStore

variable {messages l l₁ l₂ : List Entry} {address : String} {newId : Uuid} {quotas : MailboxQuotas}
  {e : Entry}

theorem not_mem_ids_append (hids : (messageIds (l₁ ++ e :: l₂)).Nodup) :
    e.message.id ∉ messageIds l₁ ∧ e.message.id ∉ messageIds l₂ := by
  rw [messageIds, List.map_append, List.map_cons] at hids
  obtain ⟨-, htail, hcross⟩ := List.nodup_append.mp hids
  exact ⟨fun h => hcross _ h _ List.mem_cons_self rfl, (List.nodup_cons.mp htail).1⟩

theorem mem_overBytes {maxBytes running : Nat} (hids : (messageIds (l₁ ++ e :: l₂)).Nodup) :
    e.message.id ∈ overBytes maxBytes newId running ((l₁ ++ e :: l₂).map Entry.row) ↔
      maxBytes < min (running + (l₁.map Entry.size).sum + e.size) u64Max ∧
        e.message.id ≠ newId := by
  obtain ⟨h₁, h₂⟩ := not_mem_ids_append hids
  induction l₁ generalizing running with
  | nil =>
    have hrest : ∀ r, e.message.id ∉ overBytes maxBytes newId r (l₂.map Entry.row) :=
      fun r h => h₂ (ids_overBytes h)
    rw [List.nil_append, List.map_cons, Entry.row, overBytes, ← Entry.size, List.map_nil,
      List.sum_nil, Nat.add_zero]
    split
    · next hover => exact iff_of_true List.mem_cons_self hover
    · next hover => exact iff_of_false (hrest _) hover
  | cons x l₁ ih =>
    obtain ⟨hne, h₁⟩ := List.ne_and_not_mem_of_not_mem_cons h₁
    have hrest := @ih (min (running + x.size) u64Max) (List.nodup_cons.mp hids).2 h₁
    have hmin : min (min (running + x.size) u64Max + (l₁.map Entry.size).sum + e.size) u64Max =
        min (running + ((x :: l₁).map Entry.size).sum + e.size) u64Max := by
      rw [List.map_cons, List.sum_cons]
      omega
    rw [hmin] at hrest
    rw [List.cons_append, List.map_cons, Entry.row, overBytes, ← Entry.size]
    split
    · rw [List.mem_cons, or_iff_right hne, hrest]
    · exact hrest

theorem mem_ids_drop (hids : (messageIds (l₁ ++ e :: l₂)).Nodup) {n : Nat} :
    e.message.id ∈ messageIds ((l₁ ++ e :: l₂).drop n) ↔ n ≤ l₁.length := by
  obtain ⟨h₁, h₂⟩ := not_mem_ids_append hids
  constructor
  · intro h
    by_contra hlt
    refine h₂ (List.map_subset _ ?_ h)
    rw [List.drop_append, List.drop_eq_nil_of_le (by omega), List.nil_append]
    exact List.drop_subset_drop_left _ (show 1 ≤ n - l₁.length by omega)
  · intro hle
    rw [List.drop_append_of_le_length hle, messageIds, List.map_append, List.map_cons]
    exact List.mem_append_right _ List.mem_cons_self

/-- Where a message stands in its mailbox says whether it is evicted. -/
theorem mem_evicted_iff (hids : (messageIds messages).Nodup)
    (hall : inbox messages address = l₁ ++ e :: l₂) :
    e.message.id ∈ evicted messages address newId quotas ↔
      0 < quotas.maxMessages ∧ quotas.maxMessages ≤ l₁.length ∨
      0 < quotas.maxBytes ∧ quotas.maxBytes < min ((l₁.map Entry.size).sum + e.size) u64Max ∧
        e.message.id ≠ newId := by
  have hidsAll : (messageIds (l₁ ++ e :: l₂)).Nodup := hall ▸ nodup_ids_inbox hids
  rw [evicted, newestFirstOf_eq, hall, List.mem_append]
  refine or_congr ?_ ?_
  · split
    · next hpos =>
      rw [and_iff_right hpos, ← mem_ids_drop hidsAll, ← List.map_drop, List.map_map]
      rfl
    · next hpos => exact iff_of_false List.not_mem_nil fun h => hpos h.1
  · split
    · next hpos =>
      rw [and_iff_right hpos, mem_overBytes hidsAll, Nat.zero_add]
    · next hpos => exact iff_of_false List.not_mem_nil fun h => hpos h.1

theorem mem_ids_take (hids : (messageIds (l₁ ++ e :: l₂)).Nodup) {n : Nat} :
    e.message.id ∈ messageIds ((l₁ ++ e :: l₂).take n) ↔ l₁.length < n := by
  obtain ⟨h₁, -⟩ := not_mem_ids_append hids
  constructor
  · intro h
    by_contra hle
    rw [List.take_append_of_le_length (by omega)] at h
    exact h₁ (List.map_subset _ (List.take_subset _ _) h)
  · intro hlt
    refine List.mem_map_of_mem ?_
    rw [List.take_append, List.take_cons (by omega)]
    exact List.mem_append_right _ List.mem_cons_self

/-- The ids of the first messages select just these. -/
theorem filter_mem_ids_take (hids : (messageIds l).Nodup) (n : Nat) :
    l.filter (fun e => (messageIds (l.take n)).contains e.message.id) = l.take n := by
  refine Eq.trans (List.filter_congr fun e he => ?_) (filter_not_mem_ids_drop hids n)
  obtain ⟨l₁, l₂, rfl⟩ := List.append_of_mem he
  rw [List.contains_eq_mem]
  exact decide_eq_decide.mpr ((mem_ids_take hids).trans
    (Nat.not_le.symm.trans (not_congr (mem_ids_drop hids).symm)))

end MemoryStore

/-! ## Positions in the tables -/

namespace SqlStore

variable {db : Tables} {entries l₁ l₂ : List Entry} {e : Entry} {address : String} {id : Uuid}
  {n : Nat}

theorem inbox_perm_map (h : db.messages.Perm (entries.map Entry.toRow)) :
    (db.inbox address).Perm ((inbox entries address).map Entry.toRow) := by
  refine (h.filter _).trans ?_
  rw [List.filter_map]
  exact (MemoryStore.inbox_perm.map Entry.toRow).symm

theorem sorted_inbox (h : db.messages.Perm (entries.map Entry.toRow))
    (hids : (messageIds entries).Nodup) :
    (db.inbox address).insertionSort newestFirst = (inbox entries address).map Entry.toRow := by
  have hperm := (List.perm_insertionSort newestFirst (db.inbox address)).trans (inbox_perm_map h)
  refine (descending_insertionSort MessageRow.key (fun _ _ => newestFirst_iff) _).eq_of_perm
    (List.pairwise_map.mpr descending_inbox) hperm fun a ha b hb hab => ?_
  obtain ⟨x, hx, rfl⟩ := List.mem_map.mp (hperm.mem_iff.mp ha)
  obtain ⟨y, hy, rfl⟩ := List.mem_map.mp (hperm.mem_iff.mp hb)
  have hid : x.message.id = y.message.id := congrArg (·.2) (toLex.injective hab)
  rw [eq_of_id_eq hids (mem_inbox.mp hx).1 (mem_inbox.mp hy).1 hid]

theorem ids_take_sorted (h : db.messages.Perm (entries.map Entry.toRow))
    (hids : (messageIds entries).Nodup) :
    (((db.inbox address).insertionSort newestFirst).take n).map (·.id) =
      messageIds ((inbox entries address).take n) := by
  rw [sorted_inbox h hids, ← List.map_take, List.map_map]
  rfl

theorem mem_deleteOverCount (h : db.messages.Perm (entries.map Entry.toRow))
    (hids : (messageIds entries).Nodup) (hall : inbox entries address = l₁ ++ e :: l₂) :
    e.toRow ∈ (db.deleteOverCount address n).messages ↔ l₁.length < n := by
  have he : e ∈ inbox entries address := hall ▸ List.mem_append_right _ List.mem_cons_self
  have haddress : e.toRow.mailboxAddress = address := (mem_inbox.mp he).2
  have hidsAll : (messageIds (l₁ ++ e :: l₂)).Nodup := hall ▸ nodup_ids_inbox hids
  rw [Tables.deleteOverCount, mem_deleteMessages, ids_take_sorted h hids, hall, haddress,
    and_iff_right (h.mem_iff.mpr (List.mem_map_of_mem (mem_inbox.mp he).1)),
    ← mem_ids_take hidsAll]
  simp [Entry.toRow]

theorem inbox_deleteOverCount (h : db.messages.Perm (entries.map Entry.toRow))
    (hids : (messageIds entries).Nodup) :
    ((db.deleteOverCount address n).inbox address).Perm
      (((inbox entries address).take n).map Entry.toRow) := by
  have hfilter : (db.deleteOverCount address n).inbox address =
      (db.inbox address).filter fun row =>
        (messageIds ((inbox entries address).take n)).contains row.id := by
    rw [Tables.inbox, Tables.deleteOverCount, ids_take_sorted h hids, Tables.deleteMessages,
      Tables.inbox, List.filter_filter, List.filter_filter]
    refine List.filter_congr fun row _ => ?_
    cases row.mailboxAddress == address <;> simp
  rw [hfilter]
  refine ((inbox_perm_map h).filter _).trans ?_
  rw [List.filter_map]
  exact (List.Perm.of_eq (filter_mem_ids_take (nodup_ids_inbox hids) n)).map _

theorem running_eq {rows : List MessageRow} (h : rows.Perm ((l₁ ++ e :: l₂).map Entry.toRow))
    (hdesc : Descending Entry.key (l₁ ++ e :: l₂)) (hids : (messageIds (l₁ ++ e :: l₂)).Nodup) :
    running rows e.toRow = (l₁.map (·.message.rawSize)).sum + e.message.rawSize := by
  have hne : ∀ y ∈ l₂, y.key ≠ e.key := fun y hy hkey =>
    (not_mem_ids_append hids).2 (mem_ids.mpr ⟨y, hy, congrArg (·.2) (toLex.injective hkey)⟩)
  have hfilter : (rows.filter (newestFirst · e.toRow)).Perm ((l₁ ++ [e]).map Entry.toRow) := by
    refine (h.filter _).trans ?_
    rw [List.filter_map, ← hdesc.filter_ge hne]
    refine (List.Perm.of_eq (List.filter_congr fun y _ => ?_)).map _
    exact decide_eq_decide.mpr newestFirst_iff
  rw [running, (hfilter.map _).sum_eq, List.map_map, List.map_append, List.sum_append,
    List.map_singleton, List.sum_singleton]
  rfl

theorem mem_deleteOverBytes {maxBytes : Nat}
    (h : (db.inbox address).Perm ((l₁ ++ e :: l₂).map Entry.toRow))
    (hdesc : Descending Entry.key (l₁ ++ e :: l₂)) (hids : (messageIds (l₁ ++ e :: l₂)).Nodup) :
    e.toRow ∈ (db.deleteOverBytes address maxBytes id).messages ↔
      ¬(asI64 maxBytes < (l₁.map (·.message.rawSize)).sum + e.message.rawSize ∧
        e.message.id ≠ id) := by
  have he : e.toRow ∈ db.inbox address :=
    h.mem_iff.mpr (List.mem_map_of_mem (List.mem_append_right _ List.mem_cons_self))
  obtain ⟨hmem, haddress⟩ := List.mem_filter.mp he
  rw [Tables.deleteOverBytes, mem_deleteMessages, and_iff_right hmem, haddress, Bool.true_and,
    List.contains_iff_mem, List.mem_map, ← running_eq h hdesc hids]
  refine not_congr ⟨?_, fun hover => ⟨e.toRow, List.mem_filter.mpr ⟨he, decide_eq_true hover⟩, rfl⟩⟩
  rintro ⟨row, hrow, hid⟩
  obtain ⟨hrow, hover⟩ := List.mem_filter.mp hrow
  obtain ⟨y, hy, rfl⟩ := List.mem_map.mp (h.mem_iff.mp hrow)
  obtain rfl : y = e := eq_of_id_eq hids hy (List.mem_append_right _ List.mem_cons_self) hid
  exact of_decide_eq_true hover

/-- The first quota statement of `saveMessage`, and both. -/
def Tables.enforceCount (db : Tables) (address : String) (quotas : MailboxQuotas) : Tables :=
  if quotas.maxMessages > 0 then db.deleteOverCount address quotas.maxMessages else db

def Tables.enforceQuotas (db : Tables) (address : String) (id : Uuid) (quotas : MailboxQuotas) :
    Tables :=
  let db := db.enforceCount address quotas
  if quotas.maxBytes > 0 then db.deleteOverBytes address quotas.maxBytes id else db

variable {quotas : MailboxQuotas}

theorem mem_enforceCount (h : db.messages.Perm (entries.map Entry.toRow))
    (hids : (messageIds entries).Nodup) (hall : inbox entries address = l₁ ++ e :: l₂) :
    e.toRow ∈ (db.enforceCount address quotas).messages ↔
      (0 < quotas.maxMessages → l₁.length < quotas.maxMessages) := by
  rw [Tables.enforceCount]
  split
  · next hpos => rw [mem_deleteOverCount h hids hall, forall_prop_of_true hpos]
  · next hpos =>
    have he := (mem_inbox.mp (hall ▸ List.mem_append_right _ List.mem_cons_self)).1
    exact iff_of_true (h.mem_iff.mpr (List.mem_map_of_mem he)) fun hpos' => absurd hpos' hpos

theorem inbox_enforceCount (h : db.messages.Perm (entries.map Entry.toRow))
    (hids : (messageIds entries).Nodup) :
    ((db.enforceCount address quotas).inbox address).Perm (((inbox entries address).take
      (countKept quotas (inbox entries address))).map Entry.toRow) := by
  rw [Tables.enforceCount, countKept]
  split
  · exact inbox_deleteOverCount h hids
  · rw [List.take_length]
    exact inbox_perm_map h

theorem mem_enforceQuotas (h : db.messages.Perm (entries.map Entry.toRow))
    (hids : (messageIds entries).Nodup) (hall : inbox entries address = l₁ ++ e :: l₂) :
    e.toRow ∈ (db.enforceQuotas address id quotas).messages ↔
      (0 < quotas.maxMessages → l₁.length < quotas.maxMessages) ∧
      (0 < quotas.maxBytes → ¬(asI64 quotas.maxBytes <
        (l₁.map (·.message.rawSize)).sum + e.message.rawSize ∧ e.message.id ≠ id)) := by
  rw [← mem_enforceCount h hids hall, Tables.enforceQuotas]
  by_cases hbytes : 0 < quotas.maxBytes
  · rw [if_pos hbytes, forall_prop_of_true hbytes]
    by_cases hkept : e.toRow ∈ (db.enforceCount address quotas).messages
    · have hlt : l₁.length < countKept quotas (inbox entries address) := by
        rw [countKept]
        split
        · next hpos => exact (mem_enforceCount h hids hall).mp hkept hpos
        · rw [hall]
          simp
      have hinbox := @inbox_enforceCount db entries address quotas h hids
      generalize countKept quotas (inbox entries address) = n at hlt hinbox
      have htake : (inbox entries address).take n = l₁ ++ e :: l₂.take (n - l₁.length - 1) := by
        rw [hall, List.take_append, List.take_of_length_le hlt.le, List.take_cons (by omega)]
      have hsub := List.take_sublist n (inbox entries address)
      rw [htake] at hsub hinbox
      rw [and_iff_right hkept]
      exact mem_deleteOverBytes hinbox (descending_inbox.sublist hsub)
        ((nodup_ids_inbox hids).sublist (hsub.map _))
    · rw [Tables.deleteOverBytes, mem_deleteMessages]
      exact iff_of_false (fun hmem => hkept hmem.1) (fun hmem => hkept hmem.1)
  · rw [if_neg hbytes]
    exact (and_iff_left fun hpos => absurd hpos hbytes).symm

theorem mem_enforceQuotas_of_ne {row : MessageRow} (hrow : row ∈ db.messages)
    (haddress : row.mailboxAddress ≠ address) :
    row ∈ (db.enforceQuotas address id quotas).messages := by
  have hcount : row ∈ (db.enforceCount address quotas).messages := by
    rw [Tables.enforceCount]
    split
    · exact mem_deleteMessages.mpr ⟨hrow, by simp [haddress]⟩
    · exact hrow
  rw [Tables.enforceQuotas]
  split
  · exact mem_deleteMessages.mpr ⟨hcount, by simp [haddress]⟩
  · exact hcount

theorem enforceQuotas_sublist :
    (db.enforceQuotas address id quotas).messages.Sublist db.messages := by
  have hcount : (db.enforceCount address quotas).messages.Sublist db.messages := by
    rw [Tables.enforceCount]
    split
    · exact List.filter_sublist
    · exact List.Sublist.refl _
  rw [Tables.enforceQuotas]
  split
  · exact List.filter_sublist.trans hcount
  · exact hcount

theorem saveMessage_eq {m : NewMessage} {attachmentIds : List Uuid} {receivedAt : DateTime}
    {new : Entry} (hmailbox : ∃ mb ∈ db.mailboxes, mb.address = address)
    (hnew : new.message = (MemoryStore.saveMessage quotas .empty address m id attachmentIds
      receivedAt).1) (hraw : new.raw = m.rawContent) :
    ∃ stored attachments, saveMessage db quotas address m id attachmentIds receivedAt =
      (.ok stored, (db.insertMessage new.toRow attachments).enforceQuotas address id quotas) := by
  have hall : (db.mailboxes.all (·.address != address)) = false := by
    obtain ⟨mb, hmb, haddress⟩ := hmailbox
    exact List.all_eq_false.mpr ⟨mb, hmb, by simp [haddress]⟩
  rw [Entry.toRow, hnew, hraw, saveMessage, hall]
  exact ⟨_, _, rfl⟩

end SqlStore

/-- The stores hold the same messages. -/
def SameMessages (s : MemoryStore.Inner) (db : SqlStore.Tables) : Prop :=
  db.messages.Perm (s.messages.map Entry.toRow)

section Agreement

variable {entries kept l₁ l₂ : List Entry} {rows left : List SqlStore.MessageRow} {e new : Entry}
  {address : String} {quotas : MailboxQuotas} {s : MemoryStore.Inner} {db : SqlStore.Tables}

theorem toRow_inj (hids : (messageIds entries).Nodup) {a b : Entry} (ha : a ∈ entries)
    (hb : b ∈ entries) (h : a.toRow = b.toRow) : a = b :=
  eq_of_id_eq hids ha hb (congrArg SqlStore.MessageRow.id h)

/-- What is left on both sides is the same if each message is left on both or on neither. -/
theorem perm_left_iff (h : rows.Perm (entries.map Entry.toRow)) (hids : (messageIds entries).Nodup)
    (hleft : left.Sublist rows) (hkept : kept.Sublist entries) :
    left.Perm (kept.map Entry.toRow) ↔ ∀ e ∈ entries, (e.toRow ∈ left ↔ e ∈ kept) := by
  have hmem : ∀ e ∈ entries, (e.toRow ∈ kept.map Entry.toRow ↔ e ∈ kept) := by
    intro e he
    refine ⟨fun hrow => ?_, List.mem_map_of_mem⟩
    obtain ⟨x, hx, hrow⟩ := List.mem_map.mp hrow
    exact toRow_inj hids (hkept.subset hx) he hrow ▸ hx
  have hnodup : (entries.map Entry.toRow).Nodup :=
    List.Nodup.of_map (·.id) (by rw [List.map_map]; exact hids)
  constructor
  · intro hp e he
    rw [hp.mem_iff, hmem e he]
  · intro H
    refine (List.perm_ext_iff_of_nodup ((h.nodup_iff.mpr hnodup).sublist hleft)
      (hnodup.sublist (hkept.map _))).mpr fun row => ?_
    by_cases hrow : row ∈ entries.map Entry.toRow
    · obtain ⟨e, he, rfl⟩ := List.mem_map.mp hrow
      rw [H e he, hmem e he]
    · refine iff_of_false (fun hl => hrow (h.mem_iff.mp (hleft.subset hl))) fun hk => ?_
      exact hrow ((hkept.map _).subset hk)

theorem inbox_of_head (hids : (messageIds (s.messages ++ [new])).Nodup)
    (haddress : new.message.mailboxAddress = address)
    (hall : inbox (s.messages ++ [new]) address = new :: l₂) : l₂ = inbox s.messages address := by
  have hdesc : Descending Entry.key (inbox (s.messages ++ [new]) address) := descending_inbox
  rw [hall] at hdesc
  refine (List.cons_inj_right new).mp (hall.symm.trans (inbox_concat hids haddress fun e he hat => ?_))
  have hmem := mem_inbox.mpr ⟨List.mem_append_left [new] he, hat⟩
  rw [hall] at hmem
  obtain rfl | hmem := List.mem_cons.mp hmem
  · exact le_rfl
  · exact (List.pairwise_cons.mp hdesc).1 e hmem

theorem newer_eq_zero_iff (hids : (messageIds (s.messages ++ [new])).Nodup)
    (haddress : new.message.mailboxAddress = address) :
    newer s address new.message.receivedAt new.message.id = 0 ↔
      inbox (s.messages ++ [new]) address = new :: inbox s.messages address := by
  have hiff : newer s address new.message.receivedAt new.message.id = 0 ↔
      ∀ e ∈ s.messages, e.message.mailboxAddress = address → e.key ≤ new.key := by
    rw [newer, rank, List.countP_eq_zero]
    simp only [List.mem_filter, beq_iff_eq, decide_eq_true_eq, not_lt, and_imp]
    rfl
  rw [hiff]
  refine ⟨inbox_concat hids haddress, fun hall e he hat => ?_⟩
  have hdesc : Descending Entry.key (inbox (s.messages ++ [new]) address) := descending_inbox
  rw [hall] at hdesc
  exact (List.pairwise_cons.mp hdesc).1 e (mem_inbox.mpr ⟨he, hat⟩)

/-- The sums of the two sides agree as long as the limit is not negative. -/
theorem past_cap_iff (hbytes : quotas.maxBytes < 2 ^ 63)
    (hsize : ∀ x ∈ l₁ ++ [e], 0 ≤ x.message.rawSize) :
    asI64 quotas.maxBytes < (l₁.map (·.message.rawSize)).sum + e.message.rawSize ↔
      quotas.maxBytes < min ((l₁.map Entry.size).sum + e.size) u64Max := by
  have he : (e.size : Int) = e.message.rawSize :=
    Int.toNat_of_nonneg (hsize e (List.mem_append_right _ List.mem_cons_self))
  rw [asI64_of_lt hbytes, sum_rawSize fun x hx => hsize x (List.mem_append_left _ hx), ← he, u64Max]
  omega

/-- The limit that the byte cap is bound to is negative: the SQL stores leave only the new
message, and the in-memory store leaves the first of the others if the count cap admits it. -/
theorem not_left_iff (hbytes : 2 ^ 63 ≤ quotas.maxBytes) (hbytes' : quotas.maxBytes < 2 ^ 64)
    (h : db.messages.Perm (entries.map Entry.toRow)) (hids : (messageIds entries).Nodup)
    (hsize : ∀ e ∈ entries, 0 ≤ e.message.rawSize ∧ e.message.rawSize < 2 ^ 31)
    (hall : inbox entries address = l₁ ++ e :: l₂) {id : Uuid} (hne : e.message.id ≠ id)
    (hlen : l₁.length ≤ 1) (hcount : 0 < quotas.maxMessages → l₁.length < quotas.maxMessages) :
    ¬(e.toRow ∈ (db.enforceQuotas address id quotas).messages ↔
      e ∈ MemoryStore.enforceQuotas entries address id quotas) := by
  have hmem : ∀ x ∈ l₁ ++ e :: l₂, x ∈ entries := fun x hx => (mem_inbox.mp (hall ▸ hx)).1
  have he := hmem e (List.mem_append_right _ List.mem_cons_self)
  have hsum : (l₁.map Entry.size).sum < 2 ^ 31 ∧ 0 ≤ (l₁.map (·.message.rawSize)).sum := by
    cases l₁ with
    | nil => exact ⟨Nat.two_pow_pos 31, Int.le_refl 0⟩
    | cons x l =>
      obtain rfl : l = [] := List.length_eq_zero_iff.mp (by simpa using hlen)
      have hx := hsize x (hmem x List.mem_cons_self)
      simp only [List.map_singleton, List.sum_singleton, Entry.size]
      omega
  have hsize := hsize e he
  have hcapped : 0 < quotas.maxBytes := Nat.lt_of_lt_of_le (Nat.two_pow_pos 63) hbytes
  rw [SqlStore.mem_enforceQuotas h hids hall, MemoryStore.mem_enforceQuotas, mem_evicted_iff hids hall]
  refine fun hiff => (hiff.mpr ⟨he, ?_⟩).2 hcapped ⟨?_, hne⟩
  · rintro (⟨hpos, hle⟩ | ⟨-, hlt, -⟩)
    · exact absurd hle (Nat.not_le.mpr (hcount hpos))
    · rw [Entry.size] at hlt
      omega
  · have := asI64_neg hbytes hbytes'
    omega

theorem id_ne (hids : (messageIds (s.messages ++ [new])).Nodup) (he : e ∈ s.messages) :
    e.message.id ≠ new.message.id := by
  rw [messageIds, List.map_append, List.nodup_append] at hids
  exact fun h => hids.2.2 _ (List.mem_map_of_mem he) _ (List.mem_singleton_self _) h

/-- The first of the other messages, when the limit is negative and the count cap admits it. -/
theorem exists_not_left_iff (hbytes : 2 ^ 63 ≤ quotas.maxBytes) (hbytes' : quotas.maxBytes < 2 ^ 64)
    (h : db.messages.Perm ((s.messages ++ [new]).map Entry.toRow))
    (hids : (messageIds (s.messages ++ [new])).Nodup)
    (hsize : ∀ e ∈ s.messages ++ [new], 0 ≤ e.message.rawSize ∧ e.message.rawSize < 2 ^ 31)
    (haddress : new.message.mailboxAddress = address) (he : e ∈ s.messages)
    (hat : e.message.mailboxAddress = address) (hfirst : quotas.maxMessages = 1 →
      inbox (s.messages ++ [new]) address ≠ new :: inbox s.messages address) :
    ∃ x ∈ s.messages ++ [new],
      ¬(x.toRow ∈ (db.enforceQuotas address new.message.id quotas).messages ↔
        x ∈ MemoryStore.enforceQuotas (s.messages ++ [new]) address new.message.id quotas) := by
  suffices hfind : ∃ l₁ x l₂, inbox (s.messages ++ [new]) address = l₁ ++ x :: l₂ ∧
      x.message.id ≠ new.message.id ∧ l₁.length ≤ 1 ∧
      (0 < quotas.maxMessages → l₁.length < quotas.maxMessages) by
    obtain ⟨l₁, x, l₂, hall, hne, hlen, hcount⟩ := hfind
    have hx := mem_inbox.mp (hall ▸ List.mem_append_right _ List.mem_cons_self)
    exact ⟨x, hx.1, not_left_iff hbytes hbytes' h hids hsize hall hne hlen hcount⟩
  cases hall : inbox (s.messages ++ [new]) address with
  | nil => exact absurd (hall ▸ mem_inbox.mpr ⟨List.mem_append_left [new] he, hat⟩) List.not_mem_nil
  | cons x l =>
    by_cases hx : x = new
    · obtain rfl := inbox_of_head hids haddress (hx ▸ hall)
      cases hrest : inbox s.messages address with
      | nil => exact absurd (hrest ▸ mem_inbox.mpr ⟨he, hat⟩) List.not_mem_nil
      | cons z l =>
        have hz : z ∈ s.messages ∧ _ := mem_inbox.mp (hrest ▸ List.mem_cons_self)
        have hone : quotas.maxMessages ≠ 1 := fun h => hfirst h (hx ▸ hall)
        refine ⟨[new], z, l, by rw [hx]; rfl, id_ne hids hz.1, le_rfl, fun hpos => ?_⟩
        rw [List.length_singleton]
        omega
    · have hxmem : x ∈ s.messages ++ [new] ∧ _ := mem_inbox.mp (hall ▸ List.mem_cons_self)
      have hold := (List.mem_append.mp hxmem.1).resolve_right fun h => hx (List.mem_singleton.mp h)
      exact ⟨[], x, l, rfl, id_ne hids hold, Nat.zero_le _, fun hpos => hpos⟩

theorem left_iff (h : db.messages.Perm ((s.messages ++ [new]).map Entry.toRow))
    (hids : (messageIds (s.messages ++ [new])).Nodup)
    (hsize : ∀ e ∈ s.messages ++ [new], 0 ≤ e.message.rawSize)
    (hcond : quotas.maxBytes < 2 ^ 63 ∨
      (∀ x ∈ s.messages, x.message.mailboxAddress ≠ address) ∨ quotas.maxMessages = 1 ∧
        inbox (s.messages ++ [new]) address = new :: inbox s.messages address)
    (he : e ∈ s.messages ++ [new]) :
    e.toRow ∈ (db.enforceQuotas address new.message.id quotas).messages ↔
      e ∈ MemoryStore.enforceQuotas (s.messages ++ [new]) address new.message.id quotas := by
  by_cases hmine : e.message.mailboxAddress = address
  swap
  · exact iff_of_true (SqlStore.mem_enforceQuotas_of_ne (h.mem_iff.mpr (List.mem_map_of_mem he)) hmine)
      (MemoryStore.mem_enforceQuotas.mpr ⟨he, not_mem_evicted hids he hmine⟩)
  obtain ⟨l₁, l₂, hall⟩ := List.append_of_mem (mem_inbox.mpr ⟨he, hmine⟩)
  rw [SqlStore.mem_enforceQuotas h hids hall, MemoryStore.mem_enforceQuotas, and_iff_right he,
    mem_evicted_iff hids hall]
  obtain hsmall | hcond := hcond
  · have hsub : l₁ ++ [e] ⊆ s.messages ++ [new] := by
      intro x hx
      have hx : x ∈ inbox (s.messages ++ [new]) address := by
        rw [hall]
        exact List.append_subset.mpr ⟨List.subset_append_left .., by simp⟩ hx
      exact (mem_inbox.mp hx).1
    rw [past_cap_iff hsmall fun x hx => hsize x (hsub hx)]
    simp only [not_or, not_and, Nat.not_le]
  · have hcase : e.message.id = new.message.id ∨ quotas.maxMessages = 1 ∧ 1 ≤ l₁.length := by
      obtain he | he := List.mem_append.mp he
      · obtain hother | ⟨hone, hfirst⟩ := hcond
        · exact absurd hmine (hother e he)
        · refine .inr ⟨hone, Nat.pos_of_ne_zero fun hzero => id_ne hids he ?_⟩
          rw [hall, List.length_eq_zero_iff.mp hzero] at hfirst
          rw [(List.cons.inj hfirst).1]
      · exact .inl (by rw [List.mem_singleton.mp he])
    obtain hnew | ⟨hone, hpos⟩ := hcase
    · simp [hnew]
    · rw [hone]
      exact iff_of_false (fun h => absurd (h.1 one_pos) (Nat.not_lt.mpr hpos))
        fun h => h (.inl ⟨one_pos, hpos⟩)

end Agreement

/-- The quota statements leave the messages that the in-memory store leaves exactly if the byte cap
is less than `2 ^ 63`, or the count cap leaves no message but the new one. -/
theorem quota_statements_agree_iff (quotas : MailboxQuotas) (hbytes : quotas.maxBytes < 2 ^ 64)
    (s : MemoryStore.Inner) (db : SqlStore.Tables) (hsame : SameMessages s db) (address : String)
    (hmailbox : ∃ mb ∈ db.mailboxes, mb.address = address) (m : NewMessage) (id : Uuid)
    (attachmentIds : List Uuid) (receivedAt : DateTime) (hids : (id :: messageIds s.messages).Nodup)
    (hsize : ∀ e ∈ s.messages, 0 ≤ e.message.rawSize ∧ e.message.rawSize < 2 ^ 31)
    (hnewSize : 0 ≤ m.rawSize ∧ m.rawSize < 2 ^ 31) :
    ∃ stored db', SqlStore.saveMessage db quotas address m id attachmentIds receivedAt =
        (.ok stored, db') ∧
      (SameMessages (MemoryStore.saveMessage quotas s address m id attachmentIds receivedAt).2 db' ↔
        quotas.maxBytes < 2 ^ 63 ∨
        (∀ e ∈ s.messages, e.message.mailboxAddress ≠ address) ∨
        quotas.maxMessages = 1 ∧ newer s address receivedAt id = 0) := by
  obtain ⟨new, hmessage, hraw, hs'⟩ := MemoryStore.saveMessage_eq quotas s address m id
    attachmentIds receivedAt
  obtain ⟨stored, attachments, hdb⟩ := SqlStore.saveMessage_eq hmailbox hmessage hraw
  refine ⟨stored, _, hdb, ?_⟩
  have hid : new.message.id = id := hmessage ▸ rfl
  have haddress : new.message.mailboxAddress = address := hmessage ▸ rfl
  have hat : new.message.receivedAt = receivedAt := hmessage ▸ rfl
  have hidsAll : (messageIds (s.messages ++ [new])).Nodup := by
    rw [messageIds, List.map_append, List.map_singleton, hid]
    exact (List.perm_append_singleton id _).nodup_iff.mpr hids
  have hsizes : ∀ e ∈ s.messages ++ [new], 0 ≤ e.message.rawSize ∧ e.message.rawSize < 2 ^ 31 := by
    intro e he
    obtain he | he := List.mem_append.mp he
    · exact hsize e he
    · rw [List.mem_singleton.mp he, hmessage]
      exact hnewSize
  have hrows : (db.insertMessage new.toRow attachments).messages.Perm
      ((s.messages ++ [new]).map Entry.toRow) := by
    rw [List.map_append, List.map_singleton]
    exact hsame.append_right _
  rw [SameMessages, hs', enforceQuotas_eq_filter, perm_left_iff hrows hidsAll
    SqlStore.enforceQuotas_sublist List.filter_sublist, ← enforceQuotas_eq_filter,
    ← hat, ← hid, newer_eq_zero_iff hidsAll haddress]
  constructor
  · intro H
    by_contra hcond
    simp only [not_or, not_forall, not_and, not_lt, not_not] at hcond
    obtain ⟨hbig, ⟨y, hy, hmine⟩, hfirst⟩ := hcond
    obtain ⟨x, hx, hnot⟩ :=
      exists_not_left_iff hbig hbytes hrows hidsAll hsizes haddress hy hmine hfirst
    exact hnot (H x hx)
  · exact fun hcond e he => left_iff hrows hidsAll (fun x hx => (hsizes x hx).1) hcond he

/-- The tables that hold what `oneMessage` holds. -/
def oneMessageTables : SqlStore.Tables :=
  { oneMailbox with messages := oneMessage.messages.map Entry.toRow }

theorem quota_statements_agree_iff_one :
    ∃ stored db', SqlStore.saveMessage oneMessageTables oneMessageQuota "a@example.com" emptyMessage 2
        [] 1 = (.ok stored, db') ∧
      (SameMessages (MemoryStore.saveMessage oneMessageQuota oneMessage "a@example.com" emptyMessage 2
          [] 1).2 db' ↔
        oneMessageQuota.maxBytes < 2 ^ 63 ∨
        (∀ e ∈ oneMessage.messages, e.message.mailboxAddress ≠ "a@example.com") ∨
        oneMessageQuota.maxMessages = 1 ∧ newer oneMessage "a@example.com" 1 2 = 0) :=
  quota_statements_agree_iff oneMessageQuota (by decide) oneMessage oneMessageTables (.refl _)
    "a@example.com" ⟨_, List.mem_singleton_self _, rfl⟩ emptyMessage 2 [] 1 (by decide) (by decide)
    (by decide)

/-- A cap of `2 ^ 63` bytes and two empty messages: the statements delete the older one. -/
theorem not_quota_statements_agree :
    ¬∀ (quotas : MailboxQuotas) (s : MemoryStore.Inner) (db : SqlStore.Tables) (address : String)
      (m : NewMessage) (id : Uuid) (attachmentIds : List Uuid) (receivedAt : DateTime),
      quotas.maxMessages < 2 ^ 32 → quotas.maxBytes < 2 ^ 64 → SameMessages s db →
      (∃ mb ∈ db.mailboxes, mb.address = address) → (id :: messageIds s.messages).Nodup →
      (∀ e ∈ s.messages, 0 ≤ e.message.rawSize ∧ e.message.rawSize < 2 ^ 31) →
      0 ≤ m.rawSize ∧ m.rawSize < 2 ^ 31 →
      ∀ stored db', SqlStore.saveMessage db quotas address m id attachmentIds receivedAt =
        (.ok stored, db') →
      SameMessages (MemoryStore.saveMessage quotas s address m id attachmentIds receivedAt).2 db' := by
  intro H
  have hsame := H ⟨0, 2 ^ 63⟩ oneMessage oneMessageTables "a@example.com" emptyMessage 2 [] 1
    (by decide) (by decide) (.refl _) ⟨_, List.mem_singleton_self _, rfl⟩ (by decide) (by decide)
    (by decide) _ _ rfl
  have hlen := hsame.length_eq
  revert hlen
  decide +kernel

end AnonyMail
