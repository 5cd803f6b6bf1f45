import AnonyMail.Verify.QuotaStatements

/-! # Reading back a saved message from the SQL stores

A message is kept in two tables and put together again by a query that sorts the attachments by
their ids. The ids are random, so the attachments come back in the order of the message exactly if
the ids were drawn in ascending order. -/

namespace AnonyMail.SqlStore

/-- What was saved is what the three reads return. -/
structure ReadsBack (db : Tables) (address : String) (m : NewMessage) (stored : StoredMessage) :
    Prop where
  message : getMessage db address stored.id = some stored
  order : stored.attachments.map (fun a => (a.filename, a.contentType)) =
    m.attachments.map fun a => (a.filename, a.contentType)
  attachment : ∀ (i : Nat) info att, stored.attachments[i]? = some info →
    m.attachments[i]? = some att → getAttachment db address stored.id info.id =
      some ⟨att.filename, att.contentType, att.content⟩
  raw : getRawMessage db address stored.id = m.rawContent

/-- The attachment rows of a message. -/
def attachmentRows (id : Uuid) (attachmentIds : List Uuid) (attachments : List NewAttachment) :
    List AttachmentRow :=
  (attachmentIds.zip attachments).map fun (aid, att) =>
    ⟨aid, id, att.filename, att.contentType, MemoryStore.asI32 att.content.length, att.content⟩

def AttachmentRow.info (a : AttachmentRow) : AttachmentMeta := ⟨a.id, a.filename, a.contentType, a.size⟩

variable {db db' : Tables} {address : String} {m : NewMessage} {id : Uuid}
  {attachmentIds : List Uuid} {receivedAt : DateTime} {stored : StoredMessage} {row : MessageRow}
  {attachments : List NewAttachment} {rows : List AttachmentRow}

theorem find?_of_unique {α : Type} {p : α → Bool} {l : List α} {x : α} (hx : x ∈ l) (hp : p x)
    (hu : ∀ y ∈ l, p y → y = x) : l.find? p = some x := by
  cases h : l.find? p with
  | none => exact absurd hp (List.find?_eq_none.mp h x hx)
  | some y => rw [hu y (List.mem_of_find?_eq_some h) (List.find?_some h)]

theorem ids_attachmentRows (hlen : attachmentIds.length = attachments.length) :
    (attachmentRows id attachmentIds attachments).map (·.id) = attachmentIds := by
  rw [attachmentRows, List.map_map]
  exact List.map_fst_zip hlen.le

theorem names_attachmentRows (hlen : attachmentIds.length = attachments.length) :
    (attachmentRows id attachmentIds attachments).map (fun a => (a.filename, a.contentType)) =
      attachments.map fun a => (a.filename, a.contentType) := by
  conv_rhs => rw [← List.map_snd_zip hlen.ge, List.map_map]
  rw [attachmentRows, List.map_map]
  rfl

/-- Sorting by id leaves the order alone exactly if the ids ascend. -/
theorem sort_attachments_iff (hnodup : (rows.map (·.id)).Nodup) :
    (rows.insertionSort fun a b => a.id ≤ b.id).map AttachmentRow.info = rows.map AttachmentRow.info ↔
      (rows.map (·.id)).Pairwise (· < ·) := by
  constructor
  · intro h
    have hids := congrArg (List.map (·.id)) h
    rw [List.map_map, List.map_map] at hids
    have hids : (rows.insertionSort fun a b => a.id ≤ b.id).map (·.id) = rows.map (·.id) := hids
    have htotal : Std.Total fun a b : AttachmentRow => a.id ≤ b.id := ⟨fun _ _ => le_total ..⟩
    have htrans : IsTrans AttachmentRow fun a b => a.id ≤ b.id := ⟨fun _ _ _ => le_trans⟩
    have hsorted := List.pairwise_map.mpr (List.pairwise_insertionSort (fun a b => a.id ≤ b.id) rows)
    rw [hids] at hsorted
    exact (hsorted.and hnodup).imp fun h => lt_of_le_of_ne h.1 h.2
  · intro h
    rw [List.Pairwise.insertionSort_eq ((List.pairwise_map.mp h).imp fun h => h.le)]

theorem row_insertMessage (hfresh : ∀ r ∈ db.messages, r.id ≠ row.id) :
    (db.insertMessage row rows).row row.mailboxAddress row.id = some row := by
  refine find?_of_unique (List.mem_append_right _ (List.mem_singleton_self row)) (by simp) ?_
  intro r hr hp
  obtain hr | hr := List.mem_append.mp hr
  · exact absurd (eq_of_beq (Bool.and_eq_true_iff.mp hp).2) (hfresh r hr)
  · exact List.mem_singleton.mp hr

theorem attachmentsOf_insertMessage (hfresh : ∀ a ∈ db.attachments, a.messageId ≠ id)
    (hrows : ∀ a ∈ rows, a.messageId = id) :
    (db.insertMessage row rows).attachmentsOf id =
      (rows.insertionSort fun a b => a.id ≤ b.id).map AttachmentRow.info := by
  have hold : db.attachments.filter (fun a => a.messageId == id) = [] :=
    List.filter_eq_nil_iff.mpr fun a ha => by simpa using hfresh a ha
  have hnew : rows.filter (fun a => a.messageId == id) = rows :=
    List.filter_eq_self.mpr fun a ha => by simpa using hrows a ha
  rw [Tables.attachmentsOf, Tables.insertMessage, List.filter_append, hold, hnew, List.nil_append]
  rfl

theorem getAttachment_insertMessage (hfresh : ∀ a ∈ db.attachments, a.messageId ≠ row.id)
    (hrows : ∀ a ∈ rows, a.messageId = row.id) (hnodup : (rows.map (·.id)).Nodup)
    {a : AttachmentRow} (ha : a ∈ rows) :
    getAttachment (db.insertMessage row rows) row.mailboxAddress row.id a.id =
      some ⟨a.filename, a.contentType, a.content⟩ := by
  have hfind : (db.insertMessage row rows).attachments.find? (fun x => x.messageId == row.id &&
      x.id == a.id && (db.insertMessage row rows).messages.any fun m =>
        m.id == x.messageId && m.mailboxAddress == row.mailboxAddress) = some a := by
    refine find?_of_unique (List.mem_append_right _ ha) ?_ fun x hx hp => ?_
    · have hjoin : (db.insertMessage row rows).messages.any fun m =>
          m.id == a.messageId && m.mailboxAddress == row.mailboxAddress :=
        List.any_eq_true.mpr ⟨row, List.mem_append_right _ (List.mem_singleton_self row),
          by simp [hrows a ha]⟩
      rw [hjoin]
      simp [hrows a ha]
    · simp only [Bool.and_eq_true, beq_iff_eq] at hp
      obtain hx | hx := List.mem_append.mp hx
      · exact absurd hp.1.1 (hfresh x hx)
      · exact List.inj_on_of_nodup_map hnodup hx ha hp.1.2
  rw [getAttachment, hfind]
  rfl

/-- Without quotas a save is an insertion of rows that hold the message and its attachments. -/
theorem saveMessage_unlimited (hmailbox : ∃ mb ∈ db.mailboxes, mb.address = address) (m : NewMessage)
    (id : Uuid) (attachmentIds : List Uuid) (receivedAt : DateTime) :
    ∃ row : MessageRow, row.mailboxAddress = address ∧ row.id = id ∧ row.rawContent = m.rawContent ∧
      saveMessage db .unlimited address m id attachmentIds receivedAt =
        (.ok { id, mailboxAddress := address, mailFrom := row.mailFrom, subject := row.subject,
               messageDate := row.messageDate, textBody := row.textBody, htmlBody := row.htmlBody,
               rawSize := row.rawSize, receivedAt := row.receivedAt, seen := row.seen,
               attachments := (attachmentRows id attachmentIds m.attachments).map
                 AttachmentRow.info },
          db.insertMessage row (attachmentRows id attachmentIds m.attachments)) := by
  have hall : (db.mailboxes.all (·.address != address)) = false := by
    obtain ⟨mb, hmb, haddress⟩ := hmailbox
    exact List.all_eq_false.mpr ⟨mb, hmb, by simp [haddress]⟩
  rw [saveMessage, hall]
  exact ⟨⟨id, address, m.mailFrom, m.subject, m.messageDate, m.textBody, m.htmlBody, m.rawSize,
    receivedAt, m.rawContent, false⟩, rfl, rfl, rfl, rfl⟩

theorem getElem?_attachmentRows {i : Nat} {a : AttachmentRow} {att : NewAttachment}
    (ha : (attachmentRows id attachmentIds attachments)[i]? = some a)
    (hatt : attachments[i]? = some att) :
    a.filename = att.filename ∧ a.contentType = att.contentType ∧ a.content = att.content := by
  rw [attachmentRows, List.getElem?_map, Option.map_eq_some_iff] at ha
  obtain ⟨⟨aid, x⟩, hx, rfl⟩ := ha
  rw [List.getElem?_zip_eq_some] at hx
  cases hx.2.symm.trans hatt
  exact ⟨rfl, rfl, rfl⟩

/-- A saved message reads back as it was saved exactly if the ids of its attachments ascend. -/
theorem save_reads_back_iff (db : Tables) (address : String)
    (hmailbox : ∃ mb ∈ db.mailboxes, mb.address = address)
    (hreferences : ∀ a ∈ db.attachments, ∃ row ∈ db.messages, row.id = a.messageId)
    (m : NewMessage) (id : Uuid) (attachmentIds : List Uuid) (receivedAt : DateTime)
    (hlen : attachmentIds.length = m.attachments.length) (hnodup : attachmentIds.Nodup)
    (hfresh : ∀ row ∈ db.messages, row.id ≠ id) :
    ∃ stored db', saveMessage db .unlimited address m id attachmentIds receivedAt =
        (.ok stored, db') ∧
      (ReadsBack db' address m stored ↔ attachmentIds.Pairwise (· < ·)) := by
  obtain ⟨row, rfl, rfl, hraw, hsave⟩ := saveMessage_unlimited hmailbox m id attachmentIds receivedAt
  refine ⟨_, _, hsave, ?_⟩
  have hids := @ids_attachmentRows row.id attachmentIds m.attachments hlen
  have hmessageId : ∀ a ∈ attachmentRows row.id attachmentIds m.attachments, a.messageId = row.id := by
    intro a ha
    obtain ⟨_, -, rfl⟩ := List.mem_map.mp ha
    rfl
  have hold : ∀ a ∈ db.attachments, a.messageId ≠ row.id := by
    intro a ha h
    obtain ⟨r, hr, hrid⟩ := hreferences a ha
    exact hfresh r hr (hrid.trans h)
  have horder := @names_attachmentRows row.id attachmentIds m.attachments hlen
  generalize hrows : attachmentRows row.id attachmentIds m.attachments = rows at *
  have hmessage : getMessage (db.insertMessage row rows) row.mailboxAddress row.id = some
      { id := row.id, mailboxAddress := row.mailboxAddress, mailFrom := row.mailFrom,
        subject := row.subject, messageDate := row.messageDate, textBody := row.textBody,
        htmlBody := row.htmlBody, rawSize := row.rawSize, receivedAt := row.receivedAt,
        seen := row.seen,
        attachments := (rows.insertionSort fun a b => a.id ≤ b.id).map AttachmentRow.info } := by
    rw [getMessage, row_insertMessage hfresh, Option.map_some,
      attachmentsOf_insertMessage hold hmessageId]
  have hiff := sort_attachments_iff (hids ▸ hnodup : (rows.map (·.id)).Nodup)
  rw [hids] at hiff
  constructor
  · intro h
    have hread := h.message
    rw [hmessage] at hread
    exact hiff.mp (congrArg StoredMessage.attachments (Option.some.inj hread))
  · intro h
    refine ⟨by rw [hmessage, hiff.mpr h], ?_, ?_, ?_⟩
    · rw [← horder, List.map_map]
      rfl
    · intro i info att hinfo hatt
      obtain ⟨a, ha, rfl⟩ := Option.map_eq_some_iff.mp (List.getElem?_map .. ▸ hinfo)
      obtain ⟨h₁, h₂, h₃⟩ := getElem?_attachmentRows (hrows ▸ ha) hatt
      rw [← h₁, ← h₂, ← h₃]
      exact getAttachment_insertMessage hold hmessageId (hids ▸ hnodup) (List.mem_of_getElem? ha)
    · rw [getRawMessage, row_insertMessage hfresh]
      exact hraw

/-- A message with two attachments. -/
def twoAttachments : NewMessage :=
  ⟨"", none, none, none, none, 0, none, [⟨some "a", "text/plain", []⟩, ⟨some "b", "text/plain", []⟩]⟩

theorem save_reads_back_iff_two :
    ∃ stored db', saveMessage oneMailbox .unlimited "a@example.com" twoAttachments 1 [2, 3] 0 =
        (.ok stored, db') ∧
      (ReadsBack db' "a@example.com" twoAttachments stored ↔ [2, 3].Pairwise (· < ·)) :=
  save_reads_back_iff oneMailbox "a@example.com" ⟨_, List.mem_singleton_self _, rfl⟩ (by decide)
    twoAttachments 1 [2, 3] 0 rfl (by decide) (by decide)

/-- The second attachment is drawn the smaller id. -/
theorem not_save_reads_back :
    ¬∀ (db : Tables) (address : String) (m : NewMessage) (id : Uuid) (attachmentIds : List Uuid)
      (receivedAt : DateTime), (∃ mb ∈ db.mailboxes, mb.address = address) →
      (∀ a ∈ db.attachments, ∃ row ∈ db.messages, row.id = a.messageId) →
      attachmentIds.length = m.attachments.length → (id :: attachmentIds).Nodup →
      (∀ row ∈ db.messages, row.id ≠ id) → (∀ a ∈ db.attachments, a.id ∉ attachmentIds) →
      (∀ a ∈ m.attachments, a.content.length < 2 ^ 31) →
      ∀ stored db', saveMessage db .unlimited address m id attachmentIds receivedAt =
        (.ok stored, db') → ReadsBack db' address m stored := by
  intro H
  have h := (H oneMailbox "a@example.com" twoAttachments 1 [3, 2] 0
    ⟨_, List.mem_singleton_self _, rfl⟩ (by decide) rfl (by decide) (by decide) (by decide)
    (by decide) _ _ rfl).message
  revert h
  decide +kernel

end AnonyMail.SqlStore
