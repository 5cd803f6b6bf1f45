import AnonyMail.SqliteServer
import AnonyMail.Verify.Isolation
import AnonyMail.Verify.Listing
import AnonyMail.Verify.RoundTrip

/-! # Messages as rows of two tables

An entry of the in-memory store is a row of `messages` and a row of `attachments` for each of its
attachments. The reads of the tables find what the reads of the entries find, and a `DELETE` on the
first table takes the right rows out of the second. -/

namespace AnonyMail

open MemoryStore SqlStore

/-- The rows that hold the attachments of an entry. -/
def MemoryStore.Entry.attachmentRows (e : Entry) : List AttachmentRow :=
  (e.message.attachments.zip e.contents).map fun (a, c) =>
    ⟨a.id, e.message.id, a.filename, a.contentType, a.size, c.2⟩

/-- There is a content for each attachment, in this order. -/
def MemoryStore.Entry.Filed (e : Entry) : Prop :=
  e.contents.map (·.1) = e.message.attachments.map (·.id)

/-- The tables hold the attachments of these entries. -/
def SameAttachments (entries : List Entry) (db : Tables) : Prop :=
  db.attachments.Perm (entries.flatMap Entry.attachmentRows)

/-- The ids of the attachments. -/
def attachmentIds (entries : List Entry) : List Uuid :=
  entries.flatMap fun e => e.message.attachments.map (·.id)

section Lists

variable {α β : Type} {l l' : List α} {p : α → Bool}

/-- A search that accepts one element at most does not depend on the order. -/
theorem find?_perm (h : l.Perm l') (hu : ∀ x ∈ l, ∀ y ∈ l, p x → p y → x = y) :
    l.find? p = l'.find? p := by
  cases hf : l.find? p with
  | some x =>
    have hx := List.mem_of_find?_eq_some hf
    have hpx := List.find?_some hf
    exact (find?_of_unique (h.mem_iff.mp hx) hpx fun y hy hpy =>
      hu y (h.mem_iff.mpr hy) x hx hpy hpx).symm
  | none =>
    refine (List.find?_eq_none.mpr fun x hx => ?_).symm
    exact List.find?_eq_none.mp hf x (h.mem_iff.mpr hx)

theorem filter_flatMap {f : α → List β} {q : β → Bool} (h : ∀ x ∈ l, ∀ y ∈ f x, q y = p x) :
    (l.flatMap f).filter q = (l.filter p).flatMap f := by
  induction l with
  | nil => rfl
  | cons x l ih =>
    rw [List.flatMap_cons, List.filter_append, ih fun y hy => h y (List.mem_cons_of_mem _ hy),
      List.filter_cons]
    cases hp : p x with
    | true =>
      rw [List.filter_eq_self.mpr fun y hy => (h x List.mem_cons_self y hy).trans hp, if_pos rfl,
        List.flatMap_cons]
    | false =>
      rw [List.filter_eq_nil_iff.mpr fun y hy => by simp [h x List.mem_cons_self y hy, hp],
        if_neg Bool.false_ne_true, List.nil_append]

/-- Something is taken out if there is something to take out. -/
theorem length_filter_not_ne : ((l.filter fun x => !p x).length != l.length) = l.any p := by
  have hlen := List.length_eq_length_filter_add (l := l) p
  rw [Bool.eq_iff_iff, bne_iff_ne, List.any_eq_true, ← List.length_filter_pos_iff]
  omega

end Lists

variable {entries kept : List Entry} {db db' : Tables} {e : Entry} {address : String} {id aid : Uuid}
  {p : Entry → Bool}

/-! ## Entries and their rows -/

theorem messageId_attachmentRows {a : AttachmentRow} (ha : a ∈ e.attachmentRows) :
    a.messageId = e.message.id := by
  obtain ⟨_, -, rfl⟩ := List.mem_map.mp ha
  rfl

theorem MemoryStore.Entry.Filed.length_eq (h : e.Filed) :
    e.message.attachments.length = e.contents.length := by
  simpa using (congrArg List.length h).symm

theorem MemoryStore.Entry.Filed.info (h : e.Filed) :
    e.attachmentRows.map AttachmentRow.info = e.message.attachments := by
  rw [Entry.attachmentRows, List.map_map]
  exact List.map_fst_zip h.length_eq.le

theorem MemoryStore.Entry.Filed.ids (h : e.Filed) :
    e.attachmentRows.map (·.id) = e.message.attachments.map (·.id) := by
  rw [← h.info, List.map_map]
  rfl

theorem ids_flatMap_attachmentRows (h : ∀ e ∈ entries, e.Filed) :
    (entries.flatMap Entry.attachmentRows).map (·.id) = attachmentIds entries := by
  rw [List.map_flatMap, attachmentIds]
  exact List.flatMap_congr fun e he => (h e he).ids

/-- The rows of one message. -/
theorem filter_messageId (hatt : SameAttachments entries db) (hids : (messageIds entries).Nodup)
    (he : e ∈ entries) :
    (db.attachments.filter fun a => a.messageId == e.message.id).Perm e.attachmentRows := by
  refine (hatt.filter _).trans ?_
  have hone : entries.filter (fun x => x.message.id == e.message.id) = [e] := by
    refine List.perm_singleton.mp ((List.perm_ext_iff_of_nodup
      ((List.Nodup.of_map _ hids).filter _) (List.nodup_singleton e)).mpr fun x => ?_)
    rw [List.mem_filter, List.mem_singleton, beq_iff_eq]
    refine ⟨fun ⟨hx, hid⟩ => eq_of_id_eq hids hx he hid, ?_⟩
    rintro rfl
    exact ⟨he, rfl⟩
  rw [filter_flatMap fun x _ a ha => by rw [messageId_attachmentRows ha], hone, List.flatMap_singleton]

/-! ## Reads -/

theorem row_eq (hmsg : db.messages.Perm (entries.map Entry.toRow)) (hids : (messageIds entries).Nodup)
    (address : String) (id : Uuid) :
    db.row address id = (entries.find? (·.isAt address id)).map Entry.toRow := by
  rw [Tables.row, find?_perm hmsg, List.find?_map]
  · rfl
  · intro x hx y hy hpx hpy
    obtain ⟨a, ha, rfl⟩ := List.mem_map.mp (hmsg.mem_iff.mp hx)
    obtain ⟨b, hb, rfl⟩ := List.mem_map.mp (hmsg.mem_iff.mp hy)
    have hid : a.message.id = b.message.id :=
      (eq_of_beq (Bool.and_eq_true_iff.mp hpx).2).trans
        (eq_of_beq (Bool.and_eq_true_iff.mp hpy).2).symm
    rw [eq_of_id_eq hids ha hb hid]

theorem attachmentsOf_perm (hatt : SameAttachments entries db) (hids : (messageIds entries).Nodup)
    (he : e ∈ entries) (hfiled : e.Filed) :
    (db.attachmentsOf e.message.id).Perm e.message.attachments := by
  rw [← hfiled.info]
  exact ((List.perm_insertionSort _ _).trans (filter_messageId hatt hids he)).map _

/-- The attachment and its content are looked up in two lists on one side, in one on the other. -/
theorem find?_zip {infos : List AttachmentMeta} {contents : List (Uuid × List UInt8)}
    (h : contents.map (·.1) = infos.map (·.id)) (mid : Uuid) :
    (((infos.zip contents).map fun (a, c) =>
        (⟨a.id, mid, a.filename, a.contentType, a.size, c.2⟩ : AttachmentRow)).find?
          (·.id == aid)).map (fun a => (⟨a.filename, a.contentType, a.content⟩ : Attachment)) =
      (infos.find? (·.id == aid)).bind fun info =>
        (contents.find? (·.1 == aid)).map fun c => ⟨info.filename, info.contentType, c.2⟩ := by
  induction infos generalizing contents with
  | nil => rfl
  | cons info infos ih =>
    cases contents with
    | nil => cases h
    | cons c contents =>
      obtain ⟨hc, h⟩ := List.cons.inj h
      have hc : c.1 = info.id := hc
      rw [List.zip_cons_cons, List.map_cons, List.find?_cons, List.find?_cons, List.find?_cons]
      simp only [hc]
      cases info.id == aid with
      | true => rfl
      | false => exact ih h

theorem getAttachment_eq (s : Inner) (db : Tables)
    (hmsg : db.messages.Perm (s.messages.map Entry.toRow))
    (hatt : SameAttachments s.messages db) (hids : (messageIds s.messages).Nodup)
    (haids : (attachmentIds s.messages).Nodup) (hfiled : ∀ e ∈ s.messages, e.Filed)
    (address : String) (id aid : Uuid) :
    SqlStore.getAttachment db address id aid = MemoryStore.getAttachment s address id aid := by
  have hjoin : ∀ mid, (db.messages.any fun m => m.id == mid && m.mailboxAddress == address) =
      s.messages.any fun e => e.isAt address mid := by
    intro mid
    rw [hmsg.any_eq, List.any_map]
    refine congrArg (List.any _) (funext fun e => ?_)
    rw [Entry.isAt, Bool.and_comm]
    rfl
  rw [SqlStore.getAttachment, MemoryStore.getAttachment]
  simp only [hjoin]
  cases hf : s.messages.find? (·.isAt address id) with
  | none =>
    have hnone : (s.messages.any fun e => e.isAt address id) = false :=
      List.any_eq_false.mpr fun e he => List.find?_eq_none.mp hf e he
    rw [List.find?_eq_none.mpr fun a _ hp => ?_]
    · rfl
    · simp only [Bool.and_eq_true, beq_iff_eq] at hp
      rw [hp.1.1, hnone] at hp
      exact Bool.false_ne_true hp.2
  | some e =>
    have he := List.mem_of_find?_eq_some hf
    have hat : e.isAt address id := List.find?_some (p := fun e : Entry => e.isAt address id) hf
    obtain ⟨haddress, hid⟩ := isAt_iff.mp hat
    have hany : (s.messages.any fun e => e.isAt address id) = true :=
      List.any_eq_true.mpr ⟨e, he, hat⟩
    have hfind : (db.attachments.find? fun a => a.messageId == id && a.id == aid &&
        s.messages.any fun e => e.isAt address a.messageId) =
          e.attachmentRows.find? (·.id == aid) := by
      have hcongr : (fun a : AttachmentRow => a.messageId == id && a.id == aid &&
          s.messages.any fun e => e.isAt address a.messageId) =
          fun a => a.messageId == e.message.id && a.id == aid := by
        funext a
        rw [hid]
        by_cases hmid : a.messageId = id
        · simp [hmid, hany]
        · simp [hmid]
      have hnodup : (db.attachments.map (·.id)).Nodup := by
        rw [(hatt.map _).nodup_iff, ids_flatMap_attachmentRows hfiled]
        exact haids
      have hsplit : (db.attachments.find? fun a => a.messageId == e.message.id && a.id == aid) =
          (db.attachments.filter (·.messageId == e.message.id)).find? (·.id == aid) := by
        rw [List.find?_filter]
        simp only [Bool.decide_and, Bool.decide_coe]
      rw [hcongr, hsplit, find?_perm (filter_messageId hatt hids he)]
      intro x hx y hy hpx hpy
      exact List.inj_on_of_nodup_map hnodup (List.mem_of_mem_filter hx) (List.mem_of_mem_filter hy)
        ((eq_of_beq hpx).trans (eq_of_beq hpy).symm)
    rw [hfind, Entry.attachmentRows, find?_zip (hfiled e he)]
    exact bind_congr fun info => Option.map_eq_bind

/-! ## Deletes -/

/-- Each attachment belongs to a message. -/
def Referred (db : Tables) : Prop := ∀ a ∈ db.attachments, ∃ row ∈ db.messages, row.id = a.messageId

/-- Some messages are gone, and with them their attachments. -/
structure Reduces (db db' : Tables) : Prop where
  messages : db'.messages.Sublist db.messages
  attachments : db'.attachments =
    db.attachments.filter fun a => db'.messages.any (·.id == a.messageId)

theorem Reduces.refl (h : Referred db) : Reduces db db := by
  refine ⟨List.Sublist.refl _, (List.filter_eq_self.mpr fun a ha => ?_).symm⟩
  obtain ⟨row, hrow, hid⟩ := h a ha
  exact List.any_eq_true.mpr ⟨row, hrow, beq_iff_eq.mpr hid⟩

theorem Reduces.referred (h : Reduces db db') : Referred db' := by
  intro a ha
  rw [h.attachments] at ha
  obtain ⟨row, hrow, hid⟩ := List.any_eq_true.mp (List.mem_filter.mp ha).2
  exact ⟨row, hrow, eq_of_beq hid⟩

theorem Reduces.trans {db'' : Tables} (h : Reduces db db') (h' : Reduces db' db'') :
    Reduces db db'' := by
  refine ⟨h'.messages.trans h.messages, ?_⟩
  rw [h'.attachments, h.attachments, List.filter_filter]
  refine List.filter_congr fun a _ => ?_
  cases hany : db''.messages.any (·.id == a.messageId) with
  | false => rfl
  | true =>
    obtain ⟨row, hrow, hid⟩ := List.any_eq_true.mp hany
    exact List.any_eq_true.mpr ⟨row, h'.messages.subset hrow, hid⟩

theorem reduces_deleteMessages (h : Referred db) (hids : (db.messages.map (·.id)).Nodup)
    (p : MessageRow → Bool) : Reduces db (db.deleteMessages p) := by
  refine ⟨List.filter_sublist, ?_⟩
  refine List.filter_congr fun a ha => ?_
  obtain ⟨row, hrow, hid⟩ := h a ha
  have hrow' : ∀ r ∈ db.messages, r.id = a.messageId → r = row := fun r hr hr' =>
    List.inj_on_of_nodup_map hids hr hrow (hr'.trans hid.symm)
  rw [Bool.eq_iff_iff, Bool.not_eq_true', List.contains_eq_mem, decide_eq_false_iff_not,
    List.any_eq_true]
  constructor
  · intro hnot
    refine ⟨row, mem_deleteMessages.mpr ⟨hrow, ?_⟩, beq_iff_eq.mpr hid⟩
    refine fun hp => hnot ?_
    exact List.mem_map.mpr ⟨row, List.mem_filter.mpr ⟨hrow, hp⟩, hid⟩
  · rintro ⟨r, hr, hrid⟩ hmem
    obtain ⟨r', hr', hrid'⟩ := List.mem_map.mp hmem
    obtain ⟨hr, hp⟩ := mem_deleteMessages.mp hr
    obtain ⟨hr', hp'⟩ := List.mem_filter.mp hr'
    rw [hrow' r hr (eq_of_beq hrid)] at hp
    rw [hrow' r' hr' hrid'] at hp'
    exact hp hp'

/-- What is left of the attachments is what the messages that are left have. -/
theorem sameAttachments_of_reduces (hatt : SameAttachments entries db)
    (hids : (messageIds entries).Nodup) (hred : Reduces db db')
    (hmsg : db'.messages.Perm ((entries.filter p).map Entry.toRow)) :
    SameAttachments (entries.filter p) db' := by
  rw [SameAttachments, hred.attachments]
  refine (hatt.filter _).trans (List.Perm.of_eq (filter_flatMap fun e he a ha => ?_))
  rw [messageId_attachmentRows ha, Bool.eq_iff_iff, hmsg.any_eq, List.any_map, List.any_eq_true]
  constructor
  · rintro ⟨x, hx, hid⟩
    obtain ⟨hx, hp⟩ := List.mem_filter.mp hx
    rwa [eq_of_id_eq hids he hx (eq_of_beq hid).symm]
  · exact fun hp => ⟨e, List.mem_filter.mpr ⟨he, hp⟩, beq_iff_eq.mpr rfl⟩

theorem referred_of_same (hmsg : db.messages.Perm (entries.map Entry.toRow))
    (hatt : SameAttachments entries db) : Referred db := by
  intro a ha
  obtain ⟨e, he, ha⟩ := List.mem_flatMap.mp (hatt.mem_iff.mp ha)
  exact ⟨e.toRow, hmsg.mem_iff.mpr (List.mem_map_of_mem he), (messageId_attachmentRows ha).symm⟩

theorem ids_of_same (hmsg : db.messages.Perm (entries.map Entry.toRow)) :
    (db.messages.map (·.id)).Perm (messageIds entries) := by
  have h := hmsg.map (·.id)
  rwa [List.map_map] at h

/-- A `DELETE` of messages takes out the same entries. -/
theorem same_deleteMessages (hmsg : db.messages.Perm (entries.map Entry.toRow))
    (hatt : SameAttachments entries db) (hids : (messageIds entries).Nodup) {q : MessageRow → Bool}
    (hp : ∀ e ∈ entries, p e = !q e.toRow) :
    (db.deleteMessages q).messages.Perm ((entries.filter p).map Entry.toRow) ∧
      SameAttachments (entries.filter p) (db.deleteMessages q) := by
  have hmsg' : (db.deleteMessages q).messages.Perm ((entries.filter p).map Entry.toRow) := by
    refine (hmsg.filter _).trans ?_
    rw [List.filter_map]
    exact (List.Perm.of_eq (List.filter_congr fun e he => (hp e he).symm)).map _
  refine ⟨hmsg', sameAttachments_of_reduces hatt hids ?_ hmsg'⟩
  exact reduces_deleteMessages (referred_of_same hmsg hatt) ((ids_of_same hmsg).nodup_iff.mpr hids) q

end AnonyMail
