import Mathlib.Data.List.Flatten
import AnonyMail.Lib.Table
import AnonyMail.Verify.Integrity
import AnonyMail.Verify.SqliteRows
import AnonyMail.Verify.Subscriptions

/-! # The SQLite store refines the in-memory store

`Holds s db` says that the tables `db` hold what the in-memory store `s` holds. Each method of the
SQLite store keeps this and answers as the method of the in-memory store does, with one exception: a
message or a subscription for a mailbox that does not exist is refused by the foreign key. The
in-memory store is taken behind the same check. -/

namespace AnonyMail

open MemoryStore KeyedList Table

/-! ## What the schema promises -/

structure SoundMessages (entries : List Entry) : Prop where
  ids : (messageIds entries).Nodup
  filed : ∀ e ∈ entries, e.Filed
  aids : (attachmentIds entries).Nodup
  sizes : ∀ e ∈ entries, 0 ≤ e.message.rawSize

structure SoundSubscriptions (rows : List PushSubscription) : Prop where
  keys : Keyed PushSubscription.key rows
  ids : (rows.map (·.id)).Nodup

structure Sound (s : Inner) : Prop where
  intact : Intact s
  messages : SoundMessages s.messages
  subscriptions : SoundSubscriptions s.subscriptions

/-- The UUIDs in use. -/
def MemoryStore.Inner.usedIds (s : Inner) : List Uuid :=
  messageIds s.messages ++ attachmentIds s.messages ++ s.subscriptions.map (·.id)

/-- The UUIDs that a call draws are new. -/
structure DrawsNew (s : Inner) (op : StoreOp) (ids : List Uuid) : Prop where
  length : ids.length = op.uuids
  nodup : ids.Nodup
  unused : ∀ i ∈ ids, i ∉ s.usedIds

/-- A message that is saved has a size. -/
def StoreOp.Sized (op : StoreOp) : Prop := ∀ a m, op = .saveMessage a m → 0 ≤ m.rawSize

/-- What the call adds has a mailbox. -/
def StoreOp.Housed (op : StoreOp) (s : Inner) : Prop := ∀ a, op.deposits = some a → a ∈ s.mailboxes

instance (op : StoreOp) (s : Inner) : Decidable (op.Housed s) :=
  match h : op.deposits with
  | none => .isTrue fun _ ha => by rw [h] at ha; cases ha
  | some a => decidable_of_iff (a ∈ s.mailboxes)
      ⟨fun ha b hb => by rw [h] at hb; cases hb; exact ha, fun H => H a h⟩

/-- The in-memory store behind the check of the foreign keys. -/
def StoreOp.applyHoused (quotas : MailboxQuotas) (s : Inner) (now : DateTime) (ids : List Uuid)
    (op : StoreOp) : Except StoreError op.Out × Inner :=
  if op.Housed s then op.apply quotas s now ids else (.error .other, s)

variable {q : MailboxQuotas} {s : Inner} {db : SqliteStore.Database} {op : StoreOp} {now : DateTime}
  {ids : List Uuid} {entries l : List Entry} {e : Entry} {address : String} {id : Uuid}

theorem SoundMessages.sublist (h : SoundMessages entries) (hl : l.Sublist entries) :
    SoundMessages l where
  ids := h.ids.sublist (hl.map _)
  filed e he := h.filed e (hl.subset he)
  aids := h.aids.sublist (hl.flatMap _)
  sizes e he := h.sizes e (hl.subset he)

/-- What does not read the flag. -/
theorem map_setSeen {β : Type} {f : Entry → β}
    (hf : ∀ e : Entry, f { e with message := { e.message with seen := true } } = f e) :
    (setSeen address id entries).map f = entries.map f := by
  rw [setSeen_eq]
  exact map_updateFirst hf entries

theorem forall_setSeen {β : Type} {f : Entry → β} {P : β → Prop}
    (hf : ∀ e : Entry, f { e with message := { e.message with seen := true } } = f e)
    (h : ∀ e ∈ entries, P (f e)) : ∀ e ∈ setSeen address id entries, P (f e) := by
  intro e he
  have hmem := List.mem_map_of_mem (f := f) he
  rw [map_setSeen hf] at hmem
  obtain ⟨x, hx, heq⟩ := List.mem_map.mp hmem
  exact heq ▸ h x hx

theorem SoundMessages.setSeen (h : SoundMessages entries) (address : String) (id : Uuid) :
    SoundMessages (setSeen address id entries) where
  ids := by
    rw [messageIds, map_setSeen fun _ => rfl]
    exact h.ids
  filed := forall_setSeen
    (f := fun e => (e.contents.map Prod.fst, e.message.attachments.map AttachmentMeta.id))
    (P := fun x => x.1 = x.2) (fun _ => rfl) h.filed
  aids := by
    rw [attachmentIds, List.flatMap_def, map_setSeen fun _ => rfl, ← List.flatMap_def]
    exact h.aids
  sizes := forall_setSeen (f := fun e => e.message.rawSize) (P := (0 ≤ ·)) (fun _ => rfl) h.sizes

theorem SoundMessages.concat (h : SoundMessages entries) (hfiled : e.Filed)
    (hsize : 0 ≤ e.message.rawSize) (hid : e.message.id ∉ messageIds entries)
    (haids : (e.message.attachments.map (·.id)).Nodup)
    (hnew : ∀ i ∈ e.message.attachments.map (·.id), i ∉ attachmentIds entries) :
    SoundMessages (entries ++ [e]) := by
  refine ⟨?_, ?_, ?_, ?_⟩
  · rw [messageIds, List.map_append, List.map_singleton]
    exact (List.perm_append_singleton _ _).nodup_iff.mpr (List.nodup_cons.mpr ⟨hid, h.ids⟩)
  · exact List.forall_mem_append.mpr ⟨h.filed, List.forall_mem_singleton.mpr hfiled⟩
  · rw [attachmentIds, List.flatMap_append, List.flatMap_singleton]
    exact List.nodup_append.mpr ⟨h.aids, haids, fun i hi j hj hij => hnew j hj (hij ▸ hi)⟩
  · exact List.forall_mem_append.mpr ⟨h.sizes, List.forall_mem_singleton.mpr hsize⟩

/-- The entry that a save appends. -/
def savedEntry (address : String) (m : NewMessage) (id : Uuid) (attachmentIds : List Uuid)
    (receivedAt : DateTime) : Entry where
  message := (MemoryStore.saveMessage .unlimited .empty address m id attachmentIds receivedAt).1
  contents := (attachmentIds.zip m.attachments).map fun (aid, att) => (aid, att.content)
  raw := m.rawContent

theorem filed_savedEntry (address : String) (m : NewMessage) (id : Uuid) (attachmentIds : List Uuid)
    (receivedAt : DateTime) : (savedEntry address m id attachmentIds receivedAt).Filed := by
  rw [Entry.Filed, savedEntry, saveMessage, List.map_map, List.map_map]
  rfl

theorem ids_savedEntry {m : NewMessage} {aids : List Uuid} (hlen : aids.length = m.attachments.length) :
    (savedEntry address m id aids now).message.attachments.map (·.id) = aids := by
  rw [savedEntry, saveMessage, List.map_map]
  exact List.map_fst_zip hlen.le

/-- The UUIDs of a save. -/
theorem DrawsNew.saveMessage {m : NewMessage} (h : DrawsNew s (.saveMessage address m) ids) :
    ∃ id aids, ids = id :: aids ∧ aids.length = m.attachments.length := by
  have hlen := h.length
  cases ids with
  | nil => cases hlen
  | cons id aids => exact ⟨id, aids, rfl, Nat.succ.inj hlen⟩

theorem SoundMessages.saved (h : SoundMessages s.messages) {m : NewMessage} {aids : List Uuid}
    (hd : DrawsNew s (.saveMessage address m) (id :: aids)) (hsize : 0 ≤ m.rawSize) :
    SoundMessages (s.messages ++ [savedEntry address m id aids now]) := by
  have hlen : aids.length = m.attachments.length := Nat.succ.inj hd.length
  have hunused : ∀ i ∈ id :: aids, i ∉ messageIds s.messages ∧ i ∉ attachmentIds s.messages := by
    intro i hi
    have hused := hd.unused i hi
    simp only [Inner.usedIds, List.mem_append, not_or] at hused
    exact hused.1
  refine h.concat (filed_savedEntry ..) hsize (hunused id List.mem_cons_self).1 ?_ ?_
  · rw [ids_savedEntry hlen]
    exact (List.nodup_cons.mp hd.nodup).2
  · rw [ids_savedEntry hlen]
    exact fun i hi => (hunused i (List.mem_cons_of_mem _ hi)).2

/-- What a call can do to the messages. -/
theorem messages_apply (op : StoreOp) :
    (op.apply q s now ids).2.messages.Sublist s.messages ∨
      (∃ a id, op = .markSeen a id ∧ (op.apply q s now ids).2.messages = setSeen a id s.messages) ∨
      ∃ a m, op = .saveMessage a m ∧ (op.apply q s now ids).2.messages =
        enforceQuotas (s.messages ++ [savedEntry a m (ids.headD 0) ids.tail now]) a (ids.headD 0) q := by
  cases op with
  | deleteMailbox | purgeExpired | deleteMessage | deleteAllMessages => exact .inl List.filter_sublist
  | markSeen a id => exact .inr (.inl ⟨a, id, rfl, rfl⟩)
  | saveMessage a m => exact .inr (.inr ⟨a, m, rfl, rfl⟩)
  | createMailbox | extendMailbox | rotateOwnerToken | addSubscription | createCustomDomain
  | recordCustomDomainCheck | advanceAttestedDeviceCounter =>
    left
    simp only [StoreOp.apply, createMailbox, extendMailbox, rotateOwnerToken, addSubscription,
      createCustomDomain, recordCustomDomainCheck, advanceAttestedDeviceCounter]
    repeat' split
    all_goals exact List.Sublist.refl _
  | _ => exact .inl (List.Sublist.refl _)

theorem SoundSubscriptions.sublist {rows rows' : List PushSubscription}
    (h : SoundSubscriptions rows) (hl : rows'.Sublist rows) : SoundSubscriptions rows' :=
  ⟨h.keys.sublist (hl.map _), h.ids.sublist (hl.map _)⟩

theorem SoundSubscriptions.adds {args : SubscribeArgs} {rows : List PushSubscription}
    {refused : Prop} {out : Except StoreError PushSubscription × List PushSubscription}
    (h : SoundSubscriptions rows) (hout : Adds args address rows id now refused out)
    (hid : id ∉ rows.map (·.id)) : SoundSubscriptions out.2 := by
  refine ⟨hout.keyed h.keys, ?_⟩
  obtain heq | heq := hout.ids
  · rw [heq]
    exact h.ids
  · rw [heq]
    exact (List.perm_append_singleton _ _).nodup_iff.mpr (List.nodup_cons.mpr ⟨hid, h.ids⟩)

theorem Sound.apply (h : Sound s) (hd : DrawsNew s op ids) (hsize : op.Sized) (hop : op.Housed s) :
    Sound (op.apply q s now ids).2 := by
  refine ⟨h.intact.apply hop, ?_, ?_⟩
  · obtain hsub | ⟨a, id, -, heq⟩ | ⟨a, m, rfl, heq⟩ := @messages_apply q s now ids op
    · exact h.messages.sublist hsub
    · rw [heq]
      exact h.messages.setSeen a id
    · obtain ⟨id, aids, rfl, -⟩ := hd.saveMessage
      rw [heq, enforceQuotas_eq_filter]
      exact (h.messages.saved hd (hsize a m rfl)).sublist List.filter_sublist
  · obtain hsub | ⟨a, k, endpoint, p, u, m, rfl⟩ := @subscriptions_apply q s now ids op
    · exact h.subscriptions.sublist hsub
    · have hlen : ids.length = 1 := hd.length
      obtain ⟨id, rfl⟩ := List.length_eq_one_iff.mp hlen
      have hid : id ∉ s.subscriptions.map (·.id) := fun hmem =>
        hd.unused id List.mem_cons_self (List.mem_append_right _ hmem)
      exact h.subscriptions.adds
        (@memory_add ⟨k, endpoint, p, u, m⟩ a id now s h.subscriptions.keys) hid

theorem Sound.applyHoused (h : Sound s) (hd : DrawsNew s op ids) (hsize : op.Sized) :
    Sound (op.applyHoused q s now ids).2 := by
  rw [StoreOp.applyHoused]
  split
  · next hop => exact h.apply hd hsize hop
  · exact h

/-! ## What the tables hold -/

/-- The tables hold what the in-memory store holds. -/
structure Holds (s : Inner) (db : SqliteStore.Database) : Prop where
  mailboxes : Represents Mailbox.address db.mailboxes s.mailboxes
  messages : SameMessages s db.toTables
  attachments : SameAttachments s.messages db.toTables
  subscriptions : db.subscriptions = s.subscriptions
  customDomains : db.customDomains = s.customDomains.values
  domainKeys : Keys CustomDomain.domain s.customDomains
  attestedDevices : Represents AttestedDevice.keyId db.attestedDevices s.attestedDevices

/-- The same answer, up to `R`. -/
def SameAnswer {α : Type} (R : α → α → Prop) : Except StoreError α → Except StoreError α → Prop
  | .ok a, .ok b => R a b
  | .error e, .error e' => e = e'
  | _, _ => False

/-- The same message, with its attachments in any order. -/
def StoredMessage.SameAs (m m' : StoredMessage) : Prop :=
  m'.attachments.Perm m.attachments ∧ m' = { m with attachments := m'.attachments }

/-- The same row, or a uniqueness error, whatever its text is. -/
def SameUnlessTaken {α : Type} (r r' : Except StoreError α) : Prop :=
  r = r' ∨ ∃ text text', r = .error (.uniqueViolation text) ∧ r' = .error (.uniqueViolation text')

/-- The answers of the two stores to a call. -/
def StoreOp.Agrees : (op : StoreOp) → Except StoreError op.Out → Except StoreError op.Out → Prop
  | .createMailbox .., r, r' => SameUnlessTaken r r'
  | .createCustomDomain .., r, r' => SameUnlessTaken r r'
  | .getMessage .., r, r' => SameAnswer (Option.Rel StoredMessage.SameAs) r r'
  | .listSubscriptions _, r, r' => SameAnswer List.Perm r r'
  | _, r, r' => r = r'

/-- The answers agree, and the states correspond again. -/
structure Matches (op : StoreOp) (out : Except StoreError op.Out × Inner)
    (out' : Except StoreError op.Out × SqliteStore.Database) : Prop where
  answer : op.Agrees out.1 out'.1
  holds : Holds out.2 out'.2

theorem holds_empty : Holds .empty .empty where
  mailboxes := .nil
  messages := .nil
  attachments := .nil
  subscriptions := rfl
  customDomains := rfl
  domainKeys := nofun
  attestedDevices := .nil

section Steps

variable (h : Holds s db)
include h

/-! ## Mailboxes -/

theorem match_createMailbox {d : String} {x : DateTime} {o c : Option String} :
    Matches (.createMailbox address d x o c) (createMailbox s address d x o c now)
      (db.createMailbox address d x o c now) := by
  rw [createMailbox, SqliteStore.Database.createMailbox, h.mailboxes.any_eq]
  by_cases hmem : address ∈ s.mailboxes
  · rw [if_pos hmem, if_pos (decide_eq_true hmem)]
    exact ⟨.inr ⟨_, _, rfl, rfl⟩, h⟩
  · rw [if_neg hmem, if_neg (by simpa using hmem)]
    exact ⟨.inl rfl, { h with mailboxes := h.mailboxes.insert rfl hmem }⟩

theorem getMailbox_eq (address : String) : db.getMailbox address = getMailbox s address :=
  h.mailboxes.find?_eq address

theorem mailboxIsActive_eq (address : String) (t : DateTime) :
    db.mailboxIsActive address t = mailboxIsActive s address t :=
  h.mailboxes.any_and address _

/-- An `UPDATE` of a mailbox that exists. -/
theorem holds_updateMailbox {mb : Mailbox} {f : Mailbox → Mailbox}
    (hmb : s.mailboxes.lookup address = some mb) (hf : (f mb).address = mb.address) :
    Holds { s with mailboxes := s.mailboxes.insert address (f mb) } (db.updateMailbox address f).2 where
  mailboxes := h.mailboxes.update hmb hf
  messages := h.messages
  attachments := h.attachments
  subscriptions := h.subscriptions
  customDomains := h.customDomains
  domainKeys := h.domainKeys
  attestedDevices := h.attestedDevices

theorem updateMailbox_none {f : Mailbox → Mailbox} (hmb : s.mailboxes.lookup address = none) :
    db.updateMailbox address f = (false, db) := by
  have hnone := h.mailboxes.update_none (f := f) (p := fun _ => true) (k := address) (by rw [hmb]; rfl)
  simp only [Bool.and_true, beq_iff_eq] at hnone
  rw [SqliteStore.Database.updateMailbox, hnone, h.mailboxes.any_eq,
    decide_eq_false (AList.lookup_eq_none.mp hmb)]

theorem updateMailbox_affected {mb : Mailbox} (f : Mailbox → Mailbox)
    (hmb : s.mailboxes.lookup address = some mb) : (db.updateMailbox address f).1 = true := by
  rw [SqliteStore.Database.updateMailbox, h.mailboxes.any_eq]
  exact decide_eq_true (AList.lookup_isSome.mp (hmb ▸ rfl))

theorem match_extendMailbox {x : DateTime} :
    Matches (.extendMailbox address x)
      (.ok (extendMailbox s address x).1, (extendMailbox s address x).2)
      (.ok (db.extendMailbox address x).1, (db.extendMailbox address x).2) := by
  rw [extendMailbox, SqliteStore.Database.extendMailbox]
  cases hmb : s.mailboxes.lookup address with
  | none =>
    rw [updateMailbox_none h hmb]
    exact ⟨rfl, h⟩
  | some mb =>
    have hholds := holds_updateMailbox h (f := fun m => { m with expiresAt := x }) hmb rfl
    have hrow := getMailbox_eq hholds address
    rw [getMailbox, AList.lookup_insert] at hrow
    simp only [updateMailbox_affected h _ hmb, Bool.not_true, Bool.false_eq_true, if_false]
    rw [hrow]
    exact ⟨rfl, hholds⟩

theorem match_rotateOwnerToken {hash : String} :
    Matches (.rotateOwnerToken address hash)
      (.ok (rotateOwnerToken s address hash).1, (rotateOwnerToken s address hash).2)
      (.ok (db.rotateOwnerToken address hash).1, (db.rotateOwnerToken address hash).2) := by
  rw [rotateOwnerToken, SqliteStore.Database.rotateOwnerToken]
  cases hmb : s.mailboxes.lookup address with
  | none =>
    rw [updateMailbox_none h hmb]
    exact ⟨rfl, h⟩
  | some mb =>
    rw [updateMailbox_affected h _ hmb]
    exact ⟨rfl, holds_updateMailbox h (f := fun m => { m with ownerTokenHash := some hash }) hmb rfl⟩

theorem contains_deleted {p : Mailbox → Bool} {mb : Mailbox}
    (hmb : s.mailboxes.lookup address = some mb) :
    ((db.mailboxes.filter p).map (·.address)).contains address = p mb := by
  have haddress := h.mailboxes.keys address mb hmb
  rw [Bool.eq_iff_iff, List.contains_iff_mem, List.mem_map]
  constructor
  · rintro ⟨m, hm, hat⟩
    obtain ⟨hm, hp⟩ := List.mem_filter.mp hm
    have hm := h.mailboxes.mem_iff.mp hm
    rw [hat, hmb] at hm
    exact Option.some.inj hm ▸ hp
  · exact fun hp => ⟨mb, List.mem_filter.mpr
      ⟨h.mailboxes.mem_iff.mpr (by rw [haddress, hmb]), hp⟩, haddress⟩

/-- A `DELETE` of mailboxes takes out what is in them. -/
theorem holds_deleteMailboxes (hs : Sound s) (p : Mailbox → Bool) (r : String → Mailbox → Bool)
    (keep : String → Bool) (hr : ∀ m, r m.address m = !p m)
    (hkeep : ∀ a mb, s.mailboxes.lookup a = some mb → keep a = !p mb) :
    Holds { s with
        mailboxes := s.mailboxes.retain r
        messages := s.messages.filter fun e => keep e.message.mailboxAddress
        subscriptions := s.subscriptions.filter fun x => keep x.mailboxAddress }
      (db.deleteMailboxes p).2 := by
  have hgone : ∀ a ∈ s.occupied,
      keep a = !((db.mailboxes.filter p).map (·.address)).contains a := by
    intro a ha
    obtain ⟨mb, hmb⟩ := mem_mailboxes_iff.mp (hs.intact a ha)
    rw [contains_deleted h hmb, hkeep a mb hmb]
  obtain ⟨hmsg, hatt⟩ := same_deleteMessages (p := fun e => keep e.message.mailboxAddress)
    h.messages h.attachments hs.messages.ids
    (q := fun row => ((db.mailboxes.filter p).map (·.address)).contains row.mailboxAddress)
    fun e he => hgone _ (mem_occupied.mpr (.inl ⟨e, he, rfl⟩))
  refine ⟨h.mailboxes.delete hr, hmsg, hatt, ?_, h.customDomains, h.domainKeys, h.attestedDevices⟩
  show db.subscriptions.filter _ = _
  rw [h.subscriptions]
  exact List.filter_congr fun x hx => (hgone _ (mem_occupied.mpr (.inr ⟨x, hx, rfl⟩))).symm

theorem match_deleteMailbox (hs : Sound s) :
    Matches (.deleteMailbox address)
      (.ok (deleteMailbox s address).1, (deleteMailbox s address).2)
      (.ok (db.deleteMailbox address).1, (db.deleteMailbox address).2) := by
  have hany := h.mailboxes.any_eq address
  have haffected : decide ((db.deleteMailboxes (·.address == address)).1 > 0) =
      (s.mailboxes.lookup address).isSome := by
    rw [Bool.eq_iff_iff, AList.lookup_isSome, ← decide_eq_true_iff (p := address ∈ s.mailboxes),
      ← hany, decide_eq_true_iff, SqliteStore.Database.deleteMailboxes, List.length_map, gt_iff_lt,
      List.length_filter_pos_iff, List.any_eq_true]
  refine ⟨?_, ?_⟩
  · show Except.ok _ = Except.ok _
    rw [deleteMailbox, SqliteStore.Database.deleteMailbox, ← haffected]
  · have hholds := holds_deleteMailboxes h hs (·.address == address) (fun a _ => a != address)
      (· != address) (fun _ => rfl) fun a mb hmb => by
        rw [h.mailboxes.keys a mb hmb]
        rfl
    rw [← Keys.erase_eq_retain] at hholds
    exact hholds

theorem match_purgeExpired (hs : Sound s) {t : DateTime} :
    Matches (.purgeExpired t)
      (.ok (purgeExpired s t).1, (purgeExpired s t).2)
      (.ok (db.purgeExpired t).1, (db.purgeExpired t).2) := by
  have hexpired : ∀ a mb, s.mailboxes.lookup a = some mb →
      ((s.mailboxes.values.filter fun m => m.expiresAt ≤ t).map (·.address)).contains a =
        decide (mb.expiresAt ≤ t) := by
    intro a mb hmb
    rw [← contains_deleted h (p := fun m => decide (m.expiresAt ≤ t)) hmb]
    exact ((h.mailboxes.perm.filter _).map _).symm.contains_eq
  refine ⟨?_, ?_⟩
  · show Except.ok _ = Except.ok _
    rw [purgeExpired, SqliteStore.Database.purgeExpired, SqliteStore.Database.deleteMailboxes,
      List.length_map, List.length_map, h.mailboxes.length_filter]
  · have hholds := holds_deleteMailboxes h hs (fun m => decide (m.expiresAt ≤ t))
      (fun _ m => !decide (m.expiresAt ≤ t))
      (fun a => !((s.mailboxes.values.filter fun m => m.expiresAt ≤ t).map
        (·.address)).contains a) (fun _ => rfl) fun a mb hmb => by rw [hexpired a mb hmb]
    rw [← HashMap.eraseAll_eq_retain fun a mb hmb => ?_] at hholds
    · exact hholds
    · rw [← hexpired a mb hmb, Bool.not_eq_true', ← Bool.not_eq_true, List.contains_iff_mem]

theorem count_eq {hash : String} {t : DateTime} :
    db.countActiveMailboxesByDevice hash t = countActiveMailboxesByDevice s hash t :=
  h.mailboxes.length_filter _

/-! ## Messages -/

omit h in
theorem reduces_enforceQuotas {db : SqlStore.Tables} (hreferred : Referred db)
    (hids : (db.messages.map (·.id)).Nodup) : Reduces db (db.enforceQuotas address id q) := by
  have hcount : Reduces db (db.enforceCount address q) := by
    rw [SqlStore.Tables.enforceCount]
    split
    · exact reduces_deleteMessages hreferred hids _
    · exact .refl hreferred
  rw [SqlStore.Tables.enforceQuotas]
  split
  · exact hcount.trans
      (reduces_deleteMessages hcount.referred (hids.sublist (hcount.messages.map _)) _)
  · exact hcount

omit h in
theorem mailboxes_enforceQuotas {db : SqlStore.Tables} :
    (db.enforceQuotas address id q).mailboxes = db.mailboxes := by
  simp only [SqlStore.Tables.enforceQuotas, SqlStore.Tables.enforceCount]
  split <;> split <;> rfl

omit h in
/-- The statements of a save, for a mailbox that exists. -/
theorem saveMessage_statements {db : SqlStore.Tables} {m : NewMessage} {aids : List Uuid}
    (hmailbox : (db.mailboxes.any (·.address == address)) = true) :
    SqlStore.saveMessage db q address m id aids now =
      (.ok (savedEntry address m id aids now).message,
        (db.insertMessage (savedEntry address m id aids now).toRow
          (savedEntry address m id aids now).attachmentRows).enforceQuotas address id q) := by
  have hall : (db.mailboxes.all (·.address != address)) = false := by
    obtain ⟨mb, hmb, haddress⟩ := List.any_eq_true.mp hmailbox
    exact List.all_eq_false.mpr ⟨mb, hmb, by simpa using haddress⟩
  have hrows : (savedEntry address m id aids now).attachmentRows =
      SqlStore.attachmentRows id aids m.attachments := by
    rw [Entry.attachmentRows, savedEntry, MemoryStore.saveMessage, List.zip_map', List.map_map]
    rfl
  rw [SqlStore.saveMessage, hall, hrows, savedEntry, MemoryStore.saveMessage]
  rw [if_neg Bool.false_ne_true]
  refine Prod.ext ?_ rfl
  simp only [List.map_map]
  rfl

omit h in
/-- The quota statements leave the entries that the in-memory store leaves. -/
theorem same_enforceQuotas (address : String) {db : SqlStore.Tables} {new : Entry}
    (hmsg : db.messages.Perm ((s.messages ++ [new]).map Entry.toRow))
    (hatt : SameAttachments (s.messages ++ [new]) db) (hsound : SoundMessages (s.messages ++ [new]))
    (hbytes : q.maxBytes < 2 ^ 63) :
    (db.enforceQuotas address new.message.id q).messages.Perm
        ((enforceQuotas (s.messages ++ [new]) address new.message.id q).map Entry.toRow) ∧
      SameAttachments (enforceQuotas (s.messages ++ [new]) address new.message.id q)
        (db.enforceQuotas address new.message.id q) := by
  have hred := @reduces_enforceQuotas q address new.message.id db (referred_of_same hmsg hatt)
    ((ids_of_same hmsg).nodup_iff.mpr hsound.ids)
  have hleft : (db.enforceQuotas address new.message.id q).messages.Perm
      ((enforceQuotas (s.messages ++ [new]) address new.message.id q).map Entry.toRow) := by
    rw [enforceQuotas_eq_filter, perm_left_iff hmsg hsound.ids hred.messages List.filter_sublist,
      ← enforceQuotas_eq_filter]
    exact fun e he => left_iff hmsg hsound.ids hsound.sizes (.inl hbytes) he
  refine ⟨hleft, ?_⟩
  rw [enforceQuotas_eq_filter] at hleft ⊢
  exact sameAttachments_of_reduces hatt hsound.ids hred hleft

theorem match_saveMessage (hs : Sound s) (hbytes : q.maxBytes < 2 ^ 63) {m : NewMessage}
    {aids : List Uuid} (hsize : 0 ≤ m.rawSize) (hd : DrawsNew s (.saveMessage address m) (id :: aids))
    (hmem : address ∈ s.mailboxes) :
    Matches (.saveMessage address m)
      (.ok (saveMessage q s address m id aids now).1, (saveMessage q s address m id aids now).2)
      (db.saveMessage q address m id aids now) := by
  have hmailbox := (h.mailboxes.any_eq address).trans (decide_eq_true hmem)
  have hmsg : (db.insertMessage (savedEntry address m id aids now).toRow
      (savedEntry address m id aids now).attachmentRows).messages.Perm
        ((s.messages ++ [savedEntry address m id aids now]).map Entry.toRow) := by
    rw [List.map_append]
    exact h.messages.append_right _
  have hatt : SameAttachments (s.messages ++ [savedEntry address m id aids now])
      (db.insertMessage (savedEntry address m id aids now).toRow
        (savedEntry address m id aids now).attachmentRows) := by
    rw [SameAttachments, List.flatMap_append, List.flatMap_singleton]
    exact h.attachments.append_right _
  obtain ⟨hmsg', hatt'⟩ := same_enforceQuotas address hmsg hatt (hs.messages.saved hd hsize) hbytes
  rw [SqliteStore.Database.saveMessage, saveMessage_statements hmailbox]
  refine ⟨rfl, ?_, hmsg', hatt', h.subscriptions, h.customDomains, h.domainKeys, h.attestedDevices⟩
  show Represents Mailbox.address (SqlStore.Tables.enforceQuotas _ address id q).mailboxes s.mailboxes
  rw [mailboxes_enforceQuotas]
  exact h.mailboxes

/-- The foreign key of `messages`. -/
theorem saveMessage_refused {m : NewMessage} {aids : List Uuid} (hmem : address ∉ s.mailboxes) :
    db.saveMessage q address m id aids now = (.error .other, db) := by
  have hany := (h.mailboxes.any_eq address).trans (decide_eq_false hmem)
  have hall : (db.mailboxes.all (·.address != address)) = true := by
    rw [List.all_eq_true]
    intro mb hmb
    simpa using List.any_eq_false.mp hany mb hmb
  rw [SqliteStore.Database.saveMessage, SqlStore.saveMessage, if_pos hall]

/-- `ORDER BY` puts the rows in the order of the inbox. -/
theorem sorted_rows (hids : (messageIds s.messages).Nodup) {r : SqlStore.MessageRow → Bool} :
    ((db.inbox address).filter r).insertionSort SqlStore.newestFirst =
      ((inbox s.messages address).filter fun e => r e.toRow).map Entry.toRow := by
  have hperm : ((db.inbox address).filter r).Perm
      (((inbox s.messages address).filter fun e => r e.toRow).map Entry.toRow) := by
    refine ((SqlStore.inbox_perm_map h.messages).filter r).trans ?_
    rw [List.filter_map]
    rfl
  have hsorted := (List.perm_insertionSort SqlStore.newestFirst _).trans hperm
  refine (Rank.descending_insertionSort SqlStore.MessageRow.key
    (fun _ _ => newestFirst_iff) _).eq_of_perm
      (List.pairwise_map.mpr (descending_inbox.filter _)) hsorted fun a ha b hb hab => ?_
  obtain ⟨x, hx, rfl⟩ := List.mem_map.mp (hsorted.mem_iff.mp ha)
  obtain ⟨y, hy, rfl⟩ := List.mem_map.mp (hsorted.mem_iff.mp hb)
  have hid : x.message.id = y.message.id := congrArg (·.2) (toLex.injective hab)
  rw [eq_of_id_eq hids (mem_inbox.mp (List.mem_of_mem_filter hx)).1
    (mem_inbox.mp (List.mem_of_mem_filter hy)).1 hid]

theorem hasAttachments_eq (hs : Sound s) (he : e ∈ s.messages) :
    (db.attachments.any (·.messageId == e.message.id)) = !e.message.attachments.isEmpty := by
  have hrows := filter_messageId h.attachments hs.messages.ids he
  have hlen : (db.attachments.filter (·.messageId == e.message.id)).length =
      e.message.attachments.length := by
    rw [hrows.length_eq, ← List.length_map AttachmentMeta.id,
      ← (hs.messages.filed e he).ids, List.length_map]
  rw [Bool.eq_iff_iff, List.any_eq_true, ← List.length_filter_pos_iff, hlen]
  cases e.message.attachments <;> simp

omit h in
theorem isNewer_toRow (e x : Entry) :
    SqliteStore.Database.isNewer e.toRow x.toRow = decide (x.key < e.key) :=
  decide_eq_decide.mpr (Prod.Lex.lt_iff (x := x.key) (y := e.key)).symm

theorem listMessages_zero_eq (hs : Sound s) (since : Option Uuid) :
    db.listMessages address 0 since = listMessages s address 0 since := by
  have hanchor : ∀ e : Entry, (since.bind (db.row address)).all
      (SqliteStore.Database.isNewer e.toRow) = (anchor s address since).all (· < e.key) := by
    intro e
    cases since with
    | none => rfl
    | some id =>
      rw [anchor, Option.bind_some, Option.bind_some, row_eq h.messages hs.messages.ids,
        Option.all_map, Option.all_map]
      exact congrArg (Option.all · _) (funext fun x => isNewer_toRow e x)
  rw [SqliteStore.Database.listMessages, if_pos rfl, sorted_rows h hs.messages.ids,
    listMessages_eq hs.messages.ids, List.map_map]
  simp only [hanchor]
  refine List.map_congr_left fun e he => ?_
  have he := (mem_inbox.mp (List.mem_of_mem_filter he)).1
  exact congrArg (MessageSummary.mk _ _ _ _ · _) (hasAttachments_eq h hs he)

theorem list_eq (hs : Sound s) (limit : Nat) (since : Option Uuid) :
    db.listMessages address limit since = listMessages s address limit since := by
  obtain rfl | hpos := Nat.eq_zero_or_pos limit
  · exact listMessages_zero_eq h hs since
  · rw [listMessages_take hpos, ← listMessages_zero_eq h hs, SqliteStore.Database.listMessages,
      SqliteStore.Database.listMessages, if_neg hpos.ne', if_pos rfl, List.map_take]

theorem match_getMessage (hs : Sound s) :
    Matches (.getMessage address id) (.ok (getMessage s address id), s)
      (.ok (SqlStore.getMessage db.toTables address id), db) := by
  refine ⟨?_, h⟩
  show Option.Rel StoredMessage.SameAs _ _
  rw [getMessage, SqlStore.getMessage, row_eq h.messages hs.messages.ids]
  cases hf : s.messages.find? (·.isAt address id) with
  | none => exact .none
  | some e =>
    have he := List.mem_of_find?_eq_some hf
    have hat : e.isAt address id := List.find?_some (p := fun e : Entry => e.isAt address id) hf
    obtain ⟨-, rfl⟩ := isAt_iff.mp hat
    exact .some ⟨attachmentsOf_perm h.attachments hs.messages.ids he (hs.messages.filed e he), rfl⟩

theorem getRawMessage_eq (hs : Sound s) (address : String) (id : Uuid) :
    SqlStore.getRawMessage db.toTables address id = getRawMessage s address id := by
  rw [SqlStore.getRawMessage, row_eq h.messages hs.messages.ids, Option.bind_map]
  rfl

/-- A `DELETE` of the messages that `p` does not keep. -/
theorem holds_deleteMessages (hs : Sound s) {p : Entry → Bool} {r : SqlStore.MessageRow → Bool}
    (hp : ∀ e, p e = !r e.toRow) :
    Holds { s with messages := s.messages.filter p }
      { db with toTables := db.deleteMessages r } := by
  obtain ⟨hmsg, hatt⟩ := same_deleteMessages h.messages h.attachments hs.messages.ids
    fun e _ => hp e
  exact ⟨h.mailboxes, hmsg, hatt, h.subscriptions, h.customDomains, h.domainKeys, h.attestedDevices⟩

theorem any_row {p : Entry → Bool} {r : SqlStore.MessageRow → Bool} (hp : ∀ e, p e = r e.toRow) :
    db.messages.any r = s.messages.any p := by
  rw [h.messages.any_eq, List.any_map]
  exact congrArg (List.any _) (funext fun e => (hp e).symm)

theorem match_deleteMessage (hs : Sound s) :
    Matches (.deleteMessage address id)
      (.ok (deleteMessage s address id).1, (deleteMessage s address id).2)
      (.ok (db.deleteMessage address id).1, (db.deleteMessage address id).2) := by
  refine ⟨?_, holds_deleteMessages h hs fun _ => rfl⟩
  show Except.ok _ = Except.ok _
  rw [deleteMessage, SqliteStore.Database.deleteMessage, any_row h (p := (·.isAt address id)) fun _ => rfl,
    length_filter_not_ne]

omit h in
theorem setSeen_eq_map (hids : (messageIds entries).Nodup) :
    setSeen address id entries = entries.map fun e =>
      if e.isAt address id then { e with message := { e.message with seen := true } } else e := by
  rw [setSeen_eq, updateFirst_eq_map]
  refine (List.pairwise_map.mp hids).imp fun hne hx hy => hne ?_
  exact (isAt_iff.mp hx).2.trans (isAt_iff.mp hy).2.symm

theorem match_markSeen (hs : Sound s) :
    Matches (.markSeen address id) (.ok (markSeen s address id).1, (markSeen s address id).2)
      (.ok (db.markSeen address id).1, (db.markSeen address id).2) := by
  have hmap := @setSeen_eq_map s.messages address id hs.messages.ids
  refine ⟨?_, h.mailboxes, ?_, ?_, h.subscriptions, h.customDomains, h.domainKeys,
    h.attestedDevices⟩
  · show Except.ok _ = Except.ok _
    rw [markSeen, SqliteStore.Database.markSeen, any_row h (p := (·.isAt address id)) fun _ => rfl]
    exact congrArg _ (Bool.eq_iff_iff.mpr (List.find?_isSome.trans List.any_eq_true.symm))
  · show List.Perm (List.map _ db.messages) (List.map Entry.toRow (setSeen address id s.messages))
    rw [hmap, List.map_map]
    refine (h.messages.map _).trans (List.Perm.of_eq ?_)
    rw [List.map_map]
    refine List.map_congr_left fun e _ => ?_
    simp only [Function.comp_apply]
    split <;> split <;> first | rfl | contradiction
  · show List.Perm db.attachments ((setSeen address id s.messages).flatMap Entry.attachmentRows)
    rw [hmap, List.flatMap_map]
    refine h.attachments.trans (List.Perm.of_eq (List.flatMap_congr fun e _ => ?_))
    split <;> rfl

theorem match_deleteAllMessages (hs : Sound s) :
    Matches (.deleteAllMessages address)
      (.ok (deleteAllMessages s address).1, (deleteAllMessages s address).2)
      (.ok (db.deleteAllMessages address).1, (db.deleteAllMessages address).2) := by
  refine ⟨?_, holds_deleteMessages h hs fun _ => rfl⟩
  show Except.ok _ = Except.ok _
  have hlen := List.length_eq_length_filter_add (l := s.messages)
    fun e => e.message.mailboxAddress == address
  rw [deleteAllMessages, SqliteStore.Database.deleteAllMessages,
    (SqlStore.inbox_perm_map h.messages).length_eq, List.length_map, inbox_perm.length_eq]
  exact congrArg _ (Nat.sub_eq_of_eq_add hlen)

/-! ## Push subscriptions -/

/-- The two stores carry out an `INSERT` or refuse it alike. -/
theorem addSubscription_eq (hs : Sound s) (args : SubscribeArgs) :
    args.sqlite address db.subscriptions id now =
      ((args.memory address s id now).1, (args.memory address s id now).2.subscriptions) := by
  have hm := @memory_add args address id now s hs.subscriptions.keys
  have hq := @sqlite_add args address s.subscriptions id now hs.subscriptions.keys
    hs.subscriptions.ids
  rw [h.subscriptions]
  by_cases hr : ¬args.Known address s.subscriptions ∧ args.Full address s.subscriptions
  · rw [hq.refuse hr, hm.refuse hr]
  have hq := hq.perform hr
  have hm := hm.perform hr
  refine Prod.ext ?_ (hq.table.trans hm.table.symm)
  by_cases hknown : args.Known address s.subscriptions
  · obtain ⟨x, hx, hkey⟩ := List.mem_map.mp hknown
    rw [hq.known x hx hkey]
    exact (hm.known x hx hkey).symm
  · rw [hq.new hknown]
    exact (hm.new hknown).symm

omit h in
theorem memory_frame (args : SubscribeArgs) : (args.memory address s id now).2 =
    { s with subscriptions := (args.memory address s id now).2.subscriptions } := by
  rw [SubscribeArgs.memory, addSubscription]
  split
  · rfl
  · dsimp only
    split <;> rfl

/-- The foreign key holds if the new state is intact. -/
theorem foreignKey_iff {rows : List PushSubscription} :
    (rows.all fun x => db.mailboxes.any (·.address == x.mailboxAddress)) = true ↔
      ∀ x ∈ rows, x.mailboxAddress ∈ s.mailboxes := by
  rw [List.all_eq_true]
  exact forall₂_congr fun x _ => by rw [h.mailboxes.any_eq, decide_eq_true_iff]

theorem match_addSubscription (hs : Sound s) (args : SubscribeArgs) (hmem : address ∈ s.mailboxes) :
    Matches (.addSubscription address args.kind args.endpoint args.p256dh args.auth
        args.maxPerMailbox) (args.memory address s id now)
      (db.addSubscription address args.kind args.endpoint args.p256dh args.auth args.maxPerMailbox
        id now) := by
  have heq := @addSubscription_eq s db now address id h hs args
  have hintact : Intact (args.memory address s id now).2 :=
    @Intact.apply .unlimited s now [id] (.addSubscription address args.kind args.endpoint
      args.p256dh args.auth args.maxPerMailbox) hs.intact fun a ha => by cases ha; exact hmem
  rw [memory_frame] at hintact
  rw [SubscribeArgs.sqlite] at heq
  rw [SqliteStore.Database.addSubscription, heq]
  dsimp only
  rw [if_pos ((foreignKey_iff h).mpr fun x hx => hintact _ (mem_occupied.mpr (.inr ⟨x, hx, rfl⟩)))]
  refine ⟨rfl, ?_⟩
  rw [memory_frame]
  exact ⟨h.mailboxes, h.messages, h.attachments, rfl, h.customDomains, h.domainKeys,
    h.attestedDevices⟩

/-- The foreign key of `push_subscriptions`. -/
theorem addSubscription_refused (hs : Sound s) (args : SubscribeArgs)
    (hmem : address ∉ s.mailboxes) :
    db.addSubscription address args.kind args.endpoint args.p256dh args.auth args.maxPerMailbox
      id now = (.error .other, db) := by
  have heq := @addSubscription_eq s db now address id h hs args
  have hfree : address ∉ s.occupied := fun ha => hmem (hs.intact _ ha)
  have hocc : address ∈ (args.memory address s id now).2.occupied := occupied_addSubscription hfree
  have hmsgs : (args.memory address s id now).2.messages = s.messages := by rw [memory_frame]
  rw [SubscribeArgs.sqlite] at heq
  rw [SqliteStore.Database.addSubscription, heq]
  dsimp only
  refine if_neg fun hall => hmem ?_
  obtain hmsg | ⟨x, hx, rfl⟩ := mem_occupied.mp hocc
  · exact absurd (mem_occupied.mpr (.inl (hmsgs ▸ hmsg))) hfree
  · exact (foreignKey_iff h).mp hall x hx

theorem match_listSubscriptions :
    Matches (.listSubscriptions address) (.ok (listSubscriptions s address), s)
      (.ok (db.listSubscriptions address), db) := by
  refine ⟨?_, h⟩
  show List.Perm _ _
  rw [listSubscriptions, SqliteStore.Database.listSubscriptions, h.subscriptions]
  exact (List.perm_insertionSort _ _).symm

theorem match_deleteSubscription {endpoint : String} :
    Matches (.deleteSubscription address endpoint)
      (.ok (deleteSubscription s address endpoint).1, (deleteSubscription s address endpoint).2)
      (.ok (db.deleteSubscription address endpoint).1, (db.deleteSubscription address endpoint).2) := by
  refine ⟨?_, h.mailboxes, h.messages, h.attachments, ?_, h.customDomains, h.domainKeys,
    h.attestedDevices⟩
  · show Except.ok _ = Except.ok _
    rw [deleteSubscription, SqliteStore.Database.deleteSubscription, h.subscriptions]
    exact congrArg _ length_filter_not_ne
  · show List.filter _ db.subscriptions = _
    rw [h.subscriptions]
    rfl

/-! ## Custom domains -/

theorem representsDomains : Represents CustomDomain.domain db.customDomains s.customDomains :=
  ⟨.of_eq h.customDomains, h.domainKeys⟩

/-- The row of a domain is written. -/
theorem holds_writeDomain {d : CustomDomain} :
    Holds { s with customDomains := s.customDomains.insert d.domain d }
      { db with customDomains := d :: db.customDomains.filter (·.domain != d.domain) } :=
  ⟨h.mailboxes, h.messages, h.attachments, h.subscriptions,
    by rw [h.customDomains, h.domainKeys.values_insert], h.domainKeys.insert rfl, h.attestedDevices⟩

theorem match_createCustomDomain {d c t : String} :
    Matches (.createCustomDomain d c t) (createCustomDomain s d c t now)
      (db.createCustomDomain d c t now) := by
  rw [createCustomDomain, SqliteStore.Database.createCustomDomain, (representsDomains h).any_eq]
  by_cases hmem : d ∈ s.customDomains
  · rw [if_pos hmem, if_pos (decide_eq_true hmem)]
    exact ⟨.inr ⟨_, _, rfl, rfl⟩, h⟩
  · rw [if_neg hmem, if_neg (by simpa using hmem)]
    refine ⟨.inl rfl, ?_⟩
    have hholds := holds_writeDomain h (d := ⟨d, .pending, c, t, now, none, none⟩)
    rwa [List.filter_eq_self.mpr fun x hx => bne_iff_ne.mpr fun hxd => ?_] at hholds
    have hlookup := (representsDomains h).mem_iff.mp hx
    rw [show x.domain = d from hxd] at hlookup
    exact hmem (AList.lookup_isSome.mp (by rw [hlookup]; rfl))

theorem getCustomDomain_eq (d : String) : db.getCustomDomain d = getCustomDomain s d :=
  (representsDomains h).find?_eq d

theorem match_deleteCustomDomain {d : String} :
    Matches (.deleteCustomDomain d) (.ok (deleteCustomDomain s d).1, (deleteCustomDomain s d).2)
      (.ok (db.deleteCustomDomain d).1, (db.deleteCustomDomain d).2) := by
  refine ⟨?_, h.mailboxes, h.messages, h.attachments, h.subscriptions, ?_, h.domainKeys.erase d,
    h.attestedDevices⟩
  · show Except.ok _ = Except.ok _
    rw [deleteCustomDomain, SqliteStore.Database.deleteCustomDomain, (representsDomains h).any_eq]
    dsimp only
    rw [Bool.eq_iff_iff.mpr (AList.lookup_isSome.trans decide_eq_true_iff.symm)]
  · show db.customDomains.filter _ = HashMap.values (s.customDomains.erase d)
    rw [h.customDomains, h.domainKeys.values_erase]

theorem customDomainIsVerified_eq (d : String) :
    db.customDomainIsVerified d = customDomainIsVerified s d :=
  (representsDomains h).any_and d _

theorem match_recordCustomDomainCheck {d : String} {st : CustomDomainStatus}
    {v : Option DateTime} {t : DateTime} :
    Matches (.recordCustomDomainCheck d st v t)
      (.ok (recordCustomDomainCheck s d st v t).1, (recordCustomDomainCheck s d st v t).2)
      (.ok (db.recordCustomDomainCheck d st v t).1, (db.recordCustomDomainCheck d st v t).2) := by
  rw [recordCustomDomainCheck, SqliteStore.Database.recordCustomDomainCheck,
    (representsDomains h).find?_eq]
  cases hd : s.customDomains.lookup d with
  | none => exact ⟨rfl, h⟩
  | some x =>
    have hkey := h.domainKeys d x hd
    have hholds := holds_writeDomain h
      (d := { x with status := st, verifiedAt := v, lastCheckedAt := some t })
    subst hkey
    exact ⟨rfl, hholds⟩

theorem listCustomDomainsToRecheck_eq (t : DateTime) :
    db.listCustomDomainsToRecheck t = listCustomDomainsToRecheck s t := by
  rw [SqliteStore.Database.listCustomDomainsToRecheck, listCustomDomainsToRecheck, h.customDomains]
  refine List.filter_congr fun d _ => ?_
  cases d.status <;> rfl

/-! ## Attested devices -/

theorem holds_devices {rows : List AttestedDevice} {m : HashMap String AttestedDevice}
    (hrep : Represents AttestedDevice.keyId rows m) :
    Holds { s with attestedDevices := m } { db with attestedDevices := rows } :=
  ⟨h.mailboxes, h.messages, h.attachments, h.subscriptions, h.customDomains, h.domainKeys, hrep⟩

theorem match_upsertAttestedDevice {k : String} {key : List UInt8} {t : DateTime} :
    Matches (.upsertAttestedDevice k key t)
      (.ok (upsertAttestedDevice s k key t).1, (upsertAttestedDevice s k key t).2)
      (.ok (db.upsertAttestedDevice k key t).1, (db.upsertAttestedDevice k key t).2) := by
  rw [upsertAttestedDevice, SqliteStore.Database.upsertAttestedDevice, h.attestedDevices.find?_eq]
  cases hd : s.attestedDevices.lookup k with
  | none =>
    exact ⟨rfl, holds_devices h (h.attestedDevices.insert rfl (AList.lookup_eq_none.mp hd))⟩
  | some d =>
    exact ⟨rfl, holds_devices h (h.attestedDevices.update hd rfl)⟩

theorem match_advanceAttestedDeviceCounter {k : String} {n : Int} {t : DateTime} :
    Matches (.advanceAttestedDeviceCounter k n t)
      (.ok (advanceAttestedDeviceCounter s k n t).1, (advanceAttestedDeviceCounter s k n t).2)
      (.ok (db.advanceAttestedDeviceCounter k n t).1, (db.advanceAttestedDeviceCounter k n t).2) := by
  rw [advanceAttestedDeviceCounter, SqliteStore.Database.advanceAttestedDeviceCounter]
  have hany := h.attestedDevices.any_and k fun d => decide (d.counter < n)
  have hnone := h.attestedDevices.update_none (k := k)
    (f := fun d => { d with counter := n, lastSeenAt := t }) (p := fun d => decide (d.counter < n))
  cases hd : s.attestedDevices.lookup k with
  | none =>
    rw [hd] at hany hnone
    simp only [hany, hnone rfl]
    exact ⟨rfl, h⟩
  | some d =>
    rw [hd, Option.any_some] at hany hnone
    simp only [hany]
    by_cases hlt : d.counter < n
    · rw [if_pos hlt, decide_eq_true hlt]
      refine ⟨rfl, holds_devices h ?_⟩
      rw [h.attestedDevices.update_some hd (decide_eq_true hlt)]
      exact h.attestedDevices.update hd rfl
    · rw [if_neg hlt, hnone (decide_eq_false hlt), decide_eq_false hlt]
      exact ⟨rfl, h⟩

theorem match_pruneAttestedDevices {t : DateTime} :
    Matches (.pruneAttestedDevices t)
      (.ok (pruneAttestedDevices s t).1, (pruneAttestedDevices s t).2)
      (.ok (db.pruneAttestedDevices t).1, (db.pruneAttestedDevices t).2) := by
  have hrep := h.attestedDevices.delete (p := fun d => !decide (d.lastSeenAt < t))
    (q := fun _ d => decide (d.lastSeenAt ≥ t)) fun d => by
      rw [Bool.eq_iff_iff, decide_eq_true_iff, Bool.not_eq_true', decide_eq_false_iff_not, not_lt]
  refine ⟨?_, holds_devices h hrep⟩
  show Except.ok _ = Except.ok _
  have hlen := List.length_eq_length_filter_add (l := db.attestedDevices)
    fun d => decide (d.lastSeenAt < t)
  have hrows : ∀ {rows : List AttestedDevice} {m : HashMap String AttestedDevice},
      Represents AttestedDevice.keyId rows m → m.entries.length = rows.length := fun hr => by
    rw [hr.perm.length_eq, HashMap.values, List.length_map]
  rw [pruneAttestedDevices, SqliteStore.Database.pruneAttestedDevices]
  refine congrArg _ (Nat.sub_eq_of_eq_add ?_)
  rw [hrows h.attestedDevices, hrows hrep]
  exact hlen

end Steps

end AnonyMail
