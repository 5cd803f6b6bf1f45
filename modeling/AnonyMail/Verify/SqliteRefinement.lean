import AnonyMail.Verify.SqliteStore

/-! # Runs of the SQLite store

Every method of the SQLite store answers as the in-memory store behind the check of the foreign keys,
and leaves tables that hold what is there afterwards. So it is for any sequence of calls, as long as
no UUID is drawn twice. -/

namespace AnonyMail

open MemoryStore KeyedList Table

variable {q quotas : MailboxQuotas} {s : Inner} {db : SqliteStore.Database} {op : StoreOp}
  {now : DateTime} {ids : List Uuid} {calls : List StoreCall} {i : Uuid}

/-! ## One call -/

theorem housed_iff {a : String} (hop : op.deposits = some a) : op.Housed s ↔ a ∈ s.mailboxes :=
  ⟨fun H => H a hop, fun hmem b hb => by cases hop.symm.trans hb; exact hmem⟩

theorem housed_of_none (hop : op.deposits = none) : op.Housed s := fun _ ha => by
  rw [hop] at ha
  cases ha

/-- A call that adds no message and no subscription. -/
theorem match_apply_of_none (h : Holds s db) (hs : Sound s) (hop : op.deposits = none) :
    Matches op (op.apply q s now ids) (op.applySqlite q db now ids) := by
  cases op with
  | createMailbox => exact match_createMailbox h
  | getMailbox => exact ⟨congrArg _ (getMailbox_eq h _).symm, h⟩
  | mailboxIsActive => exact ⟨congrArg _ (mailboxIsActive_eq h _ _).symm, h⟩
  | extendMailbox => exact match_extendMailbox h
  | deleteMailbox => exact match_deleteMailbox h hs
  | rotateOwnerToken => exact match_rotateOwnerToken h
  | listMessages => exact ⟨congrArg _ (list_eq h hs _ _).symm, h⟩
  | getMessage => exact match_getMessage h hs
  | getRawMessage => exact ⟨congrArg _ (getRawMessage_eq h hs _ _).symm, h⟩
  | getAttachment =>
    exact ⟨congrArg _ (getAttachment_eq s db.toTables h.messages h.attachments hs.messages.ids
      hs.messages.aids hs.messages.filed _ _ _).symm, h⟩
  | deleteMessage => exact match_deleteMessage h hs
  | markSeen => exact match_markSeen h hs
  | deleteAllMessages => exact match_deleteAllMessages h hs
  | purgeExpired => exact match_purgeExpired h hs
  | listSubscriptions => exact match_listSubscriptions h
  | deleteSubscription => exact match_deleteSubscription h
  | createCustomDomain => exact match_createCustomDomain h
  | getCustomDomain => exact ⟨congrArg _ (getCustomDomain_eq h _).symm, h⟩
  | deleteCustomDomain => exact match_deleteCustomDomain h
  | customDomainIsVerified => exact ⟨congrArg _ (customDomainIsVerified_eq h _).symm, h⟩
  | recordCustomDomainCheck => exact match_recordCustomDomainCheck h
  | listCustomDomainsToRecheck => exact ⟨congrArg _ (listCustomDomainsToRecheck_eq h _).symm, h⟩
  | upsertAttestedDevice => exact match_upsertAttestedDevice h
  | getAttestedDevice => exact ⟨congrArg _ (h.attestedDevices.find?_eq _).symm, h⟩
  | advanceAttestedDeviceCounter => exact match_advanceAttestedDeviceCounter h
  | pruneAttestedDevices => exact match_pruneAttestedDevices h
  | countActiveMailboxesByDevice => exact ⟨congrArg _ (count_eq h).symm, h⟩
  | runMaintenance | ping => exact ⟨rfl, h⟩
  | saveMessage | addSubscription => cases hop

theorem match_apply (h : Holds s db) (hs : Sound s) (hbytes : q.maxBytes < 2 ^ 63)
    (hd : DrawsNew s op ids) (hsize : op.Sized) :
    Matches op (op.applyHoused q s now ids) (op.applySqlite q db now ids) := by
  cases hop : op.deposits with
  | none =>
    rw [StoreOp.applyHoused, if_pos (housed_of_none hop)]
    exact match_apply_of_none h hs hop
  | some a =>
    have hhoused := @housed_iff s op a hop
    cases op with
    | saveMessage b m =>
      cases hop
      obtain ⟨id, aids, rfl, -⟩ := hd.saveMessage
      rw [StoreOp.applyHoused, StoreOp.applySqlite]
      by_cases hmem : a ∈ s.mailboxes
      · rw [if_pos (hhoused.mpr hmem)]
        exact match_saveMessage h hs hbytes (hsize a m rfl) hd hmem
      · rw [if_neg (mt hhoused.mp hmem), saveMessage_refused h hmem]
        exact ⟨rfl, h⟩
    | addSubscription b kind endpoint p256dh auth n =>
      cases hop
      rw [StoreOp.applyHoused, StoreOp.applySqlite]
      by_cases hmem : a ∈ s.mailboxes
      · rw [if_pos (hhoused.mpr hmem)]
        exact match_addSubscription h hs ⟨kind, endpoint, p256dh, auth, n⟩ hmem
      · rw [if_neg (mt hhoused.mp hmem),
          addSubscription_refused h hs ⟨kind, endpoint, p256dh, auth, n⟩ hmem]
        exact ⟨rfl, h⟩
    | _ => cases hop

/-! ## The UUIDs in use -/

theorem usedIds_saved {a : String} {m : NewMessage} (hd : DrawsNew s (.saveMessage a m) ids)
    (hi : i ∈ messageIds (s.messages ++ [savedEntry a m (ids.headD 0) ids.tail now]) ∨
      i ∈ attachmentIds (s.messages ++ [savedEntry a m (ids.headD 0) ids.tail now])) :
    i ∈ s.usedIds ∨ i ∈ ids := by
  obtain ⟨id, aids, rfl, hlen⟩ := hd.saveMessage
  rw [Inner.usedIds, List.mem_append, List.mem_append]
  rw [messageIds, attachmentIds, List.map_append, List.flatMap_append, List.mem_append,
    List.mem_append, List.flatMap_singleton, List.tail_cons, ids_savedEntry hlen] at hi
  obtain (hi | hi) | hi | hi := hi
  · exact .inl (.inl (.inl hi))
  · rw [List.map_singleton, List.mem_singleton] at hi
    exact .inr (hi ▸ List.mem_cons_self)
  · exact .inl (.inl (.inr hi))
  · exact .inr (List.mem_cons_of_mem _ hi)

theorem usedIds_messages (hd : DrawsNew s op ids)
    (hi : i ∈ messageIds (op.apply q s now ids).2.messages ∨
      i ∈ attachmentIds (op.apply q s now ids).2.messages) : i ∈ s.usedIds ∨ i ∈ ids := by
  have hsub : ∀ {l l' : List Entry}, l.Sublist l' →
      i ∈ messageIds l ∨ i ∈ attachmentIds l → i ∈ messageIds l' ∨ i ∈ attachmentIds l' := by
    intro l l' hl h
    exact h.imp ((hl.map _).subset ·) ((hl.flatMap _).subset ·)
  obtain hl | ⟨a, id, -, heq⟩ | ⟨a, m, rfl, heq⟩ := @messages_apply q s now ids op
  · exact .inl (List.mem_append_left _ (List.mem_append.mpr (hsub hl hi)))
  · rw [heq, messageIds, attachmentIds, List.flatMap_def, map_setSeen fun _ => rfl,
      map_setSeen fun _ => rfl, ← List.flatMap_def] at hi
    exact .inl (List.mem_append_left _ (List.mem_append.mpr hi))
  · rw [heq, enforceQuotas_eq_filter] at hi
    exact usedIds_saved hd (hsub List.filter_sublist hi)

theorem usedIds_apply (hs : Sound s) (hd : DrawsNew s op ids)
    (hi : i ∈ (op.apply q s now ids).2.usedIds) : i ∈ s.usedIds ∨ i ∈ ids := by
  obtain hi | hi := List.mem_append.mp hi
  · exact usedIds_messages hd (List.mem_append.mp hi)
  obtain hsub | ⟨a, k, e, p, u, n, rfl⟩ := @subscriptions_apply q s now ids op
  · exact .inl (List.mem_append_right _ ((hsub.map _).subset hi))
  · have hlen : ids.length = 1 := hd.length
    obtain ⟨id, rfl⟩ := List.length_eq_one_iff.mp hlen
    have hadds := @memory_add ⟨k, e, p, u, n⟩ a id now s hs.subscriptions.keys
    obtain heq | heq := hadds.ids
    · exact .inl (List.mem_append_right _ (heq ▸ hi))
    · have hi : i ∈ s.subscriptions.map (·.id) ++ [id] := heq ▸ hi
      exact (List.mem_append.mp hi).imp (List.mem_append_right _) fun h => h

theorem usedIds_applyHoused (hs : Sound s) (hd : DrawsNew s op ids)
    (hi : i ∈ (op.applyHoused q s now ids).2.usedIds) : i ∈ s.usedIds ∨ i ∈ ids := by
  rw [StoreOp.applyHoused] at hi
  split at hi
  · exact usedIds_apply hs hd hi
  · exact .inl hi

/-! ## Runs -/

/-- The in-memory store behind the check of the foreign keys, after these calls. -/
def housedAfter (quotas : MailboxQuotas) (calls : List StoreCall) : Inner :=
  calls.foldl (fun s (op, now, ids) => (op.applyHoused quotas s now ids).2) .empty

/-- Each call draws as many UUIDs as it needs, and no UUID is drawn twice. -/
structure DrawsApart (calls : List StoreCall) : Prop where
  length : ∀ c ∈ calls, c.2.2.length = c.1.uuids
  nodup : (calls.flatMap (·.2.2)).Nodup

theorem housedAfter_concat : housedAfter quotas (calls ++ [(op, now, ids)]) =
    (op.applyHoused quotas (housedAfter quotas calls) now ids).2 := by
  rw [housedAfter, List.foldl_append]
  rfl

theorem sqliteAfter_concat : sqliteAfter quotas (calls ++ [(op, now, ids)]) =
    (op.applySqlite quotas (sqliteAfter quotas calls) now ids).2 := by
  rw [sqliteAfter, List.foldl_append]
  rfl

theorem DrawsApart.sublist {calls' : List StoreCall} (h : DrawsApart calls)
    (hsub : calls'.Sublist calls) : DrawsApart calls' :=
  ⟨fun c hc => h.length c (hsub.subset hc), h.nodup.sublist (hsub.flatMap _)⟩

theorem sound_empty : Sound .empty where
  intact := by simp [Intact, Inner.occupied, Inner.empty]
  messages := ⟨List.nodup_nil, List.forall_mem_nil _, List.nodup_nil, List.forall_mem_nil _⟩
  subscriptions := ⟨List.nodup_nil, List.nodup_nil⟩

/-- How the two stores stand after some calls. -/
structure Alongside (quotas : MailboxQuotas) (calls : List StoreCall) : Prop where
  sound : Sound (housedAfter quotas calls)
  holds : Holds (housedAfter quotas calls) (sqliteAfter quotas calls)
  used : ∀ i ∈ (housedAfter quotas calls).usedIds, i ∈ calls.flatMap (·.2.2)

/-- The UUIDs of the next call are new. -/
theorem Alongside.drawsNew (h : Alongside quotas calls)
    (hdraws : DrawsApart (calls ++ [(op, now, ids)])) : DrawsNew (housedAfter quotas calls) op ids := by
  have hnodup := hdraws.nodup
  rw [List.flatMap_append, List.flatMap_singleton, List.nodup_append] at hnodup
  exact ⟨hdraws.length _ (List.mem_append_right _ (List.mem_singleton_self _)), hnodup.2.1,
    fun i hi hused => hnodup.2.2 i (h.used i hused) i hi rfl⟩

theorem alongside (hbytes : quotas.maxBytes < 2 ^ 63) (hdraws : DrawsApart calls)
    (hsize : ∀ c ∈ calls, c.1.Sized) : Alongside quotas calls := by
  induction calls using List.reverseRecOn with
  | nil => exact ⟨sound_empty, holds_empty, by simp [housedAfter, Inner.usedIds, Inner.empty,
      messageIds, attachmentIds]⟩
  | append_singleton calls call ih =>
    obtain ⟨op, now, ids⟩ := call
    have ih := ih (hdraws.sublist (List.sublist_append_left ..)) fun c hc =>
      hsize c (List.mem_append_left _ hc)
    have hnew := ih.drawsNew hdraws
    have hsized : op.Sized := hsize (op, now, ids) (by simp)
    refine ⟨?_, ?_, ?_⟩
    · rw [housedAfter_concat]
      exact ih.sound.applyHoused hnew hsized
    · rw [housedAfter_concat, sqliteAfter_concat]
      exact (match_apply ih.holds ih.sound hbytes hnew hsized).holds
    · intro i hi
      rw [housedAfter_concat] at hi
      rw [List.flatMap_append, List.flatMap_singleton]
      exact List.mem_append.mpr ((usedIds_applyHoused ih.sound hnew hi).imp (ih.used i) fun h => h)

/-- If what each call adds has a mailbox, the check changes nothing. -/
theorem housedAfter_of_addressed (h : Addressed quotas calls) :
    housedAfter quotas calls = storeAfter quotas calls := by
  induction calls using List.reverseRecOn with
  | nil => rfl
  | append_singleton calls call ih =>
    obtain ⟨op, now, ids⟩ := call
    have ih := ih fun pre op' now' ids' post hcalls =>
      h pre op' now' ids' (post ++ [(op, now, ids)]) (by simp [hcalls])
    have hhoused : op.Housed (storeAfter quotas calls) := fun a hop => h calls op now ids [] rfl a hop
    rw [housedAfter_concat, storeAfter_concat, ih, StoreOp.applyHoused, if_pos hhoused]

/-- Two attachments whose ids descend, a message that the count cap drops, and one for a mailbox that
is gone. -/
def attachmentCalls : List StoreCall :=
  [(.createMailbox "a@example.com" "example.com" 10 none none, 0, []),
    (.saveMessage "a@example.com" emptyMessage, 1, [1]),
    (.saveMessage "a@example.com" SqlStore.twoAttachments, 2, [2, 4, 3]),
    (.getMessage "a@example.com" 2, 3, []),
    (.deleteMailbox "a@example.com", 4, []),
    (.saveMessage "a@example.com" emptyMessage, 5, [5])]

end AnonyMail
