import Mathlib.Algebra.Order.BigOperators.Group.List
import Mathlib.Algebra.Order.Group.Nat
import AnonyMail.Lib.Budget
import AnonyMail.Verify.Quotas

/-! # What the quotas leave of a mailbox

The in-memory store drops ids from a sorted list by position (count cap) and by running sum (byte
cap). When the new message is the newest, both are suffixes of that list, so that what is left is a
prefix, and the longest one that is within both caps. -/

namespace AnonyMail

open Rank Budget

namespace MemoryStore

/-- The messages of a mailbox, newest first. -/
def inbox (messages : List Entry) (address : String) : List Entry :=
  (messages.filter fun e => e.message.mailboxAddress == address).insertionSort fun a b =>
    newestFirst (a.message.receivedAt, a.message.id) (b.message.receivedAt, b.message.id)

def Entry.size (e : Entry) : Nat := e.message.rawSize.toNat

def messageIds (entries : List Entry) : List Uuid := entries.map (·.message.id)

variable {messages l l₁ l₂ : List Entry} {address : String} {newId : Uuid} {quotas : MailboxQuotas}
  {e new : Entry}

theorem descending_inbox : Descending Entry.key (inbox messages address) :=
  descending_insertionSort Entry.key (fun _ _ => newestFirst_iff) _

theorem inbox_perm :
    (inbox messages address).Perm (messages.filter fun e => e.message.mailboxAddress == address) :=
  List.perm_insertionSort _ _

theorem mem_inbox : e ∈ inbox messages address ↔
    e ∈ messages ∧ e.message.mailboxAddress = address := by
  rw [inbox_perm.mem_iff, List.mem_filter, beq_iff_eq]

theorem newestFirstOf_eq : newestFirstOf messages address = (inbox messages address).map Entry.row :=
  (List.map_insertionSort _ _ Entry.row _ fun _ _ _ _ => Iff.rfl).symm

theorem eq_of_id_eq (hids : (messageIds messages).Nodup) {a b : Entry} (ha : a ∈ messages)
    (hb : b ∈ messages) (h : a.message.id = b.message.id) : a = b :=
  List.inj_on_of_nodup_map hids ha hb h

/-- Any descending list of the messages of a mailbox is its inbox. -/
theorem inbox_eq (hids : (messageIds messages).Nodup) (hl : Descending Entry.key l)
    (hp : l.Perm (messages.filter fun e => e.message.mailboxAddress == address)) :
    inbox messages address = l := by
  refine descending_inbox.eq_of_perm hl (inbox_perm.trans hp.symm) fun a ha b hb hab => ?_
  have hid : a.message.id = b.message.id := congrArg (·.2) (toLex.injective hab)
  exact eq_of_id_eq hids (mem_inbox.mp ha).1 (mem_inbox.mp hb).1 hid

theorem nodup_ids_inbox (hids : (messageIds messages).Nodup) :
    (messageIds (inbox messages address)).Nodup :=
  (inbox_perm.map _).nodup_iff.mpr (hids.sublist (List.filter_sublist.map _))

theorem mem_ids : newId ∈ messageIds l ↔ ∃ e ∈ l, e.message.id = newId := List.mem_map

/-! ## The messages past the byte cap -/

section OverBytes

variable {maxBytes running : Nat}

theorem ids_overBytes : overBytes maxBytes newId running (l.map Entry.row) ⊆ messageIds l := by
  induction l generalizing running with
  | nil => exact List.Subset.refl _
  | cons e l ih =>
    rw [List.map_cons, Entry.row, overBytes]
    split
    · exact List.cons_subset_cons _ ih
    · exact List.subset_cons_of_subset _ ih

theorem overBytes_cons (hsat : running + e.size ≤ u64Max) :
    overBytes maxBytes newId running ((e :: l).map Entry.row) =
      if maxBytes < running + e.size ∧ e.message.id ≠ newId then
        e.message.id :: overBytes maxBytes newId (running + e.size) (l.map Entry.row)
      else overBytes maxBytes newId (running + e.size) (l.map Entry.row) := by
  rw [List.map_cons, Entry.row, overBytes, ← Entry.size, min_eq_left hsat]

theorem overBytes_eq_ids_of_lt (hnew : newId ∉ messageIds l) (hrun : maxBytes < running)
    (hsat : running + (l.map Entry.size).sum ≤ u64Max) :
    overBytes maxBytes newId running (l.map Entry.row) = messageIds l := by
  induction l generalizing running with
  | nil => rfl
  | cons e l ih =>
    rw [List.map_cons, List.sum_cons] at hsat
    obtain ⟨hne, hnew⟩ := List.ne_and_not_mem_of_not_mem_cons hnew
    rw [overBytes_cons (by omega), if_pos ⟨by omega, hne.symm⟩, ih hnew (by omega) (by omega)]
    rfl

theorem overBytes_eq_ids_drop (hnew : newId ∉ messageIds l) (hrun : running ≤ maxBytes)
    (hsat : running + (l.map Entry.size).sum ≤ u64Max) :
    overBytes maxBytes newId running (l.map Entry.row) =
      messageIds (l.drop (fitting (maxBytes - running) (l.map Entry.size))) := by
  induction l generalizing running with
  | nil => rfl
  | cons e l ih =>
    rw [List.map_cons, List.sum_cons] at hsat
    obtain ⟨hne, hnew⟩ := List.ne_and_not_mem_of_not_mem_cons hnew
    rw [overBytes_cons (by omega), List.map_cons]
    by_cases hover : maxBytes < running + e.size
    · rw [if_pos ⟨hover, hne.symm⟩, fitting_cons_of_lt (by omega),
        overBytes_eq_ids_of_lt hnew hover (by omega)]
      rfl
    · rw [if_neg fun h => hover h.1, fitting_cons_of_le (by omega), List.drop_succ_cons,
        Nat.sub_sub, ih hnew (by omega) (by omega)]

/-- The byte cap keeps the new message, also when it does not fit. -/
theorem overBytes_eq_drop (hids : (messageIds (new :: l)).Nodup)
    (hsat : ((new :: l).map Entry.size).sum ≤ u64Max) :
    overBytes maxBytes new.message.id 0 ((new :: l).map Entry.row) =
      messageIds ((new :: l).drop (max 1 (fitting maxBytes ((new :: l).map Entry.size)))) := by
  have hnew : new.message.id ∉ messageIds l := (List.nodup_cons.mp hids).1
  rw [List.map_cons, List.sum_cons] at hsat
  rw [overBytes_cons (by omega), if_neg fun h => h.2 rfl, Nat.zero_add, List.map_cons]
  by_cases hover : maxBytes < new.size
  · rw [fitting_cons_of_lt hover, overBytes_eq_ids_of_lt hnew hover hsat]
    rfl
  · rw [fitting_cons_of_le (Nat.le_of_not_lt hover), max_eq_right (by omega), List.drop_succ_cons,
      overBytes_eq_ids_drop hnew (Nat.le_of_not_lt hover) hsat]

end OverBytes

/-! ## The longest prefix within both caps -/

/-- These messages are within both caps. -/
structure Fits (quotas : MailboxQuotas) (entries : List Entry) : Prop where
  count : 0 < quotas.maxMessages → entries.length ≤ quotas.maxMessages
  bytes : 0 < quotas.maxBytes → (entries.map (·.message.rawSize)).sum ≤ quotas.maxBytes

/-- `kept` is the longest prefix of `entries` within both caps, but for a new message that is
larger than the byte cap, which is kept alone. -/
structure Kept (quotas : MailboxQuotas) (entries : List Entry) (new : Entry)
    (kept : List Entry) : Prop where
  initial : kept <+: entries
  longest : ∀ l, l <+: entries → Fits quotas l → l <+: kept
  fits : Fits quotas kept ∨
    kept = [new] ∧ 0 < quotas.maxBytes ∧ (quotas.maxBytes : Int) < new.message.rawSize

theorem sum_rawSize (h : ∀ e ∈ l, 0 ≤ e.message.rawSize) :
    (l.map (·.message.rawSize)).sum = ((l.map Entry.size).sum : Int) := by
  induction l with
  | nil => rfl
  | cons e l ih =>
    have he : (e.size : Int) = e.message.rawSize := Int.toNat_of_nonneg (h e List.mem_cons_self)
    rw [List.map_cons, List.map_cons, List.sum_cons, List.sum_cons,
      ih fun x hx => h x (List.mem_cons_of_mem _ hx), Nat.cast_add, he]

/-- How many messages each cap keeps. -/
def countKept (quotas : MailboxQuotas) (entries : List Entry) : Nat :=
  if 0 < quotas.maxMessages then quotas.maxMessages else entries.length

def bytesKept (quotas : MailboxQuotas) (entries : List Entry) : Nat :=
  if 0 < quotas.maxBytes then max 1 (fitting quotas.maxBytes (entries.map Entry.size))
  else entries.length

theorem fits_take {n : Nat} (hsize : ∀ e ∈ l, 0 ≤ e.message.rawSize) (hn : n ≤ l.length) :
    Fits quotas (l.take n) ↔ n ≤ countKept quotas l ∧
      (0 < quotas.maxBytes → n ≤ fitting quotas.maxBytes (l.map Entry.size)) := by
  have hbytes : ((l.take n).map (·.message.rawSize)).sum ≤ (quotas.maxBytes : Int) ↔
      n ≤ fitting quotas.maxBytes (l.map Entry.size) := by
    rw [sum_rawSize fun e he => hsize e (List.mem_of_mem_take he), List.map_take,
      le_fitting_iff (by rwa [List.length_map]), Int.ofNat_le]
  rw [← hbytes, countKept]
  constructor
  · intro h
    refine ⟨?_, h.bytes⟩
    split
    · next hpos => simpa [hn] using h.count hpos
    · exact hn
  · rintro ⟨hcount, hbytes⟩
    refine ⟨fun hpos => ?_, hbytes⟩
    rw [if_pos hpos] at hcount
    exact (List.length_take_le ..).trans hcount

theorem kept_take (hsize : ∀ e ∈ new :: l, 0 ≤ e.message.rawSize) :
    Kept quotas (new :: l) new
      ((new :: l).take (min (countKept quotas (new :: l)) (bytesKept quotas (new :: l)))) := by
  have hnew : (new.size : Int) = new.message.rawSize :=
    Int.toNat_of_nonneg (hsize new List.mem_cons_self)
  have hcount : 1 ≤ countKept quotas (new :: l) := by
    rw [countKept]
    split
    · assumption
    · exact Nat.succ_le_succ (Nat.zero_le _)
  refine ⟨List.take_prefix .., fun p hp hfit => ?_, ?_⟩
  · rw [List.prefix_iff_eq_take.mp hp] at hfit ⊢
    obtain ⟨hle, hbytes⟩ := (fits_take hsize hp.length_le).mp hfit
    refine List.take_prefix_take_left (le_min hle ?_)
    rw [bytesKept]
    split
    · next hpos => exact (hbytes hpos).trans (le_max_right ..)
    · exact hp.length_le
  · by_cases hbig : 0 < quotas.maxBytes ∧ (quotas.maxBytes : Int) < new.message.rawSize
    · refine .inr ⟨?_, hbig⟩
      have hzero : fitting quotas.maxBytes ((new :: l).map Entry.size) = 0 :=
        fitting_cons_of_lt (by omega)
      rw [bytesKept, if_pos hbig.1, hzero, max_eq_left (Nat.zero_le _), min_eq_right hcount]
      rfl
    · left
      have hle : bytesKept quotas (new :: l) ≤ (new :: l).length := by
        rw [bytesKept]
        split
        · refine max_le (Nat.succ_le_succ (Nat.zero_le _)) (fitting_le_length.trans ?_)
          rw [List.length_map]
        · exact Nat.le_refl _
      refine (fits_take hsize ((min_le_right ..).trans hle)).mpr ⟨min_le_left .., fun hpos => ?_⟩
      have hone : 1 ≤ fitting quotas.maxBytes ((new :: l).map Entry.size) := by
        rw [List.map_cons, fitting_cons_of_le (by omega)]
        exact Nat.succ_le_succ (Nat.zero_le _)
      rw [bytesKept, if_pos hpos, max_eq_right hone]
      exact min_le_right ..

/-! ## A save of the newest message -/

theorem drop_unless (c : Prop) [Decidable c] (n : Nat) :
    (if c then (l.drop n) else []) = l.drop (if c then n else l.length) := by
  split
  · rfl
  · exact List.drop_length.symm

/-- The evicted ids are those past the first messages that both caps keep. -/
theorem mem_evicted (hall : inbox messages address = new :: l) (hids : (messageIds (new :: l)).Nodup)
    (hsat : ((new :: l).map Entry.size).sum ≤ u64Max) {id : Uuid} :
    id ∈ evicted messages address new.message.id quotas ↔
      id ∈ messageIds ((new :: l).drop
        (min (countKept quotas (new :: l)) (bytesKept quotas (new :: l)))) := by
  have hevicted : evicted messages address new.message.id quotas =
      messageIds ((new :: l).drop (countKept quotas (new :: l))) ++
        messageIds ((new :: l).drop (bytesKept quotas (new :: l))) := by
    rw [evicted, newestFirstOf_eq, hall, overBytes_eq_drop hids hsat, countKept, bytesKept,
      ← drop_unless, ← drop_unless]
    congr 1
    · split
      · rw [← List.map_drop, List.map_map]
        rfl
      · rfl
    · split
      · rfl
      · rfl
  rw [hevicted, List.mem_append]
  have hsub : ∀ {a b : Nat}, a ≤ b → id ∈ messageIds ((new :: l).drop b) →
      id ∈ messageIds ((new :: l).drop a) :=
    fun hab h => List.map_subset _ (List.drop_subset_drop_left _ hab) h
  rcases le_total (countKept quotas (new :: l)) (bytesKept quotas (new :: l)) with hab | hab
  · rw [min_eq_left hab]
    exact or_iff_left_of_imp (hsub hab)
  · rw [min_eq_right hab]
    exact or_iff_right_of_imp (hsub hab)

theorem filter_not_mem_ids_drop (hids : (messageIds l).Nodup) (n : Nat) :
    l.filter (fun e => e.message.id ∉ messageIds (l.drop n)) = l.take n := by
  have hsplit : ∀ l₁ l₂ : List Entry, (messageIds (l₁ ++ l₂)).Nodup →
      (l₁ ++ l₂).filter (fun e => e.message.id ∉ messageIds l₂) = l₁ := by
    intro l₁ l₂ hids
    rw [messageIds, List.map_append] at hids
    rw [List.filter_append, List.filter_eq_self.mpr, List.filter_eq_nil_iff.mpr, List.append_nil]
    · exact fun e he => by simpa using mem_ids.mpr ⟨e, he, rfl⟩
    · intro e he
      exact decide_eq_true fun h =>
        (List.nodup_append.mp hids).2.2 _ (List.mem_map_of_mem he) _ h rfl
  have hl := hsplit (l.take n) (l.drop n)
  rw [List.take_append_drop] at hl
  exact hl hids

/-- A message newer than those of its mailbox heads the inbox. -/
theorem inbox_concat (hids : (messageIds (messages ++ [new])).Nodup)
    (haddress : new.message.mailboxAddress = address)
    (hnewest : ∀ e ∈ messages, e.message.mailboxAddress = address → e.key ≤ new.key) :
    inbox (messages ++ [new]) address = new :: inbox messages address := by
  refine inbox_eq hids (List.pairwise_cons.mpr ⟨fun e he => ?_, descending_inbox⟩) ?_
  · exact hnewest e (mem_inbox.mp he).1 (mem_inbox.mp he).2
  · rw [List.filter_append, List.filter_cons_of_pos (by simpa using haddress), List.filter_nil]
    exact (inbox_perm.cons new).trans (List.perm_append_singleton new _).symm

theorem inbox_enforceQuotas (hids : (messageIds messages).Nodup)
    (hall : inbox messages address = new :: l)
    (hsat : ((new :: l).map Entry.size).sum ≤ u64Max) :
    inbox (enforceQuotas messages address new.message.id quotas) address =
      (new :: l).take (min (countKept quotas (new :: l)) (bytesKept quotas (new :: l))) := by
  have hidsAll : (messageIds (new :: l)).Nodup := hall ▸ nodup_ids_inbox hids
  have hdesc : Descending Entry.key (new :: l) := hall ▸ descending_inbox
  rw [enforceQuotas_eq_filter, ← filter_not_mem_ids_drop hidsAll]
  refine inbox_eq (hids.sublist (List.filter_sublist.map _)) (hdesc.sublist List.filter_sublist) ?_
  rw [List.filter_comm]
  refine ((hall ▸ inbox_perm).filter _).trans (List.Perm.of_eq (List.filter_congr fun e _ => ?_))
  rw [List.contains_eq_mem, ← decide_not]
  exact decide_eq_decide.mpr (not_congr (mem_evicted hall hidsAll hsat).symm)

/-- Ids identify messages across mailboxes, so that evictions stay within the mailbox. -/
theorem not_mem_evicted (hids : (messageIds messages).Nodup) (he : e ∈ messages)
    (haddress : e.message.mailboxAddress ≠ address) :
    e.message.id ∉ evicted messages address newId quotas := by
  have hsub : evicted messages address newId quotas ⊆ messageIds (inbox messages address) := by
    rw [evicted, newestFirstOf_eq]
    refine List.append_subset.mpr ⟨?_, ?_⟩
    · split
      · rw [← List.map_drop, List.map_map]
        exact List.map_subset _ (List.drop_subset ..)
      · exact List.nil_subset _
    · split
      · exact ids_overBytes
      · exact List.nil_subset _
  intro hmem
  obtain ⟨x, hx, hid⟩ := mem_ids.mp (hsub hmem)
  have hx := mem_inbox.mp hx
  exact haddress (eq_of_id_eq hids hx.1 he hid ▸ hx.2)

theorem saveMessage_eq (quotas : MailboxQuotas) (s : Inner) (address : String) (m : NewMessage)
    (id : Uuid) (attachmentIds : List Uuid) (receivedAt : DateTime) :
    ∃ new : Entry, new.message = (saveMessage quotas s address m id attachmentIds receivedAt).1 ∧
      new.raw = m.rawContent ∧
      (saveMessage quotas s address m id attachmentIds receivedAt).2 =
        { s with messages := enforceQuotas (s.messages ++ [new]) address id quotas } := by
  unfold saveMessage
  exact ⟨_, rfl, rfl, rfl⟩

theorem sum_size_inbox (address : String) (hsize : ∀ e ∈ messages, 0 ≤ e.message.rawSize) :
    (((inbox messages address).map Entry.size).sum : Int) ≤
      (messages.map (·.message.rawSize)).sum := by
  rw [sum_rawSize hsize, Int.ofNat_le, (inbox_perm.map Entry.size).sum_nat]
  exact (List.filter_sublist.map _).sum_le_sum fun _ _ => Nat.zero_le _

end MemoryStore

open MemoryStore

/-- A save of the newest message of a mailbox leaves of it the longest prefix, newest first, within
both caps, or the new message alone when it does not fit; nothing else changes. -/
theorem saveMessage_keeps_longest (quotas : MailboxQuotas) (s : MemoryStore.Inner)
    (address : String) (m : NewMessage) (id : Uuid) (attachmentIds : List Uuid)
    (receivedAt : DateTime) (hids : (id :: messageIds s.messages).Nodup)
    (hsize : ∀ e ∈ s.messages, 0 ≤ e.message.rawSize) (hnewSize : 0 ≤ m.rawSize)
    (htotal : (s.messages.map (·.message.rawSize)).sum + m.rawSize < 2 ^ 64)
    (hnewest : ∀ e ∈ s.messages, e.message.mailboxAddress = address →
      newestFirst (receivedAt, id) (e.message.receivedAt, e.message.id))
    (stored : StoredMessage) (s' : MemoryStore.Inner)
    (h : MemoryStore.saveMessage quotas s address m id attachmentIds receivedAt = (stored, s')) :
    ∃ new : Entry, new.message = stored ∧ new.raw = m.rawContent ∧
      Kept quotas (inbox (s.messages ++ [new]) address) new (inbox s'.messages address) ∧
      (Fits quotas (inbox s'.messages address) ∨ inbox s'.messages address = [new]) ∧
      s' = { s with messages := (s.messages ++ [new]).filter fun e =>
        e.message.mailboxAddress != address || (inbox s'.messages address).contains e } := by
  obtain ⟨new, hmessage, hraw, hs'⟩ := saveMessage_eq quotas s address m id attachmentIds
    receivedAt
  have hid : new.message.id = id := hmessage ▸ rfl
  have haddress : new.message.mailboxAddress = address := hmessage ▸ rfl
  have hkey : new.key = toLex (receivedAt, id) := by rw [Entry.key, hmessage]; rfl
  have hrawSize : new.message.rawSize = m.rawSize := hmessage ▸ rfl
  rw [h] at hmessage hs'
  obtain rfl : s' = _ := hs'
  refine ⟨new, hmessage, hraw, ?_⟩
  have hsizes : ∀ e ∈ s.messages ++ [new], 0 ≤ e.message.rawSize := by
    intro e he
    obtain he | he := List.mem_append.mp he
    · exact hsize e he
    · rw [List.mem_singleton.mp he, hrawSize]
      exact hnewSize
  have hidsAll : (messageIds (s.messages ++ [new])).Nodup := by
    rw [messageIds, List.map_append, List.map_cons, List.map_nil, hid]
    exact (List.perm_append_singleton id _).nodup_iff.mpr hids
  have hall := inbox_concat hidsAll haddress fun e he hat =>
    hkey ▸ newestFirst_iff.mp (hnewest e he hat)
  have hsat : ((new :: inbox s.messages address).map Entry.size).sum ≤ u64Max := by
    have hle := sum_size_inbox address hsizes
    rw [hall, List.map_append, List.sum_append, List.map_singleton, List.sum_singleton,
      hrawSize] at hle
    rw [u64Max]
    omega
  have hspec : Kept quotas (inbox (s.messages ++ [new]) address) new
      (inbox (enforceQuotas (s.messages ++ [new]) address id quotas) address) := by
    rw [← hid, inbox_enforceQuotas hidsAll hall hsat, hall]
    exact kept_take fun e he => hsizes e (mem_inbox.mp (hall ▸ he)).1
  refine ⟨hspec, hspec.fits.imp_right And.left, congrArg (fun l => { s with messages := l }) ?_⟩
  refine enforceQuotas_eq_filter.trans (List.filter_congr fun e he => ?_)
  rw [Bool.eq_iff_iff]
  by_cases hat : e.message.mailboxAddress = address
  · have hiff : e ∈ inbox (enforceQuotas (s.messages ++ [new]) address id quotas) address ↔
        e.message.id ∉ evicted (s.messages ++ [new]) address id quotas := by
      rw [mem_inbox, mem_enforceQuotas, and_iff_left hat, and_iff_right he]
    simp [hat, hiff]
  · simpa [hat] using not_mem_evicted hidsAll he hat

/-- A mailbox with one message, under a cap of one. -/
def oneMessage : MemoryStore.Inner :=
  (MemoryStore.saveMessage oneMessageQuota .empty "a@example.com" emptyMessage 1 [] 0).2

theorem saveMessage_keeps_longest_one :
    ∃ new : Entry, Kept oneMessageQuota (inbox (oneMessage.messages ++ [new]) "a@example.com") new
      (inbox (MemoryStore.saveMessage oneMessageQuota oneMessage "a@example.com" emptyMessage 2 []
        1).2.messages "a@example.com") := by
  obtain ⟨new, -, -, hkept, -⟩ := saveMessage_keeps_longest oneMessageQuota oneMessage
    "a@example.com" emptyMessage 2 [] 1 (by decide) (by decide) (by decide) (by decide) (by decide)
    _ _ rfl
  exact ⟨new, hkept⟩

end AnonyMail
