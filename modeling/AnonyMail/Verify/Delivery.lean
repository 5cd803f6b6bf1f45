import Mathlib.Data.List.TakeWhile
import AnonyMail.Verify.Frames

/-! # Delivery to several recipients

At the end of DATA, one copy after the other is saved and announced, and a single reply answers for
all of them. The copies before a save that fails stay, although the sender is told to try again. -/

namespace AnonyMail.Smtp

open Calls Prog MemoryStore

/-- `exec`, in surroundings in which saving to `fails` fails and saving elsewhere does not. -/
def execFailing (fails : String → Bool) (app : AppState) (w : World) :
    (e : Eff) → Choice → Option (e.Ans × World)
  | .store (.saveMessage rcpt m), .fail =>
    if fails rcpt then exec app w (.store (.saveMessage rcpt m)) .fail else none
  | .store (.saveMessage rcpt m), c =>
    if fails rcpt then none else exec app w (.store (.saveMessage rcpt m)) c
  | e, c => exec app w e c

def inbox (s : Inner) (a : String) : List MemoryStore.Entry :=
  s.messages.filter fun e => e.message.mailboxAddress == a

/-- The entry holds the message in the mailbox `a`. -/
structure IsCopy (m : NewMessage) (a : String) (e : MemoryStore.Entry) : Prop where
  mailboxAddress : e.message.mailboxAddress = a
  mailFrom : e.message.mailFrom = m.mailFrom
  subject : e.message.subject = m.subject
  messageDate : e.message.messageDate = m.messageDate
  textBody : e.message.textBody = m.textBody
  htmlBody : e.message.htmlBody = m.htmlBody
  contents : e.contents.map (·.2) = m.attachments.map (·.content)
  raw : e.raw = m.rawContent

variable {app : AppState} {fails : String → Bool} {w w' : World}

theorem execFailing_save {rcpt : String} {m : NewMessage} {r : Except StoreError StoredMessage}
    (hx : execFailing fails app w (.store (.saveMessage rcpt m)) c = some (r, w')) :
    (fails rcpt ∧ c = .fail ∨ ¬fails rcpt ∧ c ≠ .fail) ∧
      exec app w (.store (.saveMessage rcpt m)) c = some (r, w') := by
  cases c with
  | fail =>
    obtain ⟨hf, hx⟩ := Option.ite_none_right_eq_some.mp hx
    exact ⟨.inl ⟨hf, rfl⟩, hx⟩
  | _ =>
    obtain ⟨hf, hx⟩ := Option.ite_none_left_eq_some.mp hx
    exact ⟨.inr ⟨hf, by simp⟩, hx⟩

/-- What saving one copy does, with quotas disabled. -/
theorem save_cases {rcpt : String} {m : NewMessage} {r : Except StoreError StoredMessage}
    (hq : app.config.mailboxQuotas = .unlimited)
    (hx : execFailing fails app w (.store (.saveMessage rcpt m)) c = some (r, w')) :
    (fails rcpt ∧ r = .error .other ∧ w' = w) ∨
    (¬fails rcpt ∧ ∃ e, r = .ok e.message ∧ IsCopy m rcpt e ∧ w'.published = w.published ∧
      w'.store = { w.store with messages := w.store.messages ++ [e] }) := by
  obtain ⟨hc, hx⟩ := execFailing_save hx
  obtain ⟨rfl, rfl, rfl⟩ | ⟨ids, rfl, hlen, -, -, ha, hw⟩ := exec_store_cases hx
  · obtain ⟨hf, -⟩ | ⟨-, hc⟩ := hc
    · exact .inl ⟨hf, rfl, rfl⟩
    · exact absurd rfl hc
  · obtain ⟨-, ⟨⟩⟩ | ⟨hf, -⟩ := hc
    simp only [StoreOp.apply, saveMessage, enforceQuotas, hq, if_true, Prod.mk.injEq] at ha
    refine .inr ⟨hf, _, ha.1.symm, ⟨rfl, rfl, rfl, rfl, rfl, rfl, ?_, rfl⟩, by rw [hw], ha.2.symm⟩
    have hle : m.attachments.length ≤ ids.tail.length := by
      rw [List.length_tail, hlen, StoreOp.uuids, Nat.add_sub_cancel]
    conv_rhs => rw [← List.map_snd_zip hle]
    rw [List.map_map, List.map_map]
    rfl

/-- The recipients before the first one whose save fails. -/
def served (fails : String → Bool) (rcpts : List String) : List String :=
  rcpts.takeWhile fun r => !fails r

theorem exec_saveCopies {rcpts : List String} (hq : app.config.mailboxQuotas = .unlimited)
    (h : Exec (execFailing fails app) w (saveCopies D m rcpts) tr w' r) :
    replies tr = [] ∧ (r = .ok () ↔ ∀ x ∈ rcpts, ¬fails x) ∧
      (∃ copies, w'.store.messages = w.store.messages ++ copies ∧
        List.Forall₂ (IsCopy m) (served fails rcpts) copies) ∧
      ∃ events, w'.published = w.published ++ events ∧
        events.map (·.address) = served fails rcpts := by
  induction rcpts generalizing w tr with
  | nil =>
    obtain ⟨rfl, rfl, rfl⟩ := exec_ret.mp h
    simp [replies, served]
  | cons rcpt rcpts ih =>
    obtain ⟨c, r₁, w₁, tr₁, hx, rfl, h₁⟩ := exec_call.mp h
    obtain ⟨hf, rfl, rfl⟩ | ⟨hf, e, rfl, hcopy, hpub, hstore⟩ := save_cases hq hx
    · obtain ⟨rfl, rfl, rfl⟩ := exec_ret.mp h₁
      simp [replies, served, hf]
    · obtain ⟨c', _, w₂, tr₂, hx', rfl, h₂⟩ := exec_call.mp h₁
      cases hx'
      obtain ⟨hrep, hr, ⟨copies, hmsg, hcopies⟩, events, hev, haddr⟩ := ih h₂
      have hserved : served fails (rcpt :: rcpts) = rcpt :: served fails rcpts := by
        simp [served, hf]
      rw [hserved]
      refine ⟨hrep, by simpa [hf] using hr, ⟨e :: copies, ?_, .cons hcopy hcopies⟩,
        .fromStored D rcpt e.message :: events, ?_, by rw [List.map_cons, haddr]; rfl⟩
      · rw [hmsg]
        simp [hstore]
      · rw [hev]
        simp [hpub]

theorem exec_storeMessage {s : Session} {raw : List UInt8}
    (h : Exec (execFailing fails app) w (storeMessage app s raw) tr w' r) :
    ∃ r₀, Exec (execFailing fails app) w
        (saveCopies app.deps (parsedMessage app s raw) s.rcpts) tr w' r₀ ∧
      r = r₀.map fun _ => s.rcpts.length := by
  obtain ⟨r₀, tr₁, w₁, tr₂, rfl, h₁, h₂⟩ := exec_bind.mp h
  cases r₀ with
  | ok =>
    obtain ⟨rfl, rfl, rfl⟩ := exec_ret.mp h₂
    exact ⟨.ok (), (List.append_nil tr₁).symm ▸ h₁, rfl⟩
  | error e =>
    obtain ⟨rfl, rfl, rfl⟩ := exec_ret.mp h₂
    exact ⟨.error e, (List.append_nil tr₁).symm ▸ h₁, rfl⟩

/-- What is sent to the client when the copies have been saved, or one of them has not. -/
theorem exec_finishData {s : Session} {raw : List UInt8}
    (h : Exec (execFailing fails app) w (finishData app s raw).run tr w' out) :
    ∃ tr₁ r, Exec (execFailing fails app) w
        (saveCopies app.deps (parsedMessage app s raw) s.rcpts) tr₁ w' r ∧
      replies tr = replies tr₁ ++ [dataReply (r.map fun _ => s.rcpts.length)] := by
  rw [finishData, run_bind] at h
  obtain ⟨o, tr₁, w₁, tr₂, rfl, h₁, h₂⟩ := exec_bind.mp h
  obtain ⟨r, tr₃, w₃, tr₄, rfl, h₃, h₄⟩ := exec_bind.mp h₁
  obtain ⟨rfl, rfl, rfl⟩ := exec_ret.mp h₄
  obtain ⟨r₀, h₀, rfl⟩ := exec_storeMessage h₃
  obtain ⟨c, x, w₅, tr₅, hx, rfl, h₅⟩ := exec_call.mp h₂
  obtain ⟨rfl, rfl, rfl⟩ := exec_ret.mp h₅
  have hw : w' = w₁ := by cases c <;> cases hx <;> rfl
  exact ⟨tr₃, r₀, hw ▸ h₀, by simp [replies]⟩

/-! ## All or nothing -/

/-- The sender is told that the message was accepted, and each recipient got it once. -/
structure Delivered (m : NewMessage) (rcpts : List String) (w w' : World) (tr : Hist) : Prop where
  reply : ∃ line, replies tr = [line] ∧ Str.startsWith line "250"
  copies : ∀ r ∈ rcpts, ∃ e, inbox w'.store r = inbox w.store r ++ [e] ∧ IsCopy m r e
  events : ∃ events, w'.published = w.published ++ events ∧ events.map (·.address) = rcpts

/-- The sender is told to try again, and nobody got the message. -/
structure Refused (w w' : World) (tr : Hist) : Prop where
  reply : ∃ line, replies tr = [line] ∧ Str.startsWith line "451"
  copies : ∀ a, inbox w'.store a = inbox w.store a
  events : w'.published = w.published

theorem startsWith_append {s pre t : String} (h : Str.startsWith s pre) :
    Str.startsWith (s ++ t) pre := by
  rw [Str.startsWith, List.isPrefixOf_iff_prefix] at h ⊢
  rw [String.toList_append]
  exact h.trans (List.prefix_append ..)

theorem startsWith_dataReply_ok (n : Nat) : Str.startsWith (dataReply (.ok n)) "250" :=
  startsWith_append (startsWith_append (by decide))

theorem inbox_append {s s' : Inner} (hmsg : s'.messages = s.messages ++ copies) (a : String) :
    inbox s' a = inbox s a ++ copies.filter fun e => e.message.mailboxAddress == a := by
  rw [inbox, hmsg, List.filter_append, ← inbox]

theorem filter_copies_of_notMem {rcpts : List String} (h : List.Forall₂ (IsCopy m) rcpts copies)
    (hr : r ∉ rcpts) : (copies.filter fun e => e.message.mailboxAddress == r) = [] := by
  induction h with
  | nil => rfl
  | cons hcopy _ ih =>
    rw [List.mem_cons, not_or] at hr
    rw [List.filter_cons_of_neg, ih hr.2]
    rw [hcopy.mailboxAddress, beq_iff_eq]
    exact Ne.symm hr.1

/-- With distinct recipients, each gets one of the copies. -/
theorem filter_copies {rcpts : List String} (h : List.Forall₂ (IsCopy m) rcpts copies)
    (hnd : rcpts.Nodup) (hr : r ∈ rcpts) :
    ∃ e, (copies.filter fun e => e.message.mailboxAddress == r) = [e] ∧ IsCopy m r e := by
  induction h with
  | nil => cases hr
  | @cons a e rcpts copies hcopy hrest ih =>
    obtain ⟨hnot, hnd⟩ := List.nodup_cons.mp hnd
    by_cases ha : r = a
    · subst ha
      refine ⟨e, ?_, hcopy⟩
      rw [List.filter_cons_of_pos (by simp [hcopy.mailboxAddress]), filter_copies_of_notMem hrest hnot]
    · obtain ⟨e', he', hcopy'⟩ := ih hnd ((List.mem_cons.mp hr).resolve_left ha)
      refine ⟨e', ?_, hcopy'⟩
      rw [List.filter_cons_of_neg, he']
      rw [hcopy.mailboxAddress, beq_iff_eq]
      exact Ne.symm ha

theorem served_eq_self {rcpts : List String} (h : ∀ r ∈ rcpts, ¬fails r) :
    served fails rcpts = rcpts :=
  List.takeWhile_eq_self_iff.mpr fun r hr => by simpa using h r hr

theorem finishData_delivered {s : Session} {raw : List UInt8}
    (hq : app.config.mailboxQuotas = .unlimited) (hnd : s.rcpts.Nodup)
    (h : Exec (execFailing fails app) w (finishData app s raw).run tr w' out)
    (hall : ∀ r ∈ s.rcpts, ¬fails r) : Delivered (parsedMessage app s raw) s.rcpts w w' tr := by
  obtain ⟨tr₁, r, hsave, hreply⟩ := exec_finishData h
  obtain ⟨hnone, hr, ⟨copies, hmsg, hcopies⟩, events, hev, haddr⟩ := exec_saveCopies hq hsave
  rw [served_eq_self hall] at hcopies haddr
  rw [hnone, hr.mpr hall, List.nil_append] at hreply
  refine ⟨⟨_, hreply, startsWith_dataReply_ok _⟩, fun a ha => ?_, events, hev, haddr⟩
  obtain ⟨e, he, hcopy⟩ := filter_copies hcopies hnd ha
  exact ⟨e, by rw [inbox_append hmsg, he], hcopy⟩

/-- After a save that has failed, the copies before it stay, and the sender is told to try again. -/
theorem finishData_failed {s : Session} {raw : List UInt8}
    (hq : app.config.mailboxQuotas = .unlimited)
    (h : Exec (execFailing fails app) w (finishData app s raw).run tr w' out)
    (hall : ¬∀ r ∈ s.rcpts, ¬fails r) :
    replies tr = ["451 4.3.0 Could not store message, try again later"] ∧
      (∃ copies, w'.store.messages = w.store.messages ++ copies ∧
        List.Forall₂ (IsCopy (parsedMessage app s raw)) (served fails s.rcpts) copies) ∧
      ∃ events, w'.published = w.published ++ events ∧
        events.map (·.address) = served fails s.rcpts := by
  obtain ⟨tr₁, r, hsave, hreply⟩ := exec_finishData h
  obtain ⟨hnone, hr, hcopies, hevents⟩ := exec_saveCopies hq hsave
  cases r with
  | ok => exact absurd (hr.mp rfl) hall
  | error e =>
    rw [hnone, List.nil_append] at hreply
    exact ⟨hreply, hcopies, hevents⟩

/-- With distinct recipients and without quotas, DATA is all or nothing exactly if all saves succeed
or the first one fails. -/
theorem finishData_allOrNothing_iff {s : Session} {raw : List UInt8}
    (hq : app.config.mailboxQuotas = .unlimited) (hnd : s.rcpts.Nodup)
    (h : Exec (execFailing fails app) w (finishData app s raw).run tr w' out) :
    (Delivered (parsedMessage app s raw) s.rcpts w w' tr ∨ Refused w w' tr) ↔
      (∀ r ∈ s.rcpts, ¬fails r) ∨ ∃ r ∈ s.rcpts.head?, fails r := by
  by_cases hall : ∀ r ∈ s.rcpts, ¬fails r
  · exact iff_of_true (.inl (finishData_delivered hq hnd h hall)) (.inl hall)
  obtain ⟨hreply, ⟨copies, hmsg, hcopies⟩, events, hev, haddr⟩ := finishData_failed hq h hall
  by_cases hhead : ∃ r ∈ s.rcpts.head?, fails r
  · refine iff_of_true (.inr ?_) (.inr hhead)
    obtain ⟨a, ha, hfail⟩ := hhead
    obtain ⟨rcpts, hs⟩ := List.head?_eq_some_iff.mp ha
    have hserved : served fails s.rcpts = [] := by simp [served, hs, hfail]
    rw [hserved] at hcopies haddr
    cases hcopies
    refine ⟨⟨_, hreply, by decide⟩, fun b => ?_, ?_⟩
    · rw [inbox_append hmsg, List.filter_nil, List.append_nil]
    · rw [hev, List.map_eq_nil_iff.mp haddr, List.append_nil]
  · -- the first recipient has a copy
    refine iff_of_false ?_ fun h => h.elim hall hhead
    cases hs : s.rcpts with
    | nil => simp [hs] at hall
    | cons a rcpts =>
      have ha : ¬fails a := fun hf => hhead ⟨a, by simp [hs], hf⟩
      have hserved : served fails s.rcpts = a :: served fails rcpts := by simp [served, hs, ha]
      rw [hserved] at hcopies
      obtain ⟨e, copies, hcopy, -, rfl⟩ := List.forall₂_cons_left_iff.mp hcopies
      rintro (hdel | href)
      · obtain ⟨line, hline, hstart⟩ := hdel.reply
        cases List.singleton_inj.mp (hreply.symm.trans hline)
        exact absurd hstart (by decide)
      · have hinbox := href.copies a
        rw [inbox_append hmsg, List.filter_cons_of_pos (by simp [hcopy.mailboxAddress])] at hinbox
        simp at hinbox

/-! An empty message to two recipients. -/

def mailServer : AppState :=
  ⟨.refusing [], { Config.default with maxMessagesPerMailbox := 0, maxMailboxBytes := 0 }, false⟩

def mailSession : Session :=
  ⟨some "example.org", some "alice@example.org", ["a@example.com", "b@example.com"], false⟩

theorem finishData_allOrNothing_two : ∃ tr w' out,
    Exec (execFailing (fun _ => false) mailServer) (World.start 0)
      (finishData mailServer mailSession []).run tr w' out ∧
    (Delivered (parsedMessage mailServer mailSession []) mailSession.rcpts (World.start 0) w' tr ∨
      Refused (World.start 0) w' tr) := by
  have hplay : (play (execFailing (fun _ => false) mailServer)
      [.uuids [1], .answer, .uuids [2], .answer, .answer] (World.start 0)
      (finishData mailServer mailSession []).run).any fun _ => true := by
    decide +kernel
  obtain ⟨tr, w', out, h, -⟩ := exists_of_play hplay
  exact ⟨tr, w', out, h,
    (finishData_allOrNothing_iff rfl (by decide) h).mpr (.inl fun _ _ => Bool.false_ne_true)⟩

/-- The second recipient's mailbox is gone: the first has a copy, and the reply is 451. -/
theorem not_finishData_allOrNothing : ¬∀ (app : AppState) (fails : String → Bool) (w w' : World)
    (s : Session) (raw : List UInt8) (tr : Hist) (out : Option Unit),
    app.config.mailboxQuotas = .unlimited → s.rcpts.Nodup →
    Exec (execFailing fails app) w (finishData app s raw).run tr w' out →
    Delivered (parsedMessage app s raw) s.rcpts w w' tr ∨ Refused w w' tr := by
  intro H
  have hplay : (play (execFailing (· == "b@example.com") mailServer)
      [.uuids [1], .answer, .fail, .answer] (World.start 0)
      (finishData mailServer mailSession []).run).any fun (tr, w', _) =>
        (replies tr).all (!Str.startsWith · "250") && !(inbox w'.store "a@example.com").isEmpty := by
    decide +kernel
  obtain ⟨tr, w', out, h, hP⟩ := exists_of_play hplay
  simp only [Bool.and_eq_true, List.all_eq_true, Bool.not_eq_true', List.isEmpty_eq_false_iff] at hP
  rcases H _ _ _ _ _ _ _ _ rfl (by decide) h with hdel | href
  · obtain ⟨line, hline, hstart⟩ := hdel.reply
    rw [hP.1 line (by simp [hline])] at hstart
    cases hstart
  · exact hP.2 (href.copies "a@example.com")

end AnonyMail.Smtp
