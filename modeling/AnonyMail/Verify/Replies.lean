import AnonyMail.Verify.Session

/-! # The replies of a session

A reply has one code, on each of its lines, and tells its last line from the others. What a client
sends does not get into a reply: line breaks in it can come from the name of the host only. -/

namespace AnonyMail

open Calls Prog

namespace Smtp

/-- Three digits, the first of them `2` to `5`. -/
def isCode : List Char → Bool
  | [a, b, c] => "2345".toList.contains a && Str.isAsciiDigit b && Str.isAsciiDigit c
  | _ => false

def isBreak (ch : Char) : Bool := ch == '\r' || ch == '\n'

/-- The lines of a reply, which are those of `write_multiline` with one code. -/
structure WellFormedReply (host : String) (lines : List String) : Prop where
  form : ∃ code texts, isCode code.toList ∧ texts ≠ [] ∧ lines = multiline code texts
  breaks : ∀ line ∈ lines, ∀ ch ∈ line.toList, isBreak ch → ch ∈ host.toList

/-- What a session may call, as far as its replies go. -/
def Polite (host : String) : Eff → Prop
  | .reply lines => WellFormedReply host lines
  | _ => True

variable {host : String} {app : AppState} {cfg : Config} {ctx : SmtpContext}

/-! ## Lines -/

theorem isBreak_eq_true {ch : Char} (h : isBreak ch) : ch = '\r' ∨ ch = '\n' := by
  rwa [isBreak, Bool.or_eq_true, beq_iff_eq, beq_iff_eq] at h

theorem isBreak_of_all {l : List Char} {ch : Char} (h : l.all (!isBreak ·)) (hch : ch ∈ l) :
    isBreak ch = false := by
  simpa using List.all_eq_true.mp h ch hch

/-- Words without line breaks. -/
theorem isBreak_of_words {words : List String} {word : String} {ch : Char}
    (h : words.all fun word => word.toList.all (!isBreak ·)) (hword : word ∈ words)
    (hch : ch ∈ word.toList) : isBreak ch = false :=
  isBreak_of_all (List.all_eq_true.mp h word hword) hch

theorem isBreak_of_code {a b c ch : Char} (hcode : isCode [a, b, c]) (hch : ch ∈ [a, b, c, ' ']) :
    isBreak ch = false := by
  simp only [isCode, Bool.and_eq_true] at hcode
  obtain ⟨⟨ha, hb⟩, hc⟩ := hcode
  have hfirst : "2345".toList.all (!isBreak ·) := by decide
  have hdigit : ∀ x, Str.isAsciiDigit x → isBreak x = false := by
    intro x hx
    by_contra hbreak
    rcases isBreak_eq_true (Bool.not_eq_false _ ▸ hbreak) with rfl | rfl <;>
      exact absurd hx (by decide)
  simp only [List.mem_cons, List.not_mem_nil, or_false] at hch
  rcases hch with rfl | rfl | rfl | rfl
  · exact isBreak_of_all hfirst (List.contains_iff_mem.mp ha)
  · exact hdigit _ hb
  · exact hdigit _ hc
  · decide

theorem wellFormed_line {line : String} {a b c : Char} {text : List Char}
    (hline : line.toList = a :: b :: c :: ' ' :: text) (hcode : isCode [a, b, c])
    (hbreaks : ∀ ch ∈ text, isBreak ch → ch ∈ host.toList) : WellFormedReply host [line] where
  form := by
    refine ⟨.ofList [a, b, c], [.ofList text], by rwa [String.toList_ofList], by simp, ?_⟩
    rw [multiline, List.singleton_inj]
    exact String.toList_injective (by simp [hline])
  breaks l hl ch hch hbreak := by
    cases List.mem_singleton.mp hl
    rw [hline] at hch
    rw [show a :: b :: c :: ' ' :: text = [a, b, c, ' '] ++ text from rfl] at hch
    rcases List.mem_append.mp hch with hch | hch
    · exact absurd hbreak (Bool.eq_false_iff.mp (isBreak_of_code hcode hch))
    · exact hbreaks ch hch hbreak

/-- A line that is written out in the source. -/
def isReplyLine (line : String) : Bool :=
  match line.toList with
  | a :: b :: c :: ' ' :: text => isCode [a, b, c] && text.all (!isBreak ·)
  | _ => false

theorem wellFormed_literal {line : String} (h : isReplyLine line) :
    WellFormedReply host [line] := by
  unfold isReplyLine at h
  split at h
  · next a b c text hline =>
    rw [Bool.and_eq_true] at h
    exact wellFormed_line hline h.1 fun ch hch hbreak =>
      absurd hbreak (Bool.eq_false_iff.mp (isBreak_of_all h.2 hch))
  · cases h

theorem isBreak_repr {n : Nat} {ch : Char} (h : ch ∈ (toString n).toList) : isBreak ch = false := by
  rw [Nat.toString_eq_repr, Nat.toList_repr] at h
  have hdigit := Nat.isDigit_of_mem_toDigits (by decide) (by decide) h
  by_contra hbreak
  rcases isBreak_eq_true (Bool.not_eq_false _ ▸ hbreak) with rfl | rfl <;>
    exact absurd hdigit (by decide)

theorem mem_multiline {code line : String} {texts : List String} (h : line ∈ multiline code texts) :
    ∃ sep ∈ [" ", "-"], ∃ text ∈ texts, line = code ++ sep ++ text := by
  induction texts with
  | nil => cases h
  | cons text texts ih =>
    cases texts with
    | nil =>
      cases List.mem_singleton.mp h
      exact ⟨" ", by simp, text, List.mem_cons_self, rfl⟩
    | cons text' texts =>
      rcases List.mem_cons.mp h with rfl | h
      · exact ⟨"-", by simp, text, List.mem_cons_self, rfl⟩
      · obtain ⟨sep, hsep, x, hx, rfl⟩ := ih h
        exact ⟨sep, hsep, x, List.mem_cons_of_mem _ hx, rfl⟩

theorem wellFormed_multiline {texts : List String} (hne : texts ≠ [])
    (hbreaks : ∀ text ∈ texts, ∀ ch ∈ text.toList, isBreak ch → ch ∈ host.toList) :
    WellFormedReply host (multiline "250" texts) where
  form := ⟨"250", texts, by decide, hne, rfl⟩
  breaks line hline ch hch hbreak := by
    obtain ⟨sep, hsep, text, htext, rfl⟩ := mem_multiline hline
    rw [String.toList_append, String.toList_append, List.append_assoc] at hch
    have hclean : ["250", " ", "-"].all fun word => word.toList.all (!isBreak ·) := by decide
    rcases List.mem_append.mp hch with hch | hch
    · exact absurd hbreak (Bool.eq_false_iff.mp (isBreak_of_words hclean List.mem_cons_self hch))
    · rcases List.mem_append.mp hch with hch | hch
      · have hsep' := isBreak_of_words hclean (List.mem_cons_of_mem _ hsep) hch
        exact absurd hbreak (Bool.eq_false_iff.mp hsep')
      · exact hbreaks text htext ch hch hbreak

/-! ## The lines that are made up -/

/-- A line with something put into it. -/
theorem wellFormed_around {before mid after : String} (hbefore : isReplyLine before)
    (hafter : after.toList.all (!isBreak ·))
    (hmid : ∀ ch ∈ mid.toList, isBreak ch → ch ∈ host.toList) :
    WellFormedReply host [before ++ mid ++ after] := by
  unfold isReplyLine at hbefore
  split at hbefore
  · next a b c text hline =>
    rw [Bool.and_eq_true] at hbefore
    have hall : (before ++ mid ++ after).toList =
        a :: b :: c :: ' ' :: (text ++ mid.toList ++ after.toList) := by
      rw [String.toList_append, String.toList_append, hline]
      simp
    refine wellFormed_line hall hbefore.1 fun ch hch hbreak => ?_
    have hclean : ∀ l : List Char, l.all (!isBreak ·) → ch ∉ l := fun l hl hch =>
      Bool.eq_false_iff.mp (isBreak_of_all hl hch) hbreak
    rcases List.mem_append.mp hch with hch | hch
    · exact hmid ch ((List.mem_append.mp hch).resolve_left (hclean _ hbefore.2)) hbreak
    · exact absurd hch (hclean _ hafter)
  · cases hbefore

theorem wellFormed_greeting : WellFormedReply host [s!"220 {host} ESMTP anony-mail"] :=
  @wellFormed_around host "220 " host " ESMTP anony-mail" (by decide) (by decide) fun _ hch _ => hch

theorem wellFormed_helo : WellFormedReply host [s!"250 {host} Hello"] :=
  @wellFormed_around host "250 " host " Hello" (by decide) (by decide) fun _ hch _ => hch

theorem wellFormed_dataReply (r : Except StoreError Nat) : WellFormedReply host [dataReply r] := by
  cases r with
  | error e =>
    exact @wellFormed_literal host "451 4.3.0 Could not store message, try again later" (by decide)
  | ok count =>
    exact @wellFormed_around host "250 2.0.0 Message accepted (" (toString count) " recipient(s))"
      (by decide) (by decide) fun ch hch hbreak =>
        absurd hbreak (Bool.eq_false_iff.mp (isBreak_repr hch))

/-- The words of the reply to EHLO. -/
def ehloWords : List String :=
  ["STARTTLS", "8BITMIME", "PIPELINING", "ENHANCEDSTATUSCODES", "SMTPUTF8", " at your service",
    "SIZE "]

theorem isBreak_of_mem_ehloWords {word : String} {ch : Char} (hword : word ∈ ehloWords)
    (hch : ch ∈ word.toList) : isBreak ch = false := by
  have hwords : ehloWords.all fun word => word.toList.all (!isBreak ·) := by decide
  exact isBreak_of_words hwords hword hch

theorem mem_ehloCaps {s : Session} {text : String} (h : text ∈ ehloCaps ctx s) :
    text = ctx.app.config.smtpHostname ++ " at your service" ∨
      text = "SIZE " ++ toString ctx.app.config.maxMessageSize ∨ text ∈ ehloWords := by
  rcases List.mem_cons.mp h with rfl | h
  · exact .inl rfl
  · have hcaps : text = "STARTTLS" ∨ text ∈ ["SIZE " ++ toString ctx.app.config.maxMessageSize,
        "8BITMIME", "PIPELINING", "ENHANCEDSTATUSCODES", "SMTPUTF8"] := by
      split at h
      · exact List.mem_cons.mp h
      · exact .inr h
    rcases hcaps with rfl | hcaps
    · exact .inr (.inr (by decide))
    · rcases List.mem_cons.mp hcaps with rfl | hcaps
      · exact .inr (.inl rfl)
      · have hwords : ["8BITMIME", "PIPELINING", "ENHANCEDSTATUSCODES", "SMTPUTF8"] ⊆ ehloWords := by
          decide +kernel
        exact .inr (.inr (hwords hcaps))

theorem wellFormed_ehlo (s : Session) :
    WellFormedReply ctx.app.config.smtpHostname (multiline "250" (ehloCaps ctx s)) := by
  refine wellFormed_multiline (List.cons_ne_nil _ _) fun text htext ch hch hbreak => ?_
  have hword : ∀ word ∈ ehloWords, ch ∉ word.toList := fun word hword hch =>
    Bool.eq_false_iff.mp (isBreak_of_mem_ehloWords hword hch) hbreak
  rcases mem_ehloCaps htext with rfl | rfl | htext
  · rw [String.toList_append] at hch
    exact (List.mem_append.mp hch).resolve_right (hword _ (by decide))
  · rw [String.toList_append] at hch
    rcases List.mem_append.mp hch with hch | hch
    · exact absurd hch (hword _ (by decide))
    · exact absurd hbreak (Bool.eq_false_iff.mp (isBreak_repr hch))
  · exact absurd hch (hword text htext)

/-! ## What a session calls -/

section
variable {N : Eff → Prop} {p : Run α} {g : α → Run β} {x : Io α} {f : α → Io β}

theorem only_ret {a : α} : Only N (.ret a : Run α) := fun _ => safe_ret

theorem only_call_bind {e : Eff} {g : e.Ans → Run β} (he : N e) (hg : ∀ r, Only N (g r)) :
    Only N (call e >>= g) := fun _ => safe_call_bind he fun r => hg r _

theorem only_run_bind (hp : Only N p) (hg : ∀ a, Only N (g a)) : Only N (p >>= g) :=
  fun h => AnonyMail.Safe.bind (hp h) fun h' a _ => hg a h'

theorem only_io_bind (hx : Only N x.run) (hf : ∀ a, Only N (f a).run) : Only N (x >>= f).run :=
  fun h => Safe.bind (hx h) fun h' a _ => hf a h'

theorem only_io_lift (hp : Only N p) : Only N (OptionT.lift p : Io α).run :=
  fun h => safe_lift (hp h)

theorem only_io_pure {a : α} : Only N (pure a : Io α).run := fun _ => safe_pure

end

theorem polite_line {line : String} (h : isReplyLine line) :
    Only (Polite host) (writeLine line).run :=
  fun _ => safe_writeLine (wellFormed_literal h)

theorem polite_answer {line : String} (h : isReplyLine line) (a : α) :
    Only (Polite host) (do writeLine line; return a : Io α).run :=
  only_io_bind (polite_line h) fun _ => only_io_pure

theorem polite_recheckActive (delivery : String) : Only (Polite host) (recheckActive delivery) := by
  refine only_call_bind trivial fun now => only_call_bind trivial fun r => ?_
  split <;> exact only_ret

theorem polite_catchAllExpiry : Only (Polite host) (catchAllExpiry cfg) := by
  unfold catchAllExpiry
  split
  · exact only_call_bind trivial nofun
  · refine only_call_bind trivial fun now => ?_
    split
    · exact only_call_bind trivial nofun
    · exact only_ret

theorem polite_tryCatchAll (delivery : String) : Only (Polite host) (tryCatchAll cfg delivery) := by
  unfold tryCatchAll
  split
  · exact only_ret
  · split
    · exact only_ret
    · split
      · exact only_ret
      · refine only_run_bind polite_catchAllExpiry fun x => only_call_bind trivial fun r => ?_
        split
        · exact only_ret
        · split
          · exact polite_recheckActive delivery
          · exact only_ret

theorem polite_checkMailbox (addr : String) (isConfigDomain : Bool) :
    Only (Polite host) (checkMailbox cfg addr isConfigDomain) := by
  refine only_call_bind trivial fun now => only_call_bind trivial fun r => ?_
  split
  · exact only_ret
  · split
    · exact polite_tryCatchAll _
    · exact only_ret
  · exact only_ret

theorem polite_validateRecipient (addr : String) :
    Only (Polite host) (validateRecipient cfg addr) := by
  unfold validateRecipient
  split
  · exact only_ret
  · split
    · exact only_ret
    · split
      · exact polite_checkMailbox addr true
      · split
        · exact only_ret
        · refine only_call_bind trivial fun r => ?_
          split
          · exact polite_checkMailbox addr false
          · exact only_ret
          · exact only_ret

theorem polite_handleRcpt (s : Session) (addr : String) :
    Only (Polite host) (handleRcpt cfg s addr).run := by
  unfold handleRcpt
  split
  · exact polite_answer (by decide) s
  · split
    · exact polite_answer (by decide) s
    · refine only_io_bind (only_io_lift (polite_validateRecipient _)) fun r => ?_
      split <;> exact polite_answer (by decide) _

theorem polite_saveCopies (m : NewMessage) (rcpts : List String) :
    Only (Polite host) (saveCopies app.deps m rcpts) := by
  induction rcpts with
  | nil => exact only_ret
  | cons rcpt rcpts ih =>
    refine only_call_bind trivial fun r => ?_
    split
    · exact only_ret
    · exact only_call_bind trivial fun _ => ih

theorem polite_finishData (s : Session) (raw : List UInt8) :
    Only (Polite host) (finishData app s raw).run := by
  refine only_io_bind (only_io_lift ?_) fun r => fun _ => safe_writeLine (wellFormed_dataReply r)
  refine only_run_bind (polite_saveCopies _ _) fun r => ?_
  split <;> exact only_ret

theorem polite_storageHasHeadroom : Only (Polite host) (storageHasHeadroom cfg) := by
  unfold storageHasHeadroom
  split
  · exact only_ret
  · split
    · exact only_ret
    · refine only_call_bind trivial fun r => ?_
      split <;> exact only_ret

theorem polite_handleData (s : Session) (conn : Conn) :
    Only (Polite host) (handleData ctx s conn).run := by
  unfold handleData
  split
  · exact polite_answer (by decide) _
  · split
    · exact polite_answer (by decide) _
    · refine only_io_bind (only_io_lift polite_storageHasHeadroom) fun room => ?_
      split
      · exact polite_answer (by decide) _
      · refine only_io_bind (polite_line (by decide)) fun _ => ?_
        split
        · exact only_ret
        · exact only_io_bind (polite_finishData _ _) fun _ => only_io_pure
        · exact polite_answer (by decide) _
        · exact only_ret

theorem polite_handleStartTls (s : Session) (conn : Conn) :
    Only (Polite host) (handleStartTls ctx s conn).run := by
  unfold handleStartTls
  split
  · exact polite_answer (by decide) _
  · split
    · refine only_io_bind (polite_line (by decide)) fun _ => ?_
      split
      · exact only_io_pure
      · refine only_io_bind (only_io_lift (only_call_bind trivial fun _ => only_ret)) fun r => ?_
        split <;> exact only_io_pure
    · exact polite_answer (by decide) _

theorem polite_handleMail (s : Session) (addr : String) :
    Only (Polite host) (handleMail s addr).run := by
  unfold handleMail
  split
  · exact polite_answer (by decide) _
  · split
    · exact polite_answer (by decide) _
    · exact polite_answer (by decide) _

theorem polite_dispatch (s : Session) (conn : Conn) (cmd : Command) :
    Only (Polite ctx.app.config.smtpHostname) (dispatch ctx s conn cmd).run := by
  cases cmd with
  | ehlo domain =>
    have hcaps : Only (Polite ctx.app.config.smtpHostname)
        (writeMultiline "250" (ehloCaps ctx { s with helo := some domain }.resetTx)).run :=
      fun _ => safe_call (wellFormed_ehlo _) fun _ => safe_ret
    exact only_io_bind hcaps fun _ => only_io_pure
  | helo domain =>
    exact only_io_bind (fun _ => safe_writeLine wellFormed_helo) fun _ => only_io_pure
  | mailFrom addr => exact only_io_bind (polite_handleMail _ _) fun _ => only_io_pure
  | rcptTo addr => exact only_io_bind (polite_handleRcpt _ _) fun _ => only_io_pure
  | data => exact polite_handleData s conn
  | startTls => exact polite_handleStartTls s conn
  | quit | rset | noop | vrfy | help | unknown => exact polite_answer (by decide) _

theorem polite_step (s : Session) (conn : Conn) :
    Only (Polite ctx.app.config.smtpHostname) (step ctx s conn).run := by
  unfold step
  split
  · exact only_ret
  · exact only_ret
  · exact polite_answer (by decide) _
  · exact polite_dispatch _ _ _

theorem polite_turns (n : Nat) (s : Session) (conn : Conn) :
    Only (Polite ctx.app.config.smtpHostname) (turns ctx n s conn).run := by
  induction n generalizing s conn with
  | zero => exact only_ret
  | succ n ih =>
    refine only_io_bind (polite_step s conn) fun next => ?_
    split
    · exact only_ret
    · exact ih _ _

theorem polite_handle (n : Nat) (input : Reader) :
    Only (Polite ctx.app.config.smtpHostname) (handle ctx n input).run :=
  only_io_bind (fun _ => safe_writeLine wellFormed_greeting) fun _ => polite_turns n _ _

/-! ## The server -/

/-- What the tasks may call, as far as replies go. -/
def TaskReplies (app : AppState) : Task → Hist → Eff → Prop
  | .smtp .., _, e => Polite app.config.smtpHostname e
  | _, _, _ => True

theorem obeys_true {p : Run α} {h : Hist} : Obeys (fun _ _ => True) (fun _ _ => True) h p := by
  induction p generalizing h with
  | ret a => trivial
  | call e k ih => exact ⟨trivial, fun r => ih r⟩

theorem answers_prog (t : Task) : Obeys (TaskReplies app t) (fun _ _ => True) [] (t.prog app) := by
  cases t with
  | smtp n tls input =>
    have hsession := @polite_handle ⟨app, tls⟩ n input
    exact (only_run_bind hsession fun _ => only_ret) [] |>.obeys
  | http | reverify | cleanup => exact obeys_true

def plainServer : AppState := ⟨.refusing [], .default, false⟩

def unknownCommand : Reader := ⟨[⟨[88, 13, 10], by decide⟩], .eof⟩

/-- The session says that it does not know the command. -/
def refuses (x : Entry World Task Eff.Ans) : Bool :=
  match x.tag, x.call with
  | .smtp .., .reply lines => lines == ["500 5.5.2 Command not recognized"]
  | _, _ => false

end Smtp
end AnonyMail
