import AnonyMail.Verify.Frames

/-! # NegativeReply commands

A command whose direct reply is negative leaves the session as it was, and the store too: the one
call on its way that may write is the creation of a catch-all mailbox, and a creation that succeeds
is answered with 250. -/

namespace AnonyMail

open Calls Prog MemoryStore

/-! ## Calls that write -/

/-- Methods that read. -/
def StoreOp.Reads : StoreOp → Prop
  | getMailbox _ | mailboxIsActive .. | listMessages .. | getMessage .. | getRawMessage ..
  | getAttachment .. | listSubscriptions _ | getCustomDomain _ | customDomainIsVerified _
  | listCustomDomainsToRecheck _ | getAttestedDevice _ | countActiveMailboxesByDevice ..
  | runMaintenance | ping => True
  | _ => False

/-- A store call that succeeded, and that does not only read. -/
def Wrote (ev : Event Eff.Ans) : Prop := ∃ op out, ev = ⟨.store op, .ok out⟩ ∧ ¬op.Reads

section
variable {app : AppState} {w w' : World} {tr : Hist} {p : Run α} {a : α} {op : StoreOp}
  {q : MailboxQuotas} {s : Inner} {now : DateTime} {ids : List Uuid}

theorem StoreOp.Reads.apply_eq (h : op.Reads) : (op.apply q s now ids).2 = s := by
  cases op <;> first | rfl | exact h.elim

theorem apply_eq_of_error {e : StoreError} (h : (op.apply q s now ids).1 = .error e) :
    (op.apply q s now ids).2 = s := by
  cases op with
  | createMailbox | createCustomDomain =>
    simp only [StoreOp.apply, createMailbox, createCustomDomain] at h ⊢
    split at h
    · next hmem => rw [if_pos hmem]
    · cases h
  | addSubscription =>
    simp only [StoreOp.apply, addSubscription] at h ⊢
    split at h
    · cases h
    · split at h
      · next hfull => rw [if_pos hfull]
      · cases h
  | _ => cases h

/-- A run in which no call wrote leaves the store as it is. -/
theorem store_eq_of_exec (h : Exec (exec app) w p tr w' a) (hquiet : ∀ ev ∈ tr, ¬Wrote ev) :
    w'.store = w.store := by
  induction h with
  | ret => rfl
  | @call w w₁ w' e k c r tr a hx _ ih =>
    obtain ⟨hev, htr⟩ := List.forall_mem_cons.mp hquiet
    rw [ih htr]
    replace hx : exec app w e c = some (r, w₁) := hx
    cases e with
    | store op =>
      obtain ⟨-, -, rfl⟩ | ⟨ids, -, -, -, -, hap, -⟩ := exec_store_cases hx
      · rfl
      · have hstore : (op.apply app.config.mailboxQuotas w.store w.clock ids).2 = w₁.store :=
          congrArg Prod.snd hap
        rw [← hstore]
        cases r with
        | error e => exact apply_eq_of_error (congrArg Prod.fst hap)
        | ok out => exact StoreOp.Reads.apply_eq (by_contra fun hop => hev ⟨op, out, rfl, hop⟩)
    | _ => exact exec_store_eq hx (by simp)

end

theorem not_wrote_of_reads {op : StoreOp} {r : Except StoreError op.Out} (hop : op.Reads) :
    ¬Wrote ⟨.store op, r⟩ := by
  rintro ⟨op', out, heq, hnot⟩
  cases heq
  exact hnot hop

theorem not_wrote_error {op : StoreOp} {e : StoreError} : ¬Wrote ⟨.store op, .error e⟩ := by
  rintro ⟨op', out, heq, -⟩
  cases heq

theorem not_wrote_of_ne {ev : Event Eff.Ans} (hne : ∀ op, ev.1 ≠ .store op) : ¬Wrote ev := by
  rintro ⟨op, out, rfl, -⟩
  exact hne op rfl

namespace Smtp

/-! ## Before the reply -/

theorem replies_append (h l : Hist) : replies (h ++ l) = replies h ++ replies l :=
  List.flatMap_append

/-- Nothing has been written yet, neither to the store nor to the client. -/
def Quiet (h : Hist) : Prop := replies h = [] ∧ ∀ ev ∈ h, ¬Wrote ev

theorem Quiet.snoc {h : Hist} (hh : Quiet h) (ev : Event Eff.Ans) (hr : replies [ev] = [])
    (hw : ¬Wrote ev) : Quiet (h ++ [ev]) := by
  refine ⟨by rw [replies_append, hh.1, hr, List.append_nil], fun ev' hev => ?_⟩
  rcases List.mem_append.mp hev with hev | hev
  · exact hh.2 ev' hev
  · cases List.mem_singleton.mp hev
    exact hw

/-- Whatever the answers, `Q` holds of the calls and the result of `p`, started after the calls
`h`. -/
structure Leaves (Q : Hist → α → Prop) (h : Hist) (p : Run α) : Prop where
  intro ::
  obeys : Obeys (fun _ _ => True) Q h p

section
variable {Q : Hist → α → Prop} {R : Hist → β → Prop} {h : Hist}

theorem leaves_ret {a : α} (ha : Q h a) : Leaves Q h (.ret a) := ⟨ha⟩

theorem leaves_call {e : Eff} {k : e.Ans → Run α} (hk : ∀ r, Leaves Q (h ++ [⟨e, r⟩]) (k r)) :
    Leaves Q h (call e >>= k) := ⟨trivial, fun r => (hk r).obeys⟩

theorem Leaves.bind {p : Run α} {f : α → Run β} (hp : Leaves Q h p)
    (hf : ∀ h' a, Q h' a → Leaves R h' (f a)) : Leaves R h (p >>= f) :=
  ⟨obeys_bind.mpr (hp.obeys.mono fun h' a hQ => (hf h' a hQ).obeys)⟩

/-- As `Leaves.bind`, in a session. -/
theorem leaves_lift_bind {R : Hist → Option β → Prop} {p : Run α} {f : α → Io β} (hp : Leaves Q h p)
    (hf : ∀ h' a, Q h' a → Leaves R h' (f a).run) : Leaves R h ((OptionT.lift p : Io α) >>= f).run := by
  rw [run_bind]
  exact Leaves.bind (Q := fun h' o => ∃ a, o = some a ∧ Q h' a)
    (hp.bind fun h' a ha => leaves_ret ⟨a, rfl, ha⟩) (by rintro h' _ ⟨a, rfl, ha⟩; exact hf h' a ha)

end

/-- After the check of a recipient: a mailbox has been created for an accepted recipient only. -/
def RcptChecked (h : Hist) (r : RecipientCheck) : Prop :=
  Quiet h ∨ replies h = [] ∧ ∃ delivery, r = .accept delivery

variable {cfg : Config} {h : Hist}

theorem checked_recheckActive (delivery : String) (hh : Quiet h) :
    Leaves RcptChecked h (recheckActive delivery) := by
  refine leaves_call fun t => leaves_call fun r => ?_
  have hq := (hh.snoc ⟨.now, t⟩ rfl (not_wrote_of_ne (by simp))).snoc
    ⟨.store (.mailboxIsActive delivery t), r⟩ rfl (not_wrote_of_reads trivial)
  split <;> exact leaves_ret (.inl hq)

theorem checked_tryCatchAll (delivery : String) (hh : Quiet h) :
    Leaves RcptChecked h (tryCatchAll cfg delivery) := by
  unfold tryCatchAll
  split
  · exact leaves_ret (.inl hh)
  · split
    · exact leaves_ret (.inl hh)
    · next l d hd =>
      split
      · exact leaves_ret (.inl hh)
      · refine Leaves.bind ⟨catchAllExpiry_obeys trivial (fun _ => trivial) fun _ _ => trivial⟩ ?_
        rintro h' x ⟨t, rfl, -⟩
        have hq := hh.snoc ⟨.now, t⟩ rfl (not_wrote_of_ne (by simp))
        refine leaves_call fun r => ?_
        cases r with
        | ok mb => exact leaves_ret (.inr ⟨by rw [replies_append, hq.1]; rfl, delivery, rfl⟩)
        | error e =>
          have hq' := hq.snoc ⟨.store (.createMailbox delivery d x none none), .error e⟩ rfl
            not_wrote_error
          dsimp only
          split
          · exact checked_recheckActive delivery hq'
          · exact leaves_ret (.inl hq')

theorem checked_checkMailbox (addr : String) (b : Bool) (hh : Quiet h) :
    Leaves RcptChecked h (checkMailbox cfg addr b) := by
  refine leaves_call fun t => leaves_call fun r => ?_
  have hq := (hh.snoc ⟨.now, t⟩ rfl (not_wrote_of_ne (by simp))).snoc
    ⟨.store (.mailboxIsActive (stripPlusTag addr) t), r⟩ rfl (not_wrote_of_reads trivial)
  split
  · exact leaves_ret (.inl hq)
  · split
    · exact checked_tryCatchAll _ hq
    · exact leaves_ret (.inl hq)
  · exact leaves_ret (.inl hq)

theorem checked_validateRecipient (addr : String) (hh : Quiet h) :
    Leaves RcptChecked h (validateRecipient cfg addr) := by
  unfold validateRecipient
  split
  · exact leaves_ret (.inl hh)
  · next l d hd =>
    split
    · exact leaves_ret (.inl hh)
    · split
      · exact checked_checkMailbox addr true hh
      · split
        · exact leaves_ret (.inl hh)
        · refine leaves_call fun r => ?_
          have hq := hh.snoc ⟨.store (.customDomainIsVerified d), r⟩ rfl
            (not_wrote_of_reads trivial)
          split
          · exact checked_checkMailbox addr false hq
          · exact leaves_ret (.inl hq)
          · exact leaves_ret (.inl hq)

theorem quiet_storageHasHeadroom (hh : Quiet h) :
    Leaves (fun h' _ => Quiet h') h (storageHasHeadroom cfg) := by
  unfold storageHasHeadroom
  split
  · exact leaves_ret hh
  · split
    · exact leaves_ret hh
    · next path _ =>
      refine leaves_call fun r => ?_
      have hq := hh.snoc ⟨.availableSpace path, r⟩ rfl (not_wrote_of_ne (by simp))
      split <;> exact leaves_ret hq

/-! ## The reply -/

/-- The first line of the answer is negative. -/
def NegativeReply (tr : Hist) : Prop := ∃ line, (replies tr).head? = some line ∧
  (line.toList.head? = some '4' ∨ line.toList.head? = some '5')

/-- If the answer is a refusal, then the session goes on as `s`, if it goes on, and nothing has been
written to the store. -/
def Spared (f : α → Option Session) (s : Session) (h : Hist) (r : Option α) : Prop :=
  NegativeReply h → (∀ a s', r = some a → f a = some s' → s' = s) ∧ ∀ ev ∈ h, ¬Wrote ev

variable {f : α → Option Session} {s : Session}

theorem spared_silent {r : Option α} : Spared f s [] r := by
  rintro ⟨line, hline, -⟩
  cases hline

/-- Whatever is done after a positive answer. -/
theorem spared_positive {lines : List String} {line : String} {k : Option Unit → Run (Option α)}
    (c : Char) (hh : replies h = []) (hl : lines.head? = some line)
    (hc : line.toList.head? = some c) (hpos : c ≠ '4' ∧ c ≠ '5') :
    Leaves (Spared f s) h (call (.reply lines) >>= k) := by
  refine leaves_call fun r => ⟨obeys_extends.mono ?_⟩
  rintro h' a ⟨l, rfl⟩ ⟨line', hl', hneg⟩
  have hlines : replies (h ++ [⟨.reply lines, r⟩] ++ l) = lines ++ replies l := by
    rw [replies_append, replies_append, hh]
    simp [replies]
  rw [hlines, List.head?_append, hl, Option.some_or] at hl'
  cases hl'
  rw [hc, Option.some.injEq, Option.some.injEq] at hneg
  exact (hneg.elim hpos.1 hpos.2).elim

/-- A turn that only answers, and leaves the session as it is. -/
theorem spared_reply {line : String} {a : α} (hh : Quiet h)
    (ha : ∀ s', f a = some s' → s' = s) :
    Leaves (Spared f s) h (do writeLine line; return a : Io α).run := by
  refine ⟨trivial, fun r => ?_⟩
  have hcalm : ∀ ev ∈ h ++ [⟨.reply [line], r⟩], ¬Wrote ev := by
    intro ev hev
    rcases List.mem_append.mp hev with hev | hev
    · exact hh.2 ev hev
    · cases List.mem_singleton.mp hev
      exact not_wrote_of_ne (by simp)
  cases r with
  | none => exact fun _ => ⟨nofun, hcalm⟩
  | some u =>
    refine fun _ => ⟨fun a' s' heq hs' => ?_, hcalm⟩
    cases heq
    exact ha s' hs'

/-! ## The commands -/

theorem some_same : ∀ s', some s = some s' → s' = s := fun _ => Option.some.inj ∘ Eq.symm

theorem spared_handleMail (addr : String) (hh : Quiet h) :
    Leaves (Spared some s) h (handleMail s addr).run := by
  unfold handleMail
  split
  · exact spared_reply hh some_same
  · split
    · exact spared_reply hh some_same
    · rw [run_bind]
      exact spared_positive '2' hh.1 rfl rfl (by decide)

theorem spared_handleRcpt (addr : String) (hh : Quiet h) :
    Leaves (Spared some s) h (handleRcpt cfg s addr).run := by
  unfold handleRcpt
  split
  · exact spared_reply hh some_same
  · split
    · exact spared_reply hh some_same
    · refine leaves_lift_bind (checked_validateRecipient _ hh) fun h' r hr => ?_
      cases r with
      | accept delivery =>
        have hnone : replies h' = [] := hr.elim And.left And.left
        dsimp only
        rw [run_bind]
        exact spared_positive '2' hnone rfl rfl (by decide)
      | notOurDomain | noMailbox | error =>
        obtain hq | ⟨-, delivery, heq⟩ := hr
        · exact spared_reply hq some_same
        · cases heq

/-- The session after a turn. -/
abbrev nextSession : Next → Option Session := Option.map Prod.fst

theorem nextSession_same {conn : Conn} : ∀ s', nextSession (some (s, conn)) = some s' → s' = s :=
  some_same

theorem spared_next {x : Io Session} {conn : Conn} (hx : Leaves (Spared some s) h x.run) :
    Leaves (Spared nextSession s) h (do return some (← x, conn) : Io Next).run := by
  rw [run_bind]
  refine hx.bind fun h' r hr => ?_
  cases r with
  | none =>
    refine leaves_ret fun hneg => ⟨fun a s'' heq => ?_, (hr hneg).2⟩
    cases heq
  | some s' =>
    refine leaves_ret fun hneg => ⟨fun a s'' heq hs'' => ?_, (hr hneg).2⟩
    cases heq
    exact (hr hneg).1 s' s'' rfl hs''

theorem spared_handleData (ctx : SmtpContext) (conn : Conn) (hh : Quiet h) :
    Leaves (Spared nextSession s) h (handleData ctx s conn).run := by
  unfold handleData
  split
  · exact spared_reply hh nextSession_same
  · split
    · exact spared_reply hh nextSession_same
    · refine leaves_lift_bind (quiet_storageHasHeadroom hh) fun h' b hq => ?_
      split
      · exact spared_reply hq nextSession_same
      · rw [run_bind]
        exact spared_positive '3' hq.1 rfl rfl (by decide)

theorem spared_handleStartTls (ctx : SmtpContext) (conn : Conn) (hh : Quiet h) :
    Leaves (Spared nextSession s) h (handleStartTls ctx s conn).run := by
  unfold handleStartTls
  split
  · exact spared_reply hh nextSession_same
  · split
    · rw [run_bind]
      exact spared_positive '2' hh.1 rfl rfl (by decide)
    · exact spared_reply hh nextSession_same

theorem spared_dispatch (ctx : SmtpContext) (conn : Conn) (cmd : Command) (hh : Quiet h) :
    Leaves (Spared nextSession s) h (dispatch ctx s conn cmd).run := by
  cases cmd with
  | mailFrom addr => exact spared_next (spared_handleMail addr hh)
  | rcptTo addr => exact spared_next (spared_handleRcpt addr hh)
  | data => exact spared_handleData ctx conn hh
  | startTls => exact spared_handleStartTls ctx conn hh
  | unknown line => exact spared_reply hh nextSession_same
  | ehlo domain =>
    have hlines : (multiline "250" (ehloCaps ctx { s with helo := some domain }.resetTx)).head? =
        some ("250" ++ "-" ++ (ctx.app.config.smtpHostname ++ " at your service")) := by
      unfold ehloCaps
      split <;> rfl
    rw [dispatch, run_bind]
    exact spared_positive '2' hh.1 hlines (by simp) (by decide)
  | helo domain =>
    have hc : (s!"250 {ctx.app.config.smtpHostname} Hello").toList.head? = some '2' := by
      rw [String.toList_append, String.toList_append]
      rfl
    rw [dispatch, run_bind]
    exact spared_positive '2' hh.1 rfl hc (by decide)
  | quit | rset | noop | vrfy | help =>
    rw [dispatch, run_bind]
    exact spared_positive '2' hh.1 rfl rfl (by decide)

theorem spared_step (ctx : SmtpContext) (conn : Conn) :
    Leaves (Spared nextSession s) [] (step ctx s conn).run := by
  have hquiet : Quiet [] := ⟨rfl, by simp⟩
  unfold step
  split
  · exact leaves_ret spared_silent
  · exact leaves_ret spared_silent
  · exact spared_reply (a := none) hquiet nofun
  · exact spared_dispatch ctx _ _ hquiet

/-- A command that is refused leaves the session as it is, and writes nothing: no store call that may
write succeeds, and the store is the same afterwards. -/
theorem negative_reply_spares (ctx : SmtpContext) (s : Session) (conn : Conn) :
    (∀ tr r, Runs (step ctx s conn).run tr r → NegativeReply tr →
      (∀ s' conn', r = some (some (s', conn')) → s' = s) ∧ ∀ ev ∈ tr, ¬Wrote ev) ∧
    ∀ w tr w' r, Exec (exec ctx.app) w (step ctx s conn).run tr w' r → NegativeReply tr →
      w'.store = w.store := by
  have hspared : ∀ tr r, Runs (step ctx s conn).run tr r → Spared nextSession s tr r :=
    fun tr r hr => (spared_step ctx conn).obeys.result hr
  refine ⟨fun tr r hr hneg => ?_, fun w tr w' r hx hneg => ?_⟩
  · obtain ⟨hsame, hcalm⟩ := hspared tr r hr hneg
    exact ⟨fun s' conn' heq => hsame _ s' heq rfl, hcalm⟩
  · exact store_eq_of_exec hx (hspared tr r hx.runs hneg).2

/-! The mailbox of a recipient cannot be created, and the transaction goes on. -/

def openTransaction : Session := ⟨some "a", some "b@c", ["e@example.com"], false⟩

def oneRecipient : Conn where
  kind := .plain
  reader := ⟨[⟨Str.asBytes "RCPT TO:<d@example.com>\r\n", by decide⟩], .eof⟩

theorem negative_reply_spares_rcpt : ∃ tr w' r,
    Exec (exec catchAllContext.app) (.start 0) (step catchAllContext openTransaction oneRecipient).run
      tr w' r ∧ NegativeReply tr ∧ w'.store = .empty ∧
      ∀ s' conn', r = some (some (s', conn')) → s' = openTransaction := by
  have hplay : (play (exec catchAllContext.app) [.answer, .uuids [], .answer, .fail, .answer] (.start 0)
      (step catchAllContext openTransaction oneRecipient).run).any fun (tr, _) =>
        replies tr = ["451 4.3.0 Temporary lookup failure, try again later"] := by
    decide +kernel
  obtain ⟨tr, w', r, hx, hline⟩ := exists_of_play hplay
  have hneg : NegativeReply tr := ⟨_, by rw [of_decide_eq_true hline]; rfl, .inl rfl⟩
  obtain ⟨hruns, hexec⟩ := negative_reply_spares catchAllContext openTransaction oneRecipient
  exact ⟨tr, w', r, hx, hneg, hexec _ tr w' r hx hneg, (hruns tr r hx.runs hneg).1⟩

end Smtp
end AnonyMail
