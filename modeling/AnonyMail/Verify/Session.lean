import AnonyMail.Verify.Creation

/-! # The SMTP session as a state machine

A session is a sequence of turns, each with the command that was read and the calls made for it.
`dispatch_cases` says all a turn can do to the session; the invariant of the session and the
provenance of senders and recipients follow from it. The calls of a turn are bounded separately, for
any answers and also if the turn does not come to its end. -/

namespace AnonyMail

open Calls Prog

/-- The calls of a turn that change nothing in the store. -/
def Eff.Talk : Eff → Prop
  | .store op =>
    match op with
    | .mailboxIsActive .. | .customDomainIsVerified _ => True
    | _ => False
  | .now | .reply _ | .availableSpace _ | .tlsAccept | .panic => True
  | _ => False

namespace Smtp

/-! ## Calls -/

/-- Copies go to the recipients of the session, from its sender. -/
def TurnCall (app : AppState) (s : Session) (h : Hist) (e : Eff) : Prop :=
  e.Talk ∨
  (∃ a d x, Caught app.config h a d x ∧ e = .store (.createMailbox a d x none none)) ∨
  (∃ rcpt ∈ s.rcpts, ∃ raw, s.mailFrom.isSome ∧
    e = .store (.saveMessage rcpt (parsedMessage app s raw))) ∨ ∃ event, e = .publish event

variable {app : AppState}

theorem talk_writeLine (line : String) : Only Eff.Talk (writeLine line).run :=
  fun _ => safe_writeLine trivial

theorem Talk.turnCall {p : Run α} {s : Session} (hp : Only Eff.Talk p) (h : Hist) :
    Safe (TurnCall app s) h p := (hp h).imp fun _ _ he => .inl he

theorem turnCalls_writeLine {s : Session} (line : String) (h : Hist) :
    Safe (TurnCall app s) h (writeLine line).run := Talk.turnCall (talk_writeLine line) h

/-! ### Checking a recipient -/

section
variable {cfg : Config} {Φ : Hist → Eff → Prop}

/-- The domain stays as it is when the tag is stripped. -/
theorem rsplitOnce_stripPlusTag {addr l d : String} (h : Str.rsplitOnce addr '@' = some (l, d)) :
    ∃ l', Str.rsplitOnce (stripPlusTag addr) '@' = some (l', d) := by
  unfold stripPlusTag
  rw [h]
  dsimp only
  split
  · split
    · exact ⟨_, Str.rsplitOnce_append (Str.rsplitOnce_eq_some.mp h).2⟩
    · exact ⟨l, h⟩
  · exact ⟨l, h⟩

/-- An address stays lowercase when the tag is stripped. -/
theorem lower_stripPlusTag {addr : String} (h : Str.toAsciiLowercase addr = addr) :
    Str.toAsciiLowercase (stripPlusTag addr) = stripPlusTag addr := by
  have hlower := Str.toAsciiLowercase_eq_self.mp h
  unfold stripPlusTag
  split
  · exact h
  next l d hsplit =>
  obtain ⟨hs, -⟩ := Str.rsplitOnce_eq_some.mp hsplit
  split
  · split
    · refine Str.toAsciiLowercase_eq_self.mpr fun x hx => hlower x ?_
      simp only [String.toList_append, String.toList_ofList, List.mem_append] at hx
      rw [hs]
      obtain (hx | hx) | hx := hx
      · exact List.mem_append_left _ (List.mem_of_mem_take hx)
      · cases List.mem_singleton.mp hx
        exact List.mem_append_right _ List.mem_cons_self
      · exact List.mem_append_right _ (List.mem_cons_of_mem _ hx)
    · exact h
  · exact h

/-- The expiry is read off the clock, unless there is none. -/
theorem catchAllExpiry_obeys {h : Hist} (hnow : Φ h .now)
    (hpanic : (∀ t x, ¬ExpiresAt cfg t x) → Φ h .panic)
    (hpanic' : ∀ t, (∀ x, ¬ExpiresAt cfg t x) → Φ (h ++ [⟨.now, t⟩]) .panic) :
    Obeys Φ (fun h' x => ∃ t, h' = h ++ [⟨.now, t⟩] ∧ ExpiresAt cfg t x) h (catchAllExpiry cfg) := by
  unfold catchAllExpiry
  split
  · next hnone =>
    refine ⟨hpanic ?_, fun r => r.elim⟩
    rintro t x ⟨ttl, httl, -⟩
    cases hnone.symm.trans httl
  · next ttl httl =>
    refine ⟨hnow, fun t => ?_⟩
    simp only [Prog.bind]
    split
    · next hnone =>
      refine ⟨hpanic' t ?_, fun r => r.elim⟩
      rintro x ⟨ttl', httl', hx⟩
      cases httl.symm.trans httl'
      cases hnone.symm.trans hx
    · next x hx => exact ⟨t, rfl, ttl, httl, hx⟩

variable (htalk : ∀ h e, Eff.Talk e → Φ h e)
  (hcreate : ∀ h a d x, Caught cfg h a d x → Φ h (.store (.createMailbox a d x none none)))

include htalk in
theorem safe_recheckActive (delivery : String) (h : Hist) : Safe Φ h (recheckActive delivery) := by
  refine safe_call_bind (htalk _ _ trivial) fun now => safe_call_bind (htalk _ _ trivial) fun r => ?_
  split <;> exact safe_ret

include htalk hcreate

theorem safe_tryCatchAll {delivery l d : String} (hd : Str.rsplitOnce delivery '@' = some (l, d))
    (hserved : cfg.acceptsDomain d) (hlower : Str.toAsciiLowercase delivery = delivery) (h : Hist) :
    Safe Φ h (tryCatchAll cfg delivery) := by
  unfold tryCatchAll
  split
  · exact safe_ret
  · next hon =>
    rw [hd]
    dsimp only
    split
    · exact safe_ret
    · next hres =>
      refine safe_bind_of_obeys (catchAllExpiry_obeys (htalk _ _ trivial)
        (fun _ => htalk _ _ trivial) fun _ _ => htalk _ _ trivial) ?_
      rintro h' x ⟨t, rfl, hx⟩
      refine safe_call_bind (hcreate _ _ _ _
        ⟨by simpa using hon, hserved, ⟨l, hd, hres⟩, hlower, t, by simp, hx⟩) fun r => ?_
      split
      · exact safe_ret
      · split
        · exact safe_recheckActive htalk delivery _
        · exact safe_ret

theorem safe_checkMailbox {addr l d : String} (hd : Str.rsplitOnce addr '@' = some (l, d)) (b : Bool)
    (hserved : b = true → cfg.acceptsDomain d) (hlower : Str.toAsciiLowercase addr = addr) (h : Hist) :
    Safe Φ h (checkMailbox cfg addr b) := by
  refine safe_call_bind (htalk _ _ trivial) fun now => safe_call_bind (htalk _ _ trivial) fun r => ?_
  split
  · exact safe_ret
  · split
    · next hb =>
      obtain ⟨l', hd'⟩ := rsplitOnce_stripPlusTag hd
      exact safe_tryCatchAll htalk hcreate hd' (hserved hb) (lower_stripPlusTag hlower) _
    · exact safe_ret
  · exact safe_ret

theorem safe_validateRecipient {addr : String} (hlower : Str.toAsciiLowercase addr = addr) (h : Hist) :
    Safe Φ h (validateRecipient cfg addr) := by
  unfold validateRecipient
  split
  · exact safe_ret
  · next l d hd =>
    split
    · exact safe_ret
    · split
      · next hserved => exact safe_checkMailbox htalk hcreate hd true (fun _ => hserved) hlower h
      · split
        · exact safe_ret
        · refine safe_call_bind (htalk _ _ trivial) fun r => ?_
          split
          · exact safe_checkMailbox htalk hcreate hd false nofun hlower _
          · exact safe_ret
          · exact safe_ret

end

/-! ### Turns -/

theorem turnCalls_handleRcpt (s : Session) (addr : String) (h : Hist) :
    Safe (TurnCall app s) h (handleRcpt app.config s addr).run := by
  unfold handleRcpt
  split
  · exact Safe.bind (turnCalls_writeLine _ h) fun _ _ _ => safe_pure
  · split
    · exact Safe.bind (turnCalls_writeLine _ h) fun _ _ _ => safe_pure
    · refine Safe.bind (safe_lift (safe_validateRecipient (fun _ _ he => .inl he) ?_
        (Str.toAsciiLowercase_idem _) h))
        fun h' r _ => ?_
      · exact fun h' a d x hc => .inr (.inl ⟨a, d, x, hc, rfl⟩)
      · split <;> exact Safe.bind (turnCalls_writeLine _ h') fun _ _ _ => safe_pure

theorem talk_storageHasHeadroom (cfg : Config) : Only Eff.Talk (storageHasHeadroom cfg) := by
  intro h
  unfold storageHasHeadroom
  split
  · exact safe_ret
  · split
    · exact safe_ret
    · refine safe_call_bind trivial fun r => ?_
      split <;> exact safe_ret

theorem talk_handleStartTls (ctx : SmtpContext) (s : Session) (conn : Conn) :
    Only Eff.Talk (handleStartTls ctx s conn).run := by
  intro h
  unfold handleStartTls
  split
  · exact Safe.bind (talk_writeLine _ h) fun _ _ _ => safe_pure
  · split
    · refine Safe.bind (talk_writeLine _ h) fun h₁ _ _ => ?_
      split
      · exact safe_pure
      · refine Safe.bind (safe_lift (safe_call trivial fun _ => safe_ret)) fun h₂ r _ => ?_
        split <;> exact safe_pure
    · exact Safe.bind (talk_writeLine _ h) fun _ _ _ => safe_pure

theorem talk_handleMail (s : Session) (addr : String) :
    Only Eff.Talk (handleMail s addr).run := by
  intro h
  unfold handleMail
  split
  · exact Safe.bind (talk_writeLine _ h) fun _ _ _ => safe_pure
  · split <;> exact Safe.bind (talk_writeLine _ h) fun _ _ _ => safe_pure

theorem turnCalls_saveCopies {s : Session} {raw : List UInt8} {rcpts : List String}
    (hs : s.mailFrom.isSome) (hr : rcpts ⊆ s.rcpts) (h : Hist) :
    Safe (TurnCall app s) h (saveCopies app.deps (parsedMessage app s raw) rcpts) := by
  induction rcpts generalizing h with
  | nil => exact safe_ret
  | cons rcpt rcpts ih =>
    have hmem : rcpt ∈ s.rcpts := hr List.mem_cons_self
    refine safe_call_bind (.inr (.inr (.inl ⟨rcpt, hmem, raw, hs, rfl⟩))) fun r => ?_
    cases r with
    | error e => exact safe_ret
    | ok stored =>
      refine safe_call_bind (.inr (.inr (.inr ⟨_, rfl⟩))) fun _ => ih (fun x hx => ?_) _
      exact hr (List.mem_cons_of_mem _ hx)

theorem turnCalls_finishData {s : Session} (hs : s.mailFrom.isSome) (raw : List UInt8) (h : Hist) :
    Safe (TurnCall app s) h (finishData app s raw).run := by
  refine Safe.bind (safe_lift ?_) fun h' r _ => turnCalls_writeLine _ h'
  refine AnonyMail.Safe.bind (turnCalls_saveCopies hs (List.Subset.refl _) h) fun h' r _ => ?_
  split <;> exact safe_ret

theorem turnCalls_handleData (ctx : SmtpContext) (s : Session) (conn : Conn) (h : Hist) :
    Safe (TurnCall ctx.app s) h (handleData ctx s conn).run := by
  unfold handleData
  split
  · exact Safe.bind (turnCalls_writeLine _ h) fun _ _ _ => safe_pure
  · next hs =>
    have hs : s.mailFrom.isSome := Option.isSome_iff_ne_none.mpr (by simpa using hs)
    split
    · exact Safe.bind (turnCalls_writeLine _ h) fun _ _ _ => safe_pure
    · refine Safe.bind (safe_lift (Talk.turnCall (talk_storageHasHeadroom _) h)) fun h₁ b _ => ?_
      split
      · exact Safe.bind (turnCalls_writeLine _ h₁) fun _ _ _ => safe_pure
      · refine Safe.bind (turnCalls_writeLine _ h₁) fun h₂ _ _ => ?_
        split
        · exact safe_failure
        · exact Safe.bind (turnCalls_finishData hs _ h₂) fun _ _ _ => safe_pure
        · exact Safe.bind (turnCalls_writeLine _ h₂) fun _ _ _ => safe_pure
        · exact safe_pure

theorem turnCalls_dispatch (ctx : SmtpContext) (s : Session) (conn : Conn) (cmd : Command)
    (h : Hist) : Safe (TurnCall ctx.app s) h (dispatch ctx s conn cmd).run := by
  cases cmd with
  | mailFrom addr =>
    exact Talk.turnCall (fun h => Safe.bind (talk_handleMail s addr h) fun _ _ _ => safe_pure) h
  | rcptTo addr => exact Safe.bind (turnCalls_handleRcpt s addr h) fun _ _ _ => safe_pure
  | data => exact turnCalls_handleData ctx s conn h
  | startTls => exact Talk.turnCall (talk_handleStartTls ctx s conn) h
  | ehlo domain =>
    exact Safe.bind (safe_call (.inl trivial) fun _ => safe_ret) fun _ _ _ => safe_pure
  | _ => exact Safe.bind (turnCalls_writeLine _ h) fun _ _ _ => safe_pure

/-- Whatever the answers, a turn saves copies for the recipients of the session only. -/
theorem turnCalls_step (ctx : SmtpContext) (s : Session) (conn : Conn) (h : Hist) :
    Safe (TurnCall ctx.app s) h (step ctx s conn).run := by
  unfold step
  split
  · exact safe_failure
  · exact safe_pure
  · exact Safe.bind (turnCalls_writeLine _ h) fun _ _ _ => safe_pure
  · exact turnCalls_dispatch ctx s _ _ h

/-! ## Turns -/

/-- A turn: the command and the calls made for it. -/
structure Turn where
  cmd : Command
  calls : Hist

namespace Turn

/-- `MAIL` answered with 250. -/
def MailOk (t : Turn) (sender : String) : Prop :=
  t.cmd = .mailFrom sender ∧ replies t.calls = ["250 2.1.0 Sender OK"]

/-- `RCPT` answered with 250, where the check of the recipient gave `.accept rcpt`. -/
def RcptOk (cfg : Config) (t : Turn) (rcpt : String) : Prop :=
  ∃ addr tr, t.cmd = .rcptTo addr ∧
    Runs (validateRecipient cfg (Str.toAsciiLowercase (Str.trim addr))) tr (.accept rcpt) ∧
    t.calls = tr ++ [⟨.reply ["250 2.1.5 Recipient OK"], some ()⟩]

/-- The turns that end a transaction: `HELO`, `EHLO` and `RSET`, the upgrade to TLS, and `DATA`
whose body was read to its end. -/
def Resets (t : Turn) : Prop :=
  match t.cmd with
  | .helo _ | .ehlo _ | .rset => True
  | .startTls => ∃ reader, ⟨.tlsAccept, some reader⟩ ∈ t.calls
  | .data => ∃ line ∈ replies t.calls, ∃ code ∈ ["250", "451", "552"], Str.startsWith line code
  | _ => False

end Turn

/-- All that a turn can do to the session and to the kind of its stream. -/
inductive Moves (cfg : Config) (s : Session) (kind : MaybeTlsStream) (t : Turn) :
    Session → MaybeTlsStream → Prop
  | same : ¬t.Resets → Moves cfg s kind t s kind
  | reset (helo : Option String) : Moves cfg s kind t { s with helo }.resetTx kind
  | mail (sender : String) : s.helo.isSome → t.MailOk sender →
    Moves cfg s kind t { s with mailFrom := some sender, rcpts := [] } kind
  | rcpt (rcpt : String) : s.mailFrom.isSome → s.rcpts.length < cfg.maxRecipients →
    t.RcptOk cfg rcpt →
    Moves cfg s kind t
      (if s.rcpts.contains rcpt then s else { s with rcpts := s.rcpts ++ [rcpt] }) kind
  | upgrade : Moves cfg s kind t { s with tlsActive := true, helo := none }.resetTx .tls

section
variable {cfg : Config} {ctx : SmtpContext} {s s' : Session} {conn conn' : Conn} {tr : Hist}

theorem moves_handleMail {addr : String} {kind : MaybeTlsStream}
    (h : Runs (handleMail s addr).run tr (some s')) :
    Moves cfg s kind ⟨.mailFrom addr, tr⟩ s' kind := by
  unfold handleMail at h
  split at h
  · obtain ⟨-, rfl⟩ := runs_writeLine_pure.mp h
    exact .same id
  · next hhelo =>
    split at h
    · obtain ⟨-, rfl⟩ := runs_writeLine_pure.mp h
      exact .same id
    · obtain ⟨rfl, rfl⟩ := runs_writeLine_pure.mp h
      exact .mail addr (Option.isSome_iff_ne_none.mpr (by simpa using hhelo)) ⟨rfl, rfl⟩

theorem moves_handleRcpt {addr : String} {kind : MaybeTlsStream}
    (h : Runs (handleRcpt cfg s addr).run tr (some s')) :
    Moves cfg s kind ⟨.rcptTo addr, tr⟩ s' kind := by
  unfold handleRcpt at h
  split at h
  · obtain ⟨-, rfl⟩ := runs_writeLine_pure.mp h
    exact .same id
  · next hmail =>
    split at h
    · obtain ⟨-, rfl⟩ := runs_writeLine_pure.mp h
      exact .same id
    · next hlen =>
      obtain ⟨r, tr₁, tr₂, rfl, hr, h⟩ := runs_io_bind.mp h
      split at h
      · obtain ⟨rfl, rfl⟩ := runs_writeLine_pure.mp h
        refine .rcpt _ (Option.isSome_iff_ne_none.mpr (by simpa using hmail)) (by omega) ?_
        exact ⟨addr, tr₁, rfl, runs_lift.mp hr, rfl⟩
      all_goals
        obtain ⟨-, rfl⟩ := runs_writeLine_pure.mp h
        exact .same id

theorem moves_handleStartTls
    (h : Runs (handleStartTls ctx s conn).run tr (some (some (s', conn')))) :
    Moves cfg s conn.kind ⟨.startTls, tr⟩ s' conn'.kind := by
  unfold handleStartTls at h
  split at h
  · obtain ⟨rfl, heq⟩ := runs_writeLine_pure.mp h
    cases heq
    exact .same (by simp [Turn.Resets])
  · split at h
    · obtain ⟨u, _, tr₁, rfl, hw, h₁⟩ := runs_io_bind.mp h
      obtain rfl := runs_writeLine.mp hw
      split at h₁
      · obtain ⟨rfl, heq⟩ := runs_io_pure.mp h₁
        cases heq
        exact .same (by simp [Turn.Resets])
      · obtain ⟨r, _, tr₂, rfl, -, h₂⟩ := runs_io_bind.mp h₁
        split at h₂
        · obtain ⟨-, heq⟩ := runs_io_pure.mp h₂
          cases heq
          exact .upgrade
        · obtain ⟨-, heq⟩ := runs_io_pure.mp h₂
          cases heq
    · obtain ⟨rfl, heq⟩ := runs_writeLine_pure.mp h
      cases heq
      exact .same (by simp [Turn.Resets])

theorem replies_storageHasHeadroom {b : Bool} (h : Runs (storageHasHeadroom cfg) tr b) :
    replies tr = [] := by
  unfold storageHasHeadroom at h
  split at h
  · obtain ⟨rfl, -⟩ := runs_ret.mp h
    rfl
  · split at h
    · obtain ⟨rfl, -⟩ := runs_ret.mp h
      rfl
    · obtain ⟨r, tr₁, rfl, h₁⟩ := runs_call.mp h
      cases r <;>
      · obtain ⟨rfl, -⟩ := runs_ret.mp h₁
        rfl

/-- `DATA` that is refused before its body is read. -/
theorem not_resets_data_refused {t : Hist} {line : String} (ht : replies t = [])
    (hline : ∀ code ∈ ["250", "451", "552"], ¬Str.startsWith line code) :
    ¬Turn.Resets ⟨.data, t ++ [⟨.reply [line], some ()⟩]⟩ := by
  rintro ⟨l, hl, code, hmem, hcode⟩
  have hrep : replies (t ++ [⟨.reply [line], some ()⟩]) = [line] := by
    rw [replies, List.flatMap_append, ← replies, ht]
    rfl
  rw [hrep, List.mem_singleton] at hl
  exact hline code hmem (hl ▸ hcode)

theorem moves_handleData (h : Runs (handleData ctx s conn).run tr (some (some (s', conn')))) :
    Moves cfg s conn.kind ⟨.data, tr⟩ s' conn'.kind := by
  unfold handleData at h
  split at h
  · obtain ⟨rfl, heq⟩ := runs_writeLine_pure.mp h
    cases heq
    exact .same (not_resets_data_refused (t := []) rfl (by decide))
  · split at h
    · obtain ⟨rfl, heq⟩ := runs_writeLine_pure.mp h
      cases heq
      exact .same (not_resets_data_refused (t := []) rfl (by decide))
    · obtain ⟨b, tr₁, tr₂, rfl, hb, h₁⟩ := runs_io_bind.mp h
      split at h₁
      · obtain ⟨rfl, heq⟩ := runs_writeLine_pure.mp h₁
        cases heq
        exact .same (not_resets_data_refused (replies_storageHasHeadroom (runs_lift.mp hb))
          (by decide))
      · obtain ⟨u, tr₂, tr₃, rfl, -, h₂⟩ := runs_io_bind.mp h₁
        split at h₂
        · cases h₂
        · obtain ⟨v, tr₃, tr₄, rfl, -, h₃⟩ := runs_io_bind.mp h₂
          obtain ⟨-, heq⟩ := runs_io_pure.mp h₃
          cases heq
          exact .reset s.helo
        · obtain ⟨-, heq⟩ := runs_writeLine_pure.mp h₂
          cases heq
          exact .reset s.helo
        · obtain ⟨-, heq⟩ := runs_io_pure.mp h₂
          cases heq

/-- Every completed turn moves the session. -/
theorem moves_dispatch {cmd : Command}
    (h : Runs (dispatch ctx s conn cmd).run tr (some (some (s', conn')))) :
    Moves ctx.app.config s conn.kind ⟨cmd, tr⟩ s' conn'.kind := by
  cases cmd with
  | mailFrom addr =>
    obtain ⟨s₁, tr₁, tr₂, rfl, h₁, h₂⟩ := runs_io_bind.mp h
    obtain ⟨rfl, heq⟩ := runs_io_pure.mp h₂
    cases heq
    exact moves_handleMail (by simpa using h₁)
  | rcptTo addr =>
    obtain ⟨s₁, tr₁, tr₂, rfl, h₁, h₂⟩ := runs_io_bind.mp h
    obtain ⟨rfl, heq⟩ := runs_io_pure.mp h₂
    cases heq
    exact moves_handleRcpt (by simpa using h₁)
  | data => exact moves_handleData h
  | startTls => exact moves_handleStartTls h
  | ehlo domain =>
    obtain ⟨u, tr₁, tr₂, rfl, -, h₂⟩ := runs_io_bind.mp h
    obtain ⟨-, heq⟩ := runs_io_pure.mp h₂
    cases heq
    exact .reset (some domain)
  | helo domain =>
    obtain ⟨-, heq⟩ := runs_writeLine_pure.mp h
    cases heq
    exact .reset (some domain)
  | rset =>
    obtain ⟨-, heq⟩ := runs_writeLine_pure.mp h
    cases heq
    exact .reset s.helo
  | quit =>
    obtain ⟨-, heq⟩ := runs_writeLine_pure.mp h
    cases heq
  | _ =>
    obtain ⟨-, heq⟩ := runs_writeLine_pure.mp h
    cases heq
    exact .same id

end

/-! ## Sessions -/

def nextCommand (conn : Conn) : Option Command :=
  match readLine conn.reader commandLineMax with
  | (.ok (.line line), _) => some (.parse (Str.fromUtf8Lossy (stripEol line)))
  | _ => none

/-- `Serves ctx input H s conn`: with some answers, a session on `input` comes through the turns `H`
to the state `s` and the connection `conn`. -/
inductive Serves (ctx : SmtpContext) (input : Reader) : List Turn → Session → Conn → Prop
  | start : Serves ctx input [] .new ⟨.plain, input⟩
  | turn : Serves ctx input H s conn → nextCommand conn = some cmd →
    Runs (step ctx s conn).run tr (some (some (s', conn'))) →
    Serves ctx input (H ++ [⟨cmd, tr⟩]) s' conn'

structure Session.Inv (cfg : Config) (s : Session) (kind : MaybeTlsStream) : Prop where
  mailFrom : s.rcpts ≠ [] → s.mailFrom.isSome
  helo : s.mailFrom.isSome → s.helo.isSome
  nodup : s.rcpts.Nodup
  length : s.rcpts.length ≤ cfg.maxRecipients
  tls : s.tlsActive ↔ kind = .tls

/-- `since` are the turns after the `MAIL` of the current transaction. -/
structure Transaction (H : List Turn) (sender : String) (since : List Turn) : Prop where
  mail : ∃ before t, H = before ++ t :: since ∧ t.MailOk sender
  noReset : ∀ t ∈ since, ¬t.Resets

/-- The sender and the recipients of the session come from the current transaction. -/
def Provenance (cfg : Config) (H : List Turn) (s : Session) : Prop :=
  ∀ sender, s.mailFrom = some sender →
    ∃ since, Transaction H sender since ∧ ∀ rcpt ∈ s.rcpts, ∃ t ∈ since, t.RcptOk cfg rcpt

section
variable {cfg : Config} {s s' : Session} {kind kind' : MaybeTlsStream} {t : Turn} {H : List Turn}

theorem Transaction.concat {sender : String} {since : List Turn} (h : Transaction H sender since)
    (ht : ¬t.Resets) : Transaction (H ++ [t]) sender (since ++ [t]) := by
  obtain ⟨⟨before, m, rfl, hm⟩, hopen⟩ := h
  refine ⟨⟨before, m, by simp, hm⟩, fun x hx => ?_⟩
  obtain hx | hx := List.mem_append.mp hx
  · exact hopen x hx
  · exact List.mem_singleton.mp hx ▸ ht

theorem Turn.RcptOk.not_resets {rcpt : String} (h : t.RcptOk cfg rcpt) : ¬t.Resets := by
  obtain ⟨addr, tr, hcmd, -⟩ := h
  rw [Turn.Resets, hcmd]
  exact id

theorem Moves.inv (h : Moves cfg s kind t s' kind') (hs : s.Inv cfg kind) : s'.Inv cfg kind' := by
  cases h with
  | same _ => exact hs
  | reset helo => exact ⟨nofun, nofun, .nil, Nat.zero_le _, hs.tls⟩
  | mail sender hhelo _ => exact ⟨nofun, fun _ => hhelo, .nil, Nat.zero_le _, hs.tls⟩
  | rcpt rcpt hmail hlen _ =>
    split
    · exact hs
    · next hmem =>
      refine ⟨fun _ => hmail, hs.helo, ?_, ?_, hs.tls⟩
      · have hnew := hs.nodup.concat (a := rcpt) (by simpa using hmem)
        rwa [List.concat_eq_append] at hnew
      · rw [List.length_append]
        exact hlen
  | upgrade => exact ⟨nofun, nofun, .nil, Nat.zero_le _, by simp [Session.resetTx]⟩

theorem Moves.provenance (h : Moves cfg s kind t s' kind') (hs : Provenance cfg H s) :
    Provenance cfg (H ++ [t]) s' := by
  intro sender hsender
  cases h with
  | same ht =>
    obtain ⟨since, htx, hr⟩ := hs sender hsender
    refine ⟨since ++ [t], htx.concat ht, fun rcpt hrcpt => ?_⟩
    obtain ⟨u, hu, hok⟩ := hr rcpt hrcpt
    exact ⟨u, List.mem_append_left _ hu, hok⟩
  | reset helo => cases hsender
  | mail f _ hok =>
    cases hsender
    exact ⟨[], ⟨⟨H, t, rfl, hok⟩, nofun⟩, nofun⟩
  | rcpt r _ _ hok =>
    have hmail : s.mailFrom = some sender := by
      revert hsender
      split <;> exact id
    obtain ⟨since, htx, hr⟩ := hs sender hmail
    refine ⟨since ++ [t], htx.concat hok.not_resets, fun rcpt hrcpt => ?_⟩
    have hcases : rcpt ∈ s.rcpts ∨ rcpt = r := by
      revert hrcpt
      split
      · exact .inl
      · simp
    obtain hmem | rfl := hcases
    · obtain ⟨u, hu, hok'⟩ := hr rcpt hmem
      exact ⟨u, List.mem_append_left _ hu, hok'⟩
    · exact ⟨t, by simp, hok⟩
  | upgrade => cases hsender

end

section
variable {ctx : SmtpContext} {input : Reader} {s s' : Session} {conn conn' : Conn} {H : List Turn}

theorem moves_step {cmd : Command} {tr : Hist} (hcmd : nextCommand conn = some cmd)
    (h : Runs (step ctx s conn).run tr (some (some (s', conn')))) :
    Moves ctx.app.config s conn.kind ⟨cmd, tr⟩ s' conn'.kind := by
  unfold step at h
  unfold nextCommand at hcmd
  split at h
  · cases h
  · obtain ⟨-, heq⟩ := runs_io_pure.mp h
    cases heq
  · obtain ⟨-, heq⟩ := runs_writeLine_pure.mp h
    cases heq
  · next hline =>
    rw [hline] at hcmd
    rw [Option.some.inj hcmd] at h
    exact (moves_dispatch h :)

theorem Serves.inv (h : Serves ctx input H s conn) : s.Inv ctx.app.config conn.kind := by
  induction h with
  | start => exact ⟨nofun, nofun, .nil, Nat.zero_le _, by simp [Session.new]⟩
  | turn _ hcmd hrun ih => exact (moves_step hcmd hrun).inv ih

theorem Serves.provenance (h : Serves ctx input H s conn) : Provenance ctx.app.config H s := by
  induction h with
  | start => nofun
  | turn _ hcmd hrun ih => exact (moves_step hcmd hrun).provenance ih

theorem exists_nextCommand {tr : Hist}
    (h : Runs (step ctx s conn).run tr (some (some (s', conn')))) :
    ∃ cmd, nextCommand conn = some cmd := by
  unfold step at h
  unfold nextCommand
  split at h
  · cases h
  · obtain ⟨-, heq⟩ := runs_io_pure.mp h
    cases heq
  · obtain ⟨-, heq⟩ := runs_writeLine_pure.mp h
    cases heq
  · next hline => exact ⟨_, by rw [hline]⟩

/-- Each call of a session is made in one of its turns. -/
theorem makes_turns {n : Nat} {tr : Hist} {e : Eff} (hs : Serves ctx input H s conn)
    (h : Makes (turns ctx n s conn).run tr e) :
    ∃ H' s' conn' tr', Serves ctx input (H ++ H') s' conn' ∧
      Makes (step ctx s' conn').run tr' e ∧ tr = H'.flatMap (·.calls) ++ tr' := by
  induction n generalizing H s conn tr with
  | zero => exact (not_makes_ret h).elim
  | succ n ih =>
    rw [turns, run_bind] at h
    obtain h | ⟨o, tr₁, tr₂, rfl, hrun, h⟩ := h.of_bind
    · exact ⟨[], s, conn, tr, by simpa using hs, h, rfl⟩
    · match o with
      | none => exact (not_makes_ret h).elim
      | some none => exact (not_makes_ret h).elim
      | some (some (s₁, conn₁)) =>
        obtain ⟨cmd, hcmd⟩ := exists_nextCommand hrun
        obtain ⟨H', s', conn', tr', hs', hm, rfl⟩ := ih (.turn hs hcmd hrun) h
        exact ⟨⟨cmd, tr₁⟩ :: H', s', conn', tr', by simpa using hs', hm, by simp⟩

end

/-- After the calls `h` of a session, the copy `m` is saved for `rcpt` in the turn that follows the
turns `H`. It comes from the sender of the current transaction, in which `rcpt` was accepted. -/
structure SavedIn (ctx : SmtpContext) (input : Reader) (h : Hist) (rcpt : String) (m : NewMessage)
    (H : List Turn) (s : Session) (conn : Conn) (tr : Hist) : Prop where
  serves : Serves ctx input H s conn
  makes : Makes (step ctx s conn).run tr (.store (.saveMessage rcpt m))
  calls : h = ⟨.reply [s!"220 {ctx.app.config.smtpHostname} ESMTP anony-mail"], some ()⟩ ::
    H.flatMap (·.calls) ++ tr
  transaction : ∃ sender since, Transaction H sender since ∧
    (∃ t ∈ since, t.RcptOk ctx.app.config rcpt) ∧
    s.mailFrom = some sender ∧ ∃ raw, m = parsedMessage ctx.app s raw

theorem makes_handle {ctx : SmtpContext} {input : Reader} {n : Nat} {h : Hist} {rcpt : String}
    {m : NewMessage} (hm : Makes (handle ctx n input).run h (.store (.saveMessage rcpt m))) :
    ∃ H s conn tr, SavedIn ctx input h rcpt m H s conn tr := by
  rw [handle, run_bind] at hm
  obtain hm | ⟨o, tr₁, tr₂, rfl, hrun, hturns⟩ := hm.of_bind
  · cases hm with
    | later hm => exact (not_makes_ret hm).elim
  · cases o with
    | none => exact (not_makes_ret hturns).elim
    | some u =>
      obtain rfl := runs_writeLine.mp hrun
      obtain ⟨H, s, conn, tr, hs, hmakes, rfl⟩ := makes_turns .start hturns
      obtain htalk | ⟨_, _, _, -, heq⟩ | ⟨r, hr, raw, hmail, heq⟩ | ⟨event, heq⟩ :=
        (turnCalls_step ctx s conn []).obeys.makes hmakes
      · exact htalk.elim
      · cases heq
      · cases heq
        obtain ⟨sender, hsender⟩ := Option.isSome_iff_exists.mp hmail
        obtain ⟨since, htx, hok⟩ := hs.provenance sender hsender
        exact ⟨H, s, conn, tr, hs, hmakes, rfl, sender, since, htx, hok rcpt hr, hsender, raw, rfl⟩
      · cases heq

/-- In every session, whatever the client sends and the store answers, the state keeps its
invariant, and each copy that is saved belongs to the current transaction. -/
theorem session_transactions (ctx : SmtpContext) (input : Reader) :
    (∀ H s conn, Serves ctx input H s conn → s.Inv ctx.app.config conn.kind) ∧
    ∀ n h rcpt m, Makes (handle ctx n input).run h (.store (.saveMessage rcpt m)) →
      ∃ H s conn tr, SavedIn ctx input h rcpt m H s conn tr :=
  ⟨fun _ _ _ hs => hs.inv, fun _ _ _ _ hm => makes_handle hm⟩

/-! A session in which one message is saved, for a mailbox that the catch-all creates. -/

def catchAllContext : SmtpContext where
  app := ⟨.refusing [], { Config.default with catchAllEnabled := true, minFreeDiskBytes := 0 }, false⟩
  tlsAcceptor := false

def oneMessage : Reader where
  chunks := ["EHLO a\r\n", "MAIL FROM:<b@c>\r\n", "RCPT TO:<d@example.com>\r\n", "DATA\r\n",
    ".\r\n"].filterMap fun line => if h : Str.asBytes line ≠ [] then some ⟨_, h⟩ else none
  tail := .eof

theorem session_transactions_one : ∃ h m H s conn tr,
    Makes (handle catchAllContext 4 oneMessage).run h (.store (.saveMessage "d@example.com" m)) ∧
    s.Inv catchAllContext.app.config conn.kind ∧
    SavedIn catchAllContext oneMessage h "d@example.com" m H s conn tr := by
  have hplay : (play (exec catchAllContext.app) [.answer, .answer, .answer, .answer, .uuids [],
      .answer, .uuids [], .answer, .answer, .uuids [1], .answer, .answer] (.start 0)
      (handle catchAllContext 4 oneMessage).run).any fun (tr, _) => tr.any fun
        | ⟨.store (.saveMessage rcpt _), _⟩ => rcpt == "d@example.com"
        | _ => false := by
    decide +kernel
  obtain ⟨tr, w, out, hexec, hany⟩ := exists_of_play hplay
  obtain ⟨ev, hmem, hev⟩ := List.any_eq_true.mp hany
  obtain ⟨h, tr', rfl⟩ := List.append_of_mem hmem
  have hmakes := hexec.runs.makes
  split at hev
  · next rcpt m _ =>
    obtain rfl := eq_of_beq hev
    obtain ⟨H, s, conn, tr, hsaved⟩ :=
      (session_transactions catchAllContext oneMessage).2 4 h _ m hmakes
    exact ⟨h, m, H, s, conn, tr, hmakes,
      (session_transactions catchAllContext oneMessage).1 H s conn hsaved.serves, hsaved⟩
  · cases hev

end Smtp
end AnonyMail
