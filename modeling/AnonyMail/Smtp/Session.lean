import AnonyMail.Api.Basic
import AnonyMail.Mime
import AnonyMail.Smtp.Commands

/-! # The SMTP session (`smtp/session.rs`)

`step` is one turn of the loop of `Session::run`: read a line, carry out the command. The session
is a sequence of turns, until one of them ends it. -/

namespace AnonyMail.Smtp

open Calls

/-- I/O that can fail; a failure ends the session. -/
abbrev Io := OptionT (Prog Eff Eff.Ans)

def writeLine (line : String) : Io Unit := OptionT.mk (call (.reply [line]))

/-- The lines of `write_multiline`. -/
def multiline (code : String) : List String → List String
  | [] => []
  | [line] => [code ++ " " ++ line]
  | line :: lines => (code ++ "-" ++ line) :: multiline code lines

def writeMultiline (code : String) (lines : List String) : Io Unit :=
  OptionT.mk (call (.reply (multiline code lines)))

structure Session where
  helo : Option String
  mailFrom : Option String
  rcpts : List String
  tlsActive : Bool
  deriving DecidableEq, Repr

inductive MaybeTlsStream
  | plain
  | tls
  deriving DecidableEq, Repr

/-- A connection: its kind and what is still to be read. -/
structure Conn where
  kind : MaybeTlsStream
  reader : Reader

inductive RecipientCheck
  | accept (delivery : String)
  | notOurDomain
  | noMailbox
  | error
  deriving DecidableEq, Repr

def commandLineMax : Nat := 4096

structure SmtpContext where
  app : AppState
  /-- A TLS acceptor is configured. -/
  tlsAcceptor : Bool

variable (ctx : SmtpContext)

def Session.new : Session := ⟨none, none, [], false⟩

def Session.resetTx (s : Session) : Session := { s with mailFrom := none, rcpts := [] }

/-- Strip `+tag` from the local part; a leading `+` stays. -/
def stripPlusTag (addr : String) : String :=
  match Str.rsplitOnce addr '@' with
  | none => addr
  | some (localPart, domain) =>
    match localPart.toList.findIdx? (· == '+') with
    | some pos => if pos > 0 then .ofList (localPart.toList.take pos) ++ "@" ++ domain else addr
    | none => addr

def storageHasHeadroom (cfg : Config) : Run Bool := do
  if cfg.minFreeDiskBytes = 0 then return true
  else
    match cfg.sqlitePath with
    | none => return true
    | some dbPath =>
      match ← call (.availableSpace dbPath) with
      | some free => return free ≥ cfg.minFreeDiskBytes
      | none => return true

/-- `Utc::now() + Duration::seconds(default_ttl.as_secs() as i64)`. -/
def catchAllExpiry (cfg : Config) : Run DateTime := do
  match Duration.trySeconds (asI64 cfg.defaultTtl) with
  | none => call .panic >>= nofun
  | some ttl =>
    match (← call .now).tryAdd ttl with
    | none => call .panic >>= nofun
    | some t => return t

/-- The re-check after a conflict. -/
def recheckActive (delivery : String) : Run RecipientCheck := do
  match ← call (.store (.mailboxIsActive delivery (← call .now))) with
  | .ok true => return .accept delivery
  | .ok false => return .noMailbox
  | .error _ => return .error

def tryCatchAll (cfg : Config) (delivery : String) : Run RecipientCheck := do
  if !cfg.catchAllEnabled then return .noMailbox
  else
    match Str.rsplitOnce delivery '@' with
    | none => return .noMailbox
    | some (localPart, domain) =>
      if cfg.isReservedLocalPart localPart then return .noMailbox
      else
        let expiresAt ← catchAllExpiry cfg
        match ← call (.store (.createMailbox delivery domain expiresAt none none)) with
        | .ok _ => return .accept delivery
        | .error e => if Api.isUniqueViolation e then recheckActive delivery else return .error

/-- The mailbox behind an accepted domain. -/
def checkMailbox (cfg : Config) (addr : String) (isConfigDomain : Bool) : Run RecipientCheck := do
  let delivery := stripPlusTag addr
  match ← call (.store (.mailboxIsActive delivery (← call .now))) with
  | .ok true => return .accept delivery
  | .ok false => if isConfigDomain then tryCatchAll cfg delivery else return .noMailbox
  | .error _ => return .error

def validateRecipient (cfg : Config) (addr : String) : Run RecipientCheck := do
  match Str.rsplitOnce addr '@' with
  | none => return .notOurDomain
  | some (_, domain) =>
    if domain.isEmpty then return .notOurDomain
    else if cfg.acceptsDomain domain then checkMailbox cfg addr true
    else if !cfg.customDomainsEnabled then return .notOurDomain
    else
      match ← call (.store (.customDomainIsVerified domain)) with
      | .ok true => checkMailbox cfg addr false
      | .ok false => return .notOurDomain
      | .error _ => return .error

def handleRcpt (cfg : Config) (s : Session) (addr : String) : Io Session := do
  if s.mailFrom.isNone then writeLine "503 5.5.1 Need MAIL before RCPT"; return s
  else if s.rcpts.length ≥ cfg.maxRecipients then writeLine "452 4.5.3 Too many recipients"; return s
  else
    match ← OptionT.lift (validateRecipient cfg (Str.toAsciiLowercase (Str.trim addr))) with
    | .accept delivery =>
      writeLine "250 2.1.5 Recipient OK"
      return if s.rcpts.contains delivery then s else { s with rcpts := s.rcpts ++ [delivery] }
    | .notOurDomain => writeLine "550 5.7.1 Relaying denied, not a local domain"; return s
    | .noMailbox => writeLine "550 5.1.1 No such user here"; return s
    | .error => writeLine "451 4.3.0 Temporary lookup failure, try again later"; return s

/-- Save and announce one copy after the other, until a save fails. -/
def saveCopies (D : Deps) (parsed : NewMessage) : List String → Run (Except StoreError Unit)
  | [] => return .ok ()
  | rcpt :: rcpts => do
    match ← call (.store (.saveMessage rcpt parsed)) with
    | .error e => return .error e
    | .ok stored =>
      call (.publish (.fromStored D rcpt stored))
      saveCopies D parsed rcpts

def parsedMessage (app : AppState) (s : Session) (raw : List UInt8) : NewMessage :=
  let parsed := Mime.parseMessage app.deps raw (s.mailFrom.getD "")
  if app.config.storeRawMessage then { parsed with rawContent := some raw } else parsed

/-- The number of recipients. -/
def storeMessage (app : AppState) (s : Session) (raw : List UInt8) : Run (Except StoreError Nat) := do
  match ← saveCopies app.deps (parsedMessage app s raw) s.rcpts with
  | .ok () => return .ok s.rcpts.length
  | .error e => return .error e

/-- The reply at the end of a complete DATA body. -/
def dataReply : Except StoreError Nat → String
  | .ok count => s!"250 2.0.0 Message accepted ({count} recipient(s))"
  | .error _ => "451 4.3.0 Could not store message, try again later"

/-- Store a complete message and answer the sender. -/
def finishData (app : AppState) (s : Session) (raw : List UInt8) : Io Unit := do
  let result ← OptionT.lift (storeMessage app s raw)
  writeLine (dataReply result)

def ehloCaps (s : Session) : List String :=
  let cfg := ctx.app.config
  let caps := [s!"SIZE {cfg.maxMessageSize}", "8BITMIME", "PIPELINING", "ENHANCEDSTATUSCODES",
    "SMTPUTF8"]
  (cfg.smtpHostname ++ " at your service") ::
    (if ctx.tlsAcceptor && !s.tlsActive then "STARTTLS" :: caps else caps)

/-- What a turn leads to: `none` ends the session. -/
abbrev Next := Option (Session × Conn)

def handleData (s : Session) (conn : Conn) : Io Next := do
  if s.mailFrom.isNone then
    writeLine "503 5.5.1 Need MAIL before DATA"; return some (s, conn)
  else if s.rcpts.isEmpty then
    writeLine "554 5.5.1 No valid recipients"; return some (s, conn)
  else if !(← OptionT.lift (storageHasHeadroom ctx.app.config)) then
    writeLine "452 4.3.1 Insufficient system storage"; return some (s, conn)
  else
    writeLine "354 Start mail input; end with <CRLF>.<CRLF>"
    match readData ctx.app.config.maxMessageSize conn.reader with
    | (.error _, _) => failure
    | (.ok (.complete data), reader) =>
      finishData ctx.app s data
      return some (s.resetTx, { conn with reader })
    | (.ok .tooLarge, reader) =>
      writeLine "552 5.3.4 Message too large"
      return some (s.resetTx, { conn with reader })
    | (.ok .connectionClosed, _) => return none

def handleStartTls (s : Session) (conn : Conn) : Io Next := do
  if s.tlsActive then writeLine "503 5.5.1 TLS already active"; return some (s, conn)
  else if ctx.tlsAcceptor then
    writeLine "220 2.0.0 Ready to start TLS"
    match conn.kind with
    | .tls =>
      -- `already_tls`: the same stream, less what was buffered
      return some (s, { conn with reader := ⟨conn.reader.chunks.tail, conn.reader.tail⟩ })
    | .plain =>
      match ← OptionT.lift (call .tlsAccept) with
      | some reader =>
        let s := { s with tlsActive := true, helo := none }
        return some (s.resetTx, ⟨.tls, reader⟩)
      | none => return none
  else writeLine "502 5.5.1 STARTTLS not supported"; return some (s, conn)

def handleMail (s : Session) (addr : String) : Io Session := do
  if s.helo.isNone then writeLine "503 5.5.1 Send HELO/EHLO first"; return s
  else if s.mailFrom.isSome then writeLine "503 5.5.1 Sender already specified"; return s
  else
    writeLine "250 2.1.0 Sender OK"
    return { s with mailFrom := some addr, rcpts := [] }

/-- Carry out a command. -/
def dispatch (s : Session) (conn : Conn) : Command → Io Next
  | .quit => do writeLine "221 2.0.0 Bye"; return none
  | .ehlo domain => do
    let s := { s with helo := some domain }.resetTx
    writeMultiline "250" (ehloCaps ctx s)
    return some (s, conn)
  | .helo domain => do
    let s := { s with helo := some domain }.resetTx
    writeLine s!"250 {ctx.app.config.smtpHostname} Hello"
    return some (s, conn)
  | .mailFrom addr => return some (← handleMail s addr, conn)
  | .rcptTo addr => return some (← handleRcpt ctx.app.config s addr, conn)
  | .data => handleData ctx s conn
  | .rset => do writeLine "250 2.0.0 OK"; return some (s.resetTx, conn)
  | .noop => do writeLine "250 2.0.0 OK"; return some (s, conn)
  | .startTls => handleStartTls ctx s conn
  | .vrfy => do writeLine "252 2.5.2 Cannot VRFY user"; return some (s, conn)
  | .help => do writeLine "214 2.0.0 anony-mail inbound-only SMTP"; return some (s, conn)
  | .unknown _ => do writeLine "500 5.5.2 Command not recognized"; return some (s, conn)

def step (s : Session) (conn : Conn) : Io Next := do
  match readLine conn.reader commandLineMax with
  | (.error _, _) => failure
  | (.ok .eof, _) => return none
  | (.ok .tooLong, _) => writeLine "500 5.5.2 Line too long"; return none
  | (.ok (.line line), reader) =>
    dispatch ctx s { conn with reader } (.parse (Str.fromUtf8Lossy (stripEol line)))

/-- The first `n` turns of a session. -/
def turns : Nat → Session → Conn → Io Unit
  | 0, _, _ => return
  | n + 1, s, conn => do
    match ← step ctx s conn with
    | none => return
    | some (s, conn) => turns n s conn

/-- `handle`: greet, then serve the client for as long as it gets (`n` turns). -/
def handle (n : Nat) (reader : Reader) : Io Unit := do
  writeLine s!"220 {ctx.app.config.smtpHostname} ESMTP anony-mail"
  turns ctx n .new ⟨.plain, reader⟩

end AnonyMail.Smtp
