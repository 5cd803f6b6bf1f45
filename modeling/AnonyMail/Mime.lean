import AnonyMail.Effects

/-! # Messages and events (`mime.rs`, `events.rs`) -/

namespace AnonyMail

namespace Mime

variable (D : Deps)

/-- A part of an address that is there and not blank. -/
def nonBlank (s : Option String) : Option String := (s.map Str.trim).filter (!·.isEmpty)

def formatAddr (addr : Addr) : String :=
  match nonBlank addr.name, nonBlank addr.address with
  | some name, some email => s!"{name} <{email}>"
  | none, some email => email
  | some name, none => name
  | none, none => ""

def newAttachment (part : MailPart) : NewAttachment where
  filename := part.name
  contentType :=
    match part.contentType with
    | some (ctype, some sub) => s!"{ctype}/{sub}"
    | some (ctype, none) => ctype
    | none => "application/octet-stream"
  content := part.contents

/-- `raw.len().min(i32::MAX as usize) as i32`. -/
def rawSize (raw : List UInt8) : Int := min raw.length (2 ^ 31 - 1)

def parseMessage (raw : List UInt8) (envelopeFrom : String) : NewMessage :=
  match D.mailParse raw with
  | none => ⟨envelopeFrom, none, none, none, none, rawSize raw, none, []⟩
  | some message =>
    { mailFrom := ((message.from.map formatAddr).filter (!·.isEmpty)).getD envelopeFrom
      subject := message.subject
      messageDate := message.date
      textBody := message.text
      htmlBody := message.html
      rawSize := rawSize raw
      rawContent := none
      attachments := (message.attachments.filter (!·.multipart)).map newAttachment }

end Mime

def MailEvent.fromStored (D : Deps) (address : String) (msg : StoredMessage) : MailEvent where
  address := address
  id := msg.id
  mailFrom := msg.mailFrom
  subject := msg.subject
  receivedAt := msg.receivedAt
  hasAttachments := !msg.attachments.isEmpty
  code := D.otpExtract msg.subject msg.textBody

end AnonyMail
