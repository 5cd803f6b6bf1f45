import AnonyMail.Api.Messages
import AnonyMail.Lib.PercentEncoding

/-! # Headers of downloads (`api/messages.rs`) -/

namespace AnonyMail.Api.Messages

/-- `HeaderValue` of the crate `http`. -/
structure HeaderValues where
  Value : Type
  fromStatic : String → Value
  fromStr : String → Option Value
  /-- Spaces and visible ASCII characters are accepted. -/
  fromStr_isSome : ∀ s, (∀ b ∈ Str.asBytes s, 0x20 ≤ b ∧ b ≤ 0x7E) → (fromStr s).isSome

/-- Types a browser may execute or render actively. -/
def forcedOctetStream (contentType : String) : Bool :=
  let essence := Str.toAsciiLowercase (Str.trim ((splitChar ';' contentType).headD ""))
  ["text/html", "application/xhtml+xml", "image/svg+xml", "text/xml", "application/xml"].contains
    essence

/-- `char::is_control`: the Unicode category `Cc`. -/
def isControl (c : Char) : Bool := c.toNat ≤ 0x1F || (0x7F ≤ c.toNat && c.toNat ≤ 0x9F)

def isAscii (c : Char) : Bool := c.toNat < 128

/-- The bytes that `rfc5987_encode` leaves as they are. -/
def attrChar (b : UInt8) : Bool :=
  (0x61 ≤ b && b ≤ 0x7A) || (0x41 ≤ b && b ≤ 0x5A) || (0x30 ≤ b && b ≤ 0x39) ||
    ("!#$&+-.^_`|~".toList.map fun c => UInt8.ofNat c.toNat).contains b

def rfc5987Encode (name : String) : String :=
  .ofList (PercentEncoding.encode attrChar (Str.asBytes name))

/-- The name without quotes, backslashes and control characters, or `attachment`. -/
def safeFilename (name : Option String) : String :=
  let cleaned : String := .ofList <| (name.getD "").toList.filter fun c =>
    !isControl c && c != '"' && c != '\\' && isAscii c
  let cleaned := Str.trim cleaned
  if cleaned.isEmpty then "attachment" else cleaned

def contentDisposition (name : Option String) : String :=
  let value := "attachment; filename=\"" ++ safeFilename name ++ "\""
  match name with
  | some raw =>
    if !raw.toList.all isAscii then value ++ "; filename*=UTF-8''" ++ rfc5987Encode raw else value
  | none => value

/-- The headers of `get_attachment`; a value that is no header value is left out. -/
def attachmentHeaders (H : HeaderValues) (att : Attachment) : List (String × H.Value) :=
  let contentType :=
    if forcedOctetStream att.contentType then H.fromStatic "application/octet-stream"
    else (H.fromStr att.contentType).getD (H.fromStatic "application/octet-stream")
  let headers :=
    [("x-content-type-options", H.fromStatic "nosniff"), ("content-type", contentType)]
  match H.fromStr (contentDisposition att.filename) with
  | some value => headers ++ [("content-disposition", value)]
  | none => headers

end AnonyMail.Api.Messages
