import AnonyMail.Config

/-! # Third-party code

What the server calls outside the repository, as functions, with the data types it exchanges with
them. -/

namespace AnonyMail

abbrev IpAddr := Nat

/-- Claims inside a client token. -/
structure ClientClaims where
  kind : String
  kid : Option String
  tier : Tier
  iat : Int
  exp : Int
  deriving DecidableEq, Repr

inductive JwtError
  | expiredSignature
  | other
  deriving DecidableEq, Repr

/-- An address as the mail parser finds it in a header. -/
structure Addr where
  name : Option String
  address : Option String

structure MailPart where
  contentType : Option (String × Option String)
  name : Option String
  contents : List UInt8
  multipart : Bool

structure ParsedMail where
  «from» : Option Addr
  subject : Option String
  date : Option DateTime
  text : Option String
  html : Option String
  attachments : List MailPart

/-- Third-party code, as functions. -/
structure Deps where
  Attestation : Type
  Assertion : Type
  sha256 : List UInt8 → List UInt8
  /-- `jsonwebtoken::decode` with HS256 and a leeway, at the time given last. -/
  jwtDecode : List UInt8 → String → Nat → DateTime → Except JwtError ClientClaims
  jwtEncode : List UInt8 → ClientClaims → Option String
  parseIp : String → Option IpAddr
  /-- The certificate embedded in the binary. -/
  appleRootCaPem : List UInt8
  /-- `Attestation::decode_base64`, `from_cbor_bytes` and `verify` of the `appattest` crate; the last
  takes the challenge, the app id, the key id and the root certificate and yields the public key. -/
  attestationBase64 : String → Except String (List UInt8)
  attestationCbor : List UInt8 → Except String Attestation
  attestationVerify : Attestation → String → String → String → List UInt8 →
    Except String (List UInt8)
  base64Decode : String → Except String (List UInt8)
  /-- A CBOR map header: the number of entries, if it is stated, and what follows. -/
  cborMap : List UInt8 → Option (Option Nat × List UInt8)
  cborStr : List UInt8 → Option (String × List UInt8)
  cborBytes : List UInt8 → Option (List UInt8 × List UInt8)
  cborSkip : List UInt8 → Option (List UInt8)
  /-- `Assertion::from_assertion` and `verify` with the client data hash, the challenge, the app id,
  the public key and the previous counter. -/
  assertionCbor : List UInt8 → Except String Assertion
  assertionVerify : Assertion → List UInt8 → String → String → List UInt8 → UInt32 →
    Except String Unit
  mailParse : List UInt8 → Option ParsedMail
  otpExtract : Option String → Option String → Option String

/-- Third-party code that knows these SHA-256 digests and refuses everything else. -/
def Deps.refusing (digests : List (List UInt8 × List UInt8)) : Deps where
  Attestation := Unit
  Assertion := Unit
  sha256 b := (digests.lookup b).getD []
  jwtDecode _ _ _ _ := .error .other
  jwtEncode _ _ := none
  parseIp _ := none
  appleRootCaPem := []
  attestationBase64 _ := .error "invalid base64"
  attestationCbor _ := .error "invalid CBOR"
  attestationVerify _ _ _ _ _ := .error "invalid attestation"
  base64Decode _ := .error "invalid base64"
  cborMap _ := none
  cborStr _ := none
  cborBytes _ := none
  cborSkip _ := none
  assertionCbor _ := .error "invalid CBOR"
  assertionVerify _ _ _ _ _ _ := .error "invalid assertion"
  mailParse _ := none
  otpExtract _ _ := none

end AnonyMail
