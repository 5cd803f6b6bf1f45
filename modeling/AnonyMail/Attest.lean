import AnonyMail.Deps
import AnonyMail.Lib.HashMap

/-! # App Attest (`attest.rs`)

The challenge store as a function of the map under its lock, and the verification of attestations
and assertions around the `appattest` crate. -/

namespace AnonyMail

/-- `Instant`, in nanoseconds of the monotonic clock. -/
abbrev Instant := Nat

def challengeTtlSeconds : Nat := 300

def maxOutstandingChallenges : Nat := 100000

def maxAttestationB64Len : Nat := 32 * 1024

def maxAssertionB64Len : Nat := 1024

/-- `issued`, keyed by the challenge. -/
abbrev ChallengeStore := HashMap String Instant

namespace ChallengeStore

def ttl : Nat := challengeTtlSeconds * 1000000000

/-- The part of `issue` under the lock; `now` was read before. -/
def issue (issued : ChallengeStore) (challenge : String) (now : Instant) : ChallengeStore :=
  let issued :=
    if issued.entries.length ≥ maxOutstandingChallenges then
      let issued := issued.retain fun _ t => now - t < ttl
      if issued.entries.length ≥ maxOutstandingChallenges then
        issued.retain fun _ t => now - t < ttl / 2
      else issued
    else issued
  issued.insert challenge now

def consume (issued : ChallengeStore) (challenge : String) (now : Instant) :
    Bool × ChallengeStore :=
  ((issued.lookup challenge).any fun t => now - t < ttl, issued.erase challenge)

/-- `issue` of a store that was created with this TTL. -/
def issueWithin (ttl : Nat) (issued : ChallengeStore) (challenge : String) (now : Instant) :
    ChallengeStore :=
  let issued :=
    if issued.entries.length ≥ maxOutstandingChallenges then
      let issued := issued.retain fun _ t => now - t < ttl
      if issued.entries.length ≥ maxOutstandingChallenges then
        issued.retain fun _ t => now - t < ttl / 2
      else issued
    else issued
  issued.insert challenge now

/-- As `issueWithin`. -/
def consumeWithin (ttl : Nat) (issued : ChallengeStore) (challenge : String) (now : Instant) :
    Bool × ChallengeStore :=
  ((issued.lookup challenge).any fun t => now - t < ttl, issued.erase challenge)

theorem issue_eq_issueWithin : issue = issueWithin ttl := rfl

theorem consume_eq_consumeWithin : consume = consumeWithin ttl := rfl

end ChallengeStore

namespace Attest

variable (D : Deps)

def verifyAttestation (appId : String) (rootPem : List UInt8)
    (challenge keyId attestationB64 : String) : Except String (List UInt8) := do
  if Str.len attestationB64 > maxAttestationB64Len then throw "attestation too large"
  let cbor ← (D.attestationBase64 attestationB64).mapError fun e => s!"attestation base64: {e}"
  let attestation ← (D.attestationCbor cbor).mapError fun e => s!"attestation cbor: {e}"
  (D.attestationVerify attestation challenge appId keyId rootPem).mapError fun e =>
    s!"attestation rejected: {e}"

/-- `u32::from_be_bytes`. -/
def fromBeBytes (b₀ b₁ b₂ b₃ : UInt8) : UInt32 :=
  .ofNat (((b₀.toNat * 256 + b₁.toNat) * 256 + b₂.toNat) * 256 + b₃.toNat)

/-- The loop over the entries of the map. -/
def findCounter : Nat → List UInt8 → Except String UInt32
  | 0, _ => .error "assertion missing authenticatorData"
  | n + 1, input =>
    match D.cborStr input with
    | none => .error "assertion map key"
    | some (key, input) =>
      if key = "authenticatorData" then
        match D.cborBytes input with
        | none => .error "authenticatorData bytes"
        | some (authData, _) =>
          match (authData.drop 33).take 4 with
          | [b₀, b₁, b₂, b₃] => .ok (fromBeBytes b₀ b₁ b₂ b₃)
          | _ => .error "authenticatorData too short"
      else
        match D.cborSkip input with
        | none => .error "assertion map value"
        | some input => findCounter n input

def assertionCounter (cbor : List UInt8) : Except String UInt32 :=
  match D.cborMap cbor with
  | none => .error "assertion is not a cbor map"
  | some (entries, input) => findCounter D (entries.getD 0) input

/-- `i64::try_into::<u32>`. -/
def tryIntoU32 (n : Int) : Option UInt32 :=
  if 0 ≤ n ∧ n < 2 ^ 32 then some (.ofNat n.toNat) else none

def verifyAssertion (appId challenge assertionB64 : String) (publicKey : List UInt8)
    (previousCounter : Int) : Except String Int := do
  if Str.len assertionB64 > maxAssertionB64Len then throw "assertion too large"
  let cbor ← (D.base64Decode assertionB64).mapError fun e => s!"assertion base64: {e}"
  let previous ← (tryIntoU32 previousCounter).elim (.error "stored counter out of range") .ok
  let newCounter ← assertionCounter D cbor
  let clientDataHash := D.sha256 (Str.asBytes challenge)
  let assertion ← (D.assertionCbor cbor).mapError fun e => s!"assertion cbor: {e}"
  (D.assertionVerify assertion clientDataHash challenge appId publicKey previous).mapError fun e =>
    s!"assertion rejected: {e}"
  return newCounter.toNat

end Attest
end AnonyMail
