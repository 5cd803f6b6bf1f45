import AnonyMail.Effects
import AnonyMail.Lib.Encoding

/-! # Handlers: errors, headers and owner tokens (`api/mod.rs`, `api/limits.rs`, `api/auth.rs`)

A handler is a program that ends with a response or an `ApiError`. -/

namespace AnonyMail.Api

open Calls Encoding

/-- What an internal error wraps. The response does not show it. -/
inductive Cause
  | store (e : StoreError)
  | message (text : String)
  deriving DecidableEq, Repr

inductive ApiError
  | notFound (message : String)
  | conflict (message : String)
  | badRequest (message : String)
  | unauthorized (message : String)
  | tooManyRequests (message : String)
  | serviceUnavailable (message : String)
  | coded (status : Nat) (code message : String)
  | internal (cause : Cause)
  deriving DecidableEq, Repr

namespace ApiError

def proRequired (message : String) : ApiError := .coded 403 "pro_required" message

def lifetimeCap (message : String) : ApiError := .coded 403 "lifetime_cap" message

def mailboxCap (message : String) : ApiError := .coded 403 "mailbox_cap" message

end ApiError

def isUniqueViolation : StoreError → Bool
  | .uniqueViolation _ => true
  | _ => false

abbrev Handler := ExceptT ApiError (Prog Eff Eff.Ans)

def perform (e : Eff) : Handler e.Ans := ExceptT.lift (call e)

/-- A store call followed by `?`. -/
def store (op : StoreOp) : Handler op.Out := do
  match ← perform (.store op) with
  | .ok a => return a
  | .error e => throw (.internal (.store e))

def panic : Handler α := do
  let x ← perform .panic
  nomatch x

def orPanic : Option α → Handler α
  | some a => return a
  | none => panic

/-- `ok_or_else(..)?`. -/
def okOr (e : ApiError) : Option α → Handler α
  | some a => return a
  | none => throw e

/-! ## Headers -/

/-- Names are lowercase. -/
abbrev HeaderMap := List (String × List UInt8)

namespace HeaderMap

/-- The first value of a header. -/
def get (headers : HeaderMap) (name : String) : Option (List UInt8) := List.lookup name headers

/-- `HeaderValue::to_str`: visible ASCII only. -/
def toStr (value : List UInt8) : Option String :=
  if value.all fun b => (32 ≤ b && b < 127) || b == 9 then
    some (.ofList (value.map fun b => Char.ofNat b.toNat))
  else none

def getStr (headers : HeaderMap) (name : String) : Option String :=
  (headers.get name).bind toStr

end HeaderMap

def splitChar (c : Char) (s : String) : List String :=
  (s.toList.splitOn c).map String.ofList

def clientIp (D : Deps) (headers : HeaderMap) (peer : IpAddr) (trustProxyHeaders : Bool) : IpAddr :=
  if !trustProxyHeaders then peer
  else
    let forwarded := (headers.getStr "x-forwarded-for").bind fun s =>
      (splitChar ',' s).findSome? fun part => D.parseIp (Str.trim part)
    let real := (headers.getStr "x-real-ip").bind fun s => D.parseIp (Str.trim s)
    (forwarded.or real).getD peer

/-! ## Owner tokens -/

def tokenPrefix : String := "am_"

def domainTokenPrefix : String := "amd_"

def hashToken (D : Deps) (token : String) : String := hex (D.sha256 (Str.asBytes token))

/-- The token and its hash. -/
def generateToken (D : Deps) (pre : String) : Handler (String × String) := do
  let bytes ← perform (.randomBytes 32)
  let token := pre ++ base64Url bytes
  return (token, hashToken D token)

def generateOwnerToken (D : Deps) : Handler (String × String) := generateToken D tokenPrefix

def constantTimeEq (a b : List UInt8) : Bool :=
  if a.length ≠ b.length then false
  else (a.zip b).foldl (fun acc (x, y) => acc ||| (x ^^^ y)) 0 == 0

def tokenMatchesHash (D : Deps) (presented wantHash : String) : Bool :=
  constantTimeEq (Str.asBytes (hashToken D presented)) (Str.asBytes wantHash)

def bearerToken (headers : HeaderMap) : Option String := do
  let value ← headers.getStr "authorization"
  let (scheme, rest) ← Str.splitOnce (Str.trim value) ' '
  if !Str.eqIgnoreAsciiCase scheme "bearer" then none
  else
    let token := Str.trim rest
    if token.isEmpty then none else some token

variable (app : AppState)

def authorizeOwner (address : String) (headers : HeaderMap) : Handler Mailbox := do
  let mailbox ← okOr (.notFound "mailbox not found") (← store (.getMailbox address))
  let presented ← okOr (.unauthorized "missing bearer token") (bearerToken headers)
  match mailbox.ownerTokenHash with
  | none => throw (.unauthorized "mailbox has no owner token")
  | some want =>
    if tokenMatchesHash app.deps presented want then return mailbox
    else throw (.unauthorized "invalid owner token")

end AnonyMail.Api
