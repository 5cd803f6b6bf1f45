import AnonyMail.Lib.Decimal
import AnonyMail.Lib.Regex
import AnonyMail.Text
import Mathlib.Algebra.Group.Nat.Defs

/-! # One-time codes in mail (`otp.rs`)

The four expressions are written out as the crate `regex` reads them. Its classes `\d` and `\w` and
its case folding come from the Unicode tables, which are a parameter. -/

namespace AnonyMail.Otp

open Str (isAsciiDigit)

def isAsciiUppercase (c : Char) : Bool := 'A' ≤ c && c ≤ 'Z'

def isAsciiAlphabetic (c : Char) : Bool := Str.isAsciiLowercase c || isAsciiUppercase c

def isAsciiAlphanumeric (c : Char) : Bool := isAsciiAlphabetic c || isAsciiDigit c

/-- The Unicode classes of the crate `regex`. -/
structure CharClasses where
  /-- `\d` -/
  digit : Char → Bool
  /-- `\w` -/
  word : Char → Bool
  /-- What a literal character stands for under `(?i)`. -/
  fold : Char → Char → Bool
  digit_ascii : ∀ c, digit c → c.toNat < 128 → isAsciiDigit c
  word_of_digit : ∀ c, digit c → word c
  word_of_ascii : ∀ c, isAsciiAlphanumeric c → word c

def bodyScanLimit : Nat := 4096

def minDigits : Nat := 4

def maxDigits : Nat := 8

/-! ## The expressions -/

section
variable (U : CharClasses)

/-- `\b` -/
def wordBoundary : Regex Char :=
  .assert fun before after => before.any U.word != after.any U.word

def literal (word : String) : Regex Char :=
  .cat (word.toList.map fun c => .set (U.fold c))

def keywords (words : List String) : Regex Char := .alts (words.map (literal U))

/-- `\d(?:[\d \t-]{2,10}\d)?` -/
def digitRun : Regex Char :=
  .cat [.set U.digit,
    .rep true 0 1 (.cat [
      .rep true 2 10 (.set fun c => U.digit c || c == ' ' || c == '\t' || c == '-'),
      .set U.digit])]

/-- `\bG-(\d{6})\b` -/
def gCode : Regex Char :=
  .cat [wordBoundary U, .set (· == 'G'), .set (· == '-'), .group (.rep true 6 6 (.set U.digit)),
    wordBoundary U]

/-- `(?i)\b(?:code|otp|pin|passcode|password|contrase\u{f1}a)\b\D{0,24}?(…)\b` -/
def keywordThenDigits : Regex Char :=
  .cat [wordBoundary U,
    keywords U ["code", "otp", "pin", "passcode", "password", "contrase\u00f1a"], wordBoundary U,
    .rep false 0 24 (.set fun c => !U.digit c), .group (digitRun U), wordBoundary U]

/-- `(?i)\b(…)\b[^\r\n]{0,40}?\b(?:code|otp|pin|passcode)\b` -/
def digitsThenKeyword : Regex Char :=
  .cat [wordBoundary U, .group (digitRun U), wordBoundary U,
    .rep false 0 40 (.set fun c => c != '\r' && c != '\n'), wordBoundary U,
    keywords U ["code", "otp", "pin", "passcode"], wordBoundary U]

/-- `(?i:\b(?:code|otp|passcode)\b)[^\r\nA-Za-z0-9]{1,16}([A-Z0-9]{5,10})\b` -/
def keywordThenAlnum : Regex Char :=
  .cat [wordBoundary U, keywords U ["code", "otp", "passcode"], wordBoundary U,
    .rep true 1 16 (.set fun c => c != '\r' && c != '\n' && !isAsciiAlphanumeric c),
    .group (.rep true 5 10 (.set fun c => isAsciiUppercase c || isAsciiDigit c)), wordBoundary U]

end

/-! ## Extraction -/

/-- The digits, if they are as many as a code has. -/
def normalizeDigits (raw : List Char) : Option String :=
  let digits := raw.filter isAsciiDigit
  if minDigits ≤ digits.length ∧ digits.length ≤ maxDigits then some (.ofList digits) else none

def isAsciiDigitByte (b : UInt8) : Bool := 0x30 ≤ b && b ≤ 0x39

/-- A line that is nothing but a plausible code, and no year. -/
def standaloneCode (line : String) : Option String :=
  let line := Str.trim line
  if line.isEmpty || Str.len line > maxDigits then none
  else if !(Str.asBytes line).all isAsciiDigitByte then none
  else
    match normalizeDigits line.toList with
    | none => none
    | some code =>
      if Str.len code = 4 then
        match Decimal.parse (2 ^ 32 - 1) code.toList with
        | .error _ => none
        | .ok n => if 1900 ≤ n ∧ n ≤ 2099 then none else some code
      else some code

def scanAnchored (U : CharClasses) (haystack : String) : Option String :=
  match (gCode U).captures haystack.toList with
  | some caps => some (.ofList caps.text)
  | none =>
    let code := [keywordThenDigits U, digitsThenKeyword U].findSome? fun re =>
      (re.capturesIter haystack.toList).findSome? fun caps => normalizeDigits caps.text
    match code with
    | some code => some code
    | none =>
      match (keywordThenAlnum U).captures haystack.toList with
      | some caps =>
        let token := caps.text
        let digits := (token.filter isAsciiDigit).length
        let letters := (token.filter isAsciiAlphabetic).length
        if digits ≥ 2 ∧ letters ≥ 1 then some (.ofList token) else none
      | none => none

/-- `split_inclusive('\n')` -/
def splitInclusive : List Char → List (List Char)
  | [] => []
  | c :: text =>
    if c = '\n' then [c] :: splitInclusive text
    else
      match splitInclusive text with
      | [] => [[c]]
      | line :: lines => (c :: line) :: lines

/-- A line without the `\n` or `\r\n` at its end. -/
def stripLineEnd (line : List Char) : List Char :=
  match line.reverse with
  | '\n' :: '\r' :: rest => rest.reverse
  | '\n' :: rest => rest.reverse
  | _ => line

/-- `str::lines` -/
def lines (s : String) : List String :=
  (splitInclusive s.toList).map fun line => .ofList (stripLineEnd line)

def isCharBoundary (s : String) (i : Nat) : Bool :=
  i == 0 || i == Str.len s || ((Str.asBytes s)[i]?.any fun b => !Str.isContinuation b)

def floorCharBoundary (s : String) (max : Nat) : Nat :=
  if max ≥ Str.len s then Str.len s
  else ((List.range (max + 1)).reverse.find? (isCharBoundary s)).getD 0

/-- The characters within the first `n` bytes. -/
def takeBytes : Nat → List Char → List Char
  | _, [] => []
  | n, c :: text => if c.utf8Size ≤ n then c :: takeBytes (n - c.utf8Size) text else []

/-- `&s[..n]`, for a character boundary `n`. -/
def sliceTo (s : String) (n : Nat) : String := .ofList (takeBytes n s.toList)

def extract (U : CharClasses) (subject textBody : Option String) : Option String :=
  let subject := subject.getD ""
  let body := textBody.getD ""
  let body := sliceTo body (floorCharBoundary body bodyScanLimit)
  match [subject, body].findSome? (scanAnchored U) with
  | some code => some code
  | none => (lines subject ++ lines body).findSome? standaloneCode

end AnonyMail.Otp
