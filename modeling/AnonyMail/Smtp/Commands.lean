import AnonyMail.Text

/-! # SMTP commands (`smtp/commands.rs`) -/

namespace AnonyMail.Smtp

inductive Command
  | helo (domain : String)
  | ehlo (domain : String)
  | mailFrom (addr : String)
  | rcptTo (addr : String)
  | data
  | rset
  | noop
  | quit
  | startTls
  | vrfy
  | help
  | unknown (line : String)
  deriving DecidableEq, Repr

/-- The address of a `MAIL FROM:` or `RCPT TO:` argument. The case of ASCII letters does not change
positions, so the text after the keyword is found in the lowercase form. -/
def extractPath (args keyword : String) : Option String :=
  let lower := (Str.toAsciiLowercase args).toList
  let needle := (Str.toAsciiLowercase keyword ++ ":").toList
  (Str.afterFirst needle lower).bind fun tail =>
    let after := (args.toList.drop (lower.length - tail.length)).dropWhile Str.isWhitespace
    match Str.splitAtFirst (· == '<') after with
    | (_, some rest) =>
      match Str.splitAtFirst (· == '>') rest with
      | (path, some _) => some (Str.trim (.ofList path))
      | (_, none) => none
    | (_, none) => some (.ofList (after.takeWhile (!Str.isWhitespace ·)))

def Command.parse (line : String) : Command :=
  let trimmed := Str.trim line
  let (verb, rest) := Str.splitAtFirst Str.isWhitespace trimmed.toList
  let rest := Str.trim (.ofList (rest.getD []))
  match Str.toAsciiUppercase (.ofList verb) with
  | "HELO" => .helo rest
  | "EHLO" => .ehlo rest
  | "MAIL" => ((extractPath rest "FROM").map .mailFrom).getD (.unknown trimmed)
  | "RCPT" => ((extractPath rest "TO").map .rcptTo).getD (.unknown trimmed)
  | "DATA" => .data
  | "RSET" => .rset
  | "NOOP" => .noop
  | "QUIT" => .quit
  | "STARTTLS" => .startTls
  | "VRFY" => .vrfy
  | "HELP" => .help
  | _ => .unknown trimmed

end AnonyMail.Smtp
