import AnonyMail.Verify.CatchAll
import AnonyMail.Verify.ClaimedMailboxes
import AnonyMail.Verify.PathGrammar

/-! # The way from an address to its mailbox

The API checks a local part and a domain before it stores them. SMTP parses a line, lowercases the
path and strips the tag. Whatever the case of the letters and the tag, the mailbox that the API has
stored is found. -/

namespace AnonyMail

open Calls Prog MemoryStore

/-! ## RCPT lines -/

namespace Smtp

/-- A spelling of the address of the local part `l` on the domain `d`: in any case, and with any tag
behind the local part. -/
def Spelled (l d path : String) : Prop :=
  ∃ v tag dv, path = v ++ tag ++ "@" ++ dv ∧ Str.toAsciiLowercase v = l ∧
    Str.toAsciiLowercase dv = d ∧ (tag = "" ∨ ∃ t, tag = "+" ++ t ∧ '>' ∉ t.toList)

/-- A line `RCPT TO:<path>` with the keywords in any case and any parameters. -/
def RcptLine (path line : String) : Prop :=
  ∃ verb keyword params, line = verb ++ " " ++ keyword ++ "<" ++ path ++ ">" ++ params ∧
    Str.toAsciiLowercase verb = "rcpt" ∧ Str.toAsciiLowercase keyword = "to:"

/-- No character of the text is white, opens or closes a path, or separates local part and domain. -/
def PlainName (s : String) : Prop :=
  ∀ x ∈ s.toList, Str.isWhitespace x = false ∧ x ∉ ['@', '<', '>']

instance : Decidable (PlainName s) := List.decidableBAll _ s.toList

variable {l d path line : String}

/-- The path of the line, trimmed. -/
theorem parse_rcptLine (h : RcptLine path line) (hpath : '>' ∉ path.toList) :
    Command.parse line = .rcptTo (Str.trim path) := by
  obtain ⟨verb, keyword, params, rfl, hverb, hkey⟩ := h
  have hopens : Opens .rcpt verb keyword "" :=
    ⟨hverb.trans (by decide +kernel), hkey.trans (by decide +kernel), by simp⟩
  have hparse := parse_angle hopens hpath params
  rwa [String.append_empty] at hparse

/-! ## Names -/

/-- A character of a local part, or of a claimed domain. -/
def isNameChar (x : Char) : Bool :=
  Str.isAsciiLowercase x || Str.isAsciiDigit x || Api.Addresses.isSep x

theorem isNameChar_spec {x : Char} (h : isNameChar x) :
    Str.isWhitespace x = false ∧ x ∉ ['@', '<', '>', '+'] ∧ Str.asciiLower x = x := by
  have hall : ∀ n < 128, isNameChar (Char.ofNat n) → Str.isWhitespace (Char.ofNat n) = false ∧
      Char.ofNat n ∉ ['@', '<', '>', '+'] ∧ Str.asciiLower (Char.ofNat n) = Char.ofNat n := by
    decide
  have hlt : x.toNat < 128 := by
    simp only [isNameChar, Str.isAsciiLowercase, Str.isAsciiDigit, Api.Addresses.isSep,
      Bool.or_eq_true, Bool.and_eq_true, decide_eq_true_eq, beq_iff_eq] at h
    obtain (⟨-, hx⟩ | ⟨-, hx⟩) | (rfl | rfl) | rfl := h
    · exact Nat.lt_of_le_of_lt (show x.toNat ≤ 122 from hx) (by decide)
    · exact Nat.lt_of_le_of_lt (show x.toNat ≤ 57 from hx) (by decide)
    all_goals decide
  have hx := hall x.toNat hlt
  rw [Char.ofNat_toNat] at hx
  exact hx h

/-- A local part as the API stores it. -/
structure LocalName (l : String) : Prop where
  ne : l.toList ≠ []
  chars : ∀ x ∈ l.toList, isNameChar x

/-- A domain that SMTP can find behind the last `@` of a path. -/
structure DomainName (d : String) : Prop where
  ne : d.toList ≠ []
  plain : PlainName d
  lower : Str.toAsciiLowercase d = d

theorem Spelled.lowercase (h : Spelled l d path) (hl : LocalName l) (hd : DomainName d) :
    '>' ∉ path.toList ∧ Str.trim path = path ∧ ∃ tag,
      Str.toAsciiLowercase path = l ++ tag ++ "@" ++ d ∧ (tag = "" ∨ ∃ t, tag = "+" ++ t) := by
  obtain ⟨v, tag, dv, rfl, hv, hdv, htag⟩ := h
  have hvwhite : ∀ x ∈ v.toList, Str.isWhitespace x = false := fun x =>
    Str.isWhitespace_of_variant hv fun y hy => (isNameChar_spec (hl.chars y hy)).1
  have hdwhite : ∀ x ∈ dv.toList, Str.isWhitespace x = false := fun x =>
    Str.isWhitespace_of_variant hdv fun y hy => (hd.plain y hy).1
  have hvclose : '>' ∉ v.toList := Str.not_mem_of_variant hv (by decide) fun hmem =>
    absurd (isNameChar_spec (hl.chars _ hmem)).2.1 (by decide)
  have hdclose : '>' ∉ dv.toList := Str.not_mem_of_variant hdv (by decide) fun hmem =>
    absurd (hd.plain _ hmem).2 (by decide)
  refine ⟨?_, ?_, Str.toAsciiLowercase tag, ?_, ?_⟩
  · have htclose : '>' ∉ tag.toList := by
      obtain rfl | ⟨t, rfl, ht⟩ := htag
      · exact List.not_mem_nil
      · simpa using ht
    simpa [hvclose, hdclose] using htclose
  · -- the path starts with the local part and ends with the domain
    obtain ⟨x, l', hx⟩ := List.exists_cons_of_ne_nil (Str.variant_ne_nil hv hl.ne)
    obtain ⟨m, y, hy⟩ := (List.eq_nil_or_concat dv.toList).resolve_left
      (Str.variant_ne_nil hdv hd.ne)
    refine @Str.trim_eq_self _ x y (l' ++ tag.toList ++ "@".toList ++ dv.toList)
      (v.toList ++ tag.toList ++ "@".toList ++ m) (by simp [hx]) (by simp [hx, hy])
      (hvwhite x (hx ▸ List.mem_cons_self)) (hdwhite y (by simp [hy]))
  · rw [Str.toAsciiLowercase_append, Str.toAsciiLowercase_append, Str.toAsciiLowercase_append, hv,
      hdv]
    rfl
  · obtain rfl | ⟨t, rfl, -⟩ := htag
    · exact .inl (by decide +kernel)
    · exact .inr ⟨_, Str.toAsciiLowercase_append ..⟩

/-- The tag is stripped, and nothing else. -/
theorem stripPlusTag_tagged {tag : String} (hl : LocalName l) (hd : DomainName d)
    (htag : tag = "" ∨ ∃ t, tag = "+" ++ t) :
    stripPlusTag (l ++ tag ++ "@" ++ d) = l ++ "@" ++ d := by
  have hat : '@' ∉ d.toList := fun hmem => absurd (hd.plain _ hmem).2 (by decide)
  have hplus : ∀ x ∈ l.toList, (x == '+') = false := fun x hx =>
    beq_eq_false_iff_ne.mpr fun heq =>
      absurd (isNameChar_spec (hl.chars x hx)).2.1 (by rw [heq]; decide)
  rw [stripPlusTag, Str.rsplitOnce_append hat]
  obtain rfl | ⟨t, rfl⟩ := htag
  · simp only [String.append_empty, List.findIdx?_eq_none_iff.mpr hplus]
  · have hfind : (l ++ ("+" ++ t)).toList.findIdx? (· == '+') = some l.toList.length := by
      have hfirst : ("+" ++ t).toList.findIdx? (· == '+') = some 0 := by
        rw [String.toList_append]
        rfl
      rw [String.toList_append, List.findIdx?_append, List.findIdx?_eq_none_iff.mpr hplus, hfirst]
      simp
    have hpos : l.toList.length > 0 := List.length_pos_iff.mpr hl.ne
    simp only [hfind, if_pos hpos]
    simp

end Smtp

/-! ## Names that the API stores -/

theorem localName_of_localPartOk {cfg : Config} {wanted : Option String} {l : String}
    (h : Api.LocalPartOk cfg wanted l) : Smtp.LocalName l := by
  obtain ⟨-, hvalid, -⟩ | ⟨-, hlen, hchars⟩ := h
  · simp only [Api.Addresses.isValidLocalPart, Bool.and_eq_true, Bool.not_eq_true'] at hvalid
    obtain ⟨⟨⟨⟨hne, -⟩, hall⟩, -⟩, -⟩ := hvalid
    refine ⟨fun hnil => ?_, fun x hx => List.all_eq_true.mp hall x hx⟩
    rw [String.toList_eq_nil_iff.mp hnil] at hne
    exact absurd hne (by decide)
  · have hcharset : Api.Addresses.localPartCharset.all Smtp.isNameChar := by decide +kernel
    refine ⟨fun hnil => ?_, fun x hx => List.all_eq_true.mp hcharset x (hchars x hx)⟩
    rw [hnil] at hlen
    cases hlen

theorem domainName_of_isValidDomain {d : String} (h : CustomDomains.isValidDomain d) :
    Smtp.DomainName d := by
  have hcanon := CustomDomains.isValidDomain_iff.mp h
  have hchars : ∀ x ∈ d.toList, Smtp.isNameChar x := by
    intro x hx
    have hx := hcanon.chars hx
    simp only [CustomDomains.isLabelChar, Smtp.isNameChar, Api.Addresses.isSep, Bool.or_eq_true,
      beq_iff_eq] at hx ⊢
    tauto
  refine ⟨fun hnil => ?_, fun x hx => ?_, ?_⟩
  · rw [String.toList_eq_nil_iff.mp hnil] at h
    exact absurd h (by decide +kernel)
  · obtain ⟨hwhite, hnot, -⟩ := Smtp.isNameChar_spec (hchars x hx)
    exact ⟨hwhite, fun hmem => hnot (List.mem_append_left ['+'] hmem)⟩
  · exact hcanon.lower

theorem lower_of_mem {cfg : Config} {raw d : String}
    (hcfg : cfg.domains = Config.domainsFromEnv raw) (hd : d ∈ cfg.domains) :
    Str.toAsciiLowercase d = d := by
  rw [hcfg] at hd
  obtain ⟨part, -, rfl⟩ := List.mem_map.mp hd
  exact Str.toAsciiLowercase_idem part

theorem domainName_of_mem {cfg : Config} {raw d : String}
    (hcfg : cfg.domains = Config.domainsFromEnv raw) (hd : d ∈ cfg.domains)
    (hplain : Smtp.PlainName d) : Smtp.DomainName d := by
  refine ⟨fun hnil => ?_, hplain, lower_of_mem hcfg hd⟩
  rw [hcfg] at hd
  obtain ⟨part, hpart, rfl⟩ := List.mem_map.mp hd
  have hne := (List.mem_filter.mp hpart).2
  rw [Str.toAsciiLowercase, String.toList_ofList, List.map_eq_nil_iff] at hnil
  rw [String.toList_eq_nil_iff.mp hnil] at hne
  exact absurd hne (by decide)

/-! ## Resolution -/

/-- SMTP takes mail for the domain. -/
def Served (cfg : Config) (s : Inner) (d : String) : Prop :=
  cfg.acceptsDomain d ∨ cfg.customDomainsEnabled ∧ customDomainIsVerified s d

/-- RCPT for `addr` is answered `Accept` of the mailbox `a` and of no other one, as long as the store
does not fail. -/
structure Resolves (app : AppState) (w : World) (addr a : String) : Prop where
  accepts : ∃ tr w', Exec (exec app) w
    (Smtp.validateRecipient app.config (Str.toAsciiLowercase (Str.trim addr))) tr w' (.accept a)
  only : ∀ tr w' r, Exec (exec app) w
      (Smtp.validateRecipient app.config (Str.toAsciiLowercase (Str.trim addr))) tr w' r →
    r = .accept a ∨ r = .error ∧ StoreFailed tr

variable {app : AppState}

section
variable {w w' : World} {cfg : Config} {addr l d : String} {r : Smtp.RecipientCheck} {b : Bool}

theorem checkMailbox_of_active
    (hactive : mailboxIsActive w.store (Smtp.stripPlusTag addr) w.clock)
    (h : Exec (exec app) w (Smtp.checkMailbox cfg addr b) tr w' r) :
    r = .accept (Smtp.stripPlusTag addr) ∨ r = .error := by
  obtain ⟨_, _, _, _, hnow, -, h⟩ := exec_call.mp h
  cases hnow
  obtain ⟨_, ans, w₁, _, hx, -, h⟩ := exec_call.mp h
  obtain ⟨-, rfl, -⟩ | ⟨ids, -, -, -, -, hap, -⟩ := exec_store_cases hx
  · exact .inr (exec_ret.mp h).2.2
  · cases (Prod.mk.inj hap).1
    rw [hactive] at h
    exact .inl (exec_ret.mp h).2.2

theorem exec_checkMailbox (hactive : mailboxIsActive w.store (Smtp.stripPlusTag addr) w.clock) :
    ∃ tr, Exec (exec app) w (Smtp.checkMailbox cfg addr b) tr w
      (.accept (Smtp.stripPlusTag addr)) := by
  refine ⟨_, exec_call.mpr ⟨.answer, w.clock, w, _, rfl, rfl,
    exec_call.mpr ⟨.uuids [], .ok true, w, [], ?_, rfl, .ret⟩⟩⟩
  simp [exec, StoreOp.uuids, StoreOp.apply, hactive]

theorem validateRecipient_of_active (hd : Str.rsplitOnce addr '@' = some (l, d)) (hne : d ≠ "")
    (hserved : Served cfg w.store d)
    (hactive : mailboxIsActive w.store (Smtp.stripPlusTag addr) w.clock) :
    (∃ tr, Exec (exec app) w (Smtp.validateRecipient cfg addr) tr w
      (.accept (Smtp.stripPlusTag addr))) ∧
    ∀ tr w' r, Exec (exec app) w (Smtp.validateRecipient cfg addr) tr w' r →
      r = .accept (Smtp.stripPlusTag addr) ∨ r = .error := by
  have hempty : d.isEmpty = false := by simpa using hne
  rw [Smtp.validateRecipient, hd]
  simp only [hempty, Bool.false_eq_true, if_false]
  by_cases hacc : cfg.acceptsDomain d
  · rw [if_pos hacc]
    exact ⟨exec_checkMailbox hactive, fun tr w' r h => checkMailbox_of_active hactive h⟩
  rw [if_neg hacc]
  obtain ⟨henabled, hverified⟩ := hserved.resolve_left hacc
  rw [henabled, Bool.not_true, if_neg (by decide)]
  refine ⟨?_, fun tr w' r h => ?_⟩
  · obtain ⟨tr, htr⟩ := @exec_checkMailbox app w cfg addr false hactive
    refine ⟨_, exec_call.mpr ⟨.uuids [], .ok true, w, tr, ?_, rfl, htr⟩⟩
    simp [exec, StoreOp.uuids, StoreOp.apply, hverified]
  · obtain ⟨_, ans, w₁, _, hx, -, h⟩ := exec_call.mp h
    obtain ⟨-, rfl, -⟩ | ⟨ids, -, -, -, -, hap, hw⟩ := exec_store_cases hx
    · exact .inr (exec_ret.mp h).2.2
    · obtain ⟨rfl, hstore⟩ := Prod.mk.inj hap
      rw [hverified] at h
      refine checkMailbox_of_active ?_ h
      rw [hw, ← hstore]
      exact hactive

end

/-- Every spelling of the address of an active mailbox on a served domain is resolved to it. -/
theorem resolves_of_spelled {w : World} {l d path line : String} (hl : Smtp.LocalName l)
    (hd : Smtp.DomainName d) (hserved : Served app.config w.store d)
    (hactive : mailboxIsActive w.store (l ++ "@" ++ d) w.clock) (hpath : Smtp.Spelled l d path)
    (hline : Smtp.RcptLine path line) : ∃ addr, Smtp.Command.parse line = .rcptTo addr ∧
      Resolves app w addr (l ++ "@" ++ d) := by
  obtain ⟨hclose, htrim, tag, hlower, htag⟩ := hpath.lowercase hl hd
  have hat : '@' ∉ d.toList := fun hmem => absurd (hd.plain _ hmem).2 (by decide)
  have hne : d ≠ "" := fun heq => hd.ne (by rw [heq]; rfl)
  have hstrip := Smtp.stripPlusTag_tagged hl hd htag
  refine ⟨path, by rw [Smtp.parse_rcptLine hline hclose, htrim], ?_⟩
  obtain ⟨⟨tr, htr⟩, hall⟩ := @validateRecipient_of_active app w app.config _ _ _
    (@Str.rsplitOnce_append (l ++ tag) d hat) hne hserved (hstrip ▸ hactive)
  rw [hstrip] at htr hall
  refine ⟨⟨tr, w, by rwa [htrim, hlower]⟩, fun tr w' r h => ?_⟩
  rw [htrim, hlower] at h
  obtain rfl | rfl := hall tr w' r h
  · exact .inl rfl
  · exact .inr ⟨rfl, (Smtp.validateRecipient_obeys _).result h.runs⟩

/-- RCPT reaches the mailboxes that the API has created: while a mailbox is active and its domain is
served, each line that spells its address, in any case and with any tag, resolves to it alone. -/
theorem rcpt_reaches_created {raw : String} (hcfg : app.config.domains = Config.domainsFromEnv raw)
    {start : DateTime} {c : ServerConf}
    (h : (server app).Reach (fun _ _ => True) (System.init (World.start start)) c)
    {e : ServerEntry} (he : e ∈ c.log) {peer : IpAddr} {hs : Api.HeaderMap}
    {body : Option Api.CreateAddressRequest} (hapi : e.tag = .http (.createAddress peer hs body))
    {a d : String} (hcreated : Created a d e) (hplain : Smtp.PlainName d)
    (hserved : Served app.config c.world.store d)
    (hactive : mailboxIsActive c.world.store a c.world.clock) :
    ∃ l, a = l ++ "@" ++ d ∧ ∀ path line, Smtp.Spelled l d path → Smtp.RcptLine path line →
      ∃ addr, Smtp.Command.parse line = .rcptTo addr ∧ Resolves app c.world addr a := by
  obtain ⟨x, owner, device, mb, hev⟩ := hcreated
  obtain ⟨l₁, l₂, hlog⟩ := List.append_of_mem he
  obtain ⟨c₁, c₂, ids, hist, k, h₁, -, -, hi, hlaw, -⟩ := committed h hlog hev
  obtain ⟨peer', hs', body', ht, hreq⟩ | ⟨n, tls, input, ht, -⟩ := hlaw.2.cases
  · obtain ⟨l, rfl, hl⟩ := hreq.localPart
    have hd : Smtp.DomainName d := by
      obtain hmem | ⟨record, token, hread, -⟩ := hreq.domain
      · exact domainName_of_mem hcfg hmem hplain
      · exact domainName_of_isValidDomain (read_claim_name h₁ (List.mem_of_getElem? hi) hread)
    exact ⟨l, rfl, fun path line hpath hline =>
      resolves_of_spelled (localName_of_localPartOk hl) hd hserved hactive hpath hline⟩
  · cases hapi.symm.trans ht

theorem createAddress_of_drawsLocalPart {t : Task} (h : t.drawsLocalPart) :
    ∃ peer hs body, t = .http (.createAddress peer hs body) := by
  unfold Task.drawsLocalPart at h
  split at h
  · exact ⟨_, _, _, rfl⟩
  · cases h

theorem rcpt_reaches_created_random : ∃ (c : ServerConf) (addr : String),
    mailboxIsActive c.world.store "aaaaaaaaaa@example.com" c.world.clock ∧
    Smtp.Command.parse "rCPT to:<AAAAAAAAAA+<x@y@Example.com> SIZE=1 " = .rcptTo addr ∧
    Resolves ownerServer c.world addr "aaaaaaaaaa@example.com" := by
  have hrun : ((server ownerServer).run (fun _ _ => True) (System.init (World.start 0))
      (createRandomMoves (List.replicate 10 0))).any fun c =>
        mailboxIsActive c.world.store "aaaaaaaaaa@example.com" c.world.clock &&
          c.log.any fun e => creates "aaaaaaaaaa@example.com" "example.com" e &&
            e.tag.drawsLocalPart := by
    decide +kernel
  obtain ⟨c, hc, hP⟩ := System.Reach.exists_of_run hrun
  obtain ⟨hactive, hP⟩ := Bool.and_eq_true_iff.mp hP
  obtain ⟨e, he, hP⟩ := List.any_eq_true.mp hP
  obtain ⟨hcreates, hdraws⟩ := Bool.and_eq_true_iff.mp hP
  obtain ⟨peer, hs, body, ht⟩ := createAddress_of_drawsLocalPart hdraws
  obtain ⟨l, hl, H⟩ := @rcpt_reaches_created ownerServer " Example.com,," (by decide +kernel) 0 c hc
    e he peer hs body ht _ _ (created_of_creates hcreates) (by decide +kernel)
    (.inl (by decide +kernel)) hactive
  have hl' : l = "aaaaaaaaaa" := by
    have hlen := congrArg String.toList hl
    rw [String.append_assoc, String.toList_append] at hlen
    exact String.toList_injective (List.append_cancel_right
      (hlen.symm.trans (by decide +kernel :
        _ = "aaaaaaaaaa".toList ++ ("@" ++ "example.com").toList)))
  subst hl'
  obtain ⟨addr, hparse, hres⟩ := H "AAAAAAAAAA+<x@y@Example.com"
    "rCPT to:<AAAAAAAAAA+<x@y@Example.com> SIZE=1 "
    ⟨"AAAAAAAAAA", "+<x@y", "Example.com", by decide +kernel, by decide +kernel, by decide +kernel,
      .inr ⟨"<x@y", by decide +kernel, by decide +kernel⟩⟩
    ⟨"rCPT", "to:", " SIZE=1 ", by decide +kernel, by decide +kernel, by decide +kernel⟩
  exact ⟨c, addr, hactive, hparse, hres⟩

end AnonyMail
