import AnonyMail.Verify.Logic

/-! # How mailboxes come into being

`Requested` and `Caught` say what a task has done by the time it asks the store for a new mailbox:
a request to the API after its gates, or the catch-all of the SMTP session. `safe_create` follows the
handler of the API; the session is followed in the next module. -/

namespace AnonyMail

open Calls Prog Encoding

/-- A mailbox that is created or extended at the time `t` expires at `x`. -/
def ExpiresAt (cfg : Config) (t x : DateTime) : Prop :=
  ∃ ttl, Duration.trySeconds (asI64 cfg.defaultTtl) = some ttl ∧ t.tryAdd ttl = some x

/-- After the calls `h`, the catch-all may create the mailbox `a` on the domain `d`. -/
structure Caught (cfg : Config) (h : Hist) (a d : String) (x : DateTime) : Prop where
  enabled : cfg.catchAllEnabled
  served : cfg.acceptsDomain d
  split : ∃ l, Str.rsplitOnce a '@' = some (l, d) ∧ ¬cfg.isReservedLocalPart l
  lower : Str.toAsciiLowercase a = a
  expiry : ∃ t, ⟨.now, t⟩ ∈ h ∧ ExpiresAt cfg t x

/-- The calls of the handler that change nothing in the store. -/
def Eff.Asks : Eff → Prop
  | .store op =>
    match op with
    | .getCustomDomain _ | .countActiveMailboxesByDevice .. => True
    | _ => False
  | .now | .randomBytes _ | .randomRange _ | .jwtDecode .. | .noteAddressCreated .. | .panic => True
  | _ => False

/-- As `Asks`, but for panics. -/
def Eff.Queries (e : Eff) : Prop := e.Asks ∧ e ≠ .panic

/-- The time that a call has read. -/
def clockRead : Event Eff.Ans → Option DateTime
  | ⟨.now, t⟩ => some t
  | _ => none

/-- The last time that a task has read. -/
def lastRead (h : Hist) : Option DateTime := (h.filterMap clockRead).getLast?

theorem lastRead_concat (h : Hist) (ev : Event Eff.Ans) :
    lastRead (h ++ [ev]) = (clockRead ev).or (lastRead h) := by
  rw [lastRead, List.filterMap_append, List.getLast?_append]
  cases hev : clockRead ev <;> simp [hev, lastRead]

theorem mem_of_lastRead {h : Hist} {t : DateTime} (ht : lastRead h = some t) : ⟨.now, t⟩ ∈ h := by
  obtain ⟨⟨e, r⟩, hev, hread⟩ := List.mem_filterMap.mp (List.mem_of_getLast? ht)
  cases e <;> cases hread
  exact hev

theorem lastRead_append {l : Hist} (h : Hist) (hl : ∀ ev ∈ l, clockRead ev = none) :
    lastRead (h ++ l) = lastRead h := by
  rw [lastRead, List.filterMap_append, List.filterMap_eq_nil_iff.mpr hl, List.append_nil, lastRead]

namespace Api

/-- The claims are those of the client token of the request. -/
def Presented (app : AppState) (hs : HeaderMap) (h : Hist) (client : Option ClientClaims) : Prop :=
  ∀ claims, client = some claims → ∃ raw key, rawClientToken hs = some raw ∧
    app.config.tokenSigningKey = some key ∧ ⟨.jwtDecode key raw clientTokenLeeway, .ok claims⟩ ∈ h

/-- The policy is that of the tier that a client token shows. -/
def TierShown (app : AppState) (h : Hist) (p : TierPolicy) : Prop :=
  ∃ hs client, Presented app hs h client ∧ Addresses.policyOf app client = some p

/-- The bearer token of the request is that of a verified claim of the domain. -/
def ClaimShown (app : AppState) (hs : HeaderMap) (h : Hist) (d : String) : Prop :=
  ∃ record token, ⟨.store (.getCustomDomain d), .ok (some record)⟩ ∈ h ∧
    bearerToken hs = some token ∧ tokenMatchesHash app.deps token record.claimTokenHash ∧
    record.status = .verified

/-- The active mailboxes of the device have been counted, and there was room for one more. -/
def Counted (policy : Option TierPolicy) (device : Option String) (h : Hist) : Prop :=
  ∀ p hash, policy = some p → device = some hash → 0 < p.activeMailboxes →
    ∃ t n, ⟨.now, t⟩ ∈ h ∧ ⟨.store (.countActiveMailboxesByDevice hash t), .ok n⟩ ∈ h ∧
      n < p.activeMailboxes

/-- The tier admits a mailbox on the domain `d`, with the local part that is wanted. -/
structure Admits (cfg : Config) (p : TierPolicy) (wanted : Option String) (d : String) : Prop where
  domain : (∃ i, cfg.domains[i]? = some d ∧ (p.domainCount = 0 ∨ i < p.domainCount)) ∨
    p.customDomains ∧ d ∉ cfg.domains
  localPart : wanted ≠ none → p.customLocalParts

/-- What `random_local_part` can return. -/
def Generated (l : String) : Prop :=
  l.toList.length = Addresses.randomLocalPartLen ∧ ∀ c ∈ l.toList, c ∈ Addresses.localPartCharset

/-- The local part is one that was asked for and may be, or was generated. -/
def LocalPartOk (cfg : Config) (wanted : Option String) (l : String) : Prop :=
  (wanted ≠ none ∧ Addresses.isValidLocalPart l ∧ ¬cfg.isReservedLocalPart l) ∨
    (wanted = none ∧ Generated l)

/-- No mailbox has been created. -/
def Uncreated (h : Hist) : Prop :=
  ∀ a d x owner device mb, ⟨.store (.createMailbox a d x owner device), .ok mb⟩ ∉ h

/-- After the calls `h`, the request may create the mailbox `a` on the domain `d`. -/
structure Requested (app : AppState) (hs : HeaderMap) (req : CreateAddressRequest) (h : Hist)
    (a d : String) (x : DateTime) (owner device : Option String) : Prop where
  client : ∃ client, Presented app hs h client ∧
    device = (client.bind (·.kid)).map (hashToken app.deps) ∧
    Counted (Addresses.policyOf app client) device h ∧
    ∀ p, Addresses.policyOf app client = some p → Admits app.config p req.localPart d
  domain : d ∈ app.config.domains ∨ ClaimShown app hs h d
  localPart : ∃ l, a = l ++ "@" ++ d ∧ LocalPartOk app.config req.localPart l
  token : ∃ bs, ⟨.randomBytes 32, bs⟩ ∈ h ∧
    owner = some (hashToken app.deps (tokenPrefix ++ base64Url bs))
  expiry : ∃ t, ⟨.now, t⟩ ∈ h ∧ ExpiresAt app.config t x
  uncreated : Uncreated h

/-- The calls `h'` are the calls `h` and then some that change nothing in the store. -/
def Asked (h h' : Hist) : Prop := ∃ l : Hist, h' = h ++ l ∧ ∀ ev ∈ l, ev.1.Asks

/-- The calls `h'` are the calls `h` and then some that decode client tokens. -/
def Decoded (h h' : Hist) : Prop :=
  ∃ l : Hist, h' = h ++ l ∧ ∀ ev ∈ l, ∃ key token leeway, ev.1 = .jwtDecode key token leeway

/-- The calls `h'` are the calls `h` and then some that draw random bytes and numbers. -/
def Drawn (h h' : Hist) : Prop :=
  ∃ l : Hist, h' = h ++ l ∧ ∀ ev ∈ l, ∃ n, ev.1 = .randomBytes n ∨ ev.1 = .randomRange n

variable {app : AppState} {hs : HeaderMap} {h h' : Hist}

theorem Decoded.refl : Decoded h h := ⟨[], by simp, by simp⟩

theorem Decoded.asked (H : Decoded h h') : Asked h h' := by
  obtain ⟨l, rfl, hl⟩ := H
  refine ⟨l, rfl, fun ev hev => ?_⟩
  obtain ⟨key, token, leeway, he⟩ := hl ev hev
  rw [he]
  trivial

theorem Decoded.lastRead_eq (H : Decoded h h') : lastRead h' = lastRead h := by
  obtain ⟨l, rfl, hl⟩ := H
  refine lastRead_append h fun ev hev => ?_
  obtain ⟨e, r⟩ := ev
  obtain ⟨key, token, leeway, rfl⟩ := hl _ hev
  rfl

theorem Drawn.refl : Drawn h h := ⟨[], by simp, by simp⟩

theorem Drawn.one {e : Eff} {r : e.Ans} (he : ∃ n, e = .randomBytes n ∨ e = .randomRange n) :
    Drawn h (h ++ [⟨e, r⟩]) := ⟨_, rfl, fun _ hev => List.mem_singleton.mp hev ▸ he⟩

theorem Drawn.trans (H : Drawn h h') (H' : Drawn h' h'') : Drawn h h'' := by
  obtain ⟨l, rfl, hl⟩ := H
  obtain ⟨l', rfl, hl'⟩ := H'
  exact ⟨l ++ l', by simp, fun ev hev => (List.mem_append.mp hev).elim (hl ev) (hl' ev)⟩

theorem Drawn.asked (H : Drawn h h') : Asked h h' := by
  obtain ⟨l, rfl, hl⟩ := H
  refine ⟨l, rfl, fun ev hev => ?_⟩
  obtain ⟨n, he | he⟩ := hl ev hev <;> rw [he] <;> trivial

theorem Drawn.lastRead_eq (H : Drawn h h') : lastRead h' = lastRead h := by
  obtain ⟨l, rfl, hl⟩ := H
  refine lastRead_append h fun ev hev => ?_
  obtain ⟨e, r⟩ := ev
  obtain ⟨n, rfl | rfl⟩ := hl _ hev <;> rfl

theorem Asked.refl : Asked h h := ⟨[], by simp, by simp⟩

theorem Asked.one {e : Eff} {r : e.Ans} (he : e.Asks) : Asked h (h ++ [⟨e, r⟩]) :=
  ⟨_, rfl, fun _ hev => List.mem_singleton.mp hev ▸ he⟩

theorem Asked.trans (H : Asked h h') (H' : Asked h' h'') : Asked h h'' := by
  obtain ⟨l, rfl, hl⟩ := H
  obtain ⟨l', rfl, hl'⟩ := H'
  exact ⟨l ++ l', by simp, fun ev hev => (List.mem_append.mp hev).elim (hl ev) (hl' ev)⟩

theorem Asked.le (H : Asked h h') : h <+: h' := by
  obtain ⟨l, rfl, -⟩ := H
  exact List.prefix_append ..

theorem Uncreated.asked (H : Uncreated h) (hle : Asked h h') : Uncreated h' := by
  obtain ⟨l, rfl, hl⟩ := hle
  intro a d x owner device mb hmem
  rcases List.mem_append.mp hmem with hmem | hmem
  · exact H _ _ _ _ _ _ hmem
  · exact hl _ hmem

theorem Presented.mono (H : Presented app hs h client) (hle : h <+: h') :
    Presented app hs h' client := by
  intro claims hc
  obtain ⟨raw, key, hraw, hkey, hmem⟩ := H claims hc
  exact ⟨raw, key, hraw, hkey, hle.subset hmem⟩

theorem TierShown.mono (H : TierShown app h p) (hle : h <+: h') : TierShown app h' p := by
  obtain ⟨hs, client, hclient, hp⟩ := H
  exact ⟨hs, client, hclient.mono hle, hp⟩

theorem ClaimShown.mono (H : ClaimShown app hs h d) (hle : h <+: h') : ClaimShown app hs h' d := by
  obtain ⟨record, token, hmem, hrest⟩ := H
  exact ⟨record, token, hle.subset hmem, hrest⟩

theorem Counted.mono (H : Counted policy device h) (hle : h <+: h') :
    Counted policy device h' := by
  intro p hash hp hd hpos
  obtain ⟨t, n, hnow, hcount, hlt⟩ := H p hash hp hd hpos
  exact ⟨t, n, hle.subset hnow, hle.subset hcount, hlt⟩

/-! ## The gates of the handler -/

section
variable {Φ : Hist → Eff → Prop} (hquery : ∀ h e, Eff.Queries e → Φ h e)
include hquery

theorem clientClaims_yields : Yields Φ (fun h' client => Decoded h h' ∧ Presented app hs h' client) h
    (clientClaims app hs) := by
  unfold clientClaims
  split
  · next raw key hraw hkey =>
    refine ⟨hquery _ _ ⟨trivial, nofun⟩, fun r => ?_⟩
    match r with
    | .ok claims =>
      rintro _ ⟨⟩
      refine ⟨⟨_, rfl, fun ev hev => ?_⟩, ?_⟩
      · exact ⟨key, raw, clientTokenLeeway, by rw [List.mem_singleton.mp hev]⟩
      rintro _ ⟨⟩
      exact ⟨raw, key, hraw, hkey, by simp⟩
    | .error .expiredSignature => exact nofun
    | .error .other => exact nofun
  · exact yields_pure ⟨.refl, nofun⟩

theorem attestationGate_yields : Yields Φ (fun h' client => Asked h h' ∧ Presented app hs h' client) h
    (attestationGate app hs) := by
  refine Yields.bind (clientClaims_yields hquery) fun h' client ⟨hle, hclient⟩ => ?_
  have H := And.intro hle.asked hclient
  split
  · exact yields_pure H
  · match client with
    | none => exact yields_throw
    | some c =>
      show Yields _ _ _ (if c.isAttested then return some c else throw _)
      split
      · exact yields_pure H
      · exact yields_throw

theorem clientTier_yields (hon : app.config.entitlementsEnforced) : Yields Φ (fun h' tier =>
      Decoded h h' ∧ TierShown app h' (app.config.tierPolicy tier)) h (clientTier app hs) := by
  refine Yields.bind (clientClaims_yields hquery) fun h' client ⟨hle, hclient⟩ => ?_
  refine yields_pure ⟨hle, hs, client, hclient, ?_⟩
  rw [Addresses.policyOf, if_pos hon]

theorem enforcedTier_yields : Yields Φ (fun h' tier => Decoded h h' ∧
      (tier = none → ¬app.config.entitlementsEnforced) ∧
      ∀ t, tier = some t → TierShown app h' (app.config.tierPolicy t)) h (enforcedTier app hs) := by
  unfold enforcedTier
  split
  · next hoff => exact yields_pure ⟨.refl, fun _ => by simpa using hoff, nofun⟩
  · next hon =>
    refine Yields.bind (clientTier_yields hquery (by simpa using hon)) fun h' tier ⟨hle, hshown⟩ => ?_
    refine yields_pure ⟨hle, nofun, ?_⟩
    rintro _ ⟨⟩
    exact hshown

theorem authorizeMailbox_yields {d : String} : Yields Φ (fun h' _ => Asked h h' ∧ ClaimShown app hs h' d)
    h (authorizeMailboxOnCustomDomain app d hs) := by
  refine yields_store_bind (hquery _ _ ⟨trivial, nofun⟩) fun o => yields_okOr_bind fun record ho => ?_
  subst ho
  refine yields_okOr_bind fun token htok => ?_
  split
  · exact yields_throw
  · next hm =>
    split
    · exact yields_throw
    · next hst =>
      refine yields_pure ⟨.one trivial, record, token, by simp, htok, ?_, not_not.mp hst⟩
      simpa using hm

theorem chooseDomain_yields {policy : Option TierPolicy} (wanted : Option String) :
    Yields Φ (fun h' d => Asked h h' ∧ (d ∈ app.config.domains ∨ ClaimShown app hs h' d) ∧
        ∀ p, policy = some p → Admits app.config p none d) h
      (Addresses.chooseDomain app policy hs wanted) := by
  unfold Addresses.chooseDomain
  split
  · have hhead : app.config.domains[0]? = some (app.config.domains.head app.config.domains_ne) := by
      rw [← List.head?_eq_getElem?, List.head?_eq_some_head]
    refine yields_pure ⟨.refl, .inl (List.head_mem _), fun p _ => ⟨.inl ⟨0, hhead, ?_⟩, absurd rfl⟩⟩
    omega
  · dsimp only
    split
    · next i hi =>
      obtain ⟨hlt, hd, -⟩ := List.findIdx?_eq_some_iff_getElem.mp hi
      split
      · exact yields_throw
      · next hcount =>
        refine yields_pure ⟨.refl, .inl (eq_of_beq hd ▸ List.getElem_mem hlt), ?_⟩
        rintro p rfl
        refine ⟨.inl ⟨i, eq_of_beq hd ▸ List.getElem?_eq_getElem hlt, ?_⟩, absurd rfl⟩
        simp only [Option.any_some, Bool.and_eq_true, decide_eq_true_eq] at hcount
        omega
    · next hnone =>
      split
      · split
        · exact yields_throw
        · next hcustom =>
          refine Yields.bind (authorizeMailbox_yields hquery) fun h' _ H => ?_
          refine yields_pure ⟨H.1, .inr H.2, ?_⟩
          rintro p rfl
          refine ⟨.inr ⟨by simpa using hcustom, fun hmem => ?_⟩, absurd rfl⟩
          exact absurd (List.findIdx?_eq_none_iff.mp hnone _ hmem) (by simp)
      · exact yields_throw

omit hquery in
theorem chooseLocalPart_yields {policy : Option TierPolicy} (wanted : Option String) :
    Yields Φ (fun h' r => h' = h ∧ (r = none → wanted = none) ∧
      (∀ l, r = some l → LocalPartOk app.config wanted l) ∧
      ∀ p, policy = some p → wanted ≠ none → p.customLocalParts) h
      (Addresses.chooseLocalPart app policy wanted) := by
  unfold Addresses.chooseLocalPart
  split
  · exact yields_pure ⟨rfl, fun _ => rfl, nofun, fun _ _ => absurd rfl⟩
  · dsimp only
    split
    · exact yields_throw
    · next hvalid =>
      split
      · exact yields_throw
      · next hres =>
        split
        · exact yields_throw
        · next hcustom =>
          refine yields_pure ⟨rfl, fun heq => (Option.some_ne_none _ heq).elim, fun l hl => ?_, ?_⟩
          · cases Option.some.inj hl
            exact .inl ⟨Option.some_ne_none _, by simpa using hvalid, hres⟩
          · rintro p rfl -
            simpa using hcustom

theorem checkMailboxCap_yields {policy : Option TierPolicy} {device : Option String} :
    Yields Φ (fun h' _ => Asked h h' ∧ Counted policy device h') h
      (Addresses.checkMailboxCap policy device) := by
  unfold Addresses.checkMailboxCap
  split
  · next p hash =>
    split
    · refine yields_perform_bind (hquery _ _ ⟨trivial, nofun⟩) fun t => ?_
      refine yields_store_bind (hquery _ _ ⟨trivial, nofun⟩) fun n => ?_
      split
      · exact yields_throw
      · next hlt =>
        refine yields_pure ⟨(Asked.one (e := .now) trivial).trans (.one trivial), ?_⟩
        rintro _ _ ⟨⟩ ⟨⟩ -
        exact ⟨t, n, by simp, by simp, Nat.not_le.mp hlt⟩
    · next hpos =>
      refine yields_pure ⟨.refl, ?_⟩
      rintro _ _ ⟨⟩ ⟨⟩ hpos'
      exact absurd hpos' hpos
  · next hne =>
    refine yields_pure ⟨.refl, ?_⟩
    rintro p hash rfl rfl -
    exact (hne p hash rfl rfl).elim

theorem expiryFromNow_ends (hpanic : (∀ t x, ¬ExpiresAt app.config t x) → Φ h .panic)
    (hpanic' : ∀ t, (∀ x, ¬ExpiresAt app.config t x) → Φ (h ++ [⟨.now, t⟩]) .panic) :
    Ends Φ (fun h' r => ∃ t x, r = .ok x ∧ h' = h ++ [⟨.now, t⟩] ∧ ExpiresAt app.config t x) h
      (Addresses.expiryFromNow app) := by
  refine ends_orPanic_bind (fun hnone => hpanic ?_) fun ttl httl => ?_
  · rintro t x ⟨ttl, httl, -⟩
    cases hnone.symm.trans httl
  refine ends_perform_bind (hquery _ _ ⟨trivial, nofun⟩) fun t => ?_
  refine ends_orPanic (fun hnone => hpanic' t ?_) fun x hx => ⟨t, x, rfl, rfl, ttl, httl, hx⟩
  rintro x ⟨ttl', httl', hx⟩
  cases httl.symm.trans httl'
  cases hnone.symm.trans hx

theorem expiryFromNow_yields (hpanic : (∀ t x, ¬ExpiresAt app.config t x) → Φ h .panic)
    (hpanic' : ∀ t, (∀ x, ¬ExpiresAt app.config t x) → Φ (h ++ [⟨.now, t⟩]) .panic) :
    Yields Φ (fun h' x => ∃ t, h' = h ++ [⟨.now, t⟩] ∧ ExpiresAt app.config t x) h
      (Addresses.expiryFromNow app) := by
  refine ⟨(expiryFromNow_ends hquery hpanic hpanic').obeys.mono ?_⟩
  rintro h' _ ⟨t, x, rfl, hle, hx⟩ _ ⟨⟩
  exact ⟨t, hle, hx⟩

theorem generateToken_yields (pre : String) :
    Yields Φ (fun h' r => Drawn h h' ∧ ∃ bs, ⟨.randomBytes 32, bs⟩ ∈ h' ∧
      r = (pre ++ base64Url bs, hashToken app.deps (pre ++ base64Url bs))) h
      (generateToken app.deps pre) := by
  refine yields_perform_bind (hquery _ _ ⟨trivial, nofun⟩) fun bs => ?_
  exact yields_pure ⟨.one ⟨32, .inl rfl⟩, bs, by simp, rfl⟩

theorem randomChars_yields (n : Nat) :
    Yields Φ (fun h' cs => Drawn h h' ∧ cs.length = n ∧ ∀ c ∈ cs, c ∈ Addresses.localPartCharset) h
      (Addresses.randomChars n) := by
  induction n generalizing h with
  | zero => exact yields_pure ⟨.refl, rfl, nofun⟩
  | succ n ih =>
    refine yields_perform_bind (hquery _ _ ⟨trivial, nofun⟩) fun i => ?_
    refine Yields.bind ih fun h' cs H => yields_pure ⟨?_, ?_, ?_⟩
    · exact (Drawn.one (e := .randomRange _) ⟨_, .inr rfl⟩).trans H.1
    · rw [List.length_cons, H.2.1]
    · refine List.forall_mem_cons.mpr ⟨?_, H.2.2⟩
      rw [List.getD_getElem?]
      split
      · exact List.getElem_mem _
      · decide

theorem randomLocalPart_yields :
    Yields Φ (fun h' l => Drawn h h' ∧ Generated l) h Addresses.randomLocalPart := by
  refine Yields.bind (randomChars_yields hquery _) fun h' cs H => yields_pure ⟨H.1, ?_⟩
  exact ⟨by rw [String.toList_ofList, H.2.1], by rw [String.toList_ofList]; exact H.2.2⟩

/-! ## The handler -/

variable {req : CreateAddressRequest} (hcreate : ∀ h a d x owner device,
  Requested app hs req h a d x owner device → (∃ t, lastRead h = some t ∧ ExpiresAt app.config t x) →
    Φ h (.store (.createMailbox a d x owner device)))

/-- What the gates and the clock have settled when the first token is drawn. -/
structure Cleared (app : AppState) (hs : HeaderMap) (h : Hist) (wanted : Option String) (d : String)
    (x : DateTime) (device : Option String) : Prop where
  client : ∃ client, Presented app hs h client ∧
    device = (client.bind (·.kid)).map (hashToken app.deps) ∧
    Counted (Addresses.policyOf app client) device h ∧
    ∀ p, Addresses.policyOf app client = some p → Admits app.config p wanted d
  domain : d ∈ app.config.domains ∨ ClaimShown app hs h d
  expiry : ∃ t, ⟨.now, t⟩ ∈ h ∧ ExpiresAt app.config t x
  uncreated : Uncreated h

omit hquery in
theorem Cleared.mono (H : Cleared app hs h wanted d x device) (hle : h <+: h') (hun : Uncreated h') :
    Cleared app hs h' wanted d x device := by
  obtain ⟨⟨client, hclient, hdev, hcount, hadmits⟩, hdomain, ⟨t, ht, hx⟩, -⟩ := H
  exact ⟨⟨client, hclient.mono hle, hdev, hcount.mono hle, hadmits⟩, hdomain.imp_right (·.mono hle),
    ⟨t, hle.subset ht, hx⟩, hun⟩

omit hquery in
theorem Cleared.asked (H : Cleared app hs h wanted d x device) (hle : Asked h h') :
    Cleared app hs h' wanted d x device := H.mono hle.le (H.uncreated.asked hle)

include hcreate

theorem safe_createCustom {l d : String} {x : DateTime} {device : Option String}
    (H : Cleared app hs h req.localPart d x device) (hl : LocalPartOk app.config req.localPart l)
    (hx : ∃ t, lastRead h = some t ∧ ExpiresAt app.config t x) :
    Safe Φ h (Addresses.createCustom app l d x device).run := by
  refine Yields.safe_bind (generateToken_yields hquery _) ?_
  rintro h' _ ⟨hle, bs, hbs, rfl⟩
  have H' := H.asked hle.asked
  refine safe_perform_bind (hcreate _ _ _ _ _ _ ⟨H'.client, H'.domain, ⟨l, rfl, hl⟩, ⟨bs, hbs, rfl⟩,
    H'.expiry, H'.uncreated⟩ (hle.lastRead_eq ▸ hx)) fun r => ?_
  split
  · exact safe_pure
  · split
    · exact safe_throw
    · exact safe_throw

theorem safe_createRandom {d : String} {x : DateTime} {device : Option String}
    (H : Cleared app hs h req.localPart d x device) (hreq : req.localPart = none)
    (hx : ∃ t, lastRead h = some t ∧ ExpiresAt app.config t x) (n : Nat) :
    Safe Φ h (Addresses.createRandom app d x device n).run := by
  induction n generalizing h with
  | zero => exact safe_throw
  | succ n ih =>
    refine Yields.safe_bind (generateToken_yields hquery _) ?_
    rintro h₁ _ ⟨hle₁, bs, hbs, rfl⟩
    refine Yields.safe_bind (randomLocalPart_yields hquery) ?_
    rintro h₂ l ⟨hle₂, hl⟩
    have hle := hle₁.trans hle₂
    have H' := H.asked hle.asked
    replace hx := hle.lastRead_eq ▸ hx
    refine safe_perform_bind (hcreate _ _ _ _ _ _ ⟨H'.client, H'.domain, ⟨l, rfl, .inr ⟨hreq, hl⟩⟩,
      ⟨bs, hle₂.asked.le.subset hbs, rfl⟩, H'.expiry, H'.uncreated⟩ hx) fun r => ?_
    split
    · exact safe_pure
    · next e =>
      split
      · refine ih (H'.mono (List.prefix_append ..) fun _ _ _ _ _ _ hmem => ?_) (by
          rwa [lastRead_concat])
        rcases List.mem_append.mp hmem with hmem | hmem
        · exact H'.uncreated _ _ _ _ _ _ hmem
        · cases List.mem_singleton.mp hmem
      · exact safe_throw

/-- The handler asks for a mailbox only after its gates. -/
theorem safe_create (hpanic : ∀ h, (∀ t x, ¬ExpiresAt app.config t x) → Φ h .panic)
    (hpanic' : ∀ h t, (∀ x, ¬ExpiresAt app.config t x) → Φ (h ++ [⟨.now, t⟩]) .panic)
    (peer : IpAddr) : Safe Φ [] (Addresses.create app peer hs req).run := by
  refine Yields.safe_bind (attestationGate_yields hquery) ?_
  rintro h₁ client ⟨hle₁, hclient⟩
  refine Yields.safe_bind (chooseDomain_yields hquery _) ?_
  rintro h₂ d ⟨hle₂, hd, hdomain⟩
  refine Yields.safe_bind (chooseLocalPart_yields _) ?_
  rintro _ wanted ⟨rfl, hnone, hsome, hlocal⟩
  refine Yields.safe_bind (checkMailboxCap_yields hquery) ?_
  rintro h₄ _ ⟨hle₄, hcount⟩
  refine safe_perform_bind (hquery _ _ ⟨trivial, nofun⟩) fun now => safe_perform_bind (hquery _ _ ⟨trivial, nofun⟩) fun b => ?_
  split
  · exact safe_throw
  · refine Yields.safe_bind (expiryFromNow_yields hquery (hpanic _) (hpanic' _)) ?_
    rintro h₅ x ⟨t, hnow, hx⟩
    have hle : Asked h₄ h₅ := by
      rw [hnow]
      exact (Asked.one (e := .now) trivial).trans
        ((Asked.one (e := .noteAddressCreated ..) trivial).trans (.one trivial))
    have hlast : ∃ t, lastRead h₅ = some t ∧ ExpiresAt app.config t x :=
      ⟨t, by rw [hnow, lastRead_concat]; rfl, hx⟩
    have hx : ∃ t, ⟨.now, t⟩ ∈ h₅ ∧ ExpiresAt app.config t x := ⟨t, by simp [hnow], hx⟩
    have hun : Uncreated h₅ :=
      Uncreated.asked (fun _ _ _ _ _ _ => List.not_mem_nil) (hle₁.trans (hle₂.trans (hle₄.trans hle)))
    have H : Cleared app hs h₅ req.localPart d x
        ((client.bind (·.kid)).map (hashToken app.deps)) := by
      refine ⟨⟨client, ?_, rfl, hcount.mono hle.le, fun p hp => ?_⟩, ?_, hx, hun⟩
      · exact (hclient.mono hle₂.le).mono (hle₄.trans hle).le
      · exact ⟨(hdomain p hp).domain, hlocal p hp⟩
      · exact hd.imp_right (·.mono (hle₄.trans hle).le)
    split
    · exact safe_createCustom hquery hcreate H (hsome _ rfl) hlast
    · exact safe_createRandom hquery hcreate H (hnone rfl) hlast _

end

end Api
end AnonyMail
