import AnonyMail.Verify.Session

/-! # What each task may do

`Protocol app t h e` says what the task `t` has done (the calls `h`) by the time it makes the call
`e`: which token it has checked, which snapshot a DNS verdict is based on, where a challenge comes
from. `task_safe` proves it for every task; the results on interleavings rest on the protocol and
do not look into the handlers again. -/

namespace AnonyMail

open Calls Encoding CustomDomains

/-- The claims that a call has read. -/
def claimsRead : Event Eff.Ans → List CustomDomain
  | ⟨.store (.getCustomDomain _), .ok (some d)⟩ => [d]
  | ⟨.store (.listCustomDomainsToRecheck _), .ok ds⟩ => ds
  | _ => []

/-- The claims that a task has read. -/
def snapshots (h : Hist) : List CustomDomain := h.flatMap claimsRead

theorem snapshots_mono (hd : d ∈ snapshots h) (hle : h <+: h') : d ∈ snapshots h' := by
  obtain ⟨ev, hev, hd⟩ := List.mem_flatMap.mp hd
  exact List.mem_flatMap.mpr ⟨ev, hle.subset hev, hd⟩

/-- The last calls of `h` are the DNS lookups for the snapshot `d` and a clock reading, with these
answers. -/
structure Looked (h : Hist) (d : CustomDomain) (txts hosts : Option (List String))
    (now : DateTime) : Prop where
  intro ::
  looked : ∃ h₀, d ∈ snapshots h₀ ∧
    h = h₀ ++ [⟨.txtRecords (txtHost d.domain), txts⟩, ⟨.mxHosts d.domain, hosts⟩, ⟨.now, now⟩]

/-- Both records are as the claim `d` asks for. -/
def ChecksOk (cfg : Config) (d : CustomDomain) (txts hosts : Option (List String)) : Bool :=
  (txtCheck d txts).ok && (mxCheck cfg hosts).ok

/-- The address and the headers of a request that only the owner of the address may make. -/
def Task.ownerGated : Task → Option (String × Api.HeaderMap)
  | .http (.extendAddress a hs) | .http (.rotateAddress a hs) | .http (.deleteAddress a hs)
  | .http (.clearMessages a hs) | .http (.deleteMessage a _ hs) | .http (.subscribe a hs _)
  | .http (.unsubscribe a hs _) => some (Str.toAsciiLowercase a, hs)
  | _ => none

/-- The address that an owner-gated store call changes. -/
def StoreOp.gated : StoreOp → Option String
  | .extendMailbox a _ | .rotateOwnerToken a _ | .deleteMailbox a | .deleteAllMessages a
  | .deleteMessage a _ | .addSubscription a .. | .deleteSubscription a _ => some a
  | _ => none

/-- The mailbox `mb` was read, and the bearer token of the request is that of its owner. -/
def Authorized (app : AppState) (h : Hist) (a : String) (hs : Api.HeaderMap) (mb : Mailbox) : Prop :=
  ⟨.store (.getMailbox a), .ok (some mb)⟩ ∈ h ∧ ∃ token want, Api.bearerToken hs = some token ∧
    mb.ownerTokenHash = some want ∧ Api.tokenMatchesHash app.deps token want

/-- After the calls `h`, the request may let the mailbox `a` expire at `x`. -/
structure Extends (app : AppState) (h : Hist) (a : String) (x : DateTime) : Prop where
  expiry : ∃ t, lastRead h = some t ∧ ExpiresAt app.config t x
  lifetime : app.config.entitlementsEnforced → ∃ p mb, Api.TierShown app h p ∧
    ⟨.store (.getMailbox a), .ok (some mb)⟩ ∈ h ∧ (0 < p.maxLifetimeSeconds → ∃ limit,
      Duration.trySeconds (asI64 p.maxLifetimeSeconds) = some limit ∧ x - mb.createdAt ≤ limit)

/-- The challenge that a request of the attestation flow presents. -/
def Task.challenge : Task → Option String
  | .http (.attest req) => some req.challenge
  | .http (.assert req) => some req.challenge
  | _ => none

variable (app : AppState)

/-- After the calls `h`, the task may create the mailbox `a`. -/
def Task.Creates (h : Hist) (a d : String) (x : DateTime) (owner device : Option String) :
    Task → Prop
  | .http (.createAddress _ hs body) =>
    Api.Requested app hs (body.getD ⟨none, none⟩) h a d x owner device
  | .smtp .. => Caught app.config h a d x ∧ owner = none ∧ device = none
  | _ => False

def Protocol (t : Task) (h : Hist) : Eff → Prop
  | .store op =>
    (∀ a, op.gated = some a →
      ∃ hs mb, t.ownerGated = some (a, hs) ∧ Authorized app h a hs mb ∧
        ∀ ev ∈ h, ∀ op', ev.1 = .store op' → op'.gated = none) ∧
    match op with
    | .createMailbox a d x owner device => t.Creates app h a d x owner device
    | .createCustomDomain domain _ txtToken =>
      (∃ raw, validateClaimable app.config raw = .ok domain) ∧
        (∃ h₀ bs, h = h₀ ++ [⟨.randomBytes 16, bs⟩] ∧ txtToken = hex bs) ∧
        (app.config.entitlementsEnforced → ∃ p, Api.TierShown app h p ∧ p.customDomains)
    | .extendMailbox a x => Extends app h a x
    | .recordCustomDomainCheck name status verifiedAt now =>
      ∃ d txts hosts, Looked h d txts hosts now ∧ d.domain = name ∧
        (status, verifiedAt) = nextStatus d (ChecksOk app.config d txts hosts) now
    | .rotateOwnerToken .. => ∃ a hs, t = .http (.rotateAddress a hs)
    | .purgeExpired _ => t = .cleanup
    | .markSeen a id => ∃ a', t = .http (.markRead a' id) ∧ a = Str.toAsciiLowercase a'
    | .upsertAttestedDevice keyId _ _ =>
      ∃ req, t = .http (.attest req) ∧ req.keyId = keyId ∧ ⟨.consumeChallenge req.challenge, true⟩ ∈ h
    | .advanceAttestedDeviceCounter keyId counter _ =>
      ∃ req device appId, t = .http (.assert req) ∧ req.keyId = keyId ∧
        ⟨.consumeChallenge req.challenge, true⟩ ∈ h ∧
        ⟨.store (.getAttestedDevice keyId), .ok (some device)⟩ ∈ h ∧
        Attest.verifyAssertion app.deps appId req.challenge req.assertion device.publicKey
          device.counter = .ok counter
    | _ => True
  | .issueChallenge challenge now =>
    ∃ bs, h = [⟨.randomBytes 32, bs⟩, ⟨.instantNow, now⟩] ∧ challenge = base64Url bs
  | .consumeChallenge challenge => t.challenge = some challenge ∧ h = []
  | _ => True

/-- The two ways in which a mailbox comes into being. -/
theorem Task.Creates.cases {app : AppState} {t : Task} (H : t.Creates app h a d x owner device) :
    (∃ peer hs body, t = .http (.createAddress peer hs body) ∧
      Api.Requested app hs (body.getD ⟨none, none⟩) h a d x owner device) ∨
    ∃ n tls input, t = .smtp n tls input ∧ Caught app.config h a d x ∧ owner = none ∧ device = none := by
  unfold Task.Creates at H
  split at H
  · exact .inl ⟨_, _, _, rfl, H⟩
  · exact .inr ⟨_, _, _, rfl, H⟩
  · exact H.elim

/-! ## Calls on which the protocol is silent -/

def Eff.Passive : Eff → Prop
  | .store op =>
    match op with
    | .createMailbox .. | .createCustomDomain .. | .recordCustomDomainCheck .. | .purgeExpired _
    | .markSeen .. | .upsertAttestedDevice .. | .advanceAttestedDeviceCounter .. => False
    | _ => op.gated = none
  | .issueChallenge .. | .consumeChallenge _ => False
  | _ => True

variable {app} {t : Task} {h : Hist}

theorem Eff.Passive.gated {op : StoreOp} (he : Eff.Passive (.store op)) : op.gated = none := by
  cases op <;> first | exact he | exact he.elim

theorem Eff.Passive.protocol (he : Eff.Passive e) : Protocol app t h e := by
  cases e with
  | store op =>
    refine ⟨fun a ha => ?_, ?_⟩
    · rw [he.gated] at ha
      cases ha
    · cases op <;> first | exact trivial | exact he.elim | cases he
  | issueChallenge | consumeChallenge => exact he.elim
  | _ => trivial

theorem Eff.Talk.passive (he : Eff.Talk e) : e.Passive := by
  cases e with
  | store op => cases op <;> first | exact rfl | exact he.elim
  | _ => first | exact trivial | exact he.elim

theorem Eff.Asks.passive (he : Eff.Asks e) : e.Passive := by
  cases e with
  | store op => cases op <;> first | exact rfl | exact he.elim
  | _ => first | exact trivial | exact he.elim

/-- A program all of whose calls are passive keeps to every protocol. -/
theorem Only.protocol {p : Run α} (hp : Only Eff.Passive p) : Safe (Protocol app t) h p :=
  (hp h).imp fun _ _ he => he.protocol

namespace Api

theorem passive_clientClaims (hs : HeaderMap) : Only Eff.Passive (clientClaims app hs).run := by
  intro h
  unfold clientClaims
  split
  · refine Safe.bind (safe_call trivial fun _ => safe_ret) fun h' r _ => ?_
    split
    · exact safe_pure
    · exact safe_throw
    · exact safe_throw
  · exact safe_pure

theorem passive_attestationGate (hs : HeaderMap) : Only Eff.Passive (attestationGate app hs).run := by
  intro h
  refine Safe.bind (passive_clientClaims hs h) fun h' c _ => ?_
  split
  · exact safe_pure
  · split
    · split
      · exact safe_pure
      · exact safe_throw
    · exact safe_throw

theorem passive_generateToken (pre : String) :
    Only Eff.Passive (generateToken app.deps pre).run := by
  intro h
  exact safe_perform_bind trivial fun _ => safe_pure

theorem passive_expiryFromNow : Only Eff.Passive (Addresses.expiryFromNow app).run := by
  intro h
  refine safe_orPanic_bind trivial fun ttl _ => ?_
  exact safe_perform_bind trivial fun _ => safe_orPanic trivial

theorem passive_resolveTier (id : Option String) : Only Eff.Passive (resolveTier app id).run := by
  intro h
  unfold resolveTier
  split
  · refine safe_perform_bind trivial fun r => ?_
    split
    · exact safe_pure
    · exact safe_pure
    · exact safe_throw
  · exact safe_pure

theorem passive_mintClientToken (key : List UInt8) (kind : String) (kid : Option String)
    (tier : Tier) : Only Eff.Passive (mintClientToken app key kind kid tier).run := by
  intro h
  refine safe_perform_bind trivial fun now => ?_
  refine safe_orPanic_bind trivial fun x _ => ?_
  exact safe_okOr_bind fun _ _ => safe_pure

theorem passive_mint (keyId : String) (id : Option String) :
    Only Eff.Passive (Client.mint app keyId id).run := by
  intro h
  refine safe_okOr_bind fun key _ => ?_
  refine Safe.bind (passive_resolveTier id h) fun h' tier _ => ?_
  exact Safe.bind (passive_mintClientToken _ _ _ _ h') fun _ _ _ => safe_pure

/-! ## Owner-gated requests -/

end Api

/-- No owner-gated store call has been made. -/
def Ungated (h : Hist) : Prop := ∀ ev ∈ h, ∀ op, ev.1 = .store op → op.gated = none

theorem Ungated.append (hh : Ungated h) {l : Hist} (hl : ∀ ev ∈ l, ev.1.Passive) :
    Ungated (h ++ l) := by
  intro ev hev op hop
  rcases List.mem_append.mp hev with hev | hev
  · exact hh ev hev op hop
  · exact Eff.Passive.gated (hop ▸ hl ev hev)

theorem Authorized.append (H : Authorized app h a hs mb) (l : Hist) :
    Authorized app (h ++ l) a hs mb := ⟨List.mem_append_left _ H.1, H.2⟩

/-- An owner-gated store call of a request that is authorized. -/
theorem protocol_gated {op : StoreOp} (hop : op.gated = some a) (ht : t.ownerGated = some (a, hs))
    (hauth : Authorized app h a hs mb) (hh : Ungated h)
    (hrot : ∀ hash, op = .rotateOwnerToken a hash → ∃ a hs, t = .http (.rotateAddress a hs) := by
      exact nofun)
    (hext : ∀ x, op = .extendMailbox a x → Extends app h a x := by exact nofun) :
    Protocol app t h (.store op) := by
  refine ⟨fun a' ha' => ?_, ?_⟩
  · cases hop.symm.trans ha'
    exact ⟨hs, mb, ht, hauth, hh⟩
  · cases op with
    | rotateOwnerToken a' hash =>
      cases hop
      exact hrot hash rfl
    | extendMailbox a' x =>
      cases hop
      exact hext x rfl
    | _ => first | exact trivial | cases hop

namespace Api

/-- The mailbox that `authorize_owner` returns, and how the request has shown that it is the
owner's. -/
theorem authorizeOwner_obeys {Φ : Hist → Eff → Prop} (he : Φ h (.store (.getMailbox a))) :
    Prog.Obeys Φ (fun h' r => ∀ mb, r = .ok mb →
      h' = h ++ [⟨.store (.getMailbox a), .ok (some mb)⟩] ∧ Authorized app h' a hs mb) h
      (authorizeOwner app a hs).run := by
  refine ⟨he, fun r => ?_⟩
  obtain e | _ | mb := r
  · exact nofun
  · exact nofun
  · show Prog.Obeys _ _ _ (okOr (.unauthorized "missing bearer token") (bearerToken hs) >>= _).run
    cases hb : bearerToken hs with
    | none => exact nofun
    | some token =>
      obtain ⟨address, domain, createdAt, expiresAt, hash, device⟩ := mb
      cases hash with
      | none => exact nofun
      | some want =>
        show Prog.Obeys _ _ _ (if tokenMatchesHash app.deps token want then return _
          else throw (.unauthorized "invalid owner token") : Handler Mailbox).run
        split
        · next hm =>
          rintro _ ⟨⟩
          exact ⟨rfl, by simp, token, want, hb, rfl, hm⟩
        · exact nofun

theorem safe_authorizeOwner_bind {Φ : Hist → Eff → Prop} {f : Mailbox → Handler β}
    (he : Φ h (.store (.getMailbox a)))
    (hf : ∀ mb, Authorized app (h ++ [⟨.store (.getMailbox a), .ok (some mb)⟩]) a hs mb →
      Safe Φ (h ++ [⟨.store (.getMailbox a), .ok (some mb)⟩]) (f mb).run) :
    Safe Φ h (authorizeOwner app a hs >>= f).run := by
  refine bind_of_obeys (authorizeOwner_obeys he) fun h' mb hQ => ?_
  obtain ⟨rfl, hauth⟩ := hQ
  exact hf mb hauth

/-- The gates at the start of an owner-gated request. -/
theorem safe_owner {f : Mailbox → Handler β}
    (hf : ∀ h mb, Authorized app h a hs mb → Ungated h → Safe (Protocol app t) h (f mb).run) :
    Safe (Protocol app t) [] (do
      let _ ← attestationGate app hs
      let mb ← authorizeOwner app a hs
      f mb : Handler β).run := by
  refine bind_only (passive_attestationGate hs) (fun _ _ he => he.protocol) fun l _ hl => ?_
  have hread : Eff.Passive (.store (.getMailbox a)) := rfl
  refine safe_authorizeOwner_bind hread.protocol fun mb hauth => hf _ mb hauth ?_
  have hnil : Ungated [] := fun _ hev => absurd hev List.not_mem_nil
  refine (hnil.append hl).append fun ev hev => ?_
  rw [List.mem_singleton.mp hev]
  exact hread

/-- A new expiry that passes is within the lifetime of the tier. -/
theorem checkLifetime_yields {Φ : Hist → Eff → Prop} (hasks : ∀ h e, Eff.Asks e → Φ h e)
    (mb : Mailbox) (x : DateTime) : Yields Φ (fun h' _ => Decoded h h' ∧
      (app.config.entitlementsEnforced → ∃ p, TierShown app h' p ∧ (0 < p.maxLifetimeSeconds →
        ∃ limit, Duration.trySeconds (asI64 p.maxLifetimeSeconds) = some limit ∧
          x - mb.createdAt ≤ limit))) h (Addresses.checkLifetime app mb x hs) := by
  refine Yields.bind (enforcedTier_yields fun h e he => hasks h e he.1) fun h' tier H => ?_
  obtain ⟨hle, hnone, hsome⟩ := H
  cases tier with
  | none => exact yields_pure ⟨hle, fun hon => absurd hon (hnone rfl)⟩
  | some tier =>
    have hshown := hsome tier rfl
    dsimp only
    split
    · refine yields_orPanic_bind (fun _ => hasks _ _ trivial) fun limit hlimit => ?_
      split
      · exact yields_throw
      · next hle' =>
        exact yields_pure ⟨hle, fun _ => ⟨_, hshown, fun _ => ⟨limit, hlimit, not_lt.mp hle'⟩⟩⟩
    · next hzero => exact yields_pure ⟨hle, fun _ => ⟨_, hshown, fun hpos => absurd hpos hzero⟩⟩

theorem safe_extend (a : String) (hs : HeaderMap) :
    Safe (Protocol app (.http (.extendAddress a hs))) [] (Addresses.extend app a hs).run := by
  have hasks : ∀ h e, Eff.Asks e → Protocol app (.http (.extendAddress a hs)) h e :=
    fun _ _ he => he.passive.protocol
  refine safe_owner fun h mb hauth hh => ?_
  refine Yields.safe_bind (expiryFromNow_yields (fun h e he => hasks h e he.1) (fun _ => trivial)
    fun _ _ => trivial) ?_
  rintro _ x ⟨t, rfl, hx⟩
  refine Yields.safe_bind (checkLifetime_yields hasks mb x) ?_
  rintro h' _ ⟨hle, hlife⟩
  refine safe_store_bind ?_ fun _ => safe_okOr
  have hread := hle.lastRead_eq
  obtain ⟨l, rfl, hl⟩ := hle.asked
  refine protocol_gated rfl rfl ((hauth.append _).append l) ((hh.append ?_).append ?_) nofun ?_
  · simp [Eff.Passive]
  · exact fun ev hev => (hl ev hev).passive
  rintro _ ⟨⟩
  refine ⟨⟨t, by rw [hread, lastRead_concat]; rfl, hx⟩, fun hon => ?_⟩
  obtain ⟨p, hp, hlimit⟩ := hlife hon
  exact ⟨p, mb, hp, ((hauth.append _).append l).1, hlimit⟩

theorem safe_deleteAddress (a : String) (hs : HeaderMap) :
    Safe (Protocol app (.http (.deleteAddress a hs))) [] (Addresses.delete app a hs).run := by
  refine safe_owner fun h mb hauth hh => ?_
  refine safe_store_bind (protocol_gated rfl rfl hauth hh) fun r => ?_
  split
  · exact safe_pure
  · exact safe_throw

theorem safe_rotate (a : String) (hs : HeaderMap) :
    Safe (Protocol app (.http (.rotateAddress a hs))) [] (Addresses.rotate app a hs).run := by
  refine safe_owner fun h mb hauth hh => ?_
  refine bind_only (passive_generateToken _) (fun _ _ he => he.protocol) fun l x hl => ?_
  refine safe_store_bind (protocol_gated rfl rfl (hauth.append l) (hh.append hl)
    fun _ _ => ⟨a, hs, rfl⟩) fun r => ?_
  split
  · exact safe_pure
  · exact safe_throw

theorem safe_clear (a : String) (hs : HeaderMap) :
    Safe (Protocol app (.http (.clearMessages a hs))) [] (Messages.clear app a hs).run :=
  safe_owner fun _ _ hauth hh => safe_store (protocol_gated rfl rfl hauth hh)

theorem safe_deleteMessage (a : String) (id : Uuid) (hs : HeaderMap) :
    Safe (Protocol app (.http (.deleteMessage a id hs))) [] (Messages.delete app a id hs).run := by
  refine safe_owner fun h mb hauth hh => ?_
  refine safe_store_bind (protocol_gated rfl rfl hauth hh) fun r => ?_
  split
  · exact safe_pure
  · exact safe_throw

theorem safe_register (a : String) (hs : HeaderMap) (body : Option SubscribeRequest)
    (kind : SubscriptionKind) (endpoint p256dh auth : String) :
    Safe (Protocol app (.http (.subscribe a hs body))) []
      (Push.register app a hs kind endpoint p256dh auth).run := by
  refine safe_owner fun h mb hauth hh => ?_
  refine safe_perform_bind (protocol_gated rfl rfl hauth hh) fun r => ?_
  split
  · exact safe_pure
  · exact safe_throw
  · exact safe_throw

theorem safe_subscribe (a : String) (hs : HeaderMap) (body : Option SubscribeRequest) :
    Safe (Protocol app (.http (.subscribe a hs body))) [] (Push.subscribe app a hs body).run := by
  unfold Push.subscribe
  split
  · exact safe_throw
  · split
    · exact safe_throw
    · split <;> split <;> first | exact safe_throw | exact safe_register ..

theorem safe_unsubscribe (a : String) (hs : HeaderMap) (body : Option UnsubscribeRequest) :
    Safe (Protocol app (.http (.unsubscribe a hs body))) [] (Push.unsubscribe app a hs body).run := by
  unfold Push.unsubscribe
  split
  · exact safe_throw
  · refine safe_owner fun h mb hauth hh => ?_
    refine safe_store_bind (protocol_gated rfl rfl hauth hh) fun r => ?_
    split
    · exact safe_pure
    · exact safe_throw

/-! ## Custom domains -/

end Api

theorem safe_checkAndRecord {d : CustomDomain} (hsnap : d ∈ snapshots h) :
    Safe (Protocol app t) h (checkAndRecord app.config d) := by
  refine safe_call trivial fun txts => safe_call trivial fun hosts => safe_call trivial fun now => ?_
  refine safe_call ⟨nofun, d, txts, hosts, ⟨h, hsnap, by simp⟩, rfl, rfl⟩ fun r => ?_
  cases r with
  | ok _ => exact safe_ret
  | error e => exact safe_ret

theorem safe_recheckAll {due : List CustomDomain} (hsnap : ∀ d ∈ due, d ∈ snapshots h) :
    Safe (Protocol app t) h (recheckAll app.config due) := by
  induction due generalizing h with
  | nil => exact safe_ret
  | cons d due ih =>
    refine (safe_checkAndRecord (hsnap d List.mem_cons_self)).bind fun h' _ hle => ih ?_
    exact fun d' hd' => snapshots_mono (hsnap d' (List.mem_cons_of_mem _ hd')) hle

theorem safe_reverifyScan : Safe (Protocol app t) [] (reverifyScan app.config) := by
  refine safe_call trivial fun now => safe_call ⟨nofun, trivial⟩ fun r => ?_
  cases r with
  | error e => exact safe_ret
  | ok due => exact safe_recheckAll fun d hd => by simpa [snapshots, claimsRead] using hd

namespace Api

/-- The claim that `authorize_domain` returns is one the request has read. -/
theorem safe_authorizeDomain_bind {Φ : Hist → Eff → Prop} {f : CustomDomain → Handler β}
    (he : ∀ name, Φ h (.store (.getCustomDomain name)))
    (hf : ∀ h' d, h <+: h' → d ∈ snapshots h' → Safe Φ h' (f d).run) :
    Safe Φ h (authorizeDomain app name hs >>= f).run := by
  have hspec : Prog.Obeys Φ (fun h' r => ∀ d, r = .ok d → h <+: h' ∧ d ∈ snapshots h') h
      (authorizeDomain app name hs).run := by
    refine ⟨he _, fun r => ?_⟩
    match r with
    | .error e => exact nofun
    | .ok none => exact nofun
    | .ok (some d) =>
      show Prog.Obeys _ _ _ (okOr (.unauthorized "missing bearer token") (bearerToken hs) >>= _).run
      cases bearerToken hs with
      | none => exact nofun
      | some token =>
        show Prog.Obeys _ _ _ (if tokenMatchesHash app.deps token d.claimTokenHash then return d
          else throw (.unauthorized "invalid claim token") : Handler CustomDomain).run
        split
        · rintro _ ⟨⟩
          exact ⟨List.prefix_append .., by simp [snapshots, claimsRead]⟩
        · exact nofun
  exact bind_of_obeys hspec fun h' d hQ => hf h' d hQ.1 hQ.2

theorem safe_verifyDomain (name : String) (hs : HeaderMap) :
    Safe (Protocol app t) [] (CustomDomains.verify app name hs).run := by
  refine bind_only (passive_attestationGate hs) (fun _ _ he => he.protocol) fun l _ _ => ?_
  refine safe_authorizeDomain_bind (fun _ => ⟨nofun, trivial⟩) fun h d _ hsnap => ?_
  refine safe_perform_bind trivial fun b => ?_
  split
  · exact safe_throw
  · refine safe_lift_bind (safe_checkAndRecord (snapshots_mono hsnap (List.prefix_append ..))) fun _ r _ => ?_
    split
    · exact safe_throw
    · exact safe_pure

theorem safe_deleteDomain (name : String) (hs : HeaderMap) :
    Safe (Protocol app t) [] (CustomDomains.delete app name hs).run := by
  refine bind_only (passive_attestationGate hs) (fun _ _ he => he.protocol) fun l _ _ => ?_
  refine safe_authorizeDomain_bind (fun _ => ⟨nofun, trivial⟩) fun h d _ _ => ?_
  refine safe_store_bind ⟨nofun, trivial⟩ fun r => ?_
  split
  · exact safe_pure
  · exact safe_throw

theorem safe_getDomain (name : String) (hs : HeaderMap) :
    Safe (Protocol app t) [] (CustomDomains.get app name hs).run :=
  safe_authorizeDomain_bind (fun _ => ⟨nofun, trivial⟩) fun _ _ _ _ => safe_pure

theorem safe_generateTxtToken_bind {Φ : Hist → Eff → Prop} {f : String → Handler β}
    (he : Φ h (.randomBytes 16)) (hf : ∀ bs, Safe Φ (h ++ [⟨.randomBytes 16, bs⟩]) (f (hex bs)).run) :
    Safe Φ h ((ExceptT.lift generateTxtToken : Handler String) >>= f).run := safe_call he hf

theorem safe_claim (peer : IpAddr) (hs : HeaderMap) (raw : String)
    (htier : app.config.entitlementsEnforced → ∃ p, TierShown app h p ∧ p.customDomains) :
    Safe (Protocol app t) h (CustomDomains.create.claim app peer hs raw).run := by
  unfold CustomDomains.create.claim
  split
  · exact safe_throw
  · next hvalid =>
    refine safe_perform_bind trivial fun now => safe_perform_bind trivial fun b => ?_
    split
    · exact safe_throw
    · refine bind_only (passive_generateToken _) (fun _ _ he => he.protocol) fun l _ _ => ?_
      refine safe_generateTxtToken_bind trivial fun bs => ?_
      refine safe_perform_bind ⟨nofun, ⟨raw, hvalid⟩, ⟨_, bs, rfl, rfl⟩, fun hon => ?_⟩ fun r => ?_
      · obtain ⟨p, hp, hcustom⟩ := htier hon
        exact ⟨p, hp.mono (by simp [List.append_assoc]), hcustom⟩
      split
      · exact safe_pure
      · split
        · exact safe_throw
        · exact safe_throw

theorem safe_createDomain (peer : IpAddr) (hs : HeaderMap) (raw : String) :
    Safe (Protocol app t) [] (CustomDomains.create app peer hs raw).run := by
  refine bind_only (passive_attestationGate hs) (fun _ _ he => he.protocol) fun l _ _ => ?_
  refine Yields.safe_bind (enforcedTier_yields fun _ _ he => he.1.passive.protocol) ?_
  rintro h' tier ⟨-, hnone, hsome⟩
  cases tier with
  | some tier =>
    dsimp only
    split
    · exact safe_throw
    · next hcustom =>
      exact safe_claim peer hs raw fun _ => ⟨_, hsome tier rfl, by simpa using hcustom⟩
  | none => exact safe_claim peer hs raw fun hon => absurd hon (hnone rfl)

/-! ## The attestation flow -/

theorem safe_challenge : Safe (Protocol app t) [] (Client.challenge app).run := by
  refine safe_okOr_bind fun _ _ => ?_
  refine safe_perform_bind trivial fun bs => safe_perform_bind trivial fun now => ?_
  exact safe_perform_bind ⟨bs, rfl, rfl⟩ fun _ => safe_pure

/-- The checks at the start of `attest` and `assert`: the challenge has been redeemed. -/
theorem safe_redeem {f : String → Handler β} (ht : t.challenge = some challenge)
    (hf : ∀ appId, Safe (Protocol app t) [⟨.consumeChallenge challenge, true⟩] (f appId).run) :
    Safe (Protocol app t) [] (do
      let appId ← Client.requireConfigured app
      Client.validateKeyId keyId
      Client.consumeChallenge challenge
      f appId : Handler β).run := by
  refine safe_okOr_bind fun appId _ => ?_
  unfold Client.validateKeyId
  split
  · exact safe_throw
  · refine safe_call ⟨ht, rfl⟩ fun b => ?_
    cases b with
    | false => exact safe_throw
    | true => exact hf appId

theorem safe_attest (req : AttestRequest) :
    Safe (Protocol app (.http (.attest req))) [] (Client.attest app req).run := by
  refine safe_redeem rfl fun appId => ?_
  split
  · exact safe_throw
  · refine safe_perform_bind trivial fun now => ?_
    refine safe_store_bind ⟨nofun, req, rfl, rfl, by simp⟩ fun _ => ?_
    exact (passive_mint _ _).protocol

theorem safe_assert (req : AssertRequest) :
    Safe (Protocol app (.http (.assert req))) [] (Client.assert app req).run := by
  refine safe_redeem rfl fun appId => ?_
  refine safe_store_bind ⟨nofun, trivial⟩ fun found => ?_
  cases found with
  | none => exact safe_throw
  | some device =>
    dsimp only
    split
    · exact safe_throw
    · next hok =>
      refine safe_perform_bind trivial fun now => ?_
      refine safe_store_bind ⟨nofun, req, device, appId, rfl, rfl, by simp, by simp, hok⟩ fun b => ?_
      split
      · exact safe_throw
      · exact (passive_mint _ _).protocol

/-! ## Tasks that the protocol leaves alone -/

theorem safe_createAddress (peer : IpAddr) (hs : HeaderMap) (body : Option CreateAddressRequest) :
    Safe (Protocol app (.http (.createAddress peer hs body))) []
      (Addresses.create app peer hs (body.getD ⟨none, none⟩)).run := by
  refine safe_create (fun _ _ he => he.1.passive.protocol) (fun h a d x owner device H _ => ?_)
    (fun _ _ => trivial) (fun _ _ _ => trivial) peer
  exact ⟨nofun, H⟩

theorem passive_verifyEntitlements (hs : HeaderMap) (id : Option String) :
    Only Eff.Passive (Entitlements.verify app hs id).run := by
  intro h
  refine safe_okOr_bind fun key _ => ?_
  refine Safe.bind (passive_attestationGate hs h) fun h₁ _ _ => ?_
  refine Safe.bind (passive_resolveTier id h₁) fun h₂ tier _ => ?_
  exact Safe.bind (passive_mintClientToken _ _ _ _ h₂) fun _ _ _ => safe_pure

theorem passive_getAddress (a : String) : Only Eff.Passive (Addresses.get a).run :=
  fun _ => safe_store_bind rfl fun _ => safe_okOr

theorem passive_getMessage (a : String) (id : Uuid) : Only Eff.Passive (Messages.get a id).run :=
  fun _ => safe_store_bind rfl fun _ => safe_okOr

theorem passive_getRaw (a : String) (id : Uuid) : Only Eff.Passive (Messages.getRaw a id).run :=
  fun _ => safe_store_bind rfl fun _ => safe_okOr

theorem passive_getAttachment (a : String) (id att : Uuid) :
    Only Eff.Passive (Messages.getAttachment a id att).run :=
  fun _ => safe_store_bind rfl fun _ => safe_okOr

end Api

namespace Smtp

theorem TurnCall.protocol {s : Session} (he : TurnCall app s h e) :
    Protocol app (.smtp n tls input) h e := by
  obtain he | ⟨a, d, x, hc, rfl⟩ | ⟨_, _, _, _, rfl⟩ | ⟨_, rfl⟩ := he
  · exact he.passive.protocol
  · exact ⟨nofun, hc, rfl, rfl⟩
  · exact ⟨nofun, trivial⟩
  · trivial

theorem safe_turns (ctx : SmtpContext) (n : Nat) (s : Session) (conn : Conn) (h : Hist) :
    Safe (Protocol ctx.app (.smtp n' tls input)) h (turns ctx n s conn).run := by
  induction n generalizing s conn h with
  | zero => exact safe_pure
  | succ n ih =>
    refine Safe.bind ((turnCalls_step ctx s conn h).imp fun _ _ he => he.protocol) fun h' next _ => ?_
    split
    · exact safe_pure
    · exact ih _ _ h'

theorem safe_session (ctx : SmtpContext) (n : Nat) (input : Reader) :
    Safe (Protocol ctx.app (.smtp n tls input)) [] (handle ctx n input).run :=
  Safe.bind (safe_writeLine trivial) fun h' _ _ => safe_turns ctx n _ _ h'

end Smtp

/-! ## All tasks -/

theorem safe_cleanupTick : Safe (Protocol app .cleanup) h cleanupTick := by
  refine safe_call_bind trivial fun _ => safe_call_bind ⟨nofun, rfl⟩ fun _ => ?_
  refine safe_call_bind trivial fun _ => safe_call_bind ⟨nofun, trivial⟩ fun _ => ?_
  exact safe_call_bind ⟨nofun, trivial⟩ fun _ => safe_ret

namespace Api

theorem passive_list (a : String) (limit : Option Nat) (since : Option Uuid) :
    Only Eff.Passive (Messages.list a limit since).run :=
  fun _ => safe_store_bind rfl fun _ => safe_okOr_bind fun _ _ => safe_store rfl

theorem passive_ready : Only Eff.Passive ready.run := by
  intro h
  refine safe_perform_bind rfl fun r => ?_
  split
  · exact safe_throw
  · exact safe_pure

theorem passive_events (a : String) (peer : IpAddr) (hs : HeaderMap) :
    Only Eff.Passive (events app a peer hs).run := by
  intro h
  refine safe_perform_bind trivial fun b => ?_
  split
  · exact safe_pure
  · exact safe_throw

theorem safe_markRead (a : String) (id : Uuid) :
    Safe (Protocol app (.http (.markRead a id))) [] (Messages.markRead a id).run := by
  refine safe_store_bind ⟨nofun, a, rfl, rfl⟩ fun b => ?_
  split
  · exact safe_pure
  · exact safe_throw

theorem safe_ifCustomDomains {x : Handler Response} (hx : Safe (Protocol app t) h x.run) :
    Safe (Protocol app t) h (ifCustomDomains app x).run := by
  unfold ifCustomDomains
  split
  · exact hx
  · exact safe_throw

theorem safe_handle (req : Request) :
    Safe (Protocol app (.http req)) [] (handle app req).run := by
  cases req with
  | health | capabilities | listDomains | pushConfig => exact safe_pure
  | ready => exact safe_map passive_ready.protocol
  | createAddress peer hs body => exact safe_map (safe_createAddress peer hs body)
  | getAddress a => exact safe_map (passive_getAddress a).protocol
  | deleteAddress a hs => exact Safe.bind (safe_deleteAddress a hs) fun _ _ _ => safe_pure
  | extendAddress a hs => exact safe_map (safe_extend a hs)
  | rotateAddress a hs => exact safe_map (safe_rotate a hs)
  | listMessages a limit since => exact safe_map (passive_list _ _ _).protocol
  | clearMessages a hs => exact safe_map (safe_clear a hs)
  | getMessage a id => exact safe_map (passive_getMessage a id).protocol
  | deleteMessage a id hs => exact Safe.bind (safe_deleteMessage a id hs) fun _ _ _ => safe_pure
  | markRead a id => exact Safe.bind (safe_markRead a id) fun _ _ _ => safe_pure
  | getRaw a id => exact safe_map (passive_getRaw a id).protocol
  | getAttachment a id att => exact safe_map (passive_getAttachment a id att).protocol
  | vapidPublicKey => exact safe_map safe_okOr
  | subscribe a hs body => exact safe_map (safe_subscribe a hs body)
  | unsubscribe a hs body => exact Safe.bind (safe_unsubscribe a hs body) fun _ _ _ => safe_pure
  | verifyEntitlements hs id => exact safe_map (passive_verifyEntitlements _ _).protocol
  | challenge => exact safe_map safe_challenge
  | attest req => exact safe_map (safe_attest req)
  | assert req => exact safe_map (safe_assert req)
  | createDomain peer hs d => exact safe_ifCustomDomains (safe_map (safe_createDomain peer hs d))
  | getDomain d hs => exact safe_ifCustomDomains (safe_map (safe_getDomain d hs))
  | verifyDomain d hs => exact safe_ifCustomDomains (safe_map (safe_verifyDomain d hs))
  | deleteDomain d hs =>
    exact safe_ifCustomDomains (Safe.bind (safe_deleteDomain d hs) fun _ _ _ => safe_pure)
  | events a peer hs => exact safe_map (passive_events _ _ _).protocol

end Api

/-- Every task keeps to its protocol. -/
theorem task_safe (app : AppState) (t : Task) : Safe (Protocol app t) [] (t.prog app) := by
  cases t with
  | http req => exact (Api.safe_handle req).map
  | smtp n tls input =>
    exact Safe.bind (Smtp.safe_session ⟨app, tls⟩ n input) fun _ _ _ => safe_ret
  | reverify => exact Safe.bind safe_reverifyScan fun _ _ _ => safe_ret
  | cleanup => exact Safe.bind safe_cleanupTick fun _ _ _ => safe_ret

end AnonyMail
