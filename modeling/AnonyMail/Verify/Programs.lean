import AnonyMail.Verify.Session

/-! # How the programs are put together

Most of the calls of a program are plain. The others create a mailbox or a claim, save a message,
read one whole, or announce one. `Closed` says what a property of programs needs in order to hold of
a program all of whose calls are plain; it then holds of a handler or a session if it holds of the
few blocks around the other calls. -/

namespace AnonyMail

open Calls Prog

def Eff.Plain : Eff → Prop
  | .store op =>
    match op with
    | .createMailbox .. | .saveMessage .. | .getMessage .. | .listSubscriptions _
    | .createCustomDomain .. => False
    | _ => True
  | .publish _ => False
  | _ => True

theorem Eff.Asks.plain {e : Eff} (he : e.Asks) : e.Plain := by
  cases e with
  | store op => cases op <;> trivial
  | _ => trivial

theorem Eff.Talk.plain {e : Eff} (he : e.Talk) : e.Plain := by
  cases e with
  | store op => cases op <;> trivial
  | _ => trivial

structure Closed (P : ∀ {α : Type}, Run α → Prop) : Prop where
  ret {α : Type} (a : α) : P (.ret a)
  bind {α β : Type} {p : Run α} {f : α → Run β} : P p → (∀ a, P (f a)) → P (p >>= f)
  call {e : Eff} : e.Plain → P (call e)

variable {P : ∀ {α : Type}, Run α → Prop} {α β : Type}

theorem Closed.of_plain (hP : Closed P) {p : Run α} (hp : Only Eff.Plain p) : P p := by
  replace hp := hp []
  generalize ([] : Hist) = h at hp
  induction p generalizing h with
  | ret a => exact hP.ret a
  | call e k ih => exact hP.bind (hP.call hp.obeys.1) fun r => ih r _ (hp.answer r)

theorem Closed.call_bind (hP : Closed P) {e : Eff} {f : e.Ans → Run α} (he : e.Plain)
    (hf : ∀ r, P (f r)) : P (AnonyMail.call e >>= f) := hP.bind (hP.call he) hf

namespace Api

variable {app : AppState} {hs : HeaderMap} {x : Handler α} {f : α → Handler β}

theorem closed_bind (hP : Closed P) (hx : P x.run) (hf : ∀ a, P (f a).run) : P (x >>= f).run := by
  rw [run_bind]
  refine hP.bind hx fun r => ?_
  cases r with
  | ok a => exact hf a
  | error e => exact hP.ret _

theorem closed_map (hP : Closed P) {g : α → β} (hx : P x.run) : P (g <$> x).run :=
  closed_bind hP hx fun _ => hP.ret _

/-! ## Handlers all of whose calls are of one kind -/

section
variable {N : Eff → Prop}

theorem only_bind (hx : Only N x.run) (hf : ∀ a, Only N (f a).run) : Only N (x >>= f).run :=
  fun h => Safe.bind (hx h) fun h' a _ => hf a h'

theorem only_perform {e : Eff} (he : N e) : Only N (perform e).run :=
  fun _ => safe_call he fun _ => safe_ret

theorem only_perform_bind {e : Eff} {f : e.Ans → Handler β} (he : N e)
    (hf : ∀ r, Only N (f r).run) : Only N (perform e >>= f).run :=
  fun _ => safe_perform_bind he fun r => hf r _

theorem only_store {op : StoreOp} (he : N (.store op)) : Only N (store op).run := fun _ => safe_store he

theorem only_pure {a : α} : Only N (pure a : Handler α).run := fun _ => safe_pure

theorem only_throw {e : ApiError} : Only N (throw e : Handler α).run := fun _ => safe_throw

theorem only_okOr {e : ApiError} {o : Option α} : Only N (okOr e o).run := fun _ => safe_okOr

theorem only_orPanic {o : Option α} (he : N .panic) : Only N (orPanic o).run := fun _ => safe_orPanic he

end

/-! ## Handlers all of whose calls are plain -/

/-- A call whose answer decides between two ends. -/
theorem plain_decide {op : StoreOp} {g : op.Out → Bool} {a : α} {e : ApiError}
    (he : Eff.Plain (.store op)) :
    Only Eff.Plain (store op >>= fun b => if g b then pure a else throw e : Handler α).run :=
  only_bind (only_store he) fun b => by
    split
    · exact only_pure
    · exact only_throw

/-! ## The gates -/

theorem plain_of_asks {Q : Hist → Hist → α → Prop}
    (hx : ∀ h, Yields (fun _ e => e.Asks) (Q h) h x) : Only Eff.Plain x.run :=
  (only_of_yields hx).imp fun _ he => he.plain

theorem queries_asks : ∀ (_ : Hist) e, Eff.Queries e → Eff.Asks e := fun _ _ he => he.1

theorem plain_attestationGate (hs : HeaderMap) : Only Eff.Plain (attestationGate app hs).run :=
  plain_of_asks fun _ => attestationGate_yields queries_asks

theorem plain_enforcedTier (hs : HeaderMap) : Only Eff.Plain (enforcedTier app hs).run :=
  plain_of_asks fun _ => enforcedTier_yields queries_asks

theorem plain_generateToken (pre : String) : Only Eff.Plain (generateToken app.deps pre).run :=
  plain_of_asks fun _ => generateToken_yields queries_asks pre

theorem plain_expiryFromNow : Only Eff.Plain (Addresses.expiryFromNow app).run :=
  plain_of_asks fun _ => expiryFromNow_yields queries_asks (fun _ => trivial) fun _ _ => trivial

theorem plain_randomLocalPart : Only Eff.Plain Addresses.randomLocalPart.run :=
  plain_of_asks fun _ => randomLocalPart_yields queries_asks

theorem plain_authorizeOwner (a : String) (hs : HeaderMap) :
    Only Eff.Plain (authorizeOwner app a hs).run := by
  refine only_bind (only_store trivial) fun o => only_bind only_okOr fun mb => ?_
  refine only_bind only_okOr fun token => ?_
  split
  · exact only_throw
  · split
    · exact only_pure
    · exact only_throw

/-- The frame of the handlers that only the owner may use. -/
theorem plain_owner {f : Mailbox → Handler β} (a : String) (hs : HeaderMap)
    (hf : ∀ mb, Only Eff.Plain (f mb).run) : Only Eff.Plain (do
      let _ ← attestationGate app hs
      let mb ← authorizeOwner app a hs
      f mb : Handler β).run :=
  only_bind (plain_attestationGate hs) fun _ => only_bind (plain_authorizeOwner a hs) hf

/-! ## Addresses -/

theorem plain_checkLifetime (mb : Mailbox) (x : DateTime) :
    Only Eff.Plain (Addresses.checkLifetime app mb x hs).run := by
  refine only_bind (plain_enforcedTier hs) fun tier => ?_
  split
  · exact only_pure
  · dsimp only
    split
    · refine only_bind (only_orPanic trivial) fun limit => ?_
      split
      · exact only_throw
      · exact only_pure
    · exact only_pure

theorem plain_extend (a : String) (hs : HeaderMap) : Only Eff.Plain (Addresses.extend app a hs).run :=
  plain_owner _ hs fun mb => only_bind plain_expiryFromNow fun x =>
    only_bind (plain_checkLifetime mb x) fun _ => only_bind (only_store trivial) fun _ => only_okOr

theorem plain_rotate (a : String) (hs : HeaderMap) :
    Only Eff.Plain (Addresses.rotate app a hs).run :=
  plain_owner _ hs fun _ => only_bind (plain_generateToken _) fun _ => plain_decide trivial

/-- `POST /api/addresses` around the two ways of writing the row. -/
theorem closed_create (hP : Closed P) (peer : IpAddr) (hs : HeaderMap) (req : CreateAddressRequest)
    (hcustom : ∀ l d x device, P (Addresses.createCustom app l d x device).run)
    (hrandom : ∀ d x device n, P (Addresses.createRandom app d x device n).run) :
    P (Addresses.create app peer hs req).run := by
  have hplain : ∀ {γ : Type} {x : Handler γ}, Only Eff.Plain x.run → P x.run := hP.of_plain
  refine closed_bind hP (hplain (plain_attestationGate hs)) fun client => ?_
  refine closed_bind hP (hplain ?_) fun d => ?_
  · exact plain_of_asks fun _ => chooseDomain_yields queries_asks _
  refine closed_bind hP (hplain ?_) fun l => ?_
  · exact plain_of_asks fun _ => chooseLocalPart_yields _
  refine closed_bind hP (hplain ?_) fun _ => ?_
  · exact plain_of_asks fun _ => checkMailboxCap_yields queries_asks
  refine closed_bind hP (hplain (only_perform trivial)) fun now => ?_
  refine closed_bind hP (hplain (only_perform trivial)) fun ok => ?_
  split
  · exact hP.ret _
  · refine closed_bind hP (hplain plain_expiryFromNow) fun x => ?_
    split
    · exact hcustom _ d x _
    · exact hrandom d x _ _

/-! ## The other endpoints -/

theorem plain_subscribe (a : String) (hs : HeaderMap) (body : Option SubscribeRequest) :
    Only Eff.Plain (Push.subscribe app a hs body).run := by
  have hregister : ∀ kind endpoint p256dh auth,
      Only Eff.Plain (Push.register app a hs kind endpoint p256dh auth).run := by
    intro kind endpoint p256dh auth
    refine plain_owner _ hs fun mb => only_bind (only_perform trivial) fun r => ?_
    split
    · exact only_pure
    · exact only_throw
    · exact only_throw
  unfold Push.subscribe
  split
  · exact only_throw
  · split
    · exact only_throw
    · split <;> split
      · exact only_throw
      · exact hregister _ _ _ _
      · exact only_throw
      · exact hregister _ _ _ _

theorem plain_unsubscribe (a : String) (hs : HeaderMap) (body : Option UnsubscribeRequest) :
    Only Eff.Plain (Push.unsubscribe app a hs body).run := by
  unfold Push.unsubscribe
  split
  · exact only_throw
  · exact plain_owner _ hs fun _ => plain_decide trivial

theorem plain_resolveTier (id : Option String) : Only Eff.Plain (resolveTier app id).run := by
  unfold resolveTier
  split
  · refine only_bind (only_perform trivial) fun r => ?_
    split
    · exact only_pure
    · exact only_pure
    · exact only_throw
  · exact only_pure

theorem plain_mintClientToken (key : List UInt8) (kind : String) (kid : Option String) (tier : Tier) :
    Only Eff.Plain (mintClientToken app key kind kid tier).run :=
  only_bind (only_perform trivial) fun _ => only_bind (only_orPanic trivial) fun _ =>
    only_bind only_okOr fun _ => only_pure

theorem plain_mint (keyId : String) (id : Option String) :
    Only Eff.Plain (Client.mint app keyId id).run :=
  only_bind only_okOr fun _ => only_bind (plain_resolveTier id) fun _ =>
    only_bind (plain_mintClientToken _ _ _ _) fun _ => only_pure

theorem plain_verifyEntitlements (hs : HeaderMap) (id : Option String) :
    Only Eff.Plain (Entitlements.verify app hs id).run :=
  only_bind only_okOr fun _ => only_bind (plain_attestationGate hs) fun _ =>
    only_bind (plain_resolveTier id) fun _ => only_bind (plain_mintClientToken _ _ _ _) fun _ => only_pure

theorem plain_challenge : Only Eff.Plain (Client.challenge app).run :=
  only_bind only_okOr fun _ => only_bind (only_perform trivial) fun _ =>
    only_bind (only_perform trivial) fun _ => only_bind (only_perform trivial) fun _ => only_pure

theorem plain_redeem {f : String → Handler β} (keyId challenge : String)
    (hf : ∀ appId, Only Eff.Plain (f appId).run) : Only Eff.Plain (do
      let appId ← Client.requireConfigured app
      Client.validateKeyId keyId
      Client.consumeChallenge challenge
      f appId : Handler β).run := by
  refine only_bind only_okOr fun appId => only_bind ?_ fun _ => only_bind ?_ fun _ => hf appId
  · unfold Client.validateKeyId
    split
    · exact only_throw
    · exact only_pure
  · refine only_bind (only_perform trivial) fun b => ?_
    split
    · exact only_throw
    · exact only_pure

theorem plain_attest (req : AttestRequest) : Only Eff.Plain (Client.attest app req).run := by
  refine plain_redeem _ _ fun appId => ?_
  split
  · exact only_throw
  · exact only_bind (only_perform trivial) fun _ => only_bind (only_store trivial) fun _ =>
      plain_mint _ _

theorem plain_assert (req : AssertRequest) : Only Eff.Plain (Client.assert app req).run := by
  refine plain_redeem _ _ fun appId => only_bind (only_store trivial) fun found => ?_
  split
  · exact only_throw
  · split
    · exact only_throw
    · refine only_bind (only_perform trivial) fun _ => only_bind (only_store trivial) fun b => ?_
      split
      · exact only_throw
      · exact plain_mint _ _

end Api

/-! ## Custom domains -/

open CustomDomains

variable {cfg : Config}

theorem plain_checkAndRecord (d : CustomDomain) : Only Eff.Plain (checkAndRecord cfg d) := by
  refine fun _ => safe_call trivial fun _ => safe_call trivial fun _ => safe_call trivial fun _ => ?_
  refine safe_call trivial fun r => ?_
  cases r <;> exact safe_ret

theorem plain_recheckAll (due : List CustomDomain) : Only Eff.Plain (recheckAll cfg due) := by
  induction due with
  | nil => exact fun _ => safe_ret
  | cons d due ih => exact fun h => (plain_checkAndRecord d h).bind fun h' _ _ => ih h'

theorem plain_reverifyScan : Only Eff.Plain (reverifyScan cfg) := by
  refine fun _ => safe_call trivial fun now => safe_call trivial fun r => ?_
  cases r with
  | error e => exact safe_ret
  | ok due => exact plain_recheckAll due _

theorem plain_cleanupTick : Only Eff.Plain cleanupTick :=
  fun _ => safe_call trivial fun _ => safe_call trivial fun _ => safe_call trivial fun _ =>
    safe_call trivial fun _ => safe_call trivial fun _ => safe_ret

namespace Api

variable {app : AppState} {hs : HeaderMap} {x : Handler α}

theorem plain_lift {p : Run α} (hp : Only Eff.Plain p) :
    Only Eff.Plain (ExceptT.lift p : Handler α).run := fun h => (hp h).map

theorem plain_generateTxtToken :
    Only Eff.Plain (ExceptT.lift generateTxtToken : Handler String).run :=
  plain_lift fun _ => safe_call trivial fun _ => safe_ret

theorem plain_authorizeDomain (name : String) (hs : HeaderMap) :
    Only Eff.Plain (authorizeDomain app name hs).run := by
  refine only_bind (only_store trivial) fun o => only_bind only_okOr fun record => ?_
  refine only_bind only_okOr fun token => ?_
  split
  · exact only_pure
  · exact only_throw

theorem plain_verifyDomain (name : String) (hs : HeaderMap) :
    Only Eff.Plain (CustomDomains.verify app name hs).run := by
  refine only_bind (plain_attestationGate hs) fun _ => only_bind (plain_authorizeDomain name hs)
    fun d => only_bind (only_perform trivial) fun b => ?_
  split
  · exact only_throw
  · refine only_bind (plain_lift (plain_checkAndRecord d)) fun r => ?_
    split
    · exact only_throw
    · exact only_pure

theorem plain_deleteDomain (name : String) (hs : HeaderMap) :
    Only Eff.Plain (CustomDomains.delete app name hs).run := by
  refine only_bind (plain_attestationGate hs) fun _ => ?_
  refine only_bind (plain_authorizeDomain name hs) fun record => ?_
  exact @plain_decide _ (.deleteCustomDomain record.domain) _ _ _ trivial

/-- `POST /api/domains` around the claim. -/
theorem closed_createDomain (hP : Closed P) (peer : IpAddr) (hs : HeaderMap) (raw : String)
    (hclaim : P (CustomDomains.create.claim app peer hs raw).run) :
    P (CustomDomains.create app peer hs raw).run := by
  refine closed_bind hP (hP.of_plain (plain_attestationGate hs)) fun _ => ?_
  refine closed_bind hP (hP.of_plain (plain_enforcedTier hs)) fun tier => ?_
  split
  · split
    · exact hP.ret _
    · exact hclaim
  · exact hclaim

/-! ## The routes -/

theorem plain_ready : Only Eff.Plain ready.run := by
  refine only_bind (only_perform trivial) fun r => ?_
  split
  · exact only_throw
  · exact only_pure

theorem plain_events (a : String) (peer : IpAddr) (hs : HeaderMap) :
    Only Eff.Plain (events app a peer hs).run := by
  refine only_bind (only_perform trivial) fun ok => ?_
  split
  · exact only_pure
  · exact only_throw

theorem plain_list (a : String) (limit : Option Nat) (since : Option Uuid) :
    Only Eff.Plain (Messages.list a limit since).run :=
  only_bind (only_store trivial) fun _ => only_bind only_okOr fun _ => only_store trivial

/-- A request that reads one row. -/
theorem plain_found {op : StoreOp} {g : op.Out → Option α} {e : ApiError}
    (he : Eff.Plain (.store op)) : Only Eff.Plain (store op >>= fun o => okOr e (g o)).run :=
  only_bind (only_store he) fun _ => only_okOr

theorem plain_map {g : α → β} (hx : Only Eff.Plain x.run) : Only Eff.Plain (g <$> x).run :=
  only_bind hx fun _ => only_pure

theorem plain_ifCustomDomains {x : Handler Response} (hx : Only Eff.Plain x.run) :
    Only Eff.Plain (ifCustomDomains app x).run := by
  unfold ifCustomDomains
  split
  · exact hx
  · exact only_throw

def Request.Plain : Request → Prop
  | .createAddress .. | .createDomain .. | .getMessage .. => False
  | _ => True

theorem plain_handle (req : Request) (hreq : req.Plain) : Only Eff.Plain (handle app req).run := by
  cases req with
  | createAddress | createDomain | getMessage => exact hreq.elim
  | health | capabilities | listDomains | pushConfig => exact only_pure
  | ready => exact plain_map plain_ready
  | getAddress a => exact plain_map (plain_found trivial)
  | deleteAddress a hs =>
    exact only_bind (plain_owner _ hs fun _ => plain_decide trivial) fun _ => only_pure
  | extendAddress a hs => exact plain_map (plain_extend a hs)
  | rotateAddress a hs => exact plain_map (plain_rotate a hs)
  | listMessages a limit since => exact plain_map (plain_list a limit since)
  | clearMessages a hs => exact plain_map (plain_owner _ hs fun _ => only_store trivial)
  | deleteMessage a id hs =>
    exact only_bind (plain_owner _ hs fun _ => plain_decide trivial) fun _ => only_pure
  | markRead a id => exact only_bind (plain_decide trivial) fun _ => only_pure
  | getRaw a id => exact plain_map (plain_found trivial)
  | getAttachment a id att => exact plain_map (plain_found trivial)
  | vapidPublicKey => exact plain_map only_okOr
  | subscribe a hs body => exact plain_map (plain_subscribe a hs body)
  | unsubscribe a hs body => exact only_bind (plain_unsubscribe a hs body) fun _ => only_pure
  | verifyEntitlements hs id => exact plain_map (plain_verifyEntitlements hs id)
  | challenge => exact plain_map plain_challenge
  | attest req => exact plain_map (plain_attest req)
  | assert req => exact plain_map (plain_assert req)
  | getDomain d hs =>
    exact plain_ifCustomDomains
      (plain_map (only_bind (plain_authorizeDomain d hs) fun _ => only_pure))
  | verifyDomain d hs => exact plain_ifCustomDomains (plain_map (plain_verifyDomain d hs))
  | deleteDomain d hs =>
    exact plain_ifCustomDomains (only_bind (plain_deleteDomain d hs) fun _ => only_pure)
  | events a peer hs => exact plain_map (plain_events a peer hs)

end Api

/-! ## Sessions -/

namespace Smtp

variable {x : Io α} {f : α → Io β} {cfg : Config} {ctx : SmtpContext}

theorem closed_bind (hP : Closed P) (hx : P x.run) (hf : ∀ a, P (f a).run) : P (x >>= f).run := by
  rw [run_bind]
  refine hP.bind hx fun r => ?_
  cases r with
  | some a => exact hf a
  | none => exact hP.ret _

theorem closed_lift (hP : Closed P) {p : Run α} (hp : P p) : P (OptionT.lift p : Io α).run :=
  hP.bind hp fun _ => hP.ret _

theorem closed_talk (hP : Closed P) {p : Run α} (hp : Only Eff.Talk p) : P p :=
  hP.of_plain (hp.imp fun _ he => he.plain)

/-- A turn that only answers. -/
theorem closed_answer (hP : Closed P) (line : String) (a : α) :
    P (do writeLine line; return a : Io α).run :=
  closed_bind hP (closed_talk hP (talk_writeLine line)) fun _ => hP.ret _

theorem closed_recheckActive (hP : Closed P) (delivery : String) : P (recheckActive delivery) := by
  refine hP.call_bind trivial fun now => hP.call_bind trivial fun r => ?_
  split <;> exact hP.ret _

theorem closed_catchAllExpiry (hP : Closed P) : P (catchAllExpiry cfg) := by
  unfold catchAllExpiry
  split
  · exact hP.call_bind trivial nofun
  · refine hP.call_bind trivial fun now => ?_
    split
    · exact hP.call_bind trivial nofun
    · exact hP.ret _

/-- The end of `tryCatchAll`. -/
def createCaught (delivery domain : String) (expiresAt : DateTime) : Run RecipientCheck := do
  match ← call (.store (.createMailbox delivery domain expiresAt none none)) with
  | .ok _ => return .accept delivery
  | .error e => if Api.isUniqueViolation e then recheckActive delivery else return .error

/-- What a property of sessions needs at the calls that are not plain. -/
structure SessionClosed (app : AppState) (P : ∀ {α : Type}, Run α → Prop) : Prop
    extends Closed P where
  caught (delivery domain : String) (expiresAt : DateTime) : P (createCaught delivery domain expiresAt)
  copies (m : NewMessage) (rcpts : List String) : 0 ≤ m.rawSize → P (saveCopies app.deps m rcpts)

variable (hP : SessionClosed ctx.app P)
include hP

theorem closed_tryCatchAll (delivery : String) : P (tryCatchAll cfg delivery) := by
  unfold tryCatchAll
  split
  · exact hP.ret _
  · split
    · exact hP.ret _
    · split
      · exact hP.ret _
      · exact hP.bind (closed_catchAllExpiry hP.toClosed) fun x => hP.caught _ _ x

theorem closed_checkMailbox (addr : String) (isConfigDomain : Bool) :
    P (checkMailbox cfg addr isConfigDomain) := by
  refine hP.call_bind trivial fun now => hP.call_bind trivial fun r => ?_
  split
  · exact hP.ret _
  · split
    · exact closed_tryCatchAll hP _
    · exact hP.ret _
  · exact hP.ret _

theorem closed_validateRecipient (addr : String) : P (validateRecipient cfg addr) := by
  unfold validateRecipient
  split
  · exact hP.ret _
  · split
    · exact hP.ret _
    · split
      · exact closed_checkMailbox hP addr true
      · split
        · exact hP.ret _
        · refine hP.call_bind trivial fun r => ?_
          split
          · exact closed_checkMailbox hP addr false
          · exact hP.ret _
          · exact hP.ret _

theorem closed_handleRcpt (s : Session) (addr : String) : P (handleRcpt cfg s addr).run := by
  unfold handleRcpt
  split
  · exact closed_answer hP.toClosed _ s
  · split
    · exact closed_answer hP.toClosed _ s
    · refine closed_bind hP.toClosed (closed_lift hP.toClosed (closed_validateRecipient hP _)) fun r => ?_
      split <;> exact closed_answer hP.toClosed _ _

omit hP in
theorem parsedMessage_rawSize (app : AppState) (s : Session) (raw : List UInt8) :
    0 ≤ (parsedMessage app s raw).rawSize := by
  have hsize : ∀ sender, 0 ≤ (Mime.parseMessage app.deps raw sender).rawSize := by
    intro sender
    unfold Mime.parseMessage
    split <;> (dsimp only [Mime.rawSize]; omega)
  unfold parsedMessage
  split <;> exact hsize _

theorem closed_finishData (s : Session) (raw : List UInt8) : P (finishData ctx.app s raw).run := by
  refine closed_bind hP.toClosed (closed_lift hP.toClosed ?_) fun r =>
    closed_talk hP.toClosed (talk_writeLine _)
  refine hP.bind (hP.copies _ _ (parsedMessage_rawSize ctx.app s raw)) fun r => ?_
  split <;> exact hP.ret _

theorem closed_handleData (s : Session) (conn : Conn) : P (handleData ctx s conn).run := by
  have hanswer : ∀ line, P (do writeLine line; return some (s, conn) : Io Next).run :=
    fun line => closed_answer hP.toClosed line _
  unfold handleData
  split
  · exact hanswer _
  · split
    · exact hanswer _
    · refine closed_bind hP.toClosed (closed_lift hP.toClosed
        (closed_talk hP.toClosed (talk_storageHasHeadroom _))) fun room => ?_
      split
      · exact hanswer _
      · refine closed_bind hP.toClosed (closed_talk hP.toClosed (talk_writeLine _)) fun _ => ?_
        split
        · exact hP.ret _
        · exact closed_bind hP.toClosed (closed_finishData hP _ _) fun _ => hP.ret _
        · exact closed_answer hP.toClosed _ _
        · exact hP.ret _

theorem closed_dispatch (s : Session) (conn : Conn) (cmd : Command) :
    P (dispatch ctx s conn cmd).run := by
  cases cmd with
  | ehlo domain =>
    exact closed_bind hP.toClosed (hP.call_bind trivial fun _ => hP.ret _) fun _ => hP.ret _
  | mailFrom addr =>
    exact closed_bind hP.toClosed (closed_talk hP.toClosed (talk_handleMail _ _)) fun _ => hP.ret _
  | rcptTo addr => exact closed_bind hP.toClosed (closed_handleRcpt hP _ _) fun _ => hP.ret _
  | data => exact closed_handleData hP s conn
  | startTls => exact closed_talk hP.toClosed (talk_handleStartTls _ _ _)
  | _ => exact closed_answer hP.toClosed _ _

theorem closed_step (s : Session) (conn : Conn) : P (step ctx s conn).run := by
  unfold step
  split
  · exact hP.ret _
  · exact hP.ret _
  · exact closed_answer hP.toClosed _ _
  · exact closed_dispatch hP _ _ _

theorem closed_turns (n : Nat) (s : Session) (conn : Conn) : P (turns ctx n s conn).run := by
  induction n generalizing s conn with
  | zero => exact hP.ret _
  | succ n ih =>
    refine closed_bind hP.toClosed (closed_step hP s conn) fun next => ?_
    split
    · exact hP.ret _
    · exact ih _ _

theorem closed_session (n : Nat) (input : Reader) : P (handle ctx n input).run :=
  closed_bind hP.toClosed (closed_talk hP.toClosed (talk_writeLine _)) fun _ => closed_turns hP n _ _

end Smtp

/-! ## Tasks -/

/-- A property of all tasks: it remains to look at the blocks that are not plain. -/
structure TaskClosed (app : AppState) (P : ∀ {α : Type}, Run α → Prop) : Prop
    extends Smtp.SessionClosed app P where
  custom (l d : String) (x : DateTime) (device : Option String) :
    P (Api.Addresses.createCustom app l d x device).run
  random (d : String) (x : DateTime) (device : Option String) (n : Nat) :
    P (Api.Addresses.createRandom app d x device n).run
  claim (peer : IpAddr) (hs : Api.HeaderMap) (raw : String) :
    P (Api.CustomDomains.create.claim app peer hs raw).run

theorem closed_ifCustomDomains {app : AppState} (hP : Closed P) {x : Api.Handler Api.Response}
    (hx : P x.run) : P (Api.ifCustomDomains app x).run := by
  unfold Api.ifCustomDomains
  split
  · exact hx
  · exact hP.ret _

theorem TaskClosed.prog {app : AppState} (hP : TaskClosed app P) (t : Task)
    (ht : ∀ a id, t ≠ .http (.getMessage a id)) : P (t.prog app) := by
  cases t with
  | http req =>
    refine hP.bind ?_ fun _ => hP.ret _
    by_cases hreq : req.Plain
    · exact hP.of_plain (Api.plain_handle req hreq)
    · cases req with
      | createAddress peer hs body =>
        exact Api.closed_map hP.toClosed
          (Api.closed_create hP.toClosed peer hs _ hP.custom hP.random)
      | createDomain peer hs d =>
        exact closed_ifCustomDomains hP.toClosed
          (Api.closed_map hP.toClosed (Api.closed_createDomain hP.toClosed peer hs d (hP.claim _ _ _)))
      | getMessage a id => exact absurd rfl (ht a id)
      | _ => exact absurd trivial hreq
  | smtp n tls input =>
    exact hP.bind (@Smtp.closed_session P ⟨app, tls⟩ hP.toSessionClosed n input) fun _ => hP.ret _
  | reverify => exact hP.bind (hP.of_plain plain_reverifyScan) fun _ => hP.ret _
  | cleanup => exact hP.bind (hP.of_plain plain_cleanupTick) fun _ => hP.ret _

end AnonyMail
