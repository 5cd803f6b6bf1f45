import AnonyMail.Verify.Frames

/-! # The attestation gate

When attestation is required, a request whose client token is not that of an attested device leaves
the store as it is: each handler makes only read-only store calls until a token has been decoded and
found to be attested. `mark_read` is open by design, and sets the flag of one message. -/

namespace AnonyMail

open Calls MemoryStore

/-- Calls that leave the store as it is. -/
def Eff.ReadOnly : Eff → Prop
  | .store op =>
    match op with
    | .getMailbox _ | .mailboxIsActive .. | .listMessages .. | .getMessage .. | .getRawMessage ..
    | .getAttachment .. | .listSubscriptions _ | .getCustomDomain _ | .customDomainIsVerified _
    | .listCustomDomainsToRecheck _ | .getAttestedDevice _ | .countActiveMailboxesByDevice ..
    | .runMaintenance | .ping => True
    | _ => False
  | _ => True

variable {app : AppState} {c : ServerConf}

theorem Eff.ReadOnly.store_eq {e : Eff} {r : e.Ans} (he : e.ReadOnly)
    (hx : exec app w e ch = some (r, w')) : w'.store = w.store := by
  cases e with
  | store op =>
    obtain ⟨-, -, rfl⟩ | ⟨ids, -, -, -, -, ha, -⟩ := exec_store_cases hx
    · rfl
    · rw [show w'.store = _ from (congrArg Prod.snd ha).symm]
      cases op <;> first | rfl | exact he.elim
  | _ => exact exec_store_eq hx (by simp)

/-- The headers that a handler is given. -/
def Api.Request.headers : Api.Request → Api.HeaderMap
  | .createAddress _ hs _ | .deleteAddress _ hs | .extendAddress _ hs | .rotateAddress _ hs
  | .clearMessages _ hs | .deleteMessage _ _ hs | .subscribe _ hs _ | .unsubscribe _ hs _
  | .verifyEntitlements hs _ | .createDomain _ hs _ | .getDomain _ hs | .verifyDomain _ hs
  | .deleteDomain _ hs | .events _ _ hs => hs
  | _ => []

/-- The routes under `/api/client`. -/
def Api.Request.isClientFlow : Api.Request → Bool
  | .challenge | .attest _ | .assert _ => true
  | _ => false

/-- A client token that is absent, forged, expired or not that of an attested device. -/
def Unattested (app : AppState) (hs : Api.HeaderMap) (now : DateTime) : Prop :=
  ∀ raw key claims, Api.rawClientToken hs = some raw → app.config.tokenSigningKey = some key →
    app.deps.jwtDecode key raw Api.clientTokenLeeway now = .ok claims → ¬claims.isAttested

/-- The client token of the request was decoded and is that of an attested device. -/
def Trusted (app : AppState) (hs : Api.HeaderMap) (h : Hist) : Prop :=
  ∃ raw key claims, Api.rawClientToken hs = some raw ∧ app.config.tokenSigningKey = some key ∧
    ⟨.jwtDecode key raw Api.clientTokenLeeway, .ok claims⟩ ∈ h ∧ claims.isAttested

/-- Store calls that write come after the decoding of an attested token. -/
def Guarded (app : AppState) (hs : Api.HeaderMap) (h : Hist) (e : Eff) : Prop :=
  e.ReadOnly ∨ Trusted app hs h

variable {hs : Api.HeaderMap} {h : Hist}

theorem safe_of_trusted {p : Run α} (ht : Trusted app hs h) : Safe (Guarded app hs) h p := by
  induction p generalizing h with
  | ret a => exact safe_ret
  | call e k ih =>
    refine safe_call (.inr ht) fun r => ih r ?_
    obtain ⟨raw, key, claims, hraw, hkey, hmem, hatt⟩ := ht
    exact ⟨raw, key, claims, hraw, hkey, List.mem_append_left _ hmem, hatt⟩

namespace Api

theorem clientClaims_obeys : Prog.Obeys (Guarded app hs) (fun h' r => ∀ c, r = .ok (some c) →
    c.isAttested → Trusted app hs h') h (clientClaims app hs).run := by
  unfold clientClaims
  split
  · next raw key hraw hkey =>
    refine ⟨.inl trivial, fun r => ?_⟩
    match r with
    | .ok claims =>
      rintro c ⟨⟩ hatt
      exact ⟨raw, key, claims, hraw, hkey, by simp, hatt⟩
    | .error .expiredSignature => exact nofun
    | .error .other => exact nofun
  · exact nofun

/-- Behind the gate, the token is that of an attested device. -/
theorem safe_gate_bind {f : Option ClientClaims → Handler β}
    (hreq : app.config.clientAttestationRequired) :
    Safe (Guarded app hs) h (attestationGate app hs >>= f).run := by
  have hgate : Prog.Obeys (Guarded app hs) (fun h' r => ∀ c, r = .ok c → Trusted app hs h') h
      (attestationGate app hs).run := by
    rw [attestationGate, run_bind, Prog.obeys_bind]
    refine clientClaims_obeys.mono fun h' r hr => ?_
    match r with
    | .error e => exact nofun
    | .ok claims =>
      simp only [hreq]
      match claims with
      | none => exact nofun
      | some c =>
        show Prog.Obeys _ _ _ (if c.isAttested then return some c else throw _ : Handler _).run
        split
        · next hatt =>
          rintro _ ⟨⟩
          exact hr c rfl hatt
        · exact nofun
  exact bind_of_obeys hgate fun _ _ ht => safe_of_trusted ht

/-- A read endpoint: one store call and perhaps a `404`. -/
theorem safe_read_bind {op : StoreOp} {f : op.Out → Handler β} (hop : Eff.ReadOnly (.store op))
    (hf : ∀ h a, Safe (Guarded app hs) h (f a).run) : Safe (Guarded app hs) h (store op >>= f).run :=
  safe_store_bind (.inl hop) fun a => hf _ a

theorem guarded_getDomain (d : String) : Safe (Guarded app hs) h (CustomDomains.get app d hs).run := by
  refine Safe.bind ?_ fun _ _ _ => safe_pure
  refine safe_read_bind trivial fun h o => safe_okOr_bind fun record _ => safe_okOr_bind fun token _ => ?_
  split
  · exact safe_pure
  · exact safe_throw

theorem guarded_subscribe (hreq : app.config.clientAttestationRequired) (a : String)
    (body : Option SubscribeRequest) :
    Safe (Guarded app hs) h (Push.subscribe app a hs body).run := by
  unfold Push.subscribe
  split
  · exact safe_throw
  · split
    · exact safe_throw
    · split <;> split <;> first | exact safe_throw | exact safe_gate_bind hreq

theorem guarded_unsubscribe (hreq : app.config.clientAttestationRequired) (a : String)
    (body : Option UnsubscribeRequest) :
    Safe (Guarded app hs) h (Push.unsubscribe app a hs body).run := by
  unfold Push.unsubscribe
  split
  · exact safe_throw
  · exact safe_gate_bind hreq

theorem guarded_ifCustomDomains {x : Handler Response} (hx : Safe (Guarded app hs) h x.run) :
    Safe (Guarded app hs) h (ifCustomDomains app x).run := by
  unfold ifCustomDomains
  split
  · exact hx
  · exact safe_throw

/-- Every handler outside the attestation flow, less `mark_read`, writes behind the gate only. -/
theorem guarded_handle (hreq : app.config.clientAttestationRequired) (req : Request)
    (hflow : req.isClientFlow = false) (hread : ∀ a id, req ≠ .markRead a id) :
    Safe (Guarded app req.headers) [] (handle app req).run := by
  cases req with
  | health | capabilities | listDomains | pushConfig => exact safe_pure
  | ready =>
    refine safe_map (safe_perform_bind (.inl trivial) fun r => ?_)
    split
    · exact safe_throw
    · exact safe_pure
  | createAddress => exact safe_map (safe_gate_bind hreq)
  | getAddress | getMessage | getRaw | getAttachment =>
    exact safe_map (safe_read_bind trivial fun _ _ => safe_okOr)
  | deleteAddress | deleteMessage => exact Safe.bind (safe_gate_bind hreq) fun _ _ _ => safe_pure
  | extendAddress | rotateAddress | clearMessages => exact safe_map (safe_gate_bind hreq)
  | listMessages =>
    refine safe_map (safe_read_bind trivial fun _ _ => safe_okOr_bind fun _ _ => ?_)
    exact safe_store (.inl trivial)
  | markRead a id => exact absurd rfl (hread a id)
  | vapidPublicKey => exact safe_map safe_okOr
  | subscribe a hs body => exact safe_map (guarded_subscribe hreq a body)
  | unsubscribe a hs body => exact Safe.bind (guarded_unsubscribe hreq a body) fun _ _ _ => safe_pure
  | verifyEntitlements => exact safe_map (safe_okOr_bind fun _ _ => safe_gate_bind hreq)
  | challenge | attest | assert => cases hflow
  | createDomain => exact guarded_ifCustomDomains (safe_map (safe_gate_bind hreq))
  | getDomain d hs => exact guarded_ifCustomDomains (safe_map (guarded_getDomain d))
  | verifyDomain => exact guarded_ifCustomDomains (safe_map (safe_gate_bind hreq))
  | deleteDomain =>
    exact guarded_ifCustomDomains (Safe.bind (safe_gate_bind hreq) fun _ _ _ => safe_pure)
  | events =>
    refine safe_map (safe_perform_bind (.inl trivial) fun b => ?_)
    split
    · exact safe_pure
    · exact safe_throw

end Api

/-! ## Runs -/

/-- Nothing but the `seen` flag of the message `id` of the mailbox `a` has changed. -/
structure SeenOnly (a : String) (id : Uuid) (s s' : Inner) : Prop where
  rest : { s' with messages := s.messages } = s
  messages : List.Forall₂ (fun e e' => e' = e ∨
    (e.isAt a id ∧ e' = { e with message := { e.message with seen := true } })) s.messages s'.messages

theorem SeenOnly.refl {id : Uuid} (s : Inner) : SeenOnly a id s s :=
  ⟨rfl, List.forall₂_same.mpr fun _ _ => .inl rfl⟩

theorem seenOnly_markSeen {id : Uuid} (s : Inner) : SeenOnly a id s (markSeen s a id).2 := by
  refine ⟨rfl, ?_⟩
  show List.Forall₂ _ s.messages (setSeen a id s.messages)
  rw [setSeen_eq]
  exact KeyedList.forall₂_updateFirst _ _ s.messages

/-- What a request without an attested token may do to the store. -/
def Api.Request.Keeps : Api.Request → Inner → Inner → Prop
  | .markRead a id, s, s' => SeenOnly (Str.toAsciiLowercase a) id s s'
  | _, s, s' => s' = s

/-- What the handlers outside the attestation flow do before a token was found to be attested. -/
def GateProtocol (app : AppState) (t : Task) (h : Hist) (e : Eff) : Prop :=
  ∀ req, t = .http req → req.isClientFlow = false →
    (∃ a id, req = .markRead a id ∧
      (e.ReadOnly ∨ e = .store (.markSeen (Str.toAsciiLowercase a) id))) ∨
    ((∀ a id, req ≠ .markRead a id) ∧ Guarded app req.headers h e)

theorem task_gated (hreq : app.config.clientAttestationRequired) (t : Task) :
    Safe (GateProtocol app t) [] (t.prog app) := by
  by_cases ht : ∃ req, t = .http req ∧ req.isClientFlow = false
  · obtain ⟨req, rfl, hflow⟩ := ht
    refine AnonyMail.Safe.map ?_
    by_cases hm : ∃ a id, req = .markRead a id
    · obtain ⟨a, id, rfl⟩ := hm
      refine Api.Safe.bind (Api.safe_store_bind ?_ fun b => ?_) fun _ _ _ => Api.safe_pure
      · rintro _ ⟨⟩ -
        exact .inl ⟨a, id, rfl, .inr rfl⟩
      · split
        · exact Api.safe_pure
        · exact Api.safe_throw
    · have hm : ∀ a id, req ≠ .markRead a id := fun a id heq => hm ⟨a, id, heq⟩
      refine (Api.guarded_handle hreq req hflow hm).imp fun h e he => ?_
      rintro _ ⟨⟩ -
      exact .inr ⟨hm, he⟩
  · have htriv : Safe (fun _ _ => True) [] (t.prog app) := ⟨Prog.obeys_trivial⟩
    exact htriv.imp fun _ _ _ req heq hflow => (ht ⟨req, heq, hflow⟩).elim

/-- An attested token was attested when it was decoded. -/
theorem not_trusted {w : World} (h : (server app).Reach ok (System.init w) c)
    (hp : c.procs[i]? = some p)
    (hun : ∀ e ∈ c.log, e.pid = i → Unattested app hs e.before.clock) :
    ¬Trusted app hs p.hist := by
  rintro ⟨raw, key, claims, hraw, hkey, hmem, hatt⟩
  obtain ⟨e, he, hpid, -, hev⟩ := h.mem_log_of_hist hp hmem
  have hun := hun e he hpid
  obtain ⟨l₁, l₂, hlog⟩ := List.append_of_mem he
  obtain ⟨c₁, c₂, ch, hist, k, -, -, -, -, -, -, hx, -, -⟩ := h.split_log hlog
  obtain ⟨pid, tag, before, call, answer, after⟩ := e
  cases hev
  have hdecode := congrArg Prod.fst (Option.some.inj hx)
  exact hun raw key claims hraw hkey hdecode hatt

def gateServer : AppState where
  deps := .refusing []
  config := { Config.default with
    clientAttestationRequired := true
    tokenSigningKey := some (List.replicate 32 7)
    appAttestTeamId := some "TEAMID"
    appAttestBundleId := some "app" }
  pro := false

def unreadMessage : StoredMessage where
  id := 7
  mailboxAddress := "box@example.com"
  mailFrom := "alice@example.org"
  subject := none
  messageDate := none
  textBody := some "hello"
  htmlBody := none
  rawSize := 5
  receivedAt := 0
  seen := false
  attachments := []

def gateWorld : World :=
  { World.start 0 with store := { Inner.empty with
      mailboxes := AList.insert "box@example.com"
        ⟨"box@example.com", "example.com", 0, 3600000000000, none, none⟩ ∅
      messages := [⟨unreadMessage, [], none⟩] } }

theorem unattested_refusing (now : DateTime) : Unattested gateServer hs now := by
  rintro _ _ _ - - ⟨⟩

def Task.req? : Task → Option Api.Request
  | .http req => some req
  | .smtp .. => none
  | .reverify => none
  | .cleanup => none

theorem Task.req?_eq_some {t : Task} {req : Api.Request} : t.req? = some req ↔ t = .http req := by
  cases t <;> simp [Task.req?]

def forgedHeaders : Api.HeaderMap := [("x-client-token", Str.asBytes "forged")]

end AnonyMail
