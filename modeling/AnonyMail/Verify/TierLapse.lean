import AnonyMail.Verify.Purchases

/-! # How long a tier outlives its subscription

A client token that says pro was signed on a verdict of the purchase verifier, and each verdict goes
back to a response that the server evaluated. Three windows add up: the life of a token with its
leeway, the life of a cached verdict, and the pauses between clock readings that belong together. -/

namespace AnonyMail.Purchases

open Calls Prog

variable {entitlementId : String}

/-- In the run so far the server took a response with an active entitlement, at the time `t`. -/
def Evaluated (entitlementId : String) (log : List ServerEntry) (t : DateTime) : Prop :=
  ∃ i id body h₁ h₂,
    System.callsOf i log = h₁ ++ ⟨.subscriber id, some body⟩ :: ⟨.base .now, t⟩ :: h₂ ∧
    entitlementActive body entitlementId t

/-- The verdict on `id` that was formed at the time `t` was recorded as the next thing, at `r`. -/
structure Recorded (entitlementId : String) (log : List ServerEntry) (id : String)
    (t r : DateTime) : Prop where
  intro ::
  entry : ∃ l e l' h body, log = l ++ e :: l' ∧ e.call = .remember id true ∧
    e.before.server.clock = r ∧
    System.callsOf e.pid l = h ++ [⟨.subscriber id, some body⟩, ⟨.base .now, t⟩] ∧
    entitlementActive body entitlementId t

/-- A request was given the verdict pro on `id` at the time `u`, and read the clock for its token as
the next thing, at `m`. -/
structure TokenOn (log : List ServerEntry) (id : String) (u m : DateTime) : Prop where
  intro ::
  entry : ∃ l e l', log = l ++ e :: l' ∧ IsVerdict id ⟨e.call, e.answer⟩ ∧
    e.before.server.clock = u ∧ System.callsOf e.pid l' = [⟨.base .now, m⟩]

/-- What the tokens rest on: a token decodes to the claims that were signed, and not once it is
expired by more than the leeway, in whole seconds. -/
structure TokensSound (D : Deps) : Prop where
  signed : ∀ {key claims token leeway now claims'}, D.jwtEncode key claims = some token →
    D.jwtDecode key token leeway now = .ok claims' → claims' = claims
  unexpired : ∀ {key token leeway now claims}, D.jwtDecode key token leeway now = .ok claims →
    now.timestamp - leeway ≤ claims.exp

/-- The client tokens that the server has handed out. -/
def handedOut (c : ServerConf) : List String :=
  c.procs.filterMap fun p =>
    match p.rest with
    | .ret o => o.clientToken.map (·.clientToken)
    | .call .. => none

/-- Only the server knows its signing key: what decodes is a token that it has handed out. -/
def unforged (app : AppState) (c : ServerConf) : ServerMove → Bool
  | .act i _ =>
    match c.procs[i]? with
    | some ⟨_, _, .call (.base (.jwtDecode key token leeway)) _⟩ =>
      !(app.deps.jwtDecode key token leeway c.world.server.clock).isOk ||
        (handedOut c).contains token
    | _ => true
  | _ => true

/-- A request is treated as pro: its client token decodes to claims that say so. -/
structure TreatedAsPro (app : AppState) (e : ServerEntry) : Prop where
  intro ::
  decoded : ∃ key token claims, app.config.tokenSigningKey = some key ∧
    (⟨e.call, e.answer⟩ : Event Eff.Ans) =
      ⟨.base (.jwtDecode key token Api.clientTokenLeeway), .ok claims⟩ ∧ claims.tier = .pro

section
variable {app : AppState} {ok : ServerConf → ServerMove → Prop} {c : ServerConf} {start : DateTime}

/-- A verdict that was remembered was formed on a response. -/
theorem recorded_of_remember {e : ServerEntry} {id : String}
    (h : (purchases app entitlementId).Reach ok (System.init (World.start start)) c)
    (he : e ∈ c.log) (hcall : e.call = .remember id true) :
    ∃ t, Recorded entitlementId c.log id t e.before.server.clock := by
  obtain ⟨l, l', hlog⟩ := List.append_of_mem he
  obtain ⟨c₁, h₁, -, -, -, k, hi⟩ := pending_of_log h hlog
  have hpending := (h₁.obeys (task_obeys app) _ (List.mem_of_getElem? hi)).1
  dsimp only at hpending
  rw [hcall] at hpending
  obtain ⟨h₀, body, t, hcalls, hactive⟩ := hpending
  exact ⟨t, l, e, l', h₀, body, hlog, hcall, rfl, hcalls, hactive.symm⟩

/-- A verdict goes back to one that was recorded less than the life of a cached verdict before. -/
theorem recorded_of_verdict {l l' : List ServerEntry} {e : ServerEntry} {id : String}
    (h : (purchases app entitlementId).Reach ok (System.init (World.start start)) c)
    (hlog : c.log = l ++ e :: l') (hv : IsVerdict id ⟨e.call, e.answer⟩) :
    ∃ t r, Recorded entitlementId c.log id t r ∧
      e.before.server.clock - r < Duration.seconds 600 := by
  obtain ⟨c₁, h₁, rfl, hw, ⟨ch, -, hx⟩, -⟩ := pending_of_log h hlog
  obtain ⟨pid, tag, before, call, answer, after⟩ := e
  dsimp only at hw hx hv
  obtain hv | hv := hv
  · cases hv
    obtain ⟨at', hlookup, hlt⟩ := VerdictCache.cached_eq_some (congrArg Prod.fst (Option.some.inj hx))
    obtain ⟨e, he, hcall, rfl⟩ := remembered_of_reach h₁ id at' (hw ▸ hlookup)
    have hmem : e ∈ c.log := hlog ▸ List.mem_append_left _ he
    obtain ⟨t, hrec⟩ := recorded_of_remember h hmem hcall
    refine ⟨t, _, hrec, ?_⟩
    have hnow := clock_of_reach h₁
    obtain ⟨l₁, l₂, hsplit⟩ := List.append_of_mem he
    obtain ⟨c₂, h₂, -, hw₂, -⟩ := pending_of_log h₁ hsplit
    have hthen := clock_of_reach h₂
    rw [hw] at hnow
    rw [hw₂] at hthen
    have hgap : ∀ (a : Int) (i j : Nat), j - i < 600000000000 →
        (a + j) - (a + i) < 600000000000 := by
      intro a i j hij
      omega
    rw [hnow, hthen]
    exact hgap start e.before.server.instant before.server.instant hlt
  · cases hv
    obtain ⟨t, hrec⟩ := recorded_of_remember h (hlog ▸ List.mem_append_right _ List.mem_cons_self) rfl
    refine ⟨t, _, hrec, ?_⟩
    rw [Int.sub_self]
    decide

theorem Recorded.evaluated {log : List ServerEntry} {id : String} {t r : DateTime}
    (H : Recorded entitlementId log id t r) : Evaluated entitlementId log t := by
  obtain ⟨l, e, l', h, body, rfl, -, -, hcalls, hactive⟩ := H.entry
  refine ⟨e.pid, id, body, h, System.callsOf e.pid (e :: l'), ?_, hactive⟩
  rw [System.callsOf_append, hcalls, List.append_assoc]
  rfl

/-- A token that decodes was minted in the run. -/
theorem minted_of_decoded (hsound : TokensSound app.deps) {i : Nat} {ch : Choice} {t : Task}
    {hist : Hist} {key : List UInt8} {token : String} {leeway : Nat}
    {k : Except JwtError ClientClaims → Run Outcome} {claims : ClientClaims}
    (h : (purchases app entitlementId).Reach ok (System.init (World.start start)) c)
    (hi : c.procs[i]? = some ⟨t, hist, .call (.base (.jwtDecode key token leeway)) k⟩)
    (hkey : app.config.tokenSigningKey = some key) (hunforged : unforged app c (.act i ch))
    (hdec : app.deps.jwtDecode key token leeway c.world.server.clock = .ok claims) :
    ∃ j h₀ m, System.callsOf j c.log = h₀ ++ [⟨.base .now, m⟩] ∧ Signs app m claims token ∧
      (claims.tier = .pro → ∃ h₁ id ev, h₀ = h₁ ++ [ev] ∧ IsVerdict id ev) := by
  have hout : token ∈ handedOut c := by
    simpa [unforged, hi, hdec, Except.isOk, Except.toBool] using hunforged
  obtain ⟨⟨tag, hist', rest⟩, hp, hrest⟩ := List.mem_filterMap.mp hout
  obtain ⟨j, hj⟩ := List.getElem?_of_mem hp
  cases rest with
  | call => cases hrest
  | ret o =>
    obtain ⟨r, hr, rfl⟩ := Option.map_eq_some_iff.mp hrest
    have hminted : Minted app hist' r := h.obeys (task_obeys app) _ hp r hr
    obtain ⟨h₀, m, signed, rfl, hsigns, hpro⟩ := hminted.signed
    obtain ⟨key', hkey', hencode⟩ := hsigns.encoded
    cases hkey.symm.trans hkey'
    cases hsound.signed hencode hdec
    refine ⟨j, h₀, m, ?_, hsigns, hpro⟩
    rw [← h.hist_eq, hj]
    rfl

end

/-- Whenever a request is treated as pro, the server has taken a response with an active entitlement
before. The time since then is less than the life of a token, that of a cached verdict and the
leeway together, and two pauses: from the clock reading for the response to the recording of the
verdict, and from the verdict to the clock reading for the token. In neither does the code wait. -/
theorem pro_lapses {app : AppState} (hsound : TokensSound app.deps) {start : DateTime}
    {c : ServerConf} {l l' : List ServerEntry} {e : ServerEntry}
    (h : (purchases app entitlementId).Reach (fun c m => unforged app c m)
      (System.init (World.start start)) c)
    (hlog : c.log = l ++ e :: l') (hpro : TreatedAsPro app e) :
    ∃ id t r u m, Evaluated entitlementId l t ∧ Recorded entitlementId l id t r ∧ TokenOn l id u m ∧
      e.before.server.clock - t <
        Duration.hours 12 + Duration.seconds 600 + Duration.seconds 6 + (r - t) + (m - u) := by
  obtain ⟨c₁, h₁, rfl, hw, ⟨ch, hunforged, hx⟩, k, hi⟩ := pending_of_log h hlog
  obtain ⟨key, token, claims, hkey, hev, htier⟩ := hpro.decoded
  obtain ⟨pid, tag, before, call, answer, after⟩ := e
  dsimp only at hw hx hi hunforged hev
  cases hev
  subst hw
  have hdec : app.deps.jwtDecode key token Api.clientTokenLeeway c₁.world.server.clock =
      .ok claims := by
    cases ch with
    | base ch => exact congrArg Prod.fst (Option.some.inj hx)
    | subscriber => cases hx
  obtain ⟨j, h₀, m, hcalls, hsigns, hverdict⟩ := minted_of_decoded hsound h₁ hi hkey hunforged hdec
  obtain ⟨h₂, id, ev, rfl, hv⟩ := hverdict htier
  rw [List.append_assoc, List.singleton_append] at hcalls
  obtain ⟨l₁, e, l₂, hsplit, rfl, rfl, -, hlast⟩ := System.split_callsOf hcalls
  obtain ⟨t, r, hrec, hcached⟩ := recorded_of_verdict h₁ hsplit hv
  refine ⟨id, t, r, _, m, hrec.evaluated, hrec, ⟨l₁, e, l₂, hsplit, hv, rfl, hlast⟩, ?_⟩
  have htoken := hsigns.elapsed_lt (hsound.unexpired hdec)
  have hsum : ∀ a b u r t : Int, a - b < 43206000000000 → u - r < 600000000000 →
      a - t < 43806000000000 + (r - t) + (b - u) := by
    intro a b u r t h₁ h₂
    omega
  exact hsum _ _ _ _ _ htoken hcached

/-! A subscription that lapses right after it is first looked at. The verdict on it is recorded two
seconds after the clock was read for it, and is asked for again just before it is too old. -/

def lapseKey : List UInt8 := List.replicate 32 7

/-- The header of a client token, with the dot behind it. -/
def tokenHeader : String := "eyJ0eXAiOiJKV1QiLCJhbGciOiJIUzI1NiJ9."

def firstToken : String := tokenHeader ++
  "eyJraW5kIjoidW5hdHRlc3RlZCIsInRpZXIiOiJwcm8iLCJpYXQiOjIsImV4cCI6NDMyMDJ9." ++
  "S9nX-rJtGVoZYbhVto3QbAtTNgWdf-cPNMirRXGtoRQ"

def secondToken : String := tokenHeader ++
  "eyJraW5kIjoidW5hdHRlc3RlZCIsInRpZXIiOiJwcm8iLCJpYXQiOjYwMSwiZXhwIjo0MzgwMX0." ++
  "DVog92xzDVTutww_Wigh6NYtY0iW5wV3C80uXYLdfgw"

/-- The client tokens that are signed in the run, with their claims. -/
def lapseTokens : List (String × ClientClaims) :=
  [(firstToken, ⟨kindUnattested, none, .pro, 2, 43202⟩),
    (secondToken, ⟨kindUnattested, none, .pro, 601, 43801⟩)]

def lapseServer : AppState where
  deps := { Deps.refusing [] with
    jwtEncode := fun key claims =>
      if key = lapseKey then (lapseTokens.find? (·.2 == claims)).map (·.1) else none
    jwtDecode := fun key token leeway now =>
      match if key = lapseKey then lapseTokens.lookup token else none with
      | some claims =>
        if claims.exp + leeway < now.timestamp then .error .expiredSignature else .ok claims
      | none => .error .other }
  config := { Config.default with entitlementsEnforced := true, tokenSigningKey := some lapseKey }
  pro := true

theorem lookup_lapseTokens : ∀ x ∈ lapseTokens, lapseTokens.lookup x.1 = some x.2 := by
  decide +kernel

theorem decode_lapseServer {key : List UInt8} {token : String} {leeway : Nat} {now : DateTime}
    {claims : ClientClaims} (h : lapseServer.deps.jwtDecode key token leeway now = .ok claims) :
    lapseTokens.lookup token = some claims ∧ now.timestamp - leeway ≤ claims.exp := by
  simp only [lapseServer] at h
  split at h
  · next found hfound =>
    split at h
    · cases h
    · next hexp =>
      cases h
      exact ⟨(Option.ite_none_right_eq_some.mp hfound).2, by omega⟩
  · cases h

theorem tokensSound_lapseServer : TokensSound lapseServer.deps := by
  refine ⟨?_, fun hdecode => (decode_lapseServer hdecode).2⟩
  intro key claims token leeway now claims' hencode hdecode
  obtain ⟨⟨_, signed⟩, hfind, rfl⟩ :=
    Option.map_eq_some_iff.mp (Option.ite_none_right_eq_some.mp hencode).2
  have hsigned : signed = claims := by simpa using List.find?_some hfind
  have hlookup := lookup_lapseTokens _ (List.mem_of_find?_eq_some hfind)
  cases hlookup.symm.trans (decode_lapseServer hdecode).1
  exact hsigned

/-- A subscription that lapses a second after the run starts. -/
def lapsing : SubscriberResponse :=
  ⟨⟨(∅ : HashMap String Entitlement).insert "pro" ⟨some (Duration.seconds 1)⟩⟩⟩

def verifyTask : Task := .http (.verifyEntitlements [] (some "subscriber"))

def seconds (n : Nat) : ServerMove := .env (n * 1000000000)

def lapseMoves : List ServerMove :=
  [.spawn verifyTask, .act 0 (.base .answer), .act 0 (.subscriber (some lapsing)),
    .act 0 (.base .answer), seconds 2, .act 0 (.base .answer), .act 0 (.base .answer), seconds 599,
    .spawn verifyTask, .act 1 (.base .answer), .act 1 (.base .answer), seconds 43205,
    .spawn (.http (.createAddress 0 [(Api.clientTokenHeader, Str.asBytes secondToken)] none)),
    .act 2 (.base .answer)]

/-- The clock readings right after a response. -/
def readings : Hist → List DateTime
  | [] => []
  | ⟨e, _⟩ :: h =>
    (match e, h.head? with
    | .subscriber _, some ⟨.base .now, t⟩ => [t]
    | _, _ => []) ++ readings h

theorem mem_readings {h₁ h₂ : Hist} {id : String} {r : Option SubscriberResponse} {t : DateTime} :
    t ∈ readings (h₁ ++ ⟨.subscriber id, r⟩ :: ⟨.base .now, t⟩ :: h₂) := by
  induction h₁ with
  | nil => exact List.mem_append_left _ (List.mem_singleton_self t)
  | cons ev h₁ ih => exact List.mem_append_right _ ih

def showsPro : ServerEntry → Bool
  | ⟨_, _, _, .base (.jwtDecode key _ leeway), .ok claims, _⟩ =>
    key == lapseKey && leeway == Api.clientTokenLeeway && claims.tier == .pro
  | _ => false

theorem treatedAsPro_of_showsPro {e : ServerEntry} (h : showsPro e) : TreatedAsPro lapseServer e := by
  unfold showsPro at h
  split at h
  · next key token leeway claims _ =>
    simp only [Bool.and_eq_true, beq_iff_eq] at h
    obtain ⟨⟨rfl, rfl⟩, htier⟩ := h
    exact ⟨lapseKey, token, claims, rfl, rfl, htier⟩
  · cases h

/-- The last call treats a request as pro, and the first reading for a response was long before. -/
def outlives (c : ServerConf) : Bool :=
  match c.log.reverse with
  | e :: l => showsPro e && e.before.server.clock == Duration.seconds 43806 &&
    l.all fun e' => (readings (System.callsOf e'.pid l.reverse)).all (· == 0)
  | [] => false

theorem exists_outlives : ∃ c l e,
    (purchases lapseServer "pro").Reach (fun c m => unforged lapseServer c m)
      (System.init (World.start 0)) c ∧ c.log = l ++ [e] ∧ TreatedAsPro lapseServer e ∧
    e.before.server.clock = Duration.seconds 43806 ∧ ∀ t, Evaluated "pro" l t → t = 0 := by
  have hrun : ((purchases lapseServer "pro").run (fun c m => unforged lapseServer c m)
      (System.init (World.start 0)) lapseMoves).any outlives := by
    decide +kernel
  obtain ⟨c, hc, hP⟩ := System.Reach.exists_of_run hrun
  unfold outlives at hP
  split at hP
  · next e l hlog =>
    simp only [Bool.and_eq_true, beq_iff_eq, List.all_eq_true] at hP
    obtain ⟨⟨hpro, hclock⟩, hreadings⟩ := hP
    refine ⟨c, l.reverse, e, hc, ?_, treatedAsPro_of_showsPro hpro, hclock, ?_⟩
    · rw [← List.reverse_reverse c.log, hlog, List.reverse_cons]
    · rintro t ⟨i, id, body, h₁, h₂, hcalls, -⟩
      obtain ⟨l₁, e', l₂, hsplit, rfl, -⟩ := System.split_callsOf hcalls
      have hmem : e' ∈ l := by
        rw [← List.mem_reverse, hsplit]
        exact List.mem_append_right _ List.mem_cons_self
      exact hreadings e' hmem t (hcalls ▸ mem_readings)
  · cases hP

theorem pro_lapses_late : ∃ c l e,
    (purchases lapseServer "pro").Reach (fun c m => unforged lapseServer c m)
      (System.init (World.start 0)) c ∧ c.log = l ++ [e] ∧ TreatedAsPro lapseServer e ∧
    ∃ id t r u m, Evaluated "pro" l t ∧ Recorded "pro" l id t r ∧ TokenOn l id u m ∧
      e.before.server.clock - t <
        Duration.hours 12 + Duration.seconds 600 + Duration.seconds 6 + (r - t) + (m - u) := by
  obtain ⟨c, l, e, hc, hlog, hpro, -⟩ := exists_outlives
  exact ⟨c, l, e, hc, hlog, hpro, pro_lapses tokensSound_lapseServer hc hlog hpro⟩

/-- Without the pauses the bound fails. -/
theorem not_pro_lapses : ¬∀ (app : AppState) (entitlementId : String) (start : DateTime)
    (c : ServerConf) (l l' : List ServerEntry) (e : ServerEntry), TokensSound app.deps →
    (purchases app entitlementId).Reach (fun c m => unforged app c m)
      (System.init (World.start start)) c → c.log = l ++ e :: l' → TreatedAsPro app e →
    ∃ t, Evaluated entitlementId l t ∧ e.before.server.clock - t <
      Duration.hours 12 + Duration.seconds 600 + Duration.seconds 6 := by
  intro H
  obtain ⟨c, l, e, hc, hlog, hpro, hclock, honly⟩ := exists_outlives
  obtain ⟨t, heval, hlt⟩ := H lapseServer "pro" 0 c l [] e tokensSound_lapseServer hc hlog hpro
  rw [hclock, honly t heval] at hlt
  exact absurd hlt (by decide)

end AnonyMail.Purchases
