import AnonyMail.Verify.OwnerGate

/-! # Expiries as exact sums

The default lifetime and the lifetime caps are 64-bit settings that no one checks. They are cast to
signed numbers, made into durations and added to dates, and each of these steps has a smaller range.
Within it the handlers compute the exact sums and compare exact integers. -/

namespace AnonyMail

open Calls Prog

/-- What `Config::from_env` admits: settings of 64 bits, and a signing key wherever client tokens are
asked for. -/
structure Config.FromEnv (cfg : Config) : Prop where
  ttl : cfg.defaultTtl < 2 ^ 64
  lifetime : ∀ tier, (cfg.tierPolicy tier).maxLifetimeSeconds < 2 ^ 64
  entitlements : cfg.entitlementsEnforced → cfg.tokenSigningKey.isSome
  attestation : cfg.clientAttestationRequired → cfg.tokenSigningKey.isSome

/-- The years 2020 to 2200. -/
def currentYears : Set DateTime :=
  {t | Duration.seconds 1577836800 ≤ t ∧ t < Duration.seconds 7289654400}

/-- All clock readings are in `T`. -/
def Timely (T : Set DateTime) (h : Hist) : Prop := ∀ t, ⟨.now, t⟩ ∈ h → t ∈ T

/-- The expiry is the last time that was read plus the configured number of seconds. -/
def Due (cfg : Config) (h : Hist) (x : DateTime) : Prop :=
  ∃ t, lastRead h = some t ∧ x = t + Duration.seconds cfg.defaultTtl

def claimsDecoded : Event Eff.Ans → Option ClientClaims
  | ⟨.jwtDecode .., .ok claims⟩ => some claims
  | _ => none

/-- The tier of the claims that were decoded last. -/
def tierDecoded (h : Hist) : Tier := ((h.filterMap claimsDecoded).getLast?.map (·.tier)).getD .free

/-- As exact integers, the mailbox that was read would live longer than its tier allows. -/
def Exceeds (cfg : Config) (h : Hist) : Prop :=
  cfg.entitlementsEnforced ∧ ∃ a mb t, ⟨.store (.getMailbox a), .ok (some mb)⟩ ∈ h ∧
    lastRead h = some t ∧ 0 < (cfg.tierPolicy (tierDecoded h)).maxLifetimeSeconds ∧
    Duration.seconds (cfg.tierPolicy (tierDecoded h)).maxLifetimeSeconds <
      t + Duration.seconds cfg.defaultTtl - mb.createdAt

/-- While the clock is in `T`, nothing panics, mailboxes get exact expiries, and none is extended past
its cap. -/
def Exactly (cfg : Config) (T : Set DateTime) (h : Hist) : Eff → Prop
  | .panic => ¬Timely T h
  | .store (.createMailbox _ _ x _ _) => Timely T h → Due cfg h x
  | .store (.extendMailbox _ x) => Timely T h → Due cfg h x ∧ ¬Exceeds cfg h
  | _ => True

/-- A request is refused for the lifetime cap only if it would exceed the cap. -/
def RefusesExactly (cfg : Config) (T : Set DateTime) (h : Hist) (r : Except Api.ApiError α) : Prop :=
  ∀ message, r = .error (.lifetimeCap message) → Timely T h → Exceeds cfg h

/-- The three handlers compute expiries exactly while the clock is in `T`. -/
structure ExpiriesExact (app : AppState) (T : Set DateTime) : Prop where
  create : ∀ peer hs req,
    Safe (Exactly app.config T) [] (Api.Addresses.create app peer hs req).run
  catchAll : ∀ delivery, Safe (Exactly app.config T) [] (Smtp.tryCatchAll app.config delivery)
  extend : ∀ a hs, Api.Ends (Exactly app.config T) (RefusesExactly app.config T) []
    (Api.Addresses.extend app a hs)

/-- Past this number of seconds there is no `Duration`. -/
def maxSeconds : Nat := 9223372036854775

theorem trySeconds_asI64 {n : Nat} (h : n ≤ maxSeconds) :
    Duration.trySeconds (asI64 n) = some (.seconds n) := by
  unfold maxSeconds at h
  rw [asI64_of_lt (by omega), Duration.trySeconds, if_pos (by omega)]

/-- Past the range of `i64` the cast wraps around, and before its end there is no `Duration`. -/
theorem trySeconds_neg {n : Nat} {d : Duration} (h : maxSeconds < n) (h' : n < 2 ^ 64)
    (hd : Duration.trySeconds (asI64 n) = some d) : d < 0 := by
  obtain ⟨hrange, hd⟩ := Option.ite_none_right_eq_some.mp hd
  have hneg : asI64 n < 0 := by
    refine asI64_neg (Nat.le_of_not_lt fun hlt => ?_) h'
    rw [asI64_of_lt hlt] at hrange
    unfold maxSeconds at h
    omega
  rw [← Option.some.inj hd]
  exact Int.mul_neg_of_neg_of_pos hneg (by decide)

theorem bounds_of_current {t : DateTime} {n : Nat} (ht : t ∈ currentYears)
    (hmax : t + Duration.seconds n ≤ DateTime.maxUtc) :
    DateTime.minUtc ≤ t + Duration.seconds n ∧ n ≤ maxSeconds := by
  have hrange : ∀ (t : Int) (n : Nat), 1577836800 * 1000000000 ≤ t →
      t + n * 1000000000 ≤ 8210266876799 * 1000000000 + 999999999 →
      -8334601228800 * 1000000000 ≤ t + n * 1000000000 ∧ n ≤ 9223372036854775 := by
    omega
  exact hrange t n ht.1 hmax

/-- A date in range is computed exactly. -/
theorem expiresAt_iff {cfg : Config} {t x : DateTime} (ht : t ∈ currentYears)
    (hmax : t + Duration.seconds cfg.defaultTtl ≤ DateTime.maxUtc) :
    ExpiresAt cfg t x ↔ x = t + Duration.seconds cfg.defaultTtl := by
  obtain ⟨hmin, httl⟩ := bounds_of_current ht hmax
  rw [ExpiresAt, trySeconds_asI64 httl]
  simp only [Option.some.injEq, exists_eq_left', DateTime.tryAdd]
  rw [if_pos ⟨hmin, hmax⟩, Option.some.injEq, eq_comm]

/-! ## Within the range -/

section
variable {app : AppState} {T : Set DateTime} {h : Hist}

theorem Eff.Queries.exactly {e : Eff} (he : e.Queries) : Exactly app.config T h e := by
  obtain ⟨he, hne⟩ := he
  cases e with
  | store op => cases op <;> first | exact trivial | exact he.elim
  | panic => exact absurd rfl hne
  | _ => trivial

variable (hT : T.Nonempty) (hyears : T ⊆ currentYears)
  (hmax : ∀ t ∈ T, t + Duration.seconds app.config.defaultTtl ≤ DateTime.maxUtc)
include hT hyears hmax

omit hT in
theorem due_of_expiresAt {x : DateTime} (htimely : Timely T h)
    (hx : ∃ t, lastRead h = some t ∧ ExpiresAt app.config t x) : Due app.config h x := by
  obtain ⟨t, hlast, hx⟩ := hx
  have ht := htimely t (mem_of_lastRead hlast)
  exact ⟨t, hlast, (expiresAt_iff (hyears ht) (hmax t ht)).mp hx⟩

/-- In range the clock gives an expiry. -/
theorem not_panic (hnone : ∀ t x, ¬ExpiresAt app.config t x) : False := by
  obtain ⟨t, ht⟩ := hT
  exact hnone t _ ((expiresAt_iff (hyears ht) (hmax t ht)).mpr rfl)

omit hT in
theorem not_panic_late {t : DateTime} (hnone : ∀ x, ¬ExpiresAt app.config t x) :
    ¬Timely T (h ++ [⟨.now, t⟩]) := by
  intro htimely
  have ht := htimely t (by simp)
  exact hnone _ ((expiresAt_iff (hyears ht) (hmax t ht)).mpr rfl)

theorem exactly_create (peer : IpAddr) (hs : Api.HeaderMap) (req : Api.CreateAddressRequest) :
    Safe (Exactly app.config T) [] (Api.Addresses.create app peer hs req).run := by
  have hquery : ∀ h e, Eff.Queries e → Exactly app.config T h e := fun _ _ he => he.exactly
  refine Api.safe_create hquery (fun h a d x owner device _ hx htimely => ?_)
    (fun h hnone => (not_panic hT hyears hmax hnone).elim)
    (fun h t hnone => not_panic_late hyears hmax hnone) peer
  exact due_of_expiresAt hyears hmax htimely hx

theorem exactly_tryCatchAll (delivery : String) :
    Safe (Exactly app.config T) [] (Smtp.tryCatchAll app.config delivery) := by
  unfold Smtp.tryCatchAll
  split
  · exact safe_ret
  split
  · exact safe_ret
  split
  · exact safe_ret
  refine safe_bind_of_obeys (Smtp.catchAllExpiry_obeys trivial
    (fun hnone => (not_panic hT hyears hmax hnone).elim)
    fun t hnone => not_panic_late hyears hmax hnone) ?_
  rintro _ x ⟨t, rfl, hx⟩
  refine safe_call_bind (fun htimely => ?_) fun r => ?_
  · exact due_of_expiresAt hyears hmax htimely ⟨t, by rw [lastRead_concat]; rfl, hx⟩
  split
  · exact safe_ret
  · split
    · refine safe_call_bind trivial fun now => safe_call_bind trivial fun r => ?_
      split <;> exact safe_ret
    · exact safe_ret

end

/-! ## The lifetime cap -/

/-- The error is not the refusal for the lifetime cap. -/
def Api.ApiError.NotCap (e : ApiError) : Prop := ∀ message, e ≠ .lifetimeCap message

theorem refusesExactly_of_notCap {e : Api.ApiError} (he : e.NotCap) :
    RefusesExactly cfg T h (.error e : Except Api.ApiError α) := by
  rintro message ⟨⟩
  exact absurd rfl (he message)

/-- Once a time outside of `T` has been read, nothing is said. -/
theorem obeys_of_untimely {p : Run α} (h₀ : ¬Timely T h) :
    Obeys (Exactly cfg T) (fun h' _ => ¬Timely T h') h p := by
  induction p generalizing h with
  | ret a => exact h₀
  | call e k ih =>
    refine ⟨?_, fun r => ih r fun h₁ => h₀ fun t ht => h₁ t (List.mem_append_left _ ht)⟩
    unfold Exactly
    split
    · exact h₀
    · exact fun h₁ => absurd h₁ h₀
    · exact fun h₁ => absurd h₁ h₀
    · trivial

/-- No client token is read from the request. -/
def NoToken (app : AppState) (hs : Api.HeaderMap) : Prop :=
  Api.rawClientToken hs = none ∨ app.config.tokenSigningKey = none

theorem tierDecoded_concat (h : Hist) (ev : Event Eff.Ans) :
    tierDecoded (h ++ [ev]) = ((claimsDecoded ev).map (·.tier)).getD (tierDecoded h) := by
  rw [tierDecoded, List.filterMap_append, List.getLast?_append]
  cases hev : claimsDecoded ev <;> simp [hev, tierDecoded]

namespace Api

/-- The calls that decode the client token, and the claims that come of it. -/
structure Shown (app : AppState) (hs : HeaderMap) (h h' : Hist) (client : Option ClientClaims) :
    Prop where
  decoded : Decoded h h'
  tier : tierDecoded h' = (client.map (·.tier)).getD (tierDecoded h)
  none : client = none ↔ NoToken app hs

/-- What a part of a handler gives satisfies `Q`, and its errors do not name the cap. -/
def Uncapped (Q : Hist → α → Prop) (h : Hist) : Except ApiError α → Prop
  | .ok a => Q h a
  | .error e => e.NotCap

section
variable {Q : Hist → α → Prop} {R : Hist → β → Prop}

theorem uncapped_pure {a : α} (ha : Q h a) : Ends Φ (Uncapped Q) h (pure a) := ends_pure ha

theorem uncapped_throw {e : ApiError} (he : e.NotCap) :
    Ends Φ (Uncapped Q) h (throw e : Handler α) := ends_throw he

theorem uncapped_bind {x : Handler α} {f : α → Handler β} (hx : Ends Φ (Uncapped Q) h x)
    (hf : ∀ h' a, Q h' a → Ends Φ (Uncapped R) h' (f a)) : Ends Φ (Uncapped R) h (x >>= f) :=
  hx.bind (fun _ _ he => he) hf

end

variable {app : AppState} {hs : HeaderMap} {h h' : Hist} {T : Set DateTime}

theorem clientClaims_ends :
    Ends (Exactly app.config T) (Uncapped (Shown app hs h)) h (clientClaims app hs) := by
  unfold clientClaims
  split
  · next raw key hraw hkey =>
    refine ⟨trivial, fun r => ?_⟩
    match r with
    | .ok claims =>
      show Shown app hs h _ (some claims)
      refine ⟨⟨_, rfl, fun ev hev => ?_⟩, ?_, nofun, ?_⟩
      · exact ⟨key, raw, clientTokenLeeway, by rw [List.mem_singleton.mp hev]⟩
      · rw [tierDecoded_concat]
        rfl
      · rintro (hnone | hnone)
        · cases hraw.symm.trans hnone
        · cases hkey.symm.trans hnone
    | .error .expiredSignature =>
      show ApiError.NotCap _
      exact nofun
    | .error .other =>
      show ApiError.NotCap _
      exact nofun
  · next hne =>
    refine uncapped_pure ⟨.refl, rfl, fun _ => ?_, fun _ => rfl⟩
    cases hraw : rawClientToken hs with
    | none => exact .inl hraw
    | some raw =>
      cases hkey : app.config.tokenSigningKey with
      | none => exact .inr hkey
      | some key => exact (hne raw key hraw hkey).elim

theorem attestationGate_ends :
    Ends (Exactly app.config T) (Uncapped (Shown app hs h)) h (attestationGate app hs) := by
  refine uncapped_bind clientClaims_ends fun h' client hshown => ?_
  split
  · exact uncapped_pure hshown
  · match client with
    | none => exact uncapped_throw nofun
    | some c =>
      show Ends _ _ _ (if c.isAttested then return some c else throw _)
      split
      · exact uncapped_pure hshown
      · exact uncapped_throw nofun

theorem authorizeOwner_ends {a : String} : Ends (Exactly app.config T)
    (Uncapped fun h' mb => h' = h ++ [⟨.store (.getMailbox a), .ok (some mb)⟩]) h
    (authorizeOwner app a hs) := by
  refine ends_store_bind trivial (fun e => nofun) fun o => ?_
  cases o with
  | none => exact uncapped_throw nofun
  | some mb =>
    show Ends _ _ _ (okOr (.unauthorized "missing bearer token") (bearerToken hs) >>= _)
    cases bearerToken hs with
    | none => exact uncapped_throw nofun
    | some token =>
      obtain ⟨address, domain, createdAt, expiresAt, hash, device⟩ := mb
      cases hash with
      | none => exact uncapped_throw nofun
      | some want =>
        show Ends _ _ _ (if tokenMatchesHash app.deps token want then return _
          else throw (.unauthorized "invalid owner token") : Handler Mailbox)
        split
        · exact uncapped_pure rfl
        · exact uncapped_throw nofun

/-- After the calls `h`, the request is about the mailbox `mb`, and the last time read is `t`. -/
structure Checking (h : Hist) (mb : Mailbox) (t : DateTime) : Prop where
  read : ∃ a, ⟨.store (.getMailbox a), .ok (some mb)⟩ ∈ h
  unique : ∀ a mb', ⟨.store (.getMailbox a), .ok (some mb')⟩ ∈ h → mb' = mb
  last : lastRead h = some t

/-- The calls of `extend` up to the clock reading. -/
theorem checking_of_decoded (hle : Decoded [] h) (a : String) (mb : Mailbox) (t : DateTime) :
    Checking (h ++ [⟨.store (.getMailbox a), .ok (some mb)⟩] ++ [⟨.now, t⟩]) mb t := by
  refine ⟨⟨a, by simp⟩, fun a' mb' hmem => ?_, by rw [lastRead_concat]; rfl⟩
  obtain ⟨l, rfl, hl⟩ := hle
  simp only [List.mem_append, List.mem_singleton] at hmem
  obtain (hmem | hmem) | hmem := hmem
  · obtain ⟨_, _, _, he⟩ := hl _ hmem
    cases he
  · cases hmem
    rfl
  · cases hmem

theorem Checking.decoded {mb : Mailbox} {t : DateTime} (H : Checking h mb t) (hle : Decoded h h') :
    Checking h' mb t := by
  refine ⟨?_, fun a mb' hmem => ?_, hle.lastRead_eq.trans H.last⟩
  · obtain ⟨a, hmem⟩ := H.read
    exact ⟨a, hle.asked.le.subset hmem⟩
  · obtain ⟨l, rfl, hl⟩ := hle
    rcases List.mem_append.mp hmem with hmem | hmem
    · exact H.unique a mb' hmem
    · obtain ⟨_, _, _, he⟩ := hl _ hmem
      cases he

theorem Checking.exceeds_iff {cfg : Config} {mb : Mailbox} {t : DateTime} (H : Checking h mb t) :
    Exceeds cfg h ↔ cfg.entitlementsEnforced ∧
      0 < (cfg.tierPolicy (tierDecoded h)).maxLifetimeSeconds ∧
      Duration.seconds (cfg.tierPolicy (tierDecoded h)).maxLifetimeSeconds <
        t + Duration.seconds cfg.defaultTtl - mb.createdAt := by
  constructor
  · rintro ⟨hon, a, mb', t', hmem, hlast, hexceeds⟩
    cases H.unique a mb' hmem
    cases H.last.symm.trans hlast
    exact ⟨hon, hexceeds⟩
  · rintro ⟨hon, hexceeds⟩
    obtain ⟨a, hmem⟩ := H.read
    exact ⟨hon, a, mb, t, hmem, H.last, hexceeds⟩

/-- The tier that is enforced is that of the claims decoded last. -/
theorem enforcedTier_ends (hfree : NoToken app hs → tierDecoded h = .free) :
    Ends (Exactly app.config T) (Uncapped fun h' tier => Decoded h h' ∧
      tier = if app.config.entitlementsEnforced then some (tierDecoded h') else none) h
      (enforcedTier app hs) := by
  unfold enforcedTier
  cases hon : app.config.entitlementsEnforced with
  | false => exact uncapped_pure ⟨.refl, rfl⟩
  | true =>
    have htier : Ends (Exactly app.config T)
        (Uncapped fun h' tier => Decoded h h' ∧ tier = tierDecoded h') h (clientTier app hs) := by
      refine uncapped_bind clientClaims_ends fun h' client hshown => ?_
      refine uncapped_pure ⟨hshown.decoded, ?_⟩
      rw [hshown.tier]
      cases client with
      | some c => rfl
      | none => exact (hfree (hshown.none.mp rfl)).symm
    refine uncapped_bind htier fun h' tier ⟨hle, htier⟩ => uncapped_pure ⟨hle, ?_⟩
    rw [htier]
    rfl

/-- The cap is compared exactly. -/
theorem checkLifetime_ends {mb : Mailbox} {t : DateTime} (H : Checking h mb t)
    (hfree : NoToken app hs → tierDecoded h = .free)
    (hcap : app.config.entitlementsEnforced → ∀ tier,
      (app.config.tierPolicy tier).maxLifetimeSeconds ≤ maxSeconds) :
    Ends (Exactly app.config T) (fun h' r =>
      ((∃ message, r = .error (.lifetimeCap message)) → Exceeds app.config h') ∧
      (r = .ok () → Checking h' mb t ∧ ¬Exceeds app.config h')) h
      (Addresses.checkLifetime app mb (t + Duration.seconds app.config.defaultTtl) hs) := by
  refine Ends.bind (enforcedTier_ends hfree) (fun h' e he => ⟨?_, nofun⟩) fun h' tier H' => ?_
  · rintro ⟨message, ⟨⟩⟩
    exact absurd rfl (he message)
  obtain ⟨hle, htier⟩ := H'
  have hchecking := H.decoded hle
  split at htier
  · next hon =>
    cases htier
    dsimp only
    split
    · next hpos =>
      rw [trySeconds_asI64 (hcap hon _)]
      refine ends_orPanic_bind nofun ?_
      rintro _ ⟨⟩
      split
      · next hlt => exact ends_throw ⟨fun _ => hchecking.exceeds_iff.mpr ⟨hon, hpos, hlt⟩, nofun⟩
      · next hnot =>
        refine ends_pure ⟨nofun, fun _ => ⟨hchecking, fun hexceeds => ?_⟩⟩
        exact hnot (hchecking.exceeds_iff.mp hexceeds).2.2
    · next hzero =>
      refine ends_pure ⟨nofun, fun _ => ⟨hchecking, fun hexceeds => ?_⟩⟩
      exact hzero (hchecking.exceeds_iff.mp hexceeds).2.1
  · next hoff =>
    cases htier
    exact ends_pure ⟨nofun, fun _ => ⟨hchecking, fun hexceeds => hoff hexceeds.1⟩⟩

end Api

theorem exactly_extend {app : AppState} {T : Set DateTime} (hT : T.Nonempty)
    (hyears : T ⊆ currentYears)
    (hmax : ∀ t ∈ T, t + Duration.seconds app.config.defaultTtl ≤ DateTime.maxUtc)
    (hcap : app.config.entitlementsEnforced → ∀ tier,
      (app.config.tierPolicy tier).maxLifetimeSeconds ≤ maxSeconds)
    (a : String) (hs : Api.HeaderMap) : Api.Ends (Exactly app.config T)
      (RefusesExactly app.config T) [] (Api.Addresses.extend app a hs) := by
  refine Api.Ends.bind Api.attestationGate_ends (fun h e he => refusesExactly_of_notCap he)
    fun h₁ client (hshown : Api.Shown app hs [] h₁ client) => ?_
  refine Api.Ends.bind Api.authorizeOwner_ends (fun h e he => refusesExactly_of_notCap he)
    fun h₂ mb hread => ?_
  cases hread
  refine Api.Ends.bind (Api.expiryFromNow_ends (fun _ _ he => he.exactly)
    (fun hnone => (not_panic hT hyears hmax hnone).elim)
    fun t hnone => not_panic_late hyears hmax hnone) ?_ ?_
  · rintro h' e ⟨t, x, ⟨⟩, -⟩
  rintro _ x ⟨t, _, ⟨⟩, rfl, hx⟩
  by_cases ht : t ∈ T
  · cases (expiresAt_iff (hyears ht) (hmax t ht)).mp hx
    have hchecking := Api.checking_of_decoded hshown.decoded (Str.toAsciiLowercase a) mb t
    have hfree : NoToken app hs → tierDecoded (h₁ ++
        [⟨.store (.getMailbox (Str.toAsciiLowercase a)), .ok (some mb)⟩] ++ [⟨.now, t⟩]) = .free := by
      intro hno
      rw [tierDecoded_concat, tierDecoded_concat, hshown.tier, hshown.none.mpr hno]
      rfl
    refine Api.Ends.bind (Api.checkLifetime_ends hchecking hfree hcap) ?_ ?_
    · rintro h' e H message ⟨⟩ -
      exact H.1 ⟨message, rfl⟩
    rintro h' _ H
    obtain ⟨hchecked, hnot⟩ := H.2 rfl
    refine Api.ends_store_bind (fun _ => ⟨⟨t, hchecked.last, rfl⟩, hnot⟩) ?_ ?_
    · exact fun e => refusesExactly_of_notCap (by rintro _ ⟨⟩)
    · rintro (_ | mb')
      · exact Api.ends_throw (refusesExactly_of_notCap (by rintro _ ⟨⟩))
      · exact Api.ends_pure nofun
  · refine ⟨(obeys_of_untimely fun htimely => ht (htimely t (by simp))).mono ?_⟩
    exact fun h' r hnot message _ htimely => absurd htimely hnot

/-! ## Beyond the range -/

/-- The headers of an owner who shows a client token. -/
def shownHeaders : Api.HeaderMap :=
  [("authorization", Str.asBytes "Bearer token"), (Api.clientTokenHeader, Str.asBytes "token")]

def shownClaims (tier : Tier) : ClientClaims := ⟨kindIos, none, tier, 0, 0⟩

def ownedMailbox (D : Deps) (createdAt : DateTime) : Mailbox :=
  ⟨"", "", createdAt, createdAt, some (Api.hashToken D "token"), none⟩

/-- The call that decodes the client token. -/
def showing (cfg : Config) (tier : Tier) : Hist :=
  match cfg.tokenSigningKey with
  | some key => [⟨.jwtDecode key "token" Api.clientTokenLeeway, .ok (shownClaims tier)⟩]
  | none => []

theorem timely_append {l : Hist} (htimely : Timely T h) (hl : ∀ ev ∈ l, clockRead ev = none) :
    Timely T (h ++ l) := by
  intro t ht
  obtain ht | ht := List.mem_append.mp ht
  · exact htimely t ht
  · cases hl _ ht

theorem timely_concat {t : DateTime} (htimely : Timely T h) (ht : t ∈ T) :
    Timely T (h ++ [⟨.now, t⟩]) := by
  intro t' ht'
  obtain ht' | ht' := List.mem_append.mp ht'
  · exact htimely t' ht'
  · cases List.mem_singleton.mp ht'
    exact ht

theorem clockRead_showing {cfg : Config} {tier : Tier} : ∀ ev ∈ showing cfg tier, clockRead ev = none := by
  unfold showing
  split
  · intro ev hev
    rw [List.mem_singleton.mp hev]
    rfl
  · exact fun _ hev => absurd hev List.not_mem_nil

theorem tierDecoded_showing {cfg : Config} {tier : Tier} (hkey : cfg.tokenSigningKey.isSome) :
    tierDecoded (h ++ showing cfg tier) = tier := by
  obtain ⟨key, hkey⟩ := Option.isSome_iff_exists.mp hkey
  rw [showing, hkey, tierDecoded_concat]
  rfl

namespace Api

theorem decoded_showing (h : Hist) (cfg : Config) (tier : Tier) : Decoded h (h ++ showing cfg tier) := by
  refine ⟨_, rfl, fun ev hev => ?_⟩
  unfold showing at hev
  split at hev
  · rw [List.mem_singleton.mp hev]
    exact ⟨_, _, _, rfl⟩
  · cases hev

theorem bearerToken_shownHeaders : bearerToken shownHeaders = some "token" := by decide +kernel

theorem rawClientToken_shownHeaders : rawClientToken shownHeaders = some "token" := by
  decide +kernel

variable {app : AppState} {tier : Tier} {T : Set DateTime} {R : Hist → Except ApiError β → Prop}

theorem obeys_answer {x : Handler α} {f : α → Handler β} {tr : Hist} {a : α}
    (H : Obeys Φ R h (x >>= f).run) (hx : Runs x.run tr (.ok a)) :
    Obeys Φ R (h ++ tr) (f a).run := by
  rw [run_bind, obeys_bind] at H
  exact H.result hx

theorem runs_ok_bind {x : Handler α} {f : α → Handler β} {tr tr' : Hist} {a : α}
    {r : Except ApiError β} (hx : Runs x.run tr (.ok a)) (hf : Runs (f a).run tr' r) :
    Runs (x >>= f).run (tr ++ tr') r := by
  rw [run_bind, runs_bind]
  exact ⟨_, tr, tr', rfl, hx, hf⟩

theorem runs_clientClaims : Runs (clientClaims app shownHeaders).run (showing app.config tier)
    (.ok (app.config.tokenSigningKey.map fun _ => shownClaims tier)) := by
  unfold clientClaims showing
  rw [rawClientToken_shownHeaders]
  cases app.config.tokenSigningKey with
  | none => exact .ret
  | some key => exact .call .ret

theorem runs_attestationGate
    (hkey : app.config.clientAttestationRequired → app.config.tokenSigningKey.isSome) :
    Runs (attestationGate app shownHeaders).run (showing app.config tier)
      (.ok (app.config.tokenSigningKey.map fun _ => shownClaims tier)) := by
  unfold attestationGate
  rw [← List.append_nil (showing app.config tier)]
  refine runs_ok_bind runs_clientClaims ?_
  cases hon : app.config.clientAttestationRequired with
  | false => exact .ret
  | true =>
    obtain ⟨key, hkey⟩ := Option.isSome_iff_exists.mp (hkey hon)
    rw [hkey]
    exact .ret

/-- A handler that never goes wrong finds an expiry at each time. -/
theorem exists_expiry {f : DateTime → Handler β} {t : DateTime}
    (H : Obeys (Exactly app.config T) R h (Addresses.expiryFromNow app >>= f).run)
    (htimely : Timely T h) (ht : t ∈ T) : ∃ x, ExpiresAt app.config t x ∧
      Obeys (Exactly app.config T) R (h ++ [⟨.now, t⟩]) (f x).run := by
  unfold Addresses.expiryFromNow at H
  cases httl : Duration.trySeconds (asI64 app.config.defaultTtl) with
  | none =>
    rw [httl] at H
    exact absurd htimely H.1
  | some ttl =>
    rw [httl] at H
    have hlate := timely_concat htimely ht
    have H' : Obeys (Exactly app.config T) R (h ++ [⟨.now, t⟩]) (orPanic (t.tryAdd ttl) >>= f).run :=
      H.2 t
    cases hx : t.tryAdd ttl with
    | none =>
      rw [hx] at H'
      exact absurd hlate H'.1
    | some x =>
      rw [hx] at H'
      exact ⟨x, ⟨ttl, httl, hx⟩, H'⟩

theorem runs_enforcedTier (henv : app.config.FromEnv) (hon : app.config.entitlementsEnforced) :
    Runs (enforcedTier app shownHeaders).run (showing app.config tier) (.ok (some tier)) := by
  obtain ⟨key, hkey⟩ := Option.isSome_iff_exists.mp (henv.entitlements hon)
  unfold enforcedTier clientTier
  rw [hon, ← List.append_nil (showing app.config tier), ← List.append_nil (showing app.config tier)]
  refine runs_ok_bind (runs_ok_bind runs_clientClaims .ret) ?_
  rw [hkey]
  exact .ret

theorem runs_checkMailboxCap (policy : Option TierPolicy) :
    Runs (Addresses.checkMailboxCap policy none).run [] (.ok ()) := by
  cases policy with
  | none => exact .ret
  | some p => exact .ret

theorem runs_randomChars (n : Nat) : ∃ tr cs, Runs (Addresses.randomChars n).run tr (.ok cs) ∧
    ∀ ev ∈ tr, clockRead ev = none := by
  induction n with
  | zero => exact ⟨[], [], .ret, fun _ hev => absurd hev List.not_mem_nil⟩
  | succ n ih =>
    obtain ⟨tr, cs, hcs, htr⟩ := ih
    have hdraw : Runs (perform (.randomRange Addresses.localPartCharset.length)).run
      [⟨.randomRange Addresses.localPartCharset.length, (0 : Nat)⟩] (.ok (0 : Nat)) := .call .ret
    refine ⟨_, _, runs_ok_bind hdraw (runs_ok_bind hcs .ret), ?_⟩
    rw [List.append_nil]
    exact List.forall_mem_cons.mpr ⟨rfl, htr⟩

/-- A random address is created with the expiry that was computed. -/
theorem due_of_createRandom {R : Hist → Except ApiError CreateAddressResponse → Prop} {d : String}
    {x : DateTime} {device : Option String} {n : Nat}
    (H : Obeys (Exactly app.config T) R h (Addresses.createRandom app d x device (n + 1)).run)
    (htimely : Timely T h) : Due app.config h x := by
  have htoken : Runs (generateOwnerToken app.deps).run [⟨.randomBytes 32, ([] : List UInt8)⟩]
    (.ok (tokenPrefix ++ Encoding.base64Url [],
      hashToken app.deps (tokenPrefix ++ Encoding.base64Url []))) := .call .ret
  obtain ⟨tr, cs, hcs, htr⟩ := runs_randomChars Addresses.randomLocalPartLen
  have hlocal : Runs Addresses.randomLocalPart.run (tr ++ []) (.ok (.ofList cs)) :=
    runs_ok_bind hcs .ret
  have hnone : ∀ ev ∈ [⟨.randomBytes 32, ([] : List UInt8)⟩] ++ (tr ++ []), clockRead ev = none := by
    rw [List.append_nil]
    exact List.forall_mem_cons.mpr ⟨rfl, htr⟩
  rw [Addresses.createRandom] at H
  have hgenerated := obeys_answer H htoken
  have hdrawn := obeys_answer hgenerated hlocal
  rw [List.append_assoc] at hdrawn
  obtain ⟨t, hlast, hx⟩ := hdrawn.1 (timely_append htimely hnone)
  exact ⟨t, (lastRead_append h hnone).symm.trans hlast, hx⟩

end Api

/-- A `create` that is never wrong bounds the default lifetime. -/
theorem bound_of_create {app : AppState} {T : Set DateTime} {peer : IpAddr} {t : DateTime}
    (henv : app.config.FromEnv) (ht : t ∈ T)
    (H : Safe (Exactly app.config T) [] (Api.Addresses.create app peer shownHeaders ⟨none, none⟩).run) :
    t + Duration.seconds app.config.defaultTtl ≤ DateTime.maxUtc := by
  have hcreate := H.obeys
  unfold Api.Addresses.create at hcreate
  have hclaims : Runs (Api.attestationGate app shownHeaders).run (showing app.config .free) _ :=
    Api.runs_attestationGate henv.attestation
  have hdevice : ((app.config.tokenSigningKey.map fun _ => shownClaims .free).bind (·.kid)).map
      (Api.hashToken app.deps) = none := by
    cases app.config.tokenSigningKey <;> rfl
  have hgate := Api.obeys_answer hcreate hclaims
  rw [hdevice] at hgate
  have hlocal := Api.obeys_answer (Api.obeys_answer hgate .ret) .ret
  have hcap := Api.obeys_answer hlocal (Api.runs_checkMailboxCap _)
  simp only [List.append_nil, List.nil_append] at hcap
  have htimely : ∀ ip today, Timely T (showing app.config .free ++ [⟨.now, t⟩] ++
      [⟨.noteAddressCreated ip today, true⟩]) := by
    intro ip today
    have hnil : Timely T [] := fun _ hmem => absurd hmem List.not_mem_nil
    refine timely_append (timely_concat (timely_append hnil clockRead_showing) ht) fun ev hev => ?_
    rw [List.mem_singleton.mp hev]
    rfl
  obtain ⟨x, ⟨ttl, httl, hx⟩, hrandom⟩ := Api.exists_expiry ((hcap.2 t).2 true) (htimely _ _) ht
  obtain ⟨t', hlast, rfl⟩ := Api.due_of_createRandom hrandom (timely_concat (htimely _ _) ht)
  rw [lastRead_concat] at hlast
  cases hlast
  obtain ⟨⟨-, hle⟩, heq⟩ := Option.ite_none_right_eq_some.mp hx
  rw [← Option.some.inj heq]
  exact hle

/-- A cap that is too large refuses a mailbox that would live no longer than it does. -/
theorem refuses_beyond {app : AppState} {T : Set DateTime} {R : Hist → Except Api.ApiError Unit → Prop}
    {mb : Mailbox} {x : DateTime} {tier : Tier} (henv : app.config.FromEnv)
    (hon : app.config.entitlementsEnforced) (htimely : Timely T h) (hx : mb.createdAt ≤ x)
    (hgt : maxSeconds < (app.config.tierPolicy tier).maxLifetimeSeconds)
    (H : Obeys (Exactly app.config T) R h (Api.Addresses.checkLifetime app mb x shownHeaders).run) :
    ∃ message, R (h ++ showing app.config tier) (.error (.lifetimeCap message)) := by
  unfold Api.Addresses.checkLifetime at H
  have htier := Api.obeys_answer H (@Api.runs_enforcedTier _ tier henv hon)
  dsimp only at htier
  rw [if_pos (by omega)] at htier
  cases hlimit : Duration.trySeconds (asI64 (app.config.tierPolicy tier).maxLifetimeSeconds) with
  | none =>
    rw [hlimit] at htier
    exact absurd (timely_append htimely clockRead_showing) htier.1
  | some limit =>
    rw [hlimit] at htier
    have hneg : limit < x - mb.createdAt :=
      Int.lt_of_lt_of_le (trySeconds_neg hgt (henv.lifetime tier) hlimit) (Int.sub_nonneg_of_le hx)
    change Obeys _ _ _ (if x - mb.createdAt > limit then _ else _ : Api.Handler Unit).run at htier
    rw [if_pos hneg] at htier
    exact ⟨_, htier⟩

/-- An `extend` that is never wrong bounds the lifetime of each tier. -/
theorem bound_of_extend {app : AppState} {T : Set DateTime} {t : DateTime} (henv : app.config.FromEnv)
    (hon : app.config.entitlementsEnforced) (ht : t ∈ T) (hyear : t ∈ currentYears)
    (hmax : t + Duration.seconds app.config.defaultTtl ≤ DateTime.maxUtc) (tier : Tier)
    (H : Api.Ends (Exactly app.config T) (RefusesExactly app.config T) []
      (Api.Addresses.extend app "" shownHeaders)) :
    (app.config.tierPolicy tier).maxLifetimeSeconds ≤ maxSeconds := by
  by_contra hgt
  have hextend := H.obeys
  unfold Api.Addresses.extend at hextend
  have hclaims : Runs (Api.attestationGate app shownHeaders).run (showing app.config tier) _ :=
    Api.runs_attestationGate henv.attestation
  have hgate := Api.obeys_answer hextend hclaims
  have hread : Runs (Api.authorizeOwner app (Str.toAsciiLowercase "") shownHeaders).run _
      (.ok (ownedMailbox app.deps t)) :=
    runs_authorizeOwner Api.bearerToken_shownHeaders rfl (constantTimeEq_self _)
  have howner := Api.obeys_answer hgate hread
  rw [List.nil_append] at howner
  have hnil : Timely T [] := fun _ hmem => absurd hmem List.not_mem_nil
  have htimely : Timely T (showing app.config tier ++
      [⟨.store (.getMailbox (Str.toAsciiLowercase "")), .ok (some (ownedMailbox app.deps t))⟩]) := by
    refine timely_append (timely_append hnil clockRead_showing) fun ev hev => ?_
    rw [List.mem_singleton.mp hev]
    rfl
  obtain ⟨x, hx, hcheck⟩ := Api.exists_expiry howner htimely ht
  cases (expiresAt_iff hyear hmax).mp hx
  rw [Api.run_bind, obeys_bind] at hcheck
  have hlate := timely_concat htimely ht
  have hbounds := bounds_of_current hyear hmax
  have hcreated : (ownedMailbox app.deps t).createdAt ≤ t + Duration.seconds app.config.defaultTtl :=
    Int.le_add_of_nonneg_right (Int.mul_nonneg (Int.natCast_nonneg _) (by decide))
  obtain ⟨message, hrefused⟩ := refuses_beyond henv hon hlate hcreated (Nat.lt_of_not_le hgt) hcheck
  have hexceeds := hrefused message rfl (timely_append hlate clockRead_showing)
  have hchecking := (Api.checking_of_decoded (Api.decoded_showing [] app.config tier)
    (Str.toAsciiLowercase "") (ownedMailbox app.deps t) t).decoded
    (Api.decoded_showing _ app.config tier)
  obtain ⟨-, -, hlt⟩ := hchecking.exceeds_iff.mp hexceeds
  rw [tierDecoded_showing (henv.entitlements hon)] at hlt
  have hsum : ∀ (t : Int) (cap ttl : Nat), cap * 1000000000 < t + ttl * 1000000000 - t → cap < ttl := by
    omega
  exact hgt (Nat.le_of_lt (Nat.lt_of_lt_of_le (hsum t _ _ hlt) hbounds.2))

/-- The settings under which nothing goes wrong while the clock is in `T`. -/
structure SettingsInRange (cfg : Config) (T : Set DateTime) : Prop where
  ttl : ∀ t ∈ T, t + Duration.seconds cfg.defaultTtl ≤ DateTime.maxUtc
  lifetime : cfg.entitlementsEnforced → ∀ tier,
    (cfg.tierPolicy tier).maxLifetimeSeconds ≤ 9223372036854775

/-- Expiries are exact at the times `T`, of the years 2020 to 2200, exactly if no time plus the default
lifetime is past the last date and, where entitlements are enforced, each lifetime cap has a
`Duration`. -/
theorem expiriesExact_iff {app : AppState} {T : Set DateTime} (henv : app.config.FromEnv)
    (hT : T.Nonempty) (hyears : T ⊆ currentYears) :
    ExpiriesExact app T ↔ SettingsInRange app.config T := by
  constructor
  · intro H
    have hmax : ∀ t ∈ T, t + Duration.seconds app.config.defaultTtl ≤ DateTime.maxUtc :=
      fun t ht => bound_of_create henv ht (H.create 0 _ _)
    obtain ⟨t, ht⟩ := hT
    exact ⟨hmax, fun hon tier => bound_of_extend henv hon ht (hyears ht) (hmax t ht) tier (H.extend _ _)⟩
  · intro H
    exact ⟨exactly_create hT hyears H.ttl, exactly_tryCatchAll hT hyears H.ttl,
      exactly_extend hT hyears H.ttl H.lifetime⟩

def defaultServer : AppState := ⟨.refusing [], .default, false⟩

theorem nonempty_currentYears : currentYears.Nonempty :=
  ⟨Duration.seconds 1577836800, le_refl _, by decide⟩

theorem expiriesExact_default : ExpiriesExact defaultServer currentYears := by
  have henv : defaultServer.config.FromEnv :=
    ⟨by decide, fun tier => by cases tier <;> decide, nofun, nofun⟩
  refine (expiriesExact_iff henv nonempty_currentYears subset_rfl).mpr ⟨fun t ht => ?_, nofun⟩
  have hsum : ∀ t : Int, t < 7289654400 * 1000000000 →
      t + 3600 * 1000000000 ≤ 8210266876799 * 1000000000 + 999999999 := by
    omega
  exact hsum t ht.2

/-- The largest default lifetime that can be configured. -/
def maxTtlServer : AppState := ⟨.refusing [], { Config.default with defaultTtl := 2 ^ 64 - 1 }, false⟩

/-- Cast to a signed number, it is negative. -/
theorem not_expiriesExact :
    ¬∀ app : AppState, app.config.FromEnv → ExpiriesExact app currentYears := by
  intro H
  have henv : maxTtlServer.config.FromEnv :=
    ⟨by decide, fun tier => by cases tier <;> decide, nofun, nofun⟩
  obtain ⟨t, ht⟩ := nonempty_currentYears
  have hle := bound_of_create henv ht ((H _ henv).create 0 _ _)
  have hsum : ∀ t : Int, 1577836800 * 1000000000 ≤ t →
      ¬t + 18446744073709551615 * 1000000000 ≤ 8210266876799 * 1000000000 + 999999999 := by
    omega
  exact hsum t ht.1 hle

end AnonyMail
