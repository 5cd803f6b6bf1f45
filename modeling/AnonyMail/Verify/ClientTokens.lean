import AnonyMail.Verify.Logic

/-! # The tokens that a client is given

A request that returns a client token has signed it as the last thing that it did, right after it
was told whether the purchase is good. -/

namespace AnonyMail

open Calls Prog

/-- At the time `m` the server signed these claims. -/
structure Signs (app : AppState) (m : DateTime) (claims : ClientClaims) (token : String) : Prop where
  expiry : ∃ x, m.tryAdd (.seconds clientTokenTtlSeconds) = some x ∧ claims.exp = x.timestamp
  encoded : ∃ key, app.config.tokenSigningKey = some key ∧ app.deps.jwtEncode key claims = some token

/-- Claims that are unexpired at `t`, but for the leeway, were signed less than twelve hours and six
seconds before: five of leeway and one for the rounding of both times. -/
theorem Signs.elapsed_lt {app : AppState} {m t : DateTime} {claims : ClientClaims} {token : String}
    (H : Signs app m claims token) (h : t.timestamp - Api.clientTokenLeeway ≤ claims.exp) :
    t - m < Duration.hours 12 + Duration.seconds 6 := by
  obtain ⟨x, hx, hexp⟩ := H.expiry
  rw [hexp] at h
  obtain ⟨-, rfl⟩ := Option.ite_some_none_eq_some.mp hx
  have hsecs : ∀ a b : Int, a / 1000000000 - 5 ≤ (b + 43200000000000) / 1000000000 →
      a - b < 43206000000000 := by
    intro a b hab
    omega
  exact hsecs t m h

/-- The last thing done was to read the clock for these claims, right after the verdict pro if they
say so. -/
structure Minted (app : AppState) (h : Hist) (r : Api.ClientTokenResponse) : Prop where
  intro ::
  signed : ∃ h₀ m claims, h = h₀ ++ [⟨.now, m⟩] ∧ Signs app m claims r.clientToken ∧
    (claims.tier = .pro → ∃ h₁ id, h₀ = h₁ ++ [⟨.isPro id, some true⟩])

namespace Api

variable {app : AppState} {h : Hist}

theorem resolveTier_yields (id : Option String) : Yields (fun _ _ => True) (fun h' tier =>
    tier = .pro → ∃ h₁ id, h' = h₁ ++ [⟨.isPro id, some true⟩]) h (resolveTier app id) := by
  unfold resolveTier
  split
  · refine yields_perform_bind trivial fun r => ?_
    match r with
    | some true => exact yields_pure fun _ => ⟨h, _, rfl⟩
    | some false => exact yields_pure nofun
    | none => exact yields_throw
  · exact yields_pure nofun

theorem mintClientToken_yields {key : List UInt8} (hkey : app.config.tokenSigningKey = some key)
    (kind : String) (kid : Option String) (tier : Tier) : Yields (fun _ _ => True) (fun h' r =>
      ∃ m claims, h' = h ++ [⟨.now, m⟩] ∧ Signs app m claims r.1 ∧ claims.tier = tier) h
      (mintClientToken app key kind kid tier) := by
  refine yields_perform_bind trivial fun m => yields_orPanic_bind (fun _ => trivial) fun x hx => ?_
  refine yields_okOr_bind fun token htok => ?_
  exact yields_pure ⟨m, _, rfl, ⟨⟨x, hx, rfl⟩, key, hkey, htok⟩, rfl⟩

theorem resolve_mint_yields {key : List UInt8} (hkey : app.config.tokenSigningKey = some key)
    (kind : String) (kid id : Option String) : Yields (fun _ _ => True) (Minted app) h (do
      let tier ← resolveTier app id
      let (clientToken, expiresAt) ← mintClientToken app key kind kid tier
      return ⟨clientToken, tier, expiresAt⟩) := by
  refine Yields.bind (resolveTier_yields id) fun h₀ tier hpro => ?_
  refine Yields.bind (mintClientToken_yields hkey kind kid tier) fun h' r H => ?_
  obtain ⟨m, claims, hh, hsigns, rfl⟩ := H
  exact yields_pure ⟨h₀, m, claims, hh, hsigns, hpro⟩

theorem mint_yields (keyId : String) (id : Option String) :
    Yields (fun _ _ => True) (Minted app) h (Client.mint app keyId id) :=
  yields_okOr_bind fun _ hkey => resolve_mint_yields hkey _ _ _

theorem verify_yields (hs : HeaderMap) (id : Option String) :
    Yields (fun _ _ => True) (Minted app) h (Entitlements.verify app hs id) :=
  yields_okOr_bind fun _ hkey => Yields.bind yields_any fun _ _ _ => resolve_mint_yields hkey _ _ _

theorem attest_yields (req : AttestRequest) :
    Yields (fun _ _ => True) (Minted app) h (Client.attest app req) := by
  refine Yields.bind yields_any fun h₁ appId _ => Yields.bind yields_any fun h₂ _ _ => ?_
  refine Yields.bind yields_any fun h₃ _ _ => ?_
  split
  · exact yields_throw
  · refine Yields.bind yields_any fun h₄ now _ => Yields.bind yields_any fun h₅ _ _ => ?_
    exact mint_yields _ _

theorem assert_yields (req : AssertRequest) :
    Yields (fun _ _ => True) (Minted app) h (Client.assert app req) := by
  refine Yields.bind yields_any fun h₁ appId _ => Yields.bind yields_any fun h₂ _ _ => ?_
  refine Yields.bind yields_any fun h₃ _ _ => Yields.bind yields_any fun h₄ found _ => ?_
  split
  · exact yields_throw
  · split
    · exact yields_throw
    · refine Yields.bind yields_any fun h₅ now _ => Yields.bind yields_any fun h₆ advanced _ => ?_
      split
      · exact yields_throw
      · exact mint_yields _ _

/-- A client token in the response was minted as the last thing done. -/
def MintsToken (app : AppState) (h : Hist) (r : Response) : Prop :=
  ∀ t, r = .clientToken t → Minted app h t

theorem mintsToken_clientToken {x : Handler ClientTokenResponse}
    (hx : Yields (fun _ _ => True) (Minted app) h x) :
    Yields (fun _ _ => True) (MintsToken app) h (.clientToken <$> x) := by
  refine Yields.map ⟨hx.obeys.mono fun h' r hQ a ha t ht => ?_⟩
  cases ht
  exact hQ a ha

/-- A response of another kind. -/
theorem mintsToken_map {g : α → Response} {x : Handler α} (hg : ∀ a t, g a ≠ .clientToken t) :
    Yields (fun _ _ => True) (MintsToken app) h (g <$> x) :=
  Yields.map ⟨obeys_trivial.mono fun _ _ _ a _ t ht => absurd ht (hg a t)⟩

theorem mintsToken_noContent {x : Handler Unit} :
    Yields (fun _ _ => True) (MintsToken app) h (do x; return .noContent) :=
  Yields.bind yields_any fun _ _ _ => yields_pure nofun

theorem mintsToken_ifCustomDomains {x : Handler Response}
    (hx : Yields (fun _ _ => True) (MintsToken app) h x) :
    Yields (fun _ _ => True) (MintsToken app) h (ifCustomDomains app x) := by
  unfold ifCustomDomains
  split
  · exact hx
  · exact yields_throw

theorem mintsToken_handle (req : Request) :
    Yields (fun _ _ => True) (MintsToken app) [] (handle app req) := by
  cases req with
  | verifyEntitlements hs id => exact mintsToken_clientToken (verify_yields hs id)
  | attest req => exact mintsToken_clientToken (attest_yields req)
  | assert req => exact mintsToken_clientToken (assert_yields req)
  | health | capabilities | listDomains | pushConfig => exact yields_pure nofun
  | deleteAddress | deleteMessage | markRead | unsubscribe => exact mintsToken_noContent
  | createDomain | getDomain | verifyDomain =>
    exact mintsToken_ifCustomDomains (mintsToken_map (by simp))
  | deleteDomain => exact mintsToken_ifCustomDomains mintsToken_noContent
  | _ => exact mintsToken_map (by simp)

end Api

/-- The client token in a response. -/
def Outcome.clientToken : Outcome → Option Api.ClientTokenResponse
  | .response (.ok (.clientToken r)) => some r
  | _ => none

theorem task_mints (app : AppState) (t : Task) : Obeys (fun _ _ => True)
    (fun h o => ∀ r, Outcome.clientToken o = some r → Minted app h r) [] (t.prog app) := by
  cases t with
  | http req =>
    refine obeys_map.mpr ((Api.mintsToken_handle req).obeys.mono fun h r hr t ht => ?_)
    unfold Outcome.clientToken at ht
    split at ht
    · next heq =>
      cases heq
      cases ht
      exact hr _ rfl _ rfl
    · cases ht
  | smtp | reverify | cleanup =>
    exact obeys_bind.mpr (obeys_trivial.mono fun _ _ _ => nofun)

end AnonyMail
