import Mathlib.Data.List.DropRight
import AnonyMail.Api.Client
import AnonyMail.FromEnv

/-! # What the server can rely on in its settings

The settings that `from_env` accepts are coherent, so that a server that offers attestation can sign
what it mints; and if only the domains are set, the settings are those of `Config::default`. -/

namespace AnonyMail

/-! ## Lists of names -/

namespace Str

theorem trim_trim (s : String) : trim (trim s) = trim s := by
  have hhead : ∀ l : List Char, (List.rdropWhile isWhitespace (l.dropWhile isWhitespace)).dropWhile
      isWhitespace = List.rdropWhile isWhitespace (l.dropWhile isWhitespace) := by
    intro l
    rw [List.dropWhile_eq_self_iff]
    intro hlen
    have hpre := List.rdropWhile_prefix isWhitespace (l.dropWhile isWhitespace)
    have hpos := lt_of_lt_of_le hlen hpre.length_le
    rw [hpre.getElem hlen]
    exact List.dropWhile_get_zero_not isWhitespace l hpos
  have htrim : ∀ s : String, (trim s).toList =
      List.rdropWhile isWhitespace (s.toList.dropWhile isWhitespace) := fun _ => String.toList_ofList
  refine String.toList_injective ?_
  rw [htrim, htrim, hhead, List.rdropWhile_idempotent]

theorem trim_toAsciiLowercase (s : String) :
    trim (toAsciiLowercase s) = toAsciiLowercase (trim s) := by
  have hcomp : isWhitespace ∘ asciiLower = isWhitespace := funext isWhitespace_asciiLower
  refine String.toList_injective ?_
  simp only [trim, toAsciiLowercase, dropEndWhile, String.toList_ofList, List.dropWhile_map, hcomp,
    ← List.map_reverse]

end Str

theorem Config.mem_parseList {raw d : String} (h : d ∈ parseList raw) :
    d ≠ "" ∧ Str.trim d = d := by
  obtain ⟨hmem, hne⟩ := List.mem_filter.mp h
  obtain ⟨part, -, rfl⟩ := List.mem_map.mp hmem
  refine ⟨?_, Str.trim_trim _⟩
  intro heq
  rw [heq] at hne
  exact absurd hne (by decide)

theorem Config.mem_domainsFromEnv {raw d : String} (h : d ∈ domainsFromEnv raw) :
    d ≠ "" ∧ Str.trim d = d ∧ Str.toAsciiLowercase d = d := by
  obtain ⟨x, hx, rfl⟩ := List.mem_map.mp h
  obtain ⟨hne, htrim⟩ := mem_parseList hx
  refine ⟨?_, by rw [Str.trim_toAsciiLowercase, htrim], Str.toAsciiLowercase_idem x⟩
  intro hempty
  have hlen := congrArg (fun s : String => s.toList) hempty
  rw [Str.toAsciiLowercase, String.toList_ofList] at hlen
  exact hne (String.toList_eq_nil_iff.mp (List.map_eq_nil_iff.mp hlen))

namespace Settings

variable {env : Env} {host : Host} {α β : Type}

theorem ok_of_bind {x : FromEnv α} {f : α → FromEnv β} {b : β} (h : x >>= f = .ok b) :
    ∃ a, x = .ok a ∧ f a = .ok b := by
  cases x with
  | error e => cases h
  | ok a => exact ⟨a, rfl, h⟩

/-! ## The groups -/

theorem vapidKeys_ok {keys : Option String × Option String} (h : vapidKeys env = .ok keys) :
    keys.1.isSome = keys.2.isSome := by
  simp only [vapidKeys] at h
  split at h
  · cases h
  · next heq =>
    cases h
    exact not_not.mp heq

theorem apns_ok {a : Apns} (h : apns host = .ok a) : a.parts.any id = a.parts.all id := by
  obtain ⟨privateKey, -, h⟩ := ok_of_bind h
  dsimp only at h
  split at h
  · cases h
  · next hparts =>
    cases h
    rw [Bool.and_eq_true, Bool.not_eq_true'] at hparts
    rw [Bool.eq_iff_iff]
    refine ⟨fun hany => ?_, fun hall => ?_⟩
    · by_contra hall
      exact hparts ⟨hany, Bool.eq_false_iff.mpr hall⟩
    · have hfirst := List.all_eq_true.mp hall _ List.mem_cons_self
      exact List.any_eq_true.mpr ⟨_, List.mem_cons_self, hfirst⟩

theorem tokenSigningKey_ok {o : Option (List UInt8)} (h : tokenSigningKey host = .ok o) :
    ∀ key, o = some key → 32 ≤ key.length := by
  rintro key rfl
  simp only [tokenSigningKey] at h
  split at h
  · cases h
  · split at h
    · cases h
    · split at h
      · cases h
      · next hlen =>
        cases h
        exact Nat.le_of_not_lt hlen

theorem checkEntitlements_ok {enforced : Bool} {key : Option (List UInt8)} {secret : Option String}
    (h : checkEntitlements enforced key secret = .ok ()) :
    (enforced → key.isSome) ∧ (secret.isSome → key.isSome) := by
  simp only [checkEntitlements] at h
  split at h
  · cases h
  · next henforced =>
    split at h
    · cases h
    · next hsecret =>
      cases key <;> simp_all

theorem checkAppAttest_ok {required : Bool} {team bundle : Option String}
    {key : Option (List UInt8)} (h : checkAppAttest required team bundle key = .ok ()) :
    team.isSome = bundle.isSome ∧ (team.isSome → key.isSome) ∧ (required → team.isSome) := by
  simp only [checkAppAttest] at h
  split at h
  · cases h
  · next hboth =>
    split at h
    · cases h
    · next hkey =>
      split at h
      · cases h
      · next hrequired =>
        refine ⟨not_not.mp hboth, ?_, ?_⟩
        · cases key <;> simp_all
        · cases team <;> simp_all

/-! ## All settings -/

/-- What belongs together is set together, and what is switched on has what it needs. -/
structure Coherent (s : Settings) : Prop where
  domains : ∀ d ∈ s.config.domains, d ≠ "" ∧ Str.trim d = d ∧ Str.toAsciiLowercase d = d
  hostname : Str.trim s.config.smtpHostname ≠ ""
  reserved : Config.default.reservedLocalParts ⊆ s.config.reservedLocalParts
  reserved_lower : ∀ l ∈ s.config.reservedLocalParts, Str.toAsciiLowercase l = l
  vapid : s.config.vapidPublicKey.isSome = s.config.vapidPrivateKey.isSome
  apns : s.config.apnsConfigured = (s.config.apnsTeamId.isSome || s.config.apnsKeyId.isSome ||
    s.config.apnsPrivateKey.isSome || s.config.apnsTopic.isSome)
  signingKey : ∀ key, s.config.tokenSigningKey = some key → 32 ≤ key.length
  enforced : s.config.entitlementsEnforced → s.config.tokenSigningKey.isSome
  purchases : s.revenuecatSecretKey.isSome → s.config.tokenSigningKey.isSome
  appAttest : s.config.appAttestTeamId.isSome = s.config.appAttestBundleId.isSome
  attested : s.config.appAttestConfigured → s.config.tokenSigningKey.isSome
  required : s.config.clientAttestationRequired → s.config.appAttestConfigured

theorem domains_ok {l : {l : List String // l ≠ []}} (h : domains env = .ok l) :
    ∃ raw, l.1 = Config.domainsFromEnv raw := by
  simp only [domains] at h
  split at h
  · cases h
  · cases h
    exact ⟨_, rfl⟩

theorem mem_reservedLocalParts {l : String} (h : l ∈ reservedLocalParts env) :
    Str.toAsciiLowercase l = l := by
  rcases List.mem_append.mp h with h | h
  · have hdefault : ∀ l ∈ Config.default.reservedLocalParts, Str.toAsciiLowercase l = l := by decide
    exact hdefault l h
  · obtain ⟨x, -, rfl⟩ := List.mem_map.mp h
    exact Str.toAsciiLowercase_idem x

theorem notBlank_ne {key value : String} (h : notBlank env key = some value) :
    Str.trim value ≠ "" := by
  obtain ⟨-, hvalue⟩ := Option.filter_eq_some_iff.mp h
  intro heq
  rw [heq] at hvalue
  exact absurd hvalue (by decide)

theorem trim_hostname_ne {key : String} {l : List String} {hne : l ≠ []}
    (hl : ∀ d ∈ l, d ≠ "" ∧ Str.trim d = d ∧ Str.toAsciiLowercase d = d) :
    Str.trim ((notBlank env key).getD (l.head hne)) ≠ "" := by
  cases hname : notBlank env key with
  | some name => exact notBlank_ne hname
  | none =>
    obtain ⟨hhead, htrim, -⟩ := hl _ (List.head_mem hne)
    rw [Option.getD_none, htrim]
    exact hhead

theorem coherent_of_fromEnv {s : Settings} (h : fromEnv host = .ok s) : s.Coherent := by
  unfold fromEnv at h
  dsimp only at h
  obtain ⟨⟨domains, hne⟩, hdomains, h⟩ := ok_of_bind h
  obtain ⟨defaultTtl, -, h⟩ := ok_of_bind h
  obtain ⟨maxMessageSize, -, h⟩ := ok_of_bind h
  obtain ⟨maxRecipients, -, h⟩ := ok_of_bind h
  obtain ⟨maxConnections, -, h⟩ := ok_of_bind h
  obtain ⟨perIpConnectionsPerMin, -, h⟩ := ok_of_bind h
  obtain ⟨tls, -, h⟩ := ok_of_bind h
  obtain ⟨rateLimits, -, h⟩ := ok_of_bind h
  obtain ⟨apiTrustProxyHeaders, -, h⟩ := ok_of_bind h
  obtain ⟨sseMaxConcurrent, -, h⟩ := ok_of_bind h
  obtain ⟨sseMaxPerIp, -, h⟩ := ok_of_bind h
  obtain ⟨maxAddresses, -, h⟩ := ok_of_bind h
  obtain ⟨maxMessages, -, h⟩ := ok_of_bind h
  obtain ⟨maxMailboxBytes, -, h⟩ := ok_of_bind h
  obtain ⟨minFreeDiskBytes, -, h⟩ := ok_of_bind h
  obtain ⟨⟨publicKey, privateKey⟩, hvapid, h⟩ := ok_of_bind h
  obtain ⟨maxSubscriptions, -, h⟩ := ok_of_bind h
  obtain ⟨apns, hapns, h⟩ := ok_of_bind h
  obtain ⟨catchAll, -, h⟩ := ok_of_bind h
  obtain ⟨customDomains, -, h⟩ := ok_of_bind h
  obtain ⟨maxCustomDomains, -, h⟩ := ok_of_bind h
  obtain ⟨throttle, -, h⟩ := ok_of_bind h
  obtain ⟨storeRaw, -, h⟩ := ok_of_bind h
  obtain ⟨enforced, -, h⟩ := ok_of_bind h
  obtain ⟨key, hkey, h⟩ := ok_of_bind h
  obtain ⟨⟨⟩, hentitlements, h⟩ := ok_of_bind h
  obtain ⟨required, -, h⟩ := ok_of_bind h
  obtain ⟨⟨⟩, hattest, h⟩ := ok_of_bind h
  obtain ⟨rootPem, -, h⟩ := ok_of_bind h
  obtain ⟨freeTier, -, h⟩ := ok_of_bind h
  obtain ⟨proTier, -, h⟩ := ok_of_bind h
  cases h
  obtain ⟨raw, rfl⟩ := domains_ok hdomains
  obtain ⟨henforced, hsecret⟩ := checkEntitlements_ok hentitlements
  obtain ⟨hboth, hsigned, hrequired⟩ := checkAppAttest_ok hattest
  have hconfigured : ∀ team bundle : Option String, team.isSome = bundle.isSome →
      (team.isSome && bundle.isSome) = team.isSome := fun _ _ h => by rw [← h, Bool.and_self]
  have hattested := hconfigured _ _ hboth
  exact {
    domains := fun d => Config.mem_domainsFromEnv
    hostname := trim_hostname_ne fun d => Config.mem_domainsFromEnv
    reserved := List.subset_append_left ..
    reserved_lower := fun l => mem_reservedLocalParts
    vapid := vapidKeys_ok hvapid
    apns := by
      have hparts := apns_ok hapns
      simp only [Apns.parts, List.any_cons, List.any_nil, List.all_cons, List.all_nil, id,
        Bool.or_false, Bool.and_true] at hparts
      simp only [Config.apnsConfigured, ← Bool.and_assoc, ← Bool.or_assoc] at hparts ⊢
      exact hparts.symm
    signingKey := tokenSigningKey_ok hkey
    enforced := henforced
    purchases := hsecret
    appAttest := hboth
    attested := fun h => hsigned (hattested ▸ h)
    required := fun h => hattested.trans (hrequired h) }

/-- Whoever has attested gets a token, signed with a key that is long enough. -/
def Signs (app : AppState) : Prop :=
  ∃ key : List UInt8, 32 ≤ key.length ∧ ∀ keyId id, Api.Client.mint app keyId id = (do
    let tier ← Api.resolveTier app id
    let (token, expiresAt) ← Api.mintClientToken app key kindIos (some keyId) tier
    return ⟨token, tier, expiresAt⟩)

theorem Coherent.signs {s : Settings} (H : s.Coherent) {app : AppState} (happ : app.config = s.config)
    (hconfigured : app.config.appAttestConfigured) : Signs app := by
  obtain ⟨key, hkey⟩ := Option.isSome_iff_exists.mp (H.attested (happ ▸ hconfigured))
  refine ⟨key, H.signingKey key hkey, fun keyId id => ?_⟩
  rw [Api.Client.mint, happ, hkey]
  rfl

/-! ## The defaults -/

/-- Only the domains are set. -/
def onlyDomains (raw : String) : Env := fun key => if key = "DOMAINS" then some raw else none

/-- The defaults, for these domains. -/
def defaultFor (raw : String) (h : Config.domainsFromEnv raw ≠ []) : Settings :=
  { default with config := { Config.default with
      domains := Config.domainsFromEnv raw
      domains_ne := h
      smtpHostname := (Config.domainsFromEnv raw).head h } }

theorem parseU64_unset {key : String} {n : Nat} (henv : env key = none) (hn : n < 2 ^ 64) :
    parseU64 env key n = .ok n := by
  simp only [parseU64, parseEnv, henv]
  exact congrArg Except.ok (UInt64.toNat_ofNat_of_lt' hn)

theorem parseU32_unset {key : String} {n : Nat} (henv : env key = none) (hn : n < 2 ^ 32) :
    parseU32 env key n = .ok n := by
  simp only [parseU32, parseEnv, henv]
  exact congrArg Except.ok (UInt32.toNat_ofNat_of_lt' hn)

theorem parseBool_unset {key : String} {b : Bool} (henv : env key = none) :
    parseBool env key b = .ok b := by
  simp only [parseBool, henv]

theorem tlsConfig_unset (hcert : env "TLS_CERT_PATH" = none) (hkey : env "TLS_KEY_PATH" = none) :
    tlsConfig env = .ok none := by
  simp only [tlsConfig, hcert, hkey, Option.filter_none]

theorem fromEnv_onlyDomains {raw : String} (hne : Config.domainsFromEnv raw ≠ [])
    (henv : host.env = onlyDomains raw) : fromEnv host = .ok (defaultFor raw hne) := by
  have hunset : ∀ key, key ≠ "DOMAINS" → host.env key = none := fun key hkey => by
    rw [henv, onlyDomains, if_neg hkey]
  have hdomains : domains host.env = .ok ⟨Config.domainsFromEnv raw, hne⟩ := by
    have hraw : envOr host.env "DOMAINS" "" = raw := by rw [envOr, henv]; rfl
    simp only [domains, hraw, dif_neg hne]
  have hu64 : ∀ key n, key ≠ "DOMAINS" → n < 2 ^ 64 → parseU64 host.env key n = .ok n :=
    fun key n hkey => parseU64_unset (hunset key hkey)
  have hu32 : ∀ key n, key ≠ "DOMAINS" → n < 2 ^ 32 → parseU32 host.env key n = .ok n :=
    fun key n hkey => parseU32_unset (hunset key hkey)
  have hbool : ∀ key b, key ≠ "DOMAINS" → parseBool host.env key b = .ok b :=
    fun key b hkey => parseBool_unset (hunset key hkey)
  have hnonEmpty : ∀ key, key ≠ "DOMAINS" → nonEmptyEnv host.env key = none := fun key hkey => by
    rw [nonEmptyEnv, hunset key hkey]
    rfl
  have hnotBlank : ∀ key, key ≠ "DOMAINS" → notBlank host.env key = none := fun key hkey => by
    rw [notBlank, hunset key hkey]
    rfl
  have hrates : RateLimits.fromEnv host.env = .ok .default := by
    simp (disch := decide) only [RateLimits.fromEnv, parseEnv, hunset]
    rfl
  have hreserved : reservedLocalParts host.env = Config.default.reservedLocalParts := by
    rw [reservedLocalParts, envOr, hunset _ (by decide)]
    decide
  have htls : tlsConfig host.env = .ok none :=
    tlsConfig_unset (hunset _ (by decide)) (hunset _ (by decide))
  have hvapid : vapidKeys host.env = .ok (none, none) := by
    simp (disch := decide) only [vapidKeys, hnonEmpty]
    rfl
  have hapns : apns host = .ok ⟨none, none, none, none⟩ := by
    simp (disch := decide) only [apns, apnsPrivateKey, hnonEmpty]
    rfl
  have hkey : tokenSigningKey host = .ok none := by
    simp (disch := decide) only [tokenSigningKey, hnonEmpty]
  have hpem : appAttestRootPem host = .ok none := by
    simp (disch := decide) only [appAttestRootPem, hnonEmpty]
  have hfree : freeTier host.env Config.default.freeTier = .ok Config.default.freeTier := by
    simp (disch := decide) only [freeTier, hu32, hu64, hbool]
    rfl
  have hpro : proTier host.env Config.default.proTier = .ok Config.default.proTier := by
    simp (disch := decide) only [proTier, hu32, hu64]
    rfl
  have hbase : default.config = Config.default := rfl
  simp (disch := decide) only [fromEnv, hbase, hdomains, hu64, hu32, hbool, hnonEmpty, hnotBlank,
    hrates, hreserved, htls, hvapid, hapns, hkey, hpem, hfree, hpro]
  rfl

def twoDomains : Host where
  env := onlyDomains " Mail.org , x.org, "
  read _ := none
  base64Decode _ := none

end Settings
end AnonyMail
