import AnonyMail.Verify.WellFormed

/-! # What a tier lets its requests do

The policy of a tier is read in three handlers: by `create`, by `extend` and when a domain is claimed.
A request of the free tier stays within the policy in any interleaving. An extend takes the time and
writes the new expiry in two calls; another one that takes the time later may write first. -/

namespace AnonyMail

open Calls MemoryStore

/-! ## The conditions on a run -/

/-- A client token that is presented is one of the free tier. -/
def freeTier (app : AppState) (c : ServerConf) : ServerMove → Bool
  | .act i _ =>
    match c.procs[i]? with
    | some ⟨_, _, .call (.jwtDecode key token leeway) _⟩ =>
      match app.deps.jwtDecode key token leeway c.world.clock with
      | .ok claims => claims.tier == .free
      | .error _ => true
    | _ => true
  | _ => true

/-- The wall clock is not set back. -/
def clockOnward (c : ServerConf) : ServerMove → Bool
  | .env (.clock t) => c.world.clock ≤ t
  | _ => true

/-- The call sets the time at which the mailbox `a` expires. -/
def setsExpiry (a : String) : Event Eff.Ans → Bool
  | ⟨.store (.createMailbox a' ..), .ok _⟩ => a' == a
  | ⟨.store (.extendMailbox a' _), .ok (some _)⟩ => a' == a
  | _ => false

/-- How a process stands that has read the clock: what it read, the processes that have read a later
time since, and whether one of these was the last to set the expiry of a mailbox. -/
structure Race where
  read : Option DateTime
  later : List Nat
  lost : Bool

/-- The race of the process `i` for the mailbox `a` after one more call. -/
def Race.next (i : Nat) (a : String) (s : Race) (e : ServerEntry) : Race :=
  match clockRead ⟨e.call, e.answer⟩ with
  | some t =>
    if e.pid = i then ⟨some t, [], false⟩
    else if s.read.any (· < t) then { s with later := e.pid :: s.later }
    else s
  | none =>
    if setsExpiry a ⟨e.call, e.answer⟩ then { s with lost := s.later.contains e.pid } else s

def race (log : List ServerEntry) (i : Nat) (a : String) : Race :=
  log.foldl (Race.next i a) ⟨none, [], false⟩

/-- No extend overwrites an expiry that was set by a process which has read a later time. -/
def extendsInTime (c : ServerConf) : ServerMove → Bool
  | .act i (.uuids ids) =>
    match commit c (.act i (.uuids ids)) with
    | some (_, _, .extendMailbox a _) => !(race c.log i a).lost
    | _ => true
  | _ => true

/-! ## What is claimed -/

/-- The policy of the free tier lets a request have a mailbox on the domain `d`: one of the first
configured domains, or a custom domain whose verified claim the request has read. -/
def AdmitsDomain (cfg : Config) (c : ServerConf) (pid : Nat) (d : String) : Prop :=
  (∃ i, cfg.domains[i]? = some d ∧ (cfg.freeTier.domainCount = 0 ∨ i < cfg.freeTier.domainCount)) ∨
    cfg.freeTier.customDomains ∧ ∃ e ∈ c.log, e.pid = pid ∧ ∃ row,
      readClaim d ⟨e.call, e.answer⟩ = some row ∧ row.status = .verified

/-- What is there is within the policy of the free tier. -/
structure Confined (cfg : Config) (c : ServerConf) : Prop where
  domain : ∀ e ∈ c.log, ∀ req, e.tag = .http req → ∀ mb, CreatedMailbox mb e →
    AdmitsDomain cfg c e.pid mb.domain
  localPart : ∀ e ∈ c.log, ∀ req, e.tag = .http req → ∀ mb, CreatedMailbox mb e →
    cfg.freeTier.customLocalParts ∨ ∃ l, mb.address = l ++ "@" ++ mb.domain ∧ Api.Generated l
  claims : cfg.freeTier.customDomains = false → ∀ d, c.world.store.customDomains.lookup d = none
  lifetime : 0 < cfg.freeTier.maxLifetimeSeconds → ∀ a mb,
    c.world.store.mailboxes.lookup a = some mb → mb.expiresAt - mb.createdAt ≤
      Duration.seconds (max cfg.defaultTtl cfg.freeTier.maxLifetimeSeconds : Nat)

/-- No extend has made a mailbox expire earlier. -/
def NeverEarlier (c : ServerConf) : Prop :=
  ∀ e ∈ c.log, ∀ a x, e.call = .store (.extendMailbox a x) → ∀ mb mb',
    e.before.store.mailboxes.lookup a = some mb → e.after.store.mailboxes.lookup a = some mb' →
    mb.expiresAt ≤ mb'.expiresAt

/-! ## The times of a mailbox -/

section
variable {app : AppState} {w w' : World} {ch : Choice} {e : Eff} {r : e.Ans} {a : String}
  {mb : Mailbox}

/-- A mailbox expires after a call when it did before, or when the call has set. -/
theorem times_exec (hx : exec app w e ch = some (r, w'))
    (hrow : w'.store.mailboxes.lookup a = some mb) :
    (setsExpiry a ⟨e, r⟩ = false ∧ ∃ mb₀, w.store.mailboxes.lookup a = some mb₀ ∧
      mb.createdAt = mb₀.createdAt ∧ mb.expiresAt = mb₀.expiresAt) ∨
    setsExpiry a ⟨e, r⟩ ∧ ((∃ d owner device, mb.createdAt = w.clock ∧
      e = .store (.createMailbox a d mb.expiresAt owner device)) ∨
      ∃ mb₀, w.store.mailboxes.lookup a = some mb₀ ∧ mb.createdAt = mb₀.createdAt ∧
        e = .store (.extendMailbox a mb.expiresAt)) := by
  cases e with
  | store op =>
    obtain ⟨-, rfl, rfl⟩ | ⟨ids, -, -, -, -, hap, -⟩ := exec_store_cases hx
    · refine .inl ⟨?_, mb, hrow, rfl, rfl⟩
      cases op <;> rfl
    have hcases := @mailbox_apply app.config.mailboxQuotas w.store w.clock ids op a
    rw [hap] at hcases
    cases op with
    | createMailbox b d x owner device =>
      simp only [StoreOp.apply, createMailbox] at hap
      split at hap
      · obtain ⟨rfl, hw⟩ := Prod.mk.inj hap
        rw [← hw] at hrow
        exact .inl ⟨rfl, mb, hrow, rfl, rfl⟩
      · obtain ⟨hr, hw⟩ := Prod.mk.inj hap
        rw [← hw] at hrow
        by_cases hb : a = b
        · subst hb
          cases (AList.lookup_insert _).symm.trans hrow
          cases hr
          exact .inr ⟨by simp [setsExpiry], .inl ⟨d, owner, device, rfl, rfl⟩⟩
        · rw [AList.lookup_insert_ne hb] at hrow
          cases hr
          exact .inl ⟨by simp [setsExpiry, Ne.symm hb], mb, hrow, rfl, rfl⟩
    | extendMailbox b x =>
      simp only [StoreOp.apply, extendMailbox] at hap
      split at hap
      · next mb₀ hmb₀ =>
        obtain ⟨hr, hw⟩ := Prod.mk.inj hap
        rw [← hw] at hrow
        by_cases hb : a = b
        · subst hb
          cases (AList.lookup_insert _).symm.trans hrow
          cases hr
          exact .inr ⟨by simp [setsExpiry], .inr ⟨mb₀, hmb₀, rfl, rfl⟩⟩
        · rw [AList.lookup_insert_ne hb] at hrow
          cases hr
          exact .inl ⟨by simp [setsExpiry, Ne.symm hb], mb, hrow, rfl, rfl⟩
      · obtain ⟨rfl, hw⟩ := Prod.mk.inj hap
        rw [← hw] at hrow
        exact .inl ⟨rfl, mb, hrow, rfl, rfl⟩
    | _ =>
      refine .inl ⟨rfl, ?_⟩
      obtain h | ⟨-, _, _, _, _, ⟨⟩, -⟩ | ⟨_, _, ⟨⟩, -⟩ | ⟨_, mb₀, -, hmb₀, h⟩ | ⟨-, h⟩ |
        ⟨_, _, -, -, -, -, h⟩ := hcases
      · exact ⟨mb, h.symm.trans hrow, rfl, rfl⟩
      · cases h.symm.trans hrow
        exact ⟨mb₀, hmb₀, rfl, rfl⟩
      · cases h.symm.trans hrow
      · cases h.symm.trans hrow
  | _ =>
    rw [exec_store_eq hx (by simp)] at hrow
    exact .inl ⟨rfl, mb, hrow, rfl, rfl⟩

end

/-- The times of a mailbox after a move. -/
theorem times_step {app : AppState} {c c' : ServerConf} {m : ServerMove} {a : String} {mb : Mailbox}
    (hs : (server app).step c m = some c') (hrow : c'.world.store.mailboxes.lookup a = some mb) :
    (∃ mb₀, c.world.store.mailboxes.lookup a = some mb₀ ∧ mb.createdAt = mb₀.createdAt ∧
      mb.expiresAt = mb₀.expiresAt) ∨
    ∃ t hist op k, ⟨t, hist, .call (.store op) k⟩ ∈ c.procs ∧
      ((∃ d owner device, mb.createdAt = c.world.clock ∧
        op = .createMailbox a d mb.expiresAt owner device) ∨
      ∃ mb₀, c.world.store.mailboxes.lookup a = some mb₀ ∧ mb.createdAt = mb₀.createdAt ∧
        op = .extendMailbox a mb.expiresAt) := by
  obtain ⟨t, -, rfl⟩ | ⟨i, ch, t, hist, e, k, r, w, -, hi, hx, rfl⟩ | ⟨x, w, -, hw, rfl⟩ :=
    System.step_cases hs
  · exact .inl ⟨mb, hrow, rfl, rfl⟩
  · have hp := List.mem_of_getElem? hi
    obtain ⟨-, h⟩ | ⟨-, ⟨d, owner, device, hat, rfl⟩ | ⟨mb₀, hmb₀, hat, rfl⟩⟩ := times_exec hx hrow
    · exact .inl h
    · exact .inr ⟨t, hist, _, k, hp, .inl ⟨d, owner, device, hat, rfl⟩⟩
    · exact .inr ⟨t, hist, _, k, hp, .inr ⟨mb₀, hmb₀, hat, rfl⟩⟩
  · cases hw
    cases x <;> exact .inl ⟨mb, hrow, rfl, rfl⟩

/-! ## Expiries -/

/-- The expiry that a call sets is reckoned from a time that the task has read. -/
theorem expiresAt_of_lawful {app : AppState} {t : Task} {h : Hist} {op : StoreOp} {x : DateTime}
    (hlaw : Protocol app t h (.store op))
    (hop : (∃ a d owner device, op = .createMailbox a d x owner device) ∨
      ∃ a, op = .extendMailbox a x) : ∃ t₀, ⟨.now, t₀⟩ ∈ h ∧ ExpiresAt app.config t₀ x := by
  obtain ⟨a, d, owner, device, rfl⟩ | ⟨a, rfl⟩ := hop
  · obtain ⟨_, _, _, -, hreq⟩ | ⟨_, _, _, -, hcaught, -⟩ := hlaw.2.cases
    · exact hreq.expiry
    · exact hcaught.expiry
  · obtain ⟨t₀, hlast, hx⟩ := hlaw.2.expiry
    exact ⟨t₀, mem_of_lastRead hlast, hx⟩

theorem ExpiresAt.mono {cfg : Config} {t t' x x' : DateTime} (h : ExpiresAt cfg t x)
    (h' : ExpiresAt cfg t' x') (hle : t ≤ t') : x ≤ x' := by
  obtain ⟨ttl, httl, hx⟩ := h
  obtain ⟨ttl', httl', hx'⟩ := h'
  cases httl.symm.trans httl'
  obtain ⟨-, hx⟩ := Option.ite_none_right_eq_some.mp hx
  obtain ⟨-, hx'⟩ := Option.ite_none_right_eq_some.mp hx'
  rw [← Option.some.inj hx, ← Option.some.inj hx']
  exact Int.add_le_add_right hle ttl

theorem Duration.le_seconds {n k : Nat} {d : Duration} (h : Duration.trySeconds (asI64 n) = some d)
    (hle : n ≤ k) : d ≤ Duration.seconds k := by
  obtain ⟨-, h⟩ := Option.ite_none_right_eq_some.mp h
  rw [← Option.some.inj h]
  refine Int.mul_le_mul_of_nonneg_right ?_ (by decide)
  exact le_trans (asI64_le n) (Int.ofNat_le.mpr hle)

/-! ## Runs whose clock is not set back -/

section
variable {app : AppState} {ok : ServerConf → ServerMove → Prop} {c₀ c c' : ServerConf}
  {m : ServerMove} {start : DateTime} {a : String} {mb mb' : Mailbox} {t : DateTime}

theorem onward_step (hm : clockOnward c m) (hs : (server app).step c m = some c') :
    c.world.clock ≤ c'.world.clock := by
  obtain ⟨t, -, rfl⟩ | ⟨i, ch, t, hist, e, k, r, w, -, -, hx, rfl⟩ | ⟨x, w, rfl, hw, rfl⟩ :=
    System.step_cases hs
  · exact le_refl _
  · exact (exec_clocks_eq hx).1.ge
  · cases hw
    cases x with
    | clock t => exact of_decide_eq_true hm
    | instant n => exact le_refl _

variable (hok : ∀ c m, ok c m → clockOnward c m)
include hok

theorem clock_onward (h : (server app).Reach ok c₀ c) : c₀.world.clock ≤ c.world.clock := by
  induction h with
  | refl => exact le_refl _
  | tail _ hm hs ih => exact le_trans ih (onward_step (hok _ _ hm) hs)

theorem read_le_clock {w : World} (h : (server app).Reach ok (System.init w) c) (hp : p ∈ c.procs)
    (hev : ⟨.now, t⟩ ∈ p.hist) : t ≤ c.world.clock := by
  obtain ⟨i, hi⟩ := List.getElem?_of_mem hp
  obtain ⟨c₁, c₂, ch, hist, k, -, -, -, hx, h₂⟩ := h.move_of_hist hi hev
  obtain ⟨rfl, hw⟩ := Prod.mk.inj (Option.some.inj hx)
  rw [hw]
  exact clock_onward hok h₂

theorem created_le_clock (h : (server app).Reach ok (System.init (World.start start)) c) :
    ∀ a mb, c.world.store.mailboxes.lookup a = some mb → mb.createdAt ≤ c.world.clock := by
  induction h with
  | refl => simp [System.init, World.start, Inner.empty]
  | tail _ hm hs ih =>
    intro a mb hrow
    refine le_trans ?_ (onward_step (hok _ _ hm) hs)
    obtain ⟨mb₀, hmb₀, hat, -⟩ | ⟨_, _, _, _, -, ⟨_, _, _, hat, -⟩ | ⟨mb₀, hmb₀, hat, -⟩⟩ :=
      times_step hs hrow
    · exact hat ▸ ih a mb₀ hmb₀
    · exact hat.le
    · exact hat ▸ ih a mb₀ hmb₀

/-- A mailbox that is there later has not been created earlier. -/
theorem created_mono (h : (server app).Reach ok c₀ c) (hat : mb.createdAt ≤ c₀.world.clock)
    (hrow : ∀ mb', c₀.world.store.mailboxes.lookup a = some mb' → mb.createdAt ≤ mb'.createdAt) :
    ∀ mb', c.world.store.mailboxes.lookup a = some mb' → mb.createdAt ≤ mb'.createdAt := by
  induction h with
  | refl => exact hrow
  | tail hc hm hs ih =>
    intro mb' hrow'
    obtain ⟨mb₀, hmb₀, heq, -⟩ | ⟨_, _, _, _, -, ⟨_, _, _, heq, -⟩ | ⟨mb₀, hmb₀, heq, -⟩⟩ :=
      times_step hs hrow'
    · exact heq ▸ ih mb₀ hmb₀
    · exact heq ▸ le_trans hat (clock_onward hok hc)
    · exact heq ▸ ih mb₀ hmb₀

/-- The mailbox that a task has read was not created after the one that is there now. -/
theorem read_created_le (h : (server app).Reach ok (System.init (World.start start)) c)
    (hp : p ∈ c.procs) (hev : ⟨.store (.getMailbox a), .ok (some mb)⟩ ∈ p.hist)
    (hrow : c.world.store.mailboxes.lookup a = some mb') : mb.createdAt ≤ mb'.createdAt := by
  obtain ⟨i, hi⟩ := List.getElem?_of_mem hp
  obtain ⟨c₁, c₂, ch, hist, k, h₁, -, -, hx, h₂⟩ := h.move_of_hist hi hev
  replace hx : exec app c₁.world (.store (.getMailbox a)) ch = some (.ok (some mb), c₂.world) := hx
  obtain ⟨-, ⟨⟩, -⟩ | ⟨ids, -, -, -, -, hap, -⟩ := exec_store_cases hx
  obtain ⟨hread, hw⟩ := Prod.mk.inj hap
  have hread : c₁.world.store.mailboxes.lookup a = some mb := Except.ok.inj hread
  have hclock : c₂.world.clock = c₁.world.clock := (exec_clocks_eq hx).1
  refine created_mono hok h₂ (hclock ▸ created_le_clock hok h₁ a mb hread) (fun mb' hmb' => ?_) mb' hrow
  rw [← hw, hread] at hmb'
  cases hmb'
  exact le_refl _

/-- Each mailbox expires `default_ttl` after a time that is past. -/
theorem expiresAt_of_reach (h : (server app).Reach ok (System.init (World.start start)) c) :
    ∀ a mb, c.world.store.mailboxes.lookup a = some mb →
      ∃ t ≤ c.world.clock, ExpiresAt app.config t mb.expiresAt := by
  induction h with
  | refl => simp [System.init, World.start, Inner.empty]
  | tail hc hm hs ih =>
    intro a mb hrow
    have hclock := onward_step (hok _ _ hm) hs
    obtain ⟨mb₀, hmb₀, -, hx⟩ | ⟨t, hist, op, k, hp, hop⟩ := times_step hs hrow
    · obtain ⟨t, hle, ht⟩ := ih a mb₀ hmb₀
      exact ⟨t, le_trans hle hclock, hx ▸ ht⟩
    · have hsets : (∃ a d owner device, op = .createMailbox a d mb.expiresAt owner device) ∨
          ∃ a, op = .extendMailbox a mb.expiresAt := by
        obtain ⟨d, owner, device, -, rfl⟩ | ⟨_, -, -, rfl⟩ := hop
        · exact .inl ⟨a, d, owner, device, rfl⟩
        · exact .inr ⟨a, rfl⟩
      obtain ⟨t₀, hmem, hx⟩ := expiresAt_of_lawful (task_lawful hc _ hp).1 hsets
      exact ⟨t₀, le_trans (read_le_clock hok hc hp hmem) hclock, hx⟩

end

/-! ## The free tier -/

section
variable {app : AppState} {hs : Api.HeaderMap} {h : Hist}

/-- Every client token that has been decoded is one of the free tier. -/
def FreeTokens (h : Hist) : Prop :=
  ∀ key token leeway claims, ⟨.jwtDecode key token leeway, .ok claims⟩ ∈ h → claims.tier = .free

theorem policyOf_free (hon : app.config.entitlementsEnforced) (hfree : FreeTokens h)
    (hclient : Api.Presented app hs h client) :
    Api.Addresses.policyOf app client = some app.config.freeTier := by
  rw [Api.Addresses.policyOf, if_pos hon]
  cases client with
  | none => rfl
  | some claims =>
    obtain ⟨raw, key, -, -, hmem⟩ := hclient claims rfl
    simp only [Option.map_some, Option.getD_some, hfree _ _ _ _ hmem, Config.tierPolicy]

theorem TierShown.eq_free (hon : app.config.entitlementsEnforced) (hfree : FreeTokens h)
    (hp : Api.TierShown app h p) : p = app.config.freeTier := by
  obtain ⟨hs, client, hclient, hp⟩ := hp
  exact Option.some.inj (hp.symm.trans (policyOf_free hon hfree hclient))

theorem freeTokens_of_reach {ok : ServerConf → ServerMove → Prop} {w : World} {c : ServerConf}
    (hok : ∀ c m, ok c m → freeTier app c m) (hc : (server app).Reach ok (System.init w) c)
    (hp : p ∈ c.procs) : FreeTokens p.hist := by
  intro key token leeway claims hev
  obtain ⟨i, hi⟩ := List.getElem?_of_mem hp
  obtain ⟨c₁, c₂, ch, hist, k, -, hm, hi₁, hx, -⟩ := hc.move_of_hist hi hev
  have hdecode := congrArg Prod.fst (Option.some.inj hx)
  have hfree := hok _ _ hm
  simp only [freeTier, hi₁] at hfree
  dsimp only at hdecode
  rw [hdecode] at hfree
  exact eq_of_beq hfree

end

/-! ## What the free tier lets a task do -/

section
variable {app : AppState} {ok : ServerConf → ServerMove → Prop} {c : ServerConf} {start : DateTime}
  (hon : app.config.entitlementsEnforced) (hfree : ∀ c m, ok c m → freeTier app c m)
include hon hfree

theorem unclaimed_of_reach (hno : app.config.freeTier.customDomains = false)
    (h : (server app).Reach ok (System.init (World.start start)) c) :
    ∀ d, c.world.store.customDomains.lookup d = none := by
  induction h with
  | refl => exact fun _ => rfl
  | tail hc hm hs ih =>
    intro d
    obtain hstore | ⟨t, hist, op, k, ids, r, -, hp, -, -, hstore⟩ := store_step hs
    · exact hstore ▸ ih d
    rw [hstore]
    obtain h | ⟨claim, txt, rfl, -⟩ | ⟨-, h⟩ | ⟨_, _, _, row, -, hrow, -⟩ := claim_apply op d
    · exact h.trans (ih d)
    · obtain ⟨-, -, -, htier⟩ := (task_lawful hc _ hp).1
      obtain ⟨p, hshown, hcustom⟩ := htier hon
      rw [TierShown.eq_free hon (freeTokens_of_reach hfree hc hp) hshown, hno] at hcustom
      cases hcustom
    · exact h
    · cases (ih d).symm.trans hrow

theorem lifetime_of_reach (hclock : ∀ c m, ok c m → clockOnward c m)
    (hpos : 0 < app.config.freeTier.maxLifetimeSeconds)
    (h : (server app).Reach ok (System.init (World.start start)) c) :
    ∀ a mb, c.world.store.mailboxes.lookup a = some mb → mb.expiresAt - mb.createdAt ≤
      Duration.seconds (max app.config.defaultTtl app.config.freeTier.maxLifetimeSeconds : Nat) := by
  induction h with
  | refl => simp [System.init, World.start, Inner.empty]
  | @tail c _ _ hc hm hs ih =>
    intro a mb hrow
    obtain ⟨mb₀, hmb₀, hat, hx⟩ | ⟨t, hist, op, k, hp, ⟨d, owner, device, hat, rfl⟩ |
      ⟨mb₀, hmb₀, hat, rfl⟩⟩ := times_step hs hrow
    · rw [hat, hx]
      exact ih a mb₀ hmb₀
    · -- a new mailbox expires `default_ttl` after a time before its creation
      obtain ⟨t₀, hmem, ttl, httl, hx⟩ := expiresAt_of_lawful (task_lawful hc _ hp).1
        (.inl ⟨a, d, owner, device, rfl⟩)
      obtain ⟨-, hx⟩ := Option.ite_none_right_eq_some.mp hx
      have hle : t₀ ≤ c.world.clock := read_le_clock hclock hc hp hmem
      rw [hat, ← Option.some.inj hx]
      refine le_trans ?_ (Duration.le_seconds httl (le_max_left ..))
      exact Int.sub_left_le_of_le_add (Int.add_le_add_right hle ttl)
    · -- the limit was checked on a mailbox that was not created later
      obtain ⟨p, mb₁, hshown, hread, hlimit⟩ := (task_lawful hc _ hp).1.2.lifetime hon
      rw [TierShown.eq_free hon (freeTokens_of_reach hfree hc hp) hshown] at hlimit
      obtain ⟨limit, hlim, hle⟩ := hlimit hpos
      rw [hat]
      refine le_trans (le_trans ?_ hle) (Duration.le_seconds hlim (le_max_right ..))
      exact Int.sub_le_sub_left (read_created_le hclock hc hp hread hmb₀) _

omit hon in
/-- What a request has shown by the time it creates a mailbox. -/
theorem requested_of_created {e : ServerEntry} {req : Api.Request} {mb : Mailbox}
    (h : (server app).Reach ok (System.init (World.start start)) c) (he : e ∈ c.log)
    (ht : e.tag = .http req) (hmb : CreatedMailbox mb e) :
    ∃ hs body hist x owner device,
      Api.Requested app hs body hist mb.address mb.domain x owner device ∧ FreeTokens hist ∧
      ∀ ev ∈ hist, ∃ e' ∈ c.log, e'.pid = e.pid ∧ (⟨e'.call, e'.answer⟩ : Event Eff.Ans) = ev := by
  obtain ⟨a, d, x, owner, device, hev⟩ := hmb
  obtain ⟨l₁, l₂, hlog⟩ := List.append_of_mem he
  obtain ⟨c₁, c₂, ids, hist, k, h₁, hl, -, hi, hlaw, -, -, -, hap, -⟩ := committed h hlog hev
  obtain ⟨rfl, rfl⟩ := createMailbox_ok hap
  obtain ⟨peer, hs, body, -, hreq⟩ | ⟨n, tls, input, htag, -⟩ := hlaw.2.cases
  · refine ⟨hs, _, hist, x, owner, device, hreq,
      freeTokens_of_reach hfree h₁ (List.mem_of_getElem? hi), fun ev hev => ?_⟩
    obtain ⟨e', he', hpid, -, hev'⟩ := h₁.mem_log_of_hist hi hev
    exact ⟨e', hlog ▸ List.mem_append_left _ (hl ▸ he'), hpid, hev'⟩
  · cases ht.symm.trans htag

end

/-! ## Extends that race -/

theorem race_concat (log : List ServerEntry) (e : ServerEntry) (i : Nat) (a : String) :
    race (log ++ [e]) i a = (race log i a).next i a e := by
  simp [race]

/-- What the race of a process for a mailbox says of the clock readings and of the mailbox. -/
structure RaceInv (app : AppState) (c : ServerConf) : Prop where
  read : ∀ (i : Nat) p a t, c.procs[i]? = some p → lastRead p.hist = some t →
    (race c.log i a).read = some t
  later : ∀ (i j : Nat) p a t t', (race c.log i a).read = some t → c.procs[j]? = some p →
    j ∉ (race c.log i a).later → ⟨.now, t'⟩ ∈ p.hist → t' ≤ t
  expires : ∀ i a t mb, (race c.log i a).read = some t → (race c.log i a).lost = false →
    c.world.store.mailboxes.lookup a = some mb → ∃ t₀ ≤ t, ExpiresAt app.config t₀ mb.expiresAt

section
variable {app : AppState} {ok : ServerConf → ServerMove → Prop} {c c' : ServerConf}
  {m : ServerMove} {start : DateTime} {w : World} {ch : Choice}

theorem clockRead_eq_some {e : Eff} {r : e.Ans} {t : DateTime} (h : clockRead ⟨e, r⟩ = some t) :
    (⟨e, r⟩ : Event Eff.Ans) = ⟨.now, t⟩ := by
  cases e <;> cases h
  rfl

theorem clockRead_now (t : DateTime) : clockRead ⟨.now, t⟩ = some t := rfl

/-- A process reads the clock. -/
theorem RaceInv.read_step {j : Nat} {t : Task} {hist : Hist} {k : DateTime → Run Outcome}
    (hinv : RaceInv app c) (hj : c.procs[j]? = some ⟨t, hist, .call .now k⟩)
    (hpast : ∀ p ∈ c.procs, ∀ t', ⟨.now, t'⟩ ∈ p.hist → t' ≤ c.world.clock)
    (hexp : ∀ a mb, c.world.store.mailboxes.lookup a = some mb →
      ∃ t ≤ c.world.clock, ExpiresAt app.config t mb.expiresAt) :
    RaceInv app ⟨c.world, c.procs.set j ⟨t, hist ++ [⟨.now, c.world.clock⟩], k c.world.clock⟩,
      c.log ++ [⟨j, t, c.world, .now, c.world.clock, c.world⟩]⟩ := by
  -- the readings of all processes, with the new one
  have hall : ∀ p ∈ c.procs.set j ⟨t, hist ++ [⟨.now, c.world.clock⟩], k c.world.clock⟩, ∀ t',
      ⟨.now, t'⟩ ∈ p.hist → t' ≤ c.world.clock := by
    intro p hp t' hmem
    obtain hp | rfl := System.mem_act hp
    · exact hpast p hp t' hmem
    · obtain hmem | hmem := List.mem_append.mp hmem
      · exact hpast _ (List.mem_of_getElem? hj) t' hmem
      · cases List.mem_singleton.mp hmem
        exact le_refl _
  have hnext : ∀ i a, race (c.log ++ [⟨j, t, c.world, .now, c.world.clock, c.world⟩]) i a =
      if j = i then ⟨some c.world.clock, [], false⟩
      else if (race c.log i a).read.any (· < c.world.clock) then
        { race c.log i a with later := j :: (race c.log i a).later }
      else race c.log i a := fun i a => race_concat ..
  refine ⟨fun i p a t₁ hi hlast => ?_, fun i i' p a t₁ t' hread hi' hnot hmem => ?_,
    fun i a t₁ mb hread hlost hrow => ?_⟩
  · rw [hnext]
    obtain ⟨rfl, rfl⟩ | ⟨hne, hi⟩ := System.getElem?_act hi
    · rw [if_pos rfl]
      rwa [lastRead_concat, clockRead_now, Option.some_or] at hlast
    · rw [if_neg (Ne.symm hne)]
      split <;> exact hinv.read i p a t₁ hi hlast
  · rw [hnext] at hread hnot
    split at hread
    · cases hread
      exact hall p (List.mem_of_getElem? hi') t' hmem
    · next hne =>
      rw [if_neg hne] at hnot
      have hold : (race c.log i a).read = some t₁ := by split at hread <;> exact hread
      rw [hold, Option.any_some] at hnot
      -- who has not read a later time has read this one or earlier ones
      obtain ⟨rfl, rfl⟩ | ⟨-, hi'⟩ := System.getElem?_act hi'
      · split at hnot
        · exact absurd List.mem_cons_self hnot
        · next hle =>
          obtain hmem | hmem := List.mem_append.mp hmem
          · exact hinv.later i _ _ a t₁ t' hold hj hnot hmem
          · cases List.mem_singleton.mp hmem
            exact not_lt.mp (by simpa using hle)
      · refine hinv.later i i' p a t₁ t' hold hi' (fun hin => hnot ?_) hmem
        split
        · exact List.mem_cons_of_mem _ hin
        · exact hin
  · rw [hnext] at hread hlost
    split at hread
    · cases hread
      exact hexp a mb hrow
    · next hne =>
      rw [if_neg hne] at hlost
      refine hinv.expires i a t₁ mb ?_ ?_ hrow
      · split at hread <;> exact hread
      · split at hlost <;> exact hlost

/-- A process makes a call that is not a clock reading. -/
theorem RaceInv.call_step {j : Nat} {t : Task} {hist : Hist} {e : Eff} {k : e.Ans → Run Outcome}
    {r : e.Ans} (hinv : RaceInv app c) (hj : c.procs[j]? = some ⟨t, hist, .call e k⟩)
    (hlaw : Protocol app t hist e) (hx : exec app c.world e ch = some (r, w))
    (hnone : clockRead ⟨e, r⟩ = none) :
    RaceInv app ⟨w, c.procs.set j ⟨t, hist ++ [⟨e, r⟩], k r⟩,
      c.log ++ [⟨j, t, c.world, e, r, w⟩]⟩ := by
  have hnext : ∀ i a, race (c.log ++ [⟨j, t, c.world, e, r, w⟩]) i a =
      if setsExpiry a ⟨e, r⟩ then
        { race c.log i a with lost := (race c.log i a).later.contains j }
      else race c.log i a := by
    intro i a
    rw [race_concat, Race.next]
    simp only [hnone]
  have hread' : ∀ i a, (race (c.log ++ [⟨j, t, c.world, e, r, w⟩]) i a).read =
      (race c.log i a).read := by
    intro i a
    rw [hnext]
    split <;> rfl
  have hlater : ∀ i a, (race (c.log ++ [⟨j, t, c.world, e, r, w⟩]) i a).later =
      (race c.log i a).later := by
    intro i a
    rw [hnext]
    split <;> rfl
  refine ⟨fun i p a t₁ hi hlast => ?_, fun i i' p a t₁ t' hread hi' hnot hmem => ?_,
    fun i a t₁ mb hread hlost hrow => ?_⟩
  · rw [hread']
    obtain ⟨rfl, rfl⟩ | ⟨-, hi⟩ := System.getElem?_act hi
    · rw [lastRead_concat, hnone, Option.none_or] at hlast
      exact hinv.read i _ a t₁ hj hlast
    · exact hinv.read i p a t₁ hi hlast
  · rw [hread'] at hread
    rw [hlater] at hnot
    obtain ⟨rfl, rfl⟩ | ⟨-, hi'⟩ := System.getElem?_act hi'
    · obtain hmem | hmem := List.mem_append.mp hmem
      · exact hinv.later i _ _ a t₁ t' hread hj hnot hmem
      · rw [← List.mem_singleton.mp hmem] at hnone
        cases hnone
    · exact hinv.later i i' p a t₁ t' hread hi' hnot hmem
  · rw [hread'] at hread
    rw [hnext] at hlost
    obtain ⟨hset, mb₀, hmb₀, -, heq⟩ | ⟨hset, hop⟩ := times_exec hx hrow
    · rw [hset] at hlost
      exact heq ▸ hinv.expires i a t₁ mb₀ hread hlost hmb₀
    · -- whoever sets the expiry has not read a later time
      rw [if_pos hset] at hlost
      have hnot : j ∉ (race c.log i a).later := fun hin => by simp [hin] at hlost
      have hexpiry : ∃ t₀, ⟨.now, t₀⟩ ∈ hist ∧ ExpiresAt app.config t₀ mb.expiresAt := by
        obtain ⟨d, owner, device, -, rfl⟩ | ⟨_, -, -, rfl⟩ := hop
        · exact expiresAt_of_lawful hlaw (.inl ⟨a, d, owner, device, rfl⟩)
        · exact expiresAt_of_lawful hlaw (.inr ⟨a, rfl⟩)
      obtain ⟨t₀, hmem, hx⟩ := hexpiry
      exact ⟨t₀, hinv.later i j _ a t₁ t₀ hread hj hnot hmem, hx⟩

theorem raceInv_of_reach (hclock : ∀ c m, ok c m → clockOnward c m)
    (h : (server app).Reach ok (System.init (World.start start)) c) : RaceInv app c := by
  induction h with
  | refl => exact ⟨by simp [System.init], by simp [System.init], by simp [System.init, race]⟩
  | @tail c _ _ hc hm hs ih =>
    obtain ⟨t, -, rfl⟩ | ⟨j, ch, t, hist, e, k, r, w, -, hj, hx, rfl⟩ | ⟨x, w, -, hw, rfl⟩ :=
      System.step_cases hs
    · refine ⟨fun i p a t₁ hi hlast => ?_, fun i j p a t₁ t' hread hj hnot hmem => ?_, ih.expires⟩
      · obtain hi | rfl := System.getElem?_spawn hi
        · exact ih.read i p a t₁ hi hlast
        · cases hlast
      · obtain hj | rfl := System.getElem?_spawn hj
        · exact ih.later i j p a t₁ t' hread hj hnot hmem
        · cases hmem
    · replace hx : exec app c.world e ch = some (r, w) := hx
      cases hread : clockRead ⟨e, r⟩ with
      | none => exact ih.call_step hj (task_lawful hc _ (List.mem_of_getElem? hj)).1 hx hread
      | some t₁ =>
        cases clockRead_eq_some hread
        cases hx
        exact ih.read_step hj (fun p hp t' hmem => read_le_clock hclock hc hp hmem)
          (expiresAt_of_reach hclock hc)
    · cases hw
      cases x <;> exact ⟨ih.read, ih.later, ih.expires⟩

end

/-! ## Confinement -/

section
variable {app : AppState} {ok : ServerConf → ServerMove → Prop} {c : ServerConf} {start : DateTime}

theorem confined_of_reach (hon : app.config.entitlementsEnforced)
    (hfree : ∀ c m, ok c m → freeTier app c m) (hclock : ∀ c m, ok c m → clockOnward c m)
    (h : (server app).Reach ok (System.init (World.start start)) c) : Confined app.config c := by
  refine ⟨fun e he req ht mb hmb => ?_, fun e he req ht mb hmb => ?_,
    fun hno => unclaimed_of_reach hon hfree hno h,
    fun hpos => lifetime_of_reach hon hfree hclock hpos h⟩
  · obtain ⟨hs, body, hist, x, owner, device, hreq, htokens, hlog⟩ :=
      requested_of_created hfree h he ht hmb
    obtain ⟨client, hclient, -, -, hadmits⟩ := hreq.client
    obtain hfirst | ⟨hcustom, hnot⟩ := (hadmits _ (policyOf_free hon htokens hclient)).domain
    · exact .inl hfirst
    · obtain ⟨record, token, hread, -, -, hst⟩ := hreq.domain.resolve_left hnot
      obtain ⟨e', he', hpid, hev⟩ := hlog _ hread
      exact .inr ⟨hcustom, e', he', hpid, record, by rw [hev]; simp [readClaim], hst⟩
  · obtain ⟨hs, body, hist, x, owner, device, hreq, htokens, -⟩ :=
      requested_of_created hfree h he ht hmb
    obtain ⟨client, hclient, -, -, hadmits⟩ := hreq.client
    obtain ⟨l, haddr, ⟨hwanted, -⟩ | ⟨-, hgen⟩⟩ := hreq.localPart
    · exact .inl ((hadmits _ (policyOf_free hon htokens hclient)).localPart hwanted)
    · exact .inr ⟨l, haddr, hgen⟩

theorem neverEarlier_of_reach (hclock : ∀ c m, ok c m → clockOnward c m)
    (htime : ∀ c m, ok c m → extendsInTime c m)
    (h : (server app).Reach ok (System.init (World.start start)) c) : NeverEarlier c := by
  rintro ⟨i, t, before, call, answer, after⟩ he a x hcall mb mb' hrow hrow'
  dsimp only at hcall hrow hrow'
  subst hcall
  obtain ⟨l₁, l₂, hlog⟩ := List.append_of_mem he
  obtain ⟨c₁, c₂, ch, hist, k, h₁, hl, hw, hi, hok, -, hx, -⟩ := h.split_log hlog
  dsimp only at hw hi hok
  replace hx : exec app before (.store (.extendMailbox a x)) ch = some (answer, after) := hx
  obtain ⟨-, -, rfl⟩ | ⟨ids, rfl, -, -, -, hap, -⟩ := exec_store_cases hx
  · cases hrow.symm.trans hrow'
    exact le_refl _
  · have hafter : after.store = (extendMailbox before.store a x).2 := (congrArg Prod.snd hap).symm
    rw [extendMailbox, hrow] at hafter
    rw [hafter, AList.lookup_insert] at hrow'
    cases hrow'
    have hlost : (race c₁.log i a).lost = false := by
      simpa [extendsInTime, commit, hi] using htime _ _ hok
    obtain ⟨t₀, hlast, hexp⟩ := (task_lawful h₁ _ (List.mem_of_getElem? hi)).1.2.expiry
    have hinv := raceInv_of_reach hclock h₁
    obtain ⟨t₁, hle, hold⟩ := hinv.expires i a t₀ mb (hinv.read i _ a t₀ hi hlast) hlost (hw ▸ hrow)
    exact hold.mono hexp hle

end

/-- `ownerServer` with the tiers enforced. -/
def tierServer : AppState :=
  { ownerServer with config := { ownerServer.config with entitlementsEnforced := true } }

/-- An extend up to its second store call. -/
def extendMoves (i : Nat) : List ServerMove :=
  .spawn (.http (.extendAddress "aaaaaaaaaa@example.com" ownerHeaders)) :: acts i [.uuids [], .answer]

/-- The call has given a mailbox another expiry, and the old and the new one are as `p` asks. -/
def changesExpiry (p : DateTime → DateTime → Bool) (e : ServerEntry) : Bool :=
  match e.call with
  | .store (.extendMailbox a _) =>
    (e.before.store.mailboxes.lookup a).any fun mb =>
      (e.after.store.mailboxes.lookup a).any fun mb' => p mb.expiresAt mb'.expiresAt
  | _ => false

end AnonyMail
