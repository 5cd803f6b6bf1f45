import AnonyMail.Verify.DomainClaims
import AnonyMail.Verify.LocalParts

/-! # Mailboxes on claimed domains

A mailbox is not tied to the claim under which it was created: it outlives the claim, and a later
claim of the same domain makes it reachable again. RCPT follows the current claim as long as a
domain is claimed only when no mailbox is left on it, and a mailbox is added only while the claim
that the request has shown is the current one. `UnderClaim` carries this. -/

namespace AnonyMail

open Calls Prog MemoryStore

variable {app : AppState} {c c' : ServerConf} {m : ServerMove}

/-- The text behind the last `@`. -/
def domainOf (a : String) : Option String := (Str.rsplitOnce a '@').map (·.2)

/-- The task that has created the mailbox `a` last. -/
def creatorAfter (a : String) (cur : Option Task) (e : ServerEntry) : Option Task :=
  match (⟨e.call, e.answer⟩ : Event Eff.Ans) with
  | ⟨.store (.createMailbox a' ..), .ok _⟩ => if a' = a then some e.tag else cur
  | _ => cur

def creator (log : List ServerEntry) (a : String) : Option Task := log.foldl (creatorAfter a) none

/-- The task is a request for a mailbox that has presented the claim token with this hash. -/
def Task.showsClaim (app : AppState) (hash : String) : Task → Bool
  | .http (.createAddress _ hs _) =>
    (Api.bearerToken hs).any fun token => Api.tokenMatchesHash app.deps token hash
  | _ => false

/-! ## The conditions on a run -/

/-- The claim of the domain `d`, if the call has read it. -/
def readClaim (d : String) : Event Eff.Ans → Option CustomDomain
  | ⟨.store (.getCustomDomain d'), .ok (some row)⟩ => if d' = d then some row else none
  | _ => none

/-- A domain is claimed only when there is no mailbox on it. -/
def claimsVacant (c : ServerConf) (m : ServerMove) : Bool :=
  match commit c m with
  | some (_, _, .createCustomDomain d _ _) => (c.world.store.customDomains.lookup d).isSome ||
    c.world.store.mailboxes.keys.all fun a => domainOf a != some d
  | _ => true

/-- A mailbox is added only while the claim of its domain that the request has read is the current
one, or there is none. -/
def insertsUnderClaim (c : ServerConf) (m : ServerMove) : Bool :=
  match commit c m with
  | some (_, hist, .createMailbox _ d ..) => (hist.filterMap (readClaim d)).all fun record =>
    (c.world.store.customDomains.lookup d).all fun row => row.claimTokenHash == record.claimTokenHash
  | _ => true

/-- Configured domains have no `@`. -/
def Config.DomainsOk (cfg : Config) : Prop := ∀ d ∈ cfg.domains, '@' ∉ d.toList

theorem domainOf_append {l d : String} (h : '@' ∉ d.toList) : domainOf (l ++ "@" ++ d) = some d := by
  rw [domainOf, Str.rsplitOnce_append h]
  rfl

/-! ## Runs -/

def UnderClaim (app : AppState) (c : ServerConf) : Prop :=
  ∀ a d row, a ∈ c.world.store.mailboxes → domainOf a = some d → d ∉ app.config.domains →
    ¬app.config.acceptsDomain d → c.world.store.customDomains.lookup d = some row →
    ∃ t, creator c.log a = some t ∧ t.showsClaim app row.claimTokenHash

theorem creator_append (log : List ServerEntry) (e : ServerEntry) (a : String) :
    creator (log ++ [e]) a = creatorAfter a (creator log a) e := by
  simp [creator]

section
variable {w w' : World} {op : StoreOp} {r : Except StoreError op.Out} {a : String}

/-- A call adds no mailbox that was there. -/
theorem creatorAfter_of_mem {pid : Nat} (ha : a ∈ w.store.mailboxes)
    (hap : op.apply q w.store now ids = (r, w'.store)) :
    creatorAfter a cur ⟨pid, t, w, .store op, r, w'⟩ = cur := by
  cases op with
  | createMailbox b d x o device =>
    simp only [StoreOp.apply, createMailbox] at hap
    split at hap <;> obtain ⟨rfl, -⟩ := Prod.mk.inj hap
    · rfl
    · next hb =>
      have hne : b ≠ a := fun hba => hb (hba ▸ ha)
      exact if_neg hne
  | _ => cases r <;> rfl

/-- A mailbox that is there was there before the call, or the call has added it. -/
theorem mem_mailboxes_of_apply (hap : op.apply q w.store now ids = (r, w'.store))
    (ha : a ∈ w'.store.mailboxes) : a ∈ w.store.mailboxes ∨
    (∃ d x owner device, op = .createMailbox a d x owner device) ∧
      w'.store.customDomains = w.store.customDomains ∧
      ∀ pid t cur, creatorAfter a cur ⟨pid, t, w, .store op, r, w'⟩ = some t := by
  by_cases hold : a ∈ w.store.mailboxes
  · exact .inl hold
  right
  have hrow := @mailbox_apply q w.store now ids op a
  rw [hap] at hrow
  obtain ⟨mb', hmb'⟩ := Option.isSome_iff_exists.mp (AList.lookup_isSome.mpr ha)
  have hnone := AList.lookup_eq_none.mpr hold
  obtain h | ⟨-, d, x, owner, device, rfl, -⟩ | ⟨_, _, -, h, -⟩ | ⟨_, _, -, h, -⟩ | ⟨-, h⟩ |
    ⟨_, _, -, -, -, -, h⟩ := hrow
  · cases hmb'.symm.trans (h.trans hnone)
  · simp only [StoreOp.apply, createMailbox, if_neg hold] at hap
    obtain ⟨rfl, hw⟩ := Prod.mk.inj hap
    exact ⟨⟨d, x, owner, device, rfl⟩, by rw [← hw], fun pid t cur => if_pos rfl⟩
  · cases h.symm.trans hnone
  · cases h.symm.trans hnone
  · cases hmb'.symm.trans h
  · cases hmb'.symm.trans h

end

/-- The task that adds a mailbox on a claimed domain has shown the current claim. -/
theorem showsClaim_of_inserts {start : DateTime} {t : Task} {row : CustomDomain} {a d d' : String}
    (hcfg : app.config.DomainsOk) (hc : (server app).Reach ok (System.init (World.start start)) c)
    {k : (Eff.store (.createMailbox a d' x owner device)).Ans → Run Outcome}
    (hp : ⟨t, hist, .call (.store (.createMailbox a d' x owner device)) k⟩ ∈ c.procs)
    (hok : insertsUnderClaim c m)
    (hm : commit c m = some (t, hist, .createMailbox a d' x owner device))
    (hd : domainOf a = some d) (hserved : d ∉ app.config.domains) (hacc : ¬app.config.acceptsDomain d)
    (hrow : c.world.store.customDomains.lookup d = some row) :
    t.showsClaim app row.claimTokenHash := by
  obtain ⟨peer, hs, body, rfl, hreq⟩ | ⟨_, _, _, -, hcaught, -⟩ := (task_lawful hc _ hp).1.2.cases
  · obtain ⟨l, rfl, -⟩ := hreq.localPart
    obtain hmem | ⟨record, token, hmem, htok, hmatch, -⟩ := hreq.domain
    · cases hd.symm.trans (domainOf_append (hcfg d' hmem))
      exact absurd hmem hserved
    · have hvalid := read_claim_name hc hp hmem
      cases hd.symm.trans (domainOf_append (not_mem_of_isValidDomain hvalid))
      have hread : record ∈ hist.filterMap (readClaim d) :=
        List.mem_filterMap.mpr ⟨_, hmem, by simp [readClaim]⟩
      simp only [insertsUnderClaim, hm, hrow, List.all_eq_true, Option.all_some] at hok
      rw [Task.showsClaim, htok, Option.any_some, eq_of_beq (hok record hread)]
      exact hmatch
  · obtain ⟨l, hl, -⟩ := hcaught.split
    have hdom : domainOf a = some d' := by rw [domainOf, hl]; rfl
    cases hd.symm.trans hdom
    exact absurd hcaught.served hacc

theorem not_vacant {a d : String} {t : Task} (hok : claimsVacant c m)
    (hm : commit c m = some (t, hist, .createCustomDomain d claim txt))
    (hnone : c.world.store.customDomains.lookup d = none) (ha : a ∈ c.world.store.mailboxes) :
    domainOf a ≠ some d := by
  simp only [claimsVacant, hm, hnone, Option.isSome_none, Bool.false_or, List.all_eq_true,
    bne_iff_ne] at hok
  exact hok a (AList.mem_keys.mpr ha)

theorem UnderClaim.step {start : DateTime} (hinv : UnderClaim app c) (hcfg : app.config.DomainsOk)
    (hc : (server app).Reach ok (System.init (World.start start)) c) (hvacant : claimsVacant c m)
    (hclaim : insertsUnderClaim c m) (hs : (server app).step c m = some c') : UnderClaim app c' := by
  intro a d row ha hd hserved hacc hrow
  obtain ⟨t, -, rfl⟩ | ⟨i, ch, t, hist, e, k, r, w, rfl, hi, hx, rfl⟩ | ⟨x, w, -, hw, rfl⟩ :=
    System.step_cases hs
  · exact hinv a d row ha hd hserved hacc hrow
  · replace hx : exec app c.world e ch = some (r, w) := hx
    rw [creator_append]
    cases e with
    | store op =>
      obtain ⟨-, rfl, rfl⟩ | ⟨ids, rfl, -, -, -, hap, -⟩ := exec_store_cases hx
      · have hsame : ∀ cur, creatorAfter a cur
            ⟨i, t, c.world, .store op, .error .other, c.world⟩ = cur := by
          cases op <;> exact fun _ => rfl
        rw [hsame]
        exact hinv a d row ha hd hserved hacc hrow
      have hm : commit c (.act i (.uuids ids)) = some (t, hist, op) := by simp [commit, hi]
      obtain hold | ⟨⟨d', x, owner, device, rfl⟩, hclaims, hcreator⟩ := mem_mailboxes_of_apply hap ha
      · -- the claim was there before, with the same hash
        rw [creatorAfter_of_mem hold hap]
        have hrow' := @claim_apply app.config.mailboxQuotas c.world.store c.world.clock ids op d
        rw [hap] at hrow'
        obtain h | ⟨_, _, rfl, hnone, -⟩ | ⟨-, h⟩ | ⟨_, _, _, row', -, hrow₀, h⟩ := hrow'
        · exact hinv a d row hold hd hserved hacc (h ▸ hrow)
        · exact absurd hd (not_vacant hvacant hm hnone hold)
        · cases h.symm.trans hrow
        · cases h.symm.trans hrow
          exact hinv a d row' hold hd hserved hacc hrow₀
      · refine ⟨t, hcreator i t _, ?_⟩
        rw [hclaims] at hrow
        exact showsClaim_of_inserts hcfg hc (List.mem_of_getElem? hi) hclaim hm hd hserved hacc hrow
    | _ =>
      rw [exec_store_eq hx (by simp)] at ha hrow
      exact hinv a d row ha hd hserved hacc hrow
  · cases hw
    cases x <;> exact hinv a d row ha hd hserved hacc hrow

/-! ## RCPT -/

/-- The domain of a lowercase address is lowercase. -/
theorem lowercase_of_rsplitOnce {s l d : String}
    (h : Str.rsplitOnce (Str.toAsciiLowercase s) '@' = some (l, d)) : Str.toAsciiLowercase d = d := by
  obtain ⟨hs, -⟩ := Str.rsplitOnce_eq_some.mp h
  have hlower := Str.toAsciiLowercase_eq_self.mp (Str.toAsciiLowercase_idem s)
  refine Str.toAsciiLowercase_eq_self.mpr fun x hx => hlower x ?_
  rw [hs]
  exact List.mem_append_right _ (List.mem_cons_of_mem _ hx)

theorem accept_of_checkMailbox {w w' : World} {cfg : Config} {addr : String}
    (h : Exec (exec app) w (Smtp.checkMailbox cfg addr false) tr w' (.accept delivery)) :
    delivery = Smtp.stripPlusTag addr ∧ mailboxIsActive w.store delivery w.clock := by
  obtain ⟨_, _, _, _, hnow, -, h⟩ := exec_call.mp h
  cases hnow
  obtain ⟨_, r, w₁, _, hx, -, h⟩ := exec_call.mp h
  obtain ⟨-, rfl, -⟩ | ⟨ids, -, -, -, -, hap, -⟩ := exec_store_cases hx
  · cases h
  · cases (Prod.mk.inj hap).1
    cases hactive : mailboxIsActive w.store (Smtp.stripPlusTag addr) w.clock with
    | true =>
      rw [hactive] at h
      obtain ⟨-, -, heq⟩ := exec_ret.mp h
      cases heq
      exact ⟨rfl, hactive⟩
    | false =>
      rw [hactive] at h
      obtain ⟨-, -, heq⟩ := exec_ret.mp h
      cases heq

/-- A mailbox on a domain that is not configured is accepted if the claim of the domain is verified and
the mailbox is active. -/
theorem accept_of_validateRecipient {w w' : World} {cfg : Config} {addr l d : String}
    (h : Exec (exec app) w (Smtp.validateRecipient cfg addr) tr w' (.accept delivery))
    (hd : Str.rsplitOnce addr '@' = some (l, d)) (hacc : ¬cfg.acceptsDomain d) :
    delivery = Smtp.stripPlusTag addr ∧ customDomainIsVerified w.store d ∧
      mailboxIsActive w.store delivery w.clock := by
  unfold Smtp.validateRecipient at h
  simp only [hd, if_neg hacc] at h
  split at h
  · cases h
  split at h
  · cases h
  obtain ⟨_, r, w₁, _, hx, -, h⟩ := exec_call.mp h
  obtain ⟨-, rfl, -⟩ | ⟨ids, -, -, -, -, hap, hw⟩ := exec_store_cases hx
  · cases h
  · obtain ⟨rfl, hstore⟩ := Prod.mk.inj hap
    cases hver : customDomainIsVerified w.store d with
    | true =>
      rw [hver] at h
      obtain ⟨hdel, hactive⟩ := accept_of_checkMailbox h
      rw [hw, ← hstore] at hactive
      exact ⟨hdel, rfl, hactive⟩
    | false =>
      rw [hver] at h
      obtain ⟨-, -, heq⟩ := exec_ret.mp h
      cases heq

/-- Whenever RCPT accepts a recipient on the domain `d`, which is not configured, the mailbox was created
by a request that has presented the token of the claim that is verified now. -/
def FollowsClaim (app : AppState) (c : ServerConf) (addr d : String) : Prop :=
  ∀ tr w' a, Exec (exec app) c.world
    (Smtp.validateRecipient app.config (Str.toAsciiLowercase (Str.trim addr))) tr w' (.accept a) →
  domainOf (Str.toAsciiLowercase (Str.trim addr)) = some d → d ∉ app.config.domains →
  ∃ row t, c.world.store.customDomains.lookup d = some row ∧ row.status = .verified ∧
    creator c.log a = some t ∧ t.showsClaim app row.claimTokenHash

/-- RCPT follows the claims if a domain is claimed only when it has no mailbox, and mailboxes are
added only under the current claim. -/
theorem followsClaim_of_vacant {start : DateTime} (hcfg : app.config.DomainsOk)
    (h : (server app).Reach (fun c m => claimsVacant c m ∧ insertsUnderClaim c m)
      (System.init (World.start start)) c) (addr d : String) : FollowsClaim app c addr d := by
  intro tr w' a hrcpt hdom hserved
  have hinit : UnderClaim app (System.init (World.start start)) := by
    intro a d row ha
    simp [System.init, World.start, Inner.empty] at ha
  have hinv : UnderClaim app c :=
    h.invariant hinit fun hc hinv hok hs => hinv.step hcfg hc hok.1 hok.2 hs
  obtain ⟨⟨l, d'⟩, hsplit, heq⟩ := Option.map_eq_some_iff.mp hdom
  dsimp only at heq
  subst heq
  have hacc : ¬app.config.acceptsDomain d' := by
    intro hacc
    obtain ⟨x, hx, hxd⟩ := List.any_eq_true.mp hacc
    rw [lowercase_of_rsplitOnce hsplit] at hxd
    exact hserved (eq_of_beq hxd ▸ hx)
  obtain ⟨hdel, hver, hactive⟩ := accept_of_validateRecipient hrcpt hsplit hacc
  obtain ⟨row, hrow, hst⟩ := (Option.any_eq_true ..).mp hver
  obtain ⟨mb, hmb, -⟩ := (Option.any_eq_true ..).mp hactive
  obtain ⟨l', hstrip⟩ := Smtp.rsplitOnce_stripPlusTag hsplit
  have hmem : a ∈ c.world.store.mailboxes := mem_mailboxes_iff.mpr ⟨mb, hmb⟩
  have hdel' : domainOf a = some d' := by rw [hdel, domainOf, hstrip, Option.map_some]
  obtain ⟨t, ht, hshows⟩ := hinv a d' row hmem hdel' hserved hacc hrow
  exact ⟨row, t, hrow, eq_of_beq hst, ht, hshows⟩

/-! A mailbox on a domain, and two parties that claim the domain one after the other. -/

def handoverServer : AppState := ⟨.refusing (claimDigests ++ ownerDigests), .default, false⟩

def secondHeaders : Api.HeaderMap :=
  [("authorization", Str.asBytes "Bearer amd_AQEBAQEBAQEBAQEBAQEBAQEBAQEBAQEBAQEBAQEBAQE")]

/-- The first party claims the domain, verifies it and creates a mailbox. -/
def boxMoves : List ServerMove :=
  claimMoves 0 0 ++ checkMoves 1 claimTxts ++ acts 1 [.uuids []] ++
    .spawn (.http (.createAddress 0 claimHeaders (some ⟨some "box", some "mail.org"⟩))) ::
      acts 2 [.uuids [], .answer, .verdict true, .answer, .bytes (List.replicate 32 2), .uuids []]

/-- It gives up its claim, and the second party claims and verifies the domain. -/
def handoverMoves : List ServerMove :=
  unclaimMoves 3 ++ claimMoves 4 1 ++ .spawn (.http (.verifyDomain "mail.org" secondHeaders)) ::
    acts 5 [.uuids [], .verdict true,
      .records (some ["anonymail-verify=01010101010101010101010101010101"]),
      .records (some ["example.com"]), .answer, .uuids []]

/-- RCPT accepts the mailbox. -/
def acceptsBox (c : ServerConf) : Bool :=
  (play (exec handoverServer) [.uuids [], .answer, .uuids []] c.world
    (Smtp.validateRecipient handoverServer.config
      (Str.toAsciiLowercase (Str.trim "box@mail.org")))).any fun (_, _, r) =>
    r == .accept "box@mail.org"

theorem accept_of_acceptsBox (h : acceptsBox c) : ∃ tr w', Exec (exec handoverServer) c.world
    (Smtp.validateRecipient handoverServer.config (Str.toAsciiLowercase (Str.trim "box@mail.org")))
    tr w' (.accept "box@mail.org") := by
  obtain ⟨tr, w', r, hr, heq⟩ := exists_of_play h
  exact ⟨tr, w', eq_of_beq heq ▸ hr⟩

theorem domainsOk_default : Config.DomainsOk .default := by
  intro d hd
  cases List.mem_singleton.mp hd
  decide

theorem domainOf_box : domainOf (Str.toAsciiLowercase (Str.trim "box@mail.org")) = some "mail.org" := by
  decide +kernel

theorem followsClaim_of_vacant_box : ∃ c tr w',
    (server handoverServer).Reach (fun c m => claimsVacant c m ∧ insertsUnderClaim c m)
      (System.init (World.start 0)) c ∧
    Exec (exec handoverServer) c.world (Smtp.validateRecipient handoverServer.config
      (Str.toAsciiLowercase (Str.trim "box@mail.org"))) tr w' (.accept "box@mail.org") ∧
    FollowsClaim handoverServer c "box@mail.org" "mail.org" := by
  have hrun : ((server handoverServer).run (fun c m => claimsVacant c m ∧ insertsUnderClaim c m)
      (System.init (World.start 0)) boxMoves).any acceptsBox := by
    decide +kernel
  obtain ⟨c, hc, hP⟩ := System.Reach.exists_of_run hrun
  obtain ⟨tr, w', hr⟩ := accept_of_acceptsBox hP
  exact ⟨c, tr, w', hc, hr, followsClaim_of_vacant domainsOk_default hc _ _⟩

/-- The second party has not created the mailbox that its claim makes reachable. -/
theorem not_followsClaim : ¬∀ (app : AppState) (start : DateTime) (c : ServerConf),
    app.config.DomainsOk → (server app).Reach (sequential · ·) (System.init (World.start start)) c →
    ∀ addr d, FollowsClaim app c addr d := by
  intro H
  have hrun : ((server handoverServer).run (sequential · ·) (System.init (World.start 0))
      (boxMoves ++ handoverMoves)).any fun c => acceptsBox c &&
        (c.world.store.customDomains.lookup "mail.org").all fun row =>
          (creator c.log "box@mail.org").all fun t =>
            !t.showsClaim handoverServer row.claimTokenHash := by
    decide +kernel
  obtain ⟨c, hc, hP⟩ := System.Reach.exists_of_run hrun
  obtain ⟨haccept, hall⟩ := Bool.and_eq_true_iff.mp hP
  obtain ⟨tr, w', hr⟩ := accept_of_acceptsBox haccept
  have hfollows := H handoverServer 0 c domainsOk_default hc "box@mail.org" "mail.org"
  obtain ⟨row, t, hrow, -, ht, hshows⟩ := hfollows tr w' _ hr domainOf_box (by decide +kernel)
  simp [hrow, ht, hshows] at hall

end AnonyMail
