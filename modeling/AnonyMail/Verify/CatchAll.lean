import AnonyMail.Verify.Frames

/-! # Competing RCPT commands

`validate_recipient` checks the mailbox, creates it and on a conflict checks again, each in a store
call of its own. RCPT commands of different sessions are interleaved call by call with requests that
create or delete mailboxes and with the cleanup task. -/

namespace AnonyMail

open Calls Prog MemoryStore

variable {app : AppState}

/-! ## Rivals -/

/-- What competes for a mailbox. -/
inductive Rival
  | rcpt (addr : String)
  | post (peer : IpAddr) (headers : Api.HeaderMap) (body : Option Api.CreateAddressRequest)
  | delete (address : String) (headers : Api.HeaderMap)
  | purge

inductive Answer
  | recipient (r : Smtp.RecipientCheck)
  | outcome (o : Outcome)

namespace Rival

def isRcpt : Rival → Bool
  | rcpt _ => true
  | _ => false

/-- An RCPT command or a request for a mailbox. -/
def inserts : Rival → Bool
  | rcpt _ | post .. => true
  | _ => false

def prog (app : AppState) : Rival → Run Answer
  | rcpt addr =>
    .recipient <$> Smtp.validateRecipient app.config (Str.toAsciiLowercase (Str.trim addr))
  | post peer headers body => .outcome <$> Task.prog app (.http (.createAddress peer headers body))
  | delete address headers => .outcome <$> Task.prog app (.http (.deleteAddress address headers))
  | purge => .outcome <$> Task.prog app .cleanup

end Rival

def rivals (app : AppState) : System World Rival Eff Choice Tick Eff.Ans Answer where
  prog := Rival.prog app
  exec := exec app
  env w t := some (w.tick t)

abbrev RivalConf := Conf World Rival Eff.Ans Answer

abbrev RivalMove := Move Rival Choice Tick

/-! ## Calls -/

/-- An RCPT command removes no mailbox, and no rival changes one. -/
def Rival.MayCall (cfg : Config) (r : Rival) (h : Hist) : Eff → Prop
  | .store op =>
    match op with
    | .createMailbox _ _ x _ _ => r.inserts ∧ ∃ t, ⟨.now, t⟩ ∈ h ∧ ExpiresAt cfg t x
    | .deleteMailbox _ | .purgeExpired _ => r.isRcpt = false
    | .extendMailbox .. | .rotateOwnerToken .. => False
    | _ => True
  | _ => True

theorem Eff.Passive.mayCall {r : Rival} {h : Hist} {e : Eff} (he : e.Passive) :
    r.MayCall cfg h e := by
  cases e with
  | store op => cases op <;> first | exact trivial | exact he.elim | cases he
  | _ => trivial

/-- A task whose requests are not for the owner only. -/
theorem mayCall_of_protocol {t : Task} {r : Rival} {h : Hist} {e : Eff} (hr : r.isRcpt = false)
    (ht : t.ownerGated = none)
    (hins : ∀ a d x owner device, t.Creates app h a d x owner device → r.inserts)
    (he : Protocol app t h e) : r.MayCall app.config h e := by
  cases e with
  | store op =>
    have hgated : ∀ a, op.gated ≠ some a := by
      intro a ha
      obtain ⟨hs, mb, h, -⟩ := he.1 a ha
      cases ht.symm.trans h
    cases op with
    | createMailbox a d x owner device =>
      refine ⟨hins _ _ _ _ _ he.2, ?_⟩
      obtain ⟨peer, hs, body, -, hreq⟩ | ⟨n, tls, input, -, hcaught, -⟩ := Task.Creates.cases he.2
      · exact hreq.expiry
      · exact hcaught.expiry
    | extendMailbox a | rotateOwnerToken a | deleteMailbox a => exact absurd rfl (hgated a)
    | purgeExpired t => exact hr
    | _ => trivial
  | _ => trivial

theorem only_delete (a : String) (hs : Api.HeaderMap) :
    Only (fun e => e.Passive ∨ ∃ a, e = .store (.deleteMailbox a))
      (Api.Addresses.delete app a hs).run := by
  intro h
  refine Api.bind_only (Api.passive_attestationGate hs) (fun _ _ he => .inl he) fun l _ _ => ?_
  refine Api.safe_authorizeOwner_bind (.inl rfl) fun mb _ => ?_
  refine Api.safe_store_bind (.inr ⟨_, rfl⟩) fun r => ?_
  split
  · exact Api.safe_pure
  · exact Api.safe_throw

theorem rival_mayCall (r : Rival) : Safe (r.MayCall app.config) [] (r.prog app) := by
  cases r with
  | rcpt addr =>
    refine Safe.map (Smtp.safe_validateRecipient ?_ ?_ (Str.toAsciiLowercase_idem _) _)
    · exact fun _ _ he => he.passive.mayCall
    · exact fun _ _ _ _ hcaught => ⟨rfl, hcaught.expiry⟩
  | post peer hs body =>
    exact ((task_safe app (.http (.createAddress peer hs body))).imp fun _ _ he =>
      mayCall_of_protocol rfl rfl (fun _ _ _ _ _ _ => rfl) he).map
  | delete a hs =>
    refine Safe.map (Safe.map (Api.Safe.bind ((only_delete a hs []).imp ?_) fun _ _ _ =>
      Api.safe_pure))
    rintro _ _ (he | ⟨a, rfl⟩)
    · exact he.mayCall
    · rfl
  | purge =>
    exact ((task_safe app .cleanup).imp fun _ _ he =>
      mayCall_of_protocol (t := .cleanup) rfl rfl (fun _ _ _ _ _ => False.elim) he).map

theorem mayCall_of_reach {ok} {w : World} {c : RivalConf} {i : Nat} {r : Rival} {h : Hist} {e : Eff}
    {k : e.Ans → Run Answer} (hc : (rivals app).Reach ok (System.init w) c)
    (hi : c.procs[i]? = some ⟨r, h, .call e k⟩) : r.MayCall app.config h e :=
  (hc.obeys (Q := fun _ _ _ => True) (fun r => (rival_mayCall r).obeys) _ (List.mem_of_getElem? hi)).1

/-! ## Answers to RCPT -/

/-- The catch-all creates the mailbox `d` if it is missing. -/
def Config.Catches (cfg : Config) (d : String) : Prop :=
  cfg.catchAllEnabled ∧ ∃ l domain, Str.rsplitOnce d '@' = some (l, domain) ∧ ¬domain.isEmpty ∧
    cfg.acceptsDomain domain ∧ ¬cfg.isReservedLocalPart l

/-- A store call has failed with an error that the method does not return. -/
def StoreFailed (h : Hist) : Prop :=
  ∃ op e, ⟨.store op, .error e⟩ ∈ h ∧ ∀ q s now ids, (StoreOp.apply q s now ids op).1 ≠ .error e

namespace Smtp

/-- A call of a check that makes six calls at most. -/
def RcptCall (cfg : Config) (h : Hist) (e : Eff) : Prop :=
  h.length < 6 ∧ (e = .now ∨ (∃ op, e = .store op ∧ op.uuids = 0) ∨
    e = .panic ∧ ∃ t, ⟨.now, t⟩ ∈ h ∧ ∀ x, ¬ExpiresAt cfg t x)

/-- The last calls found the mailbox active, or created it. -/
def Found (d : String) (h : Hist) : Prop :=
  (∃ h₀ t, h = h₀ ++ [⟨.now, t⟩, ⟨.store (.mailboxIsActive d t), .ok true⟩]) ∨
    ∃ h₀ domain x mb, h = h₀ ++ [⟨.store (.createMailbox d domain x none none), .ok mb⟩]

/-- The mailbox could not be created because it was there, and was not active when checked again. -/
def Conflicted (d : String) (h : Hist) : Prop :=
  ∃ h₀ domain x e t, Api.isUniqueViolation e ∧ h = h₀ ++
    [⟨.store (.createMailbox d domain x none none), .error e⟩, ⟨.now, t⟩,
      ⟨.store (.mailboxIsActive d t), .ok false⟩]

/-- What the server has seen when it answers an RCPT command for `d`. -/
def Answered (cfg : Config) (d : String) (h : Hist) : RecipientCheck → Prop
  | .accept a => a = d ∧ Found d h
  | .noMailbox => ¬cfg.Catches d ∨ Conflicted d h
  | .notOurDomain => ¬cfg.Catches d
  | .error => StoreFailed h

variable {cfg : Config} {d : String} {h : Hist}

theorem RcptCall.now (hlen : h.length < 6) : RcptCall cfg h .now := ⟨hlen, .inl rfl⟩

theorem RcptCall.store {op : StoreOp} (hlen : h.length < 6) (hop : op.uuids = 0) :
    RcptCall cfg h (.store op) := ⟨hlen, .inr (.inl ⟨op, rfl, hop⟩)⟩

theorem storeFailed_check {t : DateTime} {e : StoreError} :
    StoreFailed (h ++ [⟨.store (.mailboxIsActive d t), .error e⟩]) := by
  refine ⟨.mailboxIsActive d t, e, by simp, ?_⟩
  rintro q s now ids ⟨⟩

theorem storeFailed_create {domain : String} {x : DateTime} {e : StoreError}
    (he : ¬Api.isUniqueViolation e) :
    StoreFailed (h ++ [⟨.store (.createMailbox d domain x none none), .error e⟩]) := by
  refine ⟨.createMailbox d domain x none none, e, by simp, fun q s now ids heq => ?_⟩
  simp only [StoreOp.apply, createMailbox] at heq
  split at heq
  · cases heq
    exact he rfl
  · cases heq

theorem recheckActive_obeys {domain : String} {x : DateTime} {e : StoreError}
    (hlen : h.length ≤ 3) (he : Api.isUniqueViolation e) :
    Obeys (RcptCall cfg) (Answered cfg d)
      (h ++ [⟨.store (.createMailbox d domain x none none), .error e⟩]) (recheckActive d) := by
  have hlen' : (h ++ [(⟨.store (.createMailbox d domain x none none), .error e⟩ :
      Event Eff.Ans)]).length ≤ 4 := by
    rw [List.length_append]
    exact Nat.succ_le_succ hlen
  refine ⟨.now (by omega), fun t => ⟨.store (by simp; omega) rfl, fun r => ?_⟩⟩
  match r with
  | .ok true =>
    refine ⟨rfl, .inl ⟨h ++ [⟨.store (.createMailbox d domain x none none), .error e⟩], t, ?_⟩⟩
    simp
  | .ok false => exact .inr ⟨h, domain, x, e, t, he, by simp⟩
  | .error _ => exact storeFailed_check

theorem tryCatchAll_obeys (hlen : h.length ≤ 2) (hnow : ∃ t, ⟨.now, t⟩ ∈ h) :
    Obeys (RcptCall cfg) (Answered cfg d) h (tryCatchAll cfg d) := by
  unfold tryCatchAll
  split
  · next hoff => exact .inl fun hc => by simp [hc.1] at hoff
  split
  · next hsplit =>
    refine .inl fun hc => ?_
    obtain ⟨l, domain, hd, -⟩ := hc.2
    cases hsplit.symm.trans hd
  next l domain hsplit =>
  split
  · next hres =>
    refine .inl fun hc => ?_
    obtain ⟨l', domain', hd, -, -, hres'⟩ := hc.2
    cases hsplit.symm.trans hd
    exact hres' hres
  have hexpiry : Obeys (RcptCall cfg)
      (fun h' x => ∃ t, h' = h ++ [⟨.now, t⟩] ∧ ExpiresAt cfg t x) h (catchAllExpiry cfg) := by
    refine catchAllExpiry_obeys (.now (by omega)) (fun hnone => ?_) fun t hnone => ?_
    · obtain ⟨t, ht⟩ := hnow
      exact ⟨by omega, .inr (.inr ⟨rfl, t, ht, hnone t⟩)⟩
    · exact ⟨by simp; omega, .inr (.inr ⟨rfl, t, by simp, hnone⟩)⟩
  refine obeys_bind.mpr (hexpiry.mono ?_)
  rintro h' x ⟨t, rfl, -⟩
  have hlen' : (h ++ [(⟨.now, t⟩ : Event Eff.Ans)]).length ≤ 3 := by
    rw [List.length_append]
    exact Nat.succ_le_succ hlen
  refine ⟨.store (by omega) rfl, fun r => ?_⟩
  match r with
  | .ok mb => exact ⟨rfl, .inr ⟨_, domain, x, mb, rfl⟩⟩
  | .error e =>
    show Obeys _ _ _ (if Api.isUniqueViolation e then recheckActive d else return .error)
    split
    · next he => exact recheckActive_obeys hlen' he
    · next he => exact storeFailed_create he

theorem checkMailbox_obeys {addr : String} {b : Bool} (hlen : h.length ≤ 1)
    (hb : b = true → h = []) (hc : ¬b → ¬cfg.Catches (stripPlusTag addr)) :
    Obeys (RcptCall cfg) (Answered cfg (stripPlusTag addr)) h (checkMailbox cfg addr b) := by
  refine ⟨.now (by omega), fun t => ⟨.store (by simp; omega) rfl, fun r => ?_⟩⟩
  match r with
  | .ok true => exact ⟨rfl, .inl ⟨h, t, by simp⟩⟩
  | .ok false =>
    show Obeys _ _ _ (if b then tryCatchAll cfg (stripPlusTag addr) else return .noMailbox)
    split
    · next htrue =>
      rw [hb htrue]
      exact tryCatchAll_obeys (by simp) ⟨t, by simp⟩
    · next hfalse => exact .inl (hc hfalse)
  | .error _ => exact storeFailed_check

/-- The calls of `validate_recipient` and what its answers mean. -/
theorem validateRecipient_obeys (addr : String) : Obeys (RcptCall cfg)
    (Answered cfg (stripPlusTag addr)) [] (validateRecipient cfg addr) := by
  have hnot : ∀ l domain, Str.rsplitOnce addr '@' = some (l, domain) →
      domain.isEmpty ∨ ¬cfg.acceptsDomain domain → ¬cfg.Catches (stripPlusTag addr) := by
    rintro l domain hsplit hbad ⟨-, l', domain', hsplit', hne, hacc, -⟩
    obtain ⟨l'', hstrip⟩ := rsplitOnce_stripPlusTag hsplit
    cases hstrip.symm.trans hsplit'
    exact hbad.elim hne (absurd hacc)
  unfold validateRecipient
  split
  · next hnone =>
    rintro ⟨-, l, domain, hsplit, -⟩
    have hsame : stripPlusTag addr = addr := by simp [stripPlusTag, hnone]
    rw [hsame, hnone] at hsplit
    cases hsplit
  next l domain hsplit =>
  split
  · next hempty => exact hnot _ _ hsplit (.inl hempty)
  split
  · exact checkMailbox_obeys (by simp) (fun _ => rfl) (absurd rfl)
  next hacc =>
  have hc := hnot _ _ hsplit (.inr hacc)
  split
  · exact hc
  refine ⟨.store (by simp) rfl, fun r => ?_⟩
  match r with
  | .ok true => exact checkMailbox_obeys (by simp) nofun fun _ => hc
  | .ok false => exact hc
  | .error e =>
    refine ⟨.customDomainIsVerified domain, e, by simp, ?_⟩
    rintro q s now ids ⟨⟩

end Smtp

/-- What an RCPT command may call. -/
def Rival.RcptCalls (cfg : Config) : Rival → Hist → Eff → Prop
  | rcpt _ => Smtp.RcptCall cfg
  | _ => fun _ _ => True

/-- What an RCPT command has seen when it answers. -/
def Rival.RcptAnswers (cfg : Config) : Rival → Hist → Answer → Prop
  | rcpt addr => fun h a => ∃ v, a = .recipient v ∧
      Smtp.Answered cfg (Smtp.stripPlusTag (Str.toAsciiLowercase (Str.trim addr))) h v
  | _ => fun _ _ => True

theorem rcpt_obeys (r : Rival) :
    Obeys (r.RcptCalls app.config) (r.RcptAnswers app.config) [] (r.prog app) := by
  cases r with
  | rcpt addr =>
    rw [Rival.prog, Rival.RcptAnswers, obeys_map]
    generalize Str.toAsciiLowercase (Str.trim addr) = a
    exact (Smtp.validateRecipient_obeys a).mono fun h v hv => ⟨v, rfl, hv⟩
  | post peer hs body =>
    generalize (Rival.post peer hs body).prog app = p
    exact obeys_trivial
  | delete a hs =>
    generalize (Rival.delete a hs).prog app = p
    exact obeys_trivial
  | purge =>
    generalize Rival.purge.prog app = p
    exact obeys_trivial

/-- Each RCPT command of a run keeps to its calls, and its answer means what it should. -/
theorem rcpt_of_reach {ok} {w : World} {c : RivalConf}
    (hc : (rivals app).Reach ok (System.init w) c) : ∀ p ∈ c.procs,
    Obeys (p.tag.RcptCalls app.config) (p.tag.RcptAnswers app.config) p.hist p.rest :=
  hc.obeys (Φ := fun r => r.RcptCalls app.config) (Q := fun r => r.RcptAnswers app.config) rcpt_obeys

/-! ## Rows -/

section
variable {w w' : World} {r : Rival} {h : Hist} {e : Eff} {ch : Choice} {ans : e.Ans}

/-- All that a call of a rival can do to the mailbox `a`. -/
theorem rival_row (hcall : r.MayCall app.config h e) (hx : exec app w e ch = some (ans, w'))
    (a : String) : w'.store.mailboxes.lookup a = w.store.mailboxes.lookup a ∨
    (w.store.mailboxes.lookup a = none ∧ ∃ d x owner device,
      e = .store (.createMailbox a d x owner device) ∧
      w'.store.mailboxes.lookup a = some ⟨a, d, w.clock, x, owner, device⟩) ∨
    (r.isRcpt = false ∧ w'.store.mailboxes.lookup a = none) := by
  cases e with
  | store op =>
    obtain ⟨-, -, rfl⟩ | ⟨ids, -, -, -, -, hap, -⟩ := exec_store_cases hx
    · exact .inl rfl
    have hrow := @mailbox_apply app.config.mailboxQuotas w.store w.clock ids op a
    rw [hap] at hrow
    obtain h | ⟨hnone, d, x, owner, device, rfl, h⟩ | ⟨_, _, rfl, -⟩ | ⟨_, _, rfl, -⟩ | ⟨rfl, h⟩ |
      ⟨_, _, rfl, -, -, -, h⟩ := hrow
    · exact .inl h
    · exact .inr (.inl ⟨hnone, d, x, owner, device, rfl, h⟩)
    · exact hcall.elim
    · exact hcall.elim
    · exact .inr (.inr ⟨hcall, h⟩)
    · exact .inr (.inr ⟨hcall, h⟩)
  | _ => exact .inl (by rw [exec_store_eq hx (by simp)])

theorem Named.count_le_one {s : Inner} (hs : Named s) (d : String) :
    HashMap.count (·.address == d) s.mailboxes ≤ 1 :=
  HashMap.count_le_one d fun a mb hmb hd => (hs a mb hmb).symm.trans (eq_of_beq hd)

end

section
variable {ok : RivalConf → RivalMove → Prop} {w : World} {c c' : RivalConf} {m : RivalMove}

theorem named_of_reach (hw : Named w.store) (h : (rivals app).Reach ok (System.init w) c) :
    Named c.world.store := by
  refine h.invariant (I := fun c => Named c.world.store) hw fun {c c' m} hc hinv _ hs => ?_
  obtain ⟨t, -, rfl⟩ | ⟨i, ch, r, hist, e, k, ans, w, -, hi, hx, rfl⟩ | ⟨x, w, -, hw, rfl⟩ :=
    System.step_cases hs
  · exact hinv
  · exact hinv.exec hx
  · cases hw
    cases x <;> exact hinv

/-- The rival that makes the move. -/
def actor (c : RivalConf) : RivalMove → Option Rival
  | .act i _ => c.procs[i]?.map (·.tag)
  | _ => none

/-- All that a move can do to the mailbox `a`. -/
theorem rival_step (hc : (rivals app).Reach ok (System.init w) c)
    (hs : (rivals app).step c m = some c') (a : String) :
    c'.world.store.mailboxes.lookup a = c.world.store.mailboxes.lookup a ∨
    (c.world.store.mailboxes.lookup a = none ∧ ∃ i ch r hist d x owner device k,
      m = .act i ch ∧
      c.procs[i]? = some ⟨r, hist, .call (.store (.createMailbox a d x owner device)) k⟩ ∧
      c'.world.clock = c.world.clock ∧
      c'.world.store.mailboxes.lookup a = some ⟨a, d, c.world.clock, x, owner, device⟩) ∨
    (¬(actor c m).any Rival.isRcpt ∧ c'.world.store.mailboxes.lookup a = none) := by
  obtain ⟨t, -, rfl⟩ | ⟨i, ch, r, hist, e, k, ans, w, rfl, hi, hx, rfl⟩ | ⟨x, w, -, hw, rfl⟩ :=
    System.step_cases hs
  · exact .inl rfl
  · replace hx : exec app c.world e ch = some (ans, w) := hx
    obtain h | ⟨hnone, d, x, owner, device, rfl, h⟩ | ⟨hr, h⟩ :=
      rival_row (mayCall_of_reach hc hi) hx a
    · exact .inl h
    · exact .inr (.inl ⟨hnone, i, ch, r, hist, d, x, owner, device, k, rfl, hi,
        (exec_clocks_eq hx).1, h⟩)
    · exact .inr (.inr ⟨by simp [actor, hi, hr], h⟩)
  · cases hw
    cases x <;> exact .inl rfl

end

/-! ## Accepted recipients -/

/-- Since each of its readings of the clock, less than `default_ttl` has passed when a rival of the
kind `who` makes a call. -/
def inTime (cfg : Config) (who : Rival → Bool) (c : RivalConf) : RivalMove → Bool
  | .act i _ => c.procs[i]?.all fun p => !who p.tag || (p.hist.filterMap clockRead).all fun t =>
      c.world.clock < t + Duration.seconds (asI64 cfg.defaultTtl)
  | _ => true

/-- The moves `ms₁` lead to an instant within the process `i`: it has been started, and a call of it
is still to come or has just been made. -/
def Within (c : RivalConf) (i : Nat) (ms₁ ms₂ : List RivalMove) : Prop :=
  i < c.procs.length ∧ ((∃ ch, .act i ch ∈ ms₂) ∨ ∃ ch, ms₁.getLast? = some (.act i ch))

/-- Each RCPT command that has accepted a recipient did so while, at some instant, the mailbox was
there and had not expired. -/
def AcceptsActive (app : AppState) (ok : RivalConf → RivalMove → Bool) (w : World)
    (ms : List RivalMove) (c : RivalConf) : Prop :=
  ∀ (i : Nat) addr h d,
    c.procs[i]? = some ⟨.rcpt addr, h, .ret (.recipient (.accept d))⟩ →
    ∃ ms₁ ms₂ c₁, ms = ms₁ ++ ms₂ ∧
      (rivals app).run (ok · ·) (System.init w) ms₁ = some c₁ ∧ Within c₁ i ms₁ ms₂ ∧
      mailboxIsActive c₁.world.store d c₁.world.clock

theorem eq_of_expiresAt {cfg : Config} {t x : DateTime} (h : ExpiresAt cfg t x) :
    x = t + Duration.seconds (asI64 cfg.defaultTtl) := by
  obtain ⟨ttl, httl, hx⟩ := h
  obtain ⟨-, hx⟩ := Option.ite_none_right_eq_some.mp hx
  obtain ⟨-, httl⟩ := Option.ite_none_right_eq_some.mp httl
  rw [← Option.some.inj hx, ← Option.some.inj httl]

theorem lt_of_inTime {cfg : Config} {who : Rival → Bool} {c : RivalConf} {i : Nat} {ch : Choice}
    {p : Proc Rival Eff.Ans Answer} {t x : DateTime} (h : inTime cfg who c (.act i ch))
    (hi : c.procs[i]? = some p) (hwho : who p.tag) (ht : ⟨.now, t⟩ ∈ p.hist)
    (hx : ExpiresAt cfg t x) : c.world.clock < x := by
  rw [inTime, hi, Option.all_some, hwho, Bool.not_true, Bool.false_or, List.all_eq_true] at h
  rw [eq_of_expiresAt hx]
  exact of_decide_eq_true (h t (List.mem_filterMap.mpr ⟨_, ht, rfl⟩))

theorem active_of_row {s : Inner} {a : String} {mb : Mailbox} {t : DateTime}
    (hmb : s.mailboxes.lookup a = some mb) (ht : t < mb.expiresAt) : mailboxIsActive s a t := by
  simp [mailboxIsActive, hmb, ht]

theorem row_of_active {s : Inner} {a : String} {t : DateTime} (h : mailboxIsActive s a t) :
    ∃ mb, s.mailboxes.lookup a = some mb ∧ t < mb.expiresAt := by
  obtain ⟨mb, hmb, ht⟩ := (Option.any_eq_true ..).mp h
  exact ⟨mb, hmb, of_decide_eq_true ht⟩

section
variable {ok : RivalConf → RivalMove → Bool} {w : World} {c c' : RivalConf} {m : RivalMove}

/-- A mailbox that is created has not expired. -/
theorem lt_of_creates (hc : (rivals app).Reach (ok · ·) (System.init w) c)
    (hok : inTime app.config Rival.inserts c (.act i ch))
    {k : (Eff.store (.createMailbox a d x owner device)).Ans → Run Answer}
    (hi : c.procs[i]? = some ⟨r, hist, .call (.store (.createMailbox a d x owner device)) k⟩) :
    c.world.clock < x := by
  obtain ⟨hr, t, ht, hx⟩ := mayCall_of_reach hc hi
  exact lt_of_inTime hok hi hr ht hx

theorem call_of_hist {ms : List RivalMove} {i : Nat} {p : Proc Rival Eff.Ans Answer} {h₁ h₂ : Hist}
    {e : Eff} {ans : e.Ans} (h : (rivals app).run (ok · ·) (System.init w) ms = some c)
    (hi : c.procs[i]? = some p) (hhist : p.hist = h₁ ++ ⟨e, ans⟩ :: h₂) :
    ∃ ms₁ ch ms₂ c₁ c₂ k, ms = ms₁ ++ .act i ch :: ms₂ ∧
      (rivals app).run (ok · ·) (System.init w) ms₁ = some c₁ ∧
      c₁.procs[i]? = some ⟨p.tag, h₁, .call e k⟩ ∧ ok c₁ (.act i ch) ∧
      exec app c₁.world e ch = some (ans, c₂.world) ∧
      (rivals app).step c₁ (.act i ch) = some c₂ ∧
      c₂.procs[i]? = some ⟨p.tag, h₁ ++ [⟨e, ans⟩], k ans⟩ ∧
      (rivals app).run (ok · ·) c₂ ms₂ = some c := System.run_split_hist h hi hhist

theorem row_of_create {w w' : World} {mb : Mailbox}
    (hx : exec app w (.store (.createMailbox a d x owner device)) ch = some (.ok mb, w')) :
    w'.store.mailboxes.lookup a = some ⟨a, d, w.clock, x, owner, device⟩ ∧ w'.clock = w.clock := by
  refine ⟨?_, (exec_clocks_eq hx).1⟩
  obtain ⟨-, ⟨⟩, -⟩ | ⟨ids, -, -, -, -, hap, -⟩ := exec_store_cases hx
  simp only [StoreOp.apply, createMailbox] at hap
  split at hap
  · cases (Prod.mk.inj hap).1
  · rw [← (Prod.mk.inj hap).2]
    exact AList.lookup_insert _

theorem mem_of_conflict {w w' : World} {e : StoreError} (he : Api.isUniqueViolation e)
    (hx : exec app w (.store (.createMailbox a d x owner device)) ch = some (.error e, w')) :
    a ∈ w.store.mailboxes := by
  obtain ⟨-, heq, -⟩ | ⟨ids, -, -, -, -, hap, -⟩ := exec_store_cases hx
  · cases heq
    cases he
  · simp only [StoreOp.apply, createMailbox] at hap
    split at hap
    · assumption
    · cases (Prod.mk.inj hap).1

theorem now_of_exec {w w' : World} (hx : exec app w .now ch = some (t, w')) :
    t = w.clock ∧ w' = w := by
  cases hx
  exact ⟨rfl, rfl⟩

theorem active_of_check {w w' : World} {b : Bool}
    (hx : exec app w (.store (.mailboxIsActive a t)) ch = some (.ok b, w')) :
    mailboxIsActive w.store a t = b := by
  obtain ⟨-, ⟨⟩, -⟩ | ⟨ids, -, -, -, -, hap, -⟩ := exec_store_cases hx
  exact Except.ok.inj (Prod.mk.inj hap).1

/-- The move that brings about a mailbox with this expiry creates it, before it expires. -/
theorem lt_of_onset {y : DateTime} (hc : (rivals app).Reach (ok · ·) (System.init w) c)
    (hok : inTime app.config Rival.inserts c m) (hs : (rivals app).step c m = some c')
    (hnot : ¬∃ mb, c.world.store.mailboxes.lookup a = some mb ∧ mb.expiresAt = y)
    (hmb : c'.world.store.mailboxes.lookup a = some mb) (hy : mb.expiresAt = y) :
    c'.world.clock < y := by
  obtain h | ⟨-, i, ch, r, hist, d, x, owner, device, k, rfl, hi, hclock, h⟩ | ⟨-, h⟩ :=
    rival_step hc hs a
  · exact absurd ⟨mb, h ▸ hmb, hy⟩ hnot
  · cases h.symm.trans hmb
    rw [hclock, ← hy]
    exact lt_of_creates hc hok hi
  · cases h.symm.trans hmb

/-- If rivals that insert the mailbox are in time, an RCPT command accepts only what was active at some
instant of the command. -/
theorem acceptsActive_of_run {ms : List RivalMove}
    (h : (rivals app).run (inTime app.config Rival.inserts · ·) (System.init w) ms = some c) :
    AcceptsActive app (inTime app.config Rival.inserts) w ms c := by
  intro i addr hist d hi
  have hc := System.Reach.of_run h
  obtain ⟨v, heq, hv⟩ := rcpt_of_reach hc _ (List.mem_of_getElem? hi)
  cases heq
  obtain ⟨hd, hfound⟩ := hv
  rw [← hd] at hfound
  clear hd
  obtain ⟨h₀, t, hhist⟩ | ⟨h₀, domain, x, mb, hhist⟩ := hfound
  · -- the check found the mailbox, which was there when the clock was read or was created since
    replace hhist : hist = (h₀ ++ [⟨.now, t⟩]) ++ ⟨.store (.mailboxIsActive d t), .ok true⟩ :: [] := by
      simpa using hhist
    obtain ⟨ms₁, ch, ms₂, c₁, c₂, k, rfl, h₁, hi₁, -, hx, -⟩ := call_of_hist h hi hhist
    obtain ⟨mb, hmb, hlt⟩ := row_of_active (active_of_check hx)
    obtain ⟨ms₀, ch₀, ms₁', c₀, c₀', k₀, rfl, h₀', -, hok₀, hx₀, hs₀, hi₀, hrun⟩ :=
      call_of_hist h₁ hi₁ rfl
    obtain ⟨ht, hw₀⟩ := now_of_exec hx₀
    have hlen := (List.getElem?_eq_some_iff.mp hi₀).1
    have hrun₀ := System.run_concat h₀' hok₀ hs₀
    let P : RivalConf → Prop := fun c =>
      ∃ mb', c.world.store.mailboxes.lookup d = some mb' ∧ mb'.expiresAt = mb.expiresAt
    obtain ⟨mb', hmb', hx'⟩ | ⟨ms₃, m, ms₄, d₁, d₂, rfl, hrun₁, hnot, hok, hs, ⟨mb', hmb', hx'⟩⟩ :=
      System.run_onset (P := P) hrun ⟨mb, hmb, rfl⟩
    · refine ⟨ms₀ ++ [.act i ch₀], ms₁' ++ .act i ch :: ms₂, c₀', by simp, hrun₀,
        ⟨hlen, .inr ⟨ch₀, by simp⟩⟩, active_of_row hmb' ?_⟩
      rw [hx', hw₀, ← ht]
      exact hlt
    · have hrun₂ := System.run_append.mpr ⟨c₀', hrun₀, System.run_concat hrun₁ hok hs⟩
      refine ⟨(ms₀ ++ [.act i ch₀]) ++ (ms₃ ++ [m]), ms₄ ++ .act i ch :: ms₂, d₂, by simp, hrun₂,
        ⟨?_, .inl ⟨ch, by simp⟩⟩, active_of_row hmb' ?_⟩
      · exact hlen.trans_le (((System.Reach.of_run hrun₁).tail hok hs).length_le)
      · have hd₁ := (System.Reach.of_run hrun₀).trans (System.Reach.of_run hrun₁)
        exact hx' ▸ lt_of_onset hd₁ hok hs hnot hmb' hx'
  · -- the command has created the mailbox
    obtain ⟨ms₁, ch, ms₂, c₁, c₂, k, rfl, h₁, hi₁, hok, hx, hs, hi₂, h₂⟩ := call_of_hist h hi hhist
    obtain ⟨hrow, hclock⟩ := row_of_create hx
    refine ⟨ms₁ ++ [.act i ch], ms₂, c₂, by simp, ?_, ⟨?_, .inr ⟨ch, by simp⟩⟩, ?_⟩
    · exact System.run_concat h₁ hok hs
    · exact (List.getElem?_eq_some_iff.mp hi₂).1
    · refine active_of_row hrow ?_
      rw [hclock]
      exact lt_of_creates (System.Reach.of_run h₁) hok hi₁

end

/-! ## Commands that all accept -/

/-- The clock does not go back. -/
def forward (c : RivalConf) : RivalMove → Bool
  | .env (.clock t) => c.world.clock ≤ t
  | _ => true

/-- The store does not fail. -/
def succeeds : RivalMove → Bool
  | .act _ .fail => false
  | _ => true

/-- Nothing deletes the mailbox `d` or lets it expire. -/
def keeps (app : AppState) (d : String) (c : RivalConf) (m : RivalMove) : Bool :=
  ((rivals app).step c m).all fun c' =>
    match c'.world.store.mailboxes.lookup d with
    | some mb => c'.world.clock < mb.expiresAt
    | none => (c.world.store.mailboxes.lookup d).isNone

def lasting (app : AppState) (d : String) (c : RivalConf) (m : RivalMove) : Bool :=
  forward c m && succeeds m && keeps app d c m

/-- The clock can be advanced by `default_ttl`. -/
def inRange (cfg : Config) (c : RivalConf) (_ : RivalMove) : Bool :=
  (Duration.trySeconds (asI64 cfg.defaultTtl)).any fun ttl => (c.world.clock.tryAdd ttl).isSome

/-- Each RCPT command for `d` has accepted it, or can go on and comes to its end after six calls. -/
def AllAccept (app : AppState) (d : String) (c : RivalConf) : Prop :=
  ∀ (i : Nat) addr h rest, c.procs[i]? = some ⟨.rcpt addr, h, rest⟩ →
    Smtp.stripPlusTag (Str.toAsciiLowercase (Str.trim addr)) = d →
    match rest with
    | .ret a => a = .recipient (.accept d)
    | .call .. => h.length < 6 ∧ ∃ ch, ((rivals app).step c (.act i ch)).isSome

section
variable {ok : RivalConf → RivalMove → Bool} {w : World} {c c' : RivalConf} {m : RivalMove}
  {d : String}

theorem clock_le_of_step (hok : forward c m) (hs : (rivals app).step c m = some c') :
    c.world.clock ≤ c'.world.clock := by
  obtain ⟨t, -, rfl⟩ | ⟨i, ch, r, hist, e, k, ans, w, -, -, hx, rfl⟩ | ⟨x, w, rfl, hw, rfl⟩ :=
    System.step_cases hs
  · exact le_refl _
  · replace hx : exec app c.world e ch = some (ans, w) := hx
    exact (exec_clocks_eq hx).1.ge
  · cases hw
    cases x with
    | clock t => exact of_decide_eq_true hok
    | instant n => exact le_refl _

theorem of_keeps (hok : keeps app d c m) (hs : (rivals app).step c m = some c') :
    (∀ mb, c'.world.store.mailboxes.lookup d = some mb → c'.world.clock < mb.expiresAt) ∧
      (c'.world.store.mailboxes.lookup d = none → c.world.store.mailboxes.lookup d = none) := by
  rw [keeps, hs, Option.all_some] at hok
  split at hok
  · next mb hmb =>
    refine ⟨fun mb' hmb' => ?_, fun hnone => ?_⟩
    · cases hmb.symm.trans hmb'
      exact of_decide_eq_true hok
    · cases hmb.symm.trans hnone
  · next hnone =>
    refine ⟨fun mb' hmb' => ?_, fun _ => Option.isNone_iff_eq_none.mp hok⟩
    cases hnone.symm.trans hmb'

theorem lasting_of_reach {c₀ : RivalConf} (hok : ∀ c m, ok c m → lasting app d c m)
    (h : (rivals app).Reach (ok · ·) c₀ c) : c₀.world.clock ≤ c.world.clock ∧
      (c.world.store.mailboxes.lookup d = none → c₀.world.store.mailboxes.lookup d = none) := by
  induction h with
  | refl => exact ⟨le_refl _, id⟩
  | tail _ hm hs ih =>
    obtain ⟨hfs, hkeeps⟩ := Bool.and_eq_true_iff.mp (hok _ _ hm)
    have hforward := (Bool.and_eq_true_iff.mp hfs).1
    exact ⟨le_trans ih.1 (clock_le_of_step hforward hs), fun hnone => ih.2 ((of_keeps hkeeps hs).2 hnone)⟩

/-- The mailbox does not expire. -/
theorem live_of_reach (hok : ∀ c m, ok c m → lasting app d c m)
    (hw : w.store.mailboxes.lookup d = none) (h : (rivals app).Reach (ok · ·) (System.init w) c) :
    ∀ mb, c.world.store.mailboxes.lookup d = some mb → c.world.clock < mb.expiresAt := by
  cases h with
  | refl =>
    intro mb hmb
    cases hw.symm.trans hmb
  | tail _ hm hs => exact (of_keeps (Bool.and_eq_true_iff.mp (hok _ _ hm)).2 hs).1

theorem not_storeFailed {ms : List RivalMove} {i : Nat} {p : Proc Rival Eff.Ans Answer}
    (hok : ∀ c m, ok c m → lasting app d c m)
    (h : (rivals app).run (ok · ·) (System.init w) ms = some c) (hi : c.procs[i]? = some p) :
    ¬StoreFailed p.hist := by
  rintro ⟨op, e, hmem, hne⟩
  obtain ⟨h₁, h₂, hhist⟩ := List.append_of_mem hmem
  obtain ⟨ms₁, ch, ms₂, c₁, c₂, k, rfl, -, -, hm, hx, -⟩ := call_of_hist h hi hhist
  obtain ⟨rfl, -⟩ | ⟨ids, -, -, -, -, hap, -⟩ := exec_store_cases hx
  · have hfs := (Bool.and_eq_true_iff.mp (hok _ _ hm)).1
    cases (Bool.and_eq_true_iff.mp hfs).2
  · exact hne _ _ _ _ (Prod.mk.inj hap).1

/-- After a conflict the mailbox is there, and is found to be active. -/
theorem not_conflicted {ms : List RivalMove} {i : Nat} {p : Proc Rival Eff.Ans Answer}
    (hok : ∀ c m, ok c m → lasting app d c m) (hw : w.store.mailboxes.lookup d = none)
    (h : (rivals app).run (ok · ·) (System.init w) ms = some c) (hi : c.procs[i]? = some p) :
    ¬Smtp.Conflicted d p.hist := by
  rintro ⟨h₀, domain, x, e, t, he, hhist⟩
  have hcheck : p.hist = (h₀ ++ [⟨.store (.createMailbox d domain x none none), .error e⟩] ++
      [⟨.now, t⟩]) ++ ⟨.store (.mailboxIsActive d t), .ok false⟩ :: [] := by simpa using hhist
  obtain ⟨ms₁, ch, ms₂, c₁, c₂, k, rfl, h₁, hi₁, -, hx, -⟩ := call_of_hist h hi hcheck
  obtain ⟨ms₃, ch', ms₄, c₃, c₄, k', rfl, h₃, hi₃, hm₃, hx', hs₃, -, h₄⟩ :=
    call_of_hist h₁ hi₁ rfl
  obtain ⟨ms₅, ch'', ms₆, c₅, c₆, k'', rfl, h₅, -, hm₅, hx'', hs₅, -, h₆⟩ :=
    call_of_hist h₃ hi₃ rfl
  have hreach₃ : (rivals app).Reach (ok · ·) c₃ c₁ :=
    (System.Reach.tail .refl hm₃ hs₃).trans (System.Reach.of_run h₄)
  have hreach₅ : (rivals app).Reach (ok · ·) c₅ c₁ :=
    (System.Reach.tail .refl hm₅ hs₅).trans ((System.Reach.of_run h₆).trans hreach₃)
  -- the mailbox is there when it cannot be created, and stays
  have hrow : c₁.world.store.mailboxes.lookup d ≠ none := by
    intro hnone
    refine AList.lookup_eq_none.mp ((lasting_of_reach hok hreach₅).2 hnone) ?_
    exact mem_of_conflict he hx''
  obtain ⟨mb, hmb⟩ := Option.ne_none_iff_exists'.mp hrow
  have hlive := live_of_reach hok hw (System.Reach.of_run h₁) mb hmb
  have hclock := (lasting_of_reach hok hreach₃).1
  rw [← (now_of_exec hx').1] at hclock
  have hactive := active_of_row hmb (hclock.trans_lt hlive)
  cases hactive.symm.trans (active_of_check hx)

theorem expiresAt_of_inRange {cfg : Config} (h : inRange cfg c m) :
    ∃ x, ExpiresAt cfg c.world.clock x := by
  obtain ⟨ttl, httl, h⟩ := (Option.any_eq_true ..).mp h
  obtain ⟨x, hx⟩ := Option.isSome_iff_exists.mp h
  exact ⟨x, ttl, httl, hx⟩

/-- If the mailbox is missing at the start, nothing deletes it or lets it expire and the store does not
fail, all RCPT commands accept it. -/
theorem allAccept_of_run {ms : List RivalMove} (hd : app.config.Catches d)
    (hw : w.store.mailboxes.lookup d = none)
    (h : (rivals app).run (fun c m => lasting app d c m && inRange app.config c m) (System.init w) ms =
      some c) : AllAccept app d c := by
  intro i addr hist rest hi haddr
  have hok : ∀ c m, (lasting app d c m && inRange app.config c m) → lasting app d c m :=
    fun c m h => (Bool.and_eq_true_iff.mp h).1
  have hobeys := rcpt_of_reach (System.Reach.of_run h) _ (List.mem_of_getElem? hi)
  cases rest with
  | ret a =>
    obtain ⟨v, rfl, hv⟩ := hobeys
    rw [haddr] at hv
    cases v with
    | accept a => rw [hv.1]
    | noMailbox => exact (hv.elim (absurd hd) (not_conflicted hok hw h hi)).elim
    | notOurDomain => exact absurd hd hv
    | error => exact absurd hv (not_storeFailed hok h hi)
  | call e k =>
    obtain ⟨hlen, hcall⟩ := hobeys.1
    refine ⟨hlen, ?_⟩
    obtain rfl | ⟨op, rfl, hop⟩ | ⟨rfl, t, ht, hnone⟩ := hcall
    · exact ⟨.answer, by simp [System.step, hi, rivals, exec]⟩
    · exact ⟨.uuids [], by simp [System.step, hi, rivals, exec, hop]⟩
    · obtain ⟨h₁, h₂, hhist⟩ := List.append_of_mem ht
      obtain ⟨ms₁, ch, ms₂, c₁, c₂, k', rfl, -, -, hm, hx, -⟩ := call_of_hist h hi hhist
      obtain ⟨x, hx'⟩ := expiresAt_of_inRange (Bool.and_eq_true_iff.mp hm).2
      rw [← (now_of_exec hx).1] at hx'
      exact absurd hx' (hnone x)

end

/-! ## The race -/

/-- There is one mailbox at most for an address, an RCPT command changes none, and no move gives a
mailbox another expiry or another owner. -/
def KeepsRows (app : AppState) (c : RivalConf) : Prop :=
  (∀ d, HashMap.count (·.address == d) c.world.store.mailboxes ≤ 1) ∧
  ∀ m c', (rivals app).step c m = some c' → ∀ a mb, c.world.store.mailboxes.lookup a = some mb →
    ((actor c m).any Rival.isRcpt → c'.world.store.mailboxes.lookup a = some mb) ∧
    (c'.world.store.mailboxes.lookup a = some mb ∨ c'.world.store.mailboxes.lookup a = none)

theorem keepsRows_of_reach {ok} {w : World} {c : RivalConf} (hw : Named w.store)
    (hc : (rivals app).Reach ok (System.init w) c) : KeepsRows app c := by
  refine ⟨(named_of_reach hw hc).count_le_one, fun m c' hs a mb hmb => ?_⟩
  obtain h | ⟨hnone, -⟩ | ⟨hnot, h⟩ := rival_step hc hs a
  · exact ⟨fun _ => h.trans hmb, .inl (h.trans hmb)⟩
  · cases hnone.symm.trans hmb
  · exact ⟨fun hr => absurd hr hnot, .inr h⟩

/-- RCPT commands that compete with one another, with requests that create or delete mailboxes and
with the cleanup: if the rivals that insert mailboxes are in time, only active mailboxes are accepted;
no mailbox is inserted twice or changed; and if nothing removes the mailbox, all commands accept it. -/
theorem catchAll_race (app : AppState) (w : World) :
    (∀ ms c, (rivals app).run (inTime app.config Rival.inserts · ·) (System.init w) ms = some c →
      AcceptsActive app (inTime app.config Rival.inserts) w ms c) ∧
    (∀ c, Named w.store → (rivals app).Reach (fun _ _ => True) (System.init w) c →
      KeepsRows app c) ∧
    ∀ d ms c, app.config.Catches d → w.store.mailboxes.lookup d = none →
      (rivals app).run (fun c m => lasting app d c m && inRange app.config c m) (System.init w) ms =
        some c → AllAccept app d c :=
  ⟨fun _ _ h => acceptsActive_of_run h, fun _ hw hc => keepsRows_of_reach hw hc,
    fun _ _ _ hd hw h => allAccept_of_run hd hw h⟩

/-- A server with the catch-all on, for mailboxes that live this many seconds. -/
def catchAllServer (ttl : Nat) : AppState :=
  ⟨.refusing [], { Config.default with catchAllEnabled := true, defaultTtl := ttl }, false⟩

/-- The command has accepted the recipient `d`. -/
def hasAccepted (d : String) (i : Nat) (c : RivalConf) : Bool :=
  match c.procs[i]? with
  | some ⟨.rcpt _, _, .ret (.recipient (.accept a))⟩ => a == d
  | _ => false

theorem exists_of_hasAccepted {d : String} {i : Nat} {c : RivalConf} (h : hasAccepted d i c) :
    ∃ addr hist, c.procs[i]? = some ⟨.rcpt addr, hist, .ret (.recipient (.accept d))⟩ := by
  unfold hasAccepted at h
  split at h
  · next hi => exact ⟨_, _, eq_of_beq h ▸ hi⟩
  · cases h

/-- The command for `addr` has panicked. -/
def hasPanicked (addr : String) (i : Nat) (c : RivalConf) : Bool :=
  match c.procs[i]? with
  | some ⟨.rcpt a, _, .call .panic _⟩ => a == addr
  | _ => false

theorem exists_of_hasPanicked {addr : String} {i : Nat} {c : RivalConf} (h : hasPanicked addr i c) :
    ∃ hist k, c.procs[i]? = some ⟨.rcpt addr, hist, .call .panic k⟩ := by
  unfold hasPanicked at h
  split at h
  · next hi => exact ⟨_, _, eq_of_beq h ▸ hi⟩
  · cases h

/-- Two commands that both find the mailbox missing. One creates it, and the other finds it when it
checks again. -/
def twoRcpts : List RivalMove :=
  [.spawn (.rcpt "box@example.com"), .spawn (.rcpt "Box+tag@example.com"), .act 0 .answer,
    .act 1 .answer, .act 0 (.uuids []), .act 1 (.uuids []), .act 0 .answer, .act 1 .answer,
    .act 0 (.uuids []), .act 1 (.uuids []), .act 1 .answer, .act 1 (.uuids [])]

theorem catches_box (ttl : Nat) : (catchAllServer ttl).config.Catches "box@example.com" := by
  refine ⟨rfl, "box", "example.com", by decide +kernel, by decide, ?_, ?_⟩
  · show Config.acceptsDomain .default "example.com"
    decide
  · show ¬Config.isReservedLocalPart .default "box"
    decide

theorem catchAll_race_two : ∃ ms c,
    (rivals (catchAllServer 3600)).run (inTime (catchAllServer 3600).config Rival.inserts · ·)
      (System.init (World.start 0)) ms = some c ∧
    hasAccepted "box@example.com" 0 c ∧ hasAccepted "box@example.com" 1 c ∧
    AcceptsActive (catchAllServer 3600) (inTime (catchAllServer 3600).config Rival.inserts)
      (World.start 0) ms c ∧
    KeepsRows (catchAllServer 3600) c ∧ AllAccept (catchAllServer 3600) "box@example.com" c := by
  have hrun : ((rivals (catchAllServer 3600)).run (fun c m =>
      inTime (catchAllServer 3600).config Rival.inserts c m ∧
        (lasting (catchAllServer 3600) "box@example.com" c m &&
          inRange (catchAllServer 3600).config c m))
      (System.init (World.start 0)) twoRcpts).any fun c =>
        hasAccepted "box@example.com" 0 c && hasAccepted "box@example.com" 1 c := by
    decide +kernel
  obtain ⟨c, hc, hP⟩ := (Option.any_eq_true ..).mp hrun
  obtain ⟨h₀, h₁⟩ := Bool.and_eq_true_iff.mp hP
  have hreach := (System.Reach.of_run hc).mono (fun _ _ _ => trivial)
  have hintime := System.run_mono hc fun _ _ h => h.1
  have hnamed : Named (World.start 0).store := by
    intro a mb hmb
    simp [World.start, Inner.empty] at hmb
  obtain ⟨hactive, hkeeps, haccept⟩ := catchAll_race (catchAllServer 3600) (World.start 0)
  exact ⟨twoRcpts, c, hintime, h₀, h₁, hactive _ _ hintime, hkeeps c hnamed hreach,
    haccept _ _ _ (catches_box 3600) rfl (System.run_mono hc fun _ _ h => h.2)⟩

/-- A request for the mailbox has read the clock, and inserts the mailbox when it has expired. The
command has read the clock before that, and checks the mailbox as of that time. -/
def staleMoves : List RivalMove :=
  .spawn (.post 0 [] (some ⟨some "box", some "example.com"⟩)) ::
    [Choice.answer, .verdict true, .answer, .bytes (List.replicate 32 0)].map (.act 0) ++
    [.env (.clock (Duration.seconds 3)), .spawn (.rcpt "box@example.com"), .act 1 .answer,
      .env (.clock (Duration.seconds 6)), .act 0 (.uuids []), .act 1 (.uuids [])]

/-- The command finds the mailbox missing, and `default_ttl` is more than a duration can be. -/
def endlessMoves : List RivalMove :=
  [.spawn (.rcpt "box@example.com"), .act 0 .answer, .act 0 (.uuids [])]

/-- A mailbox can be accepted that was not active at any instant of the command, and a command can
come to no end. -/
theorem not_catchAll_race :
    (¬∀ (app : AppState) (w : World) ms c, 0 < app.config.defaultTtl → Named w.store →
      (rivals app).run (fun c m => inTime app.config Rival.isRcpt c m && forward c m)
        (System.init w) ms = some c →
      AcceptsActive app (fun c m => inTime app.config Rival.isRcpt c m && forward c m) w ms c) ∧
    ¬∀ (app : AppState) (w : World) d ms c, 0 < app.config.defaultTtl → app.config.Catches d →
      w.store.mailboxes.lookup d = none →
      (rivals app).run (fun c m => inTime app.config Rival.isRcpt c m && lasting app d c m)
        (System.init w) ms = some c → AllAccept app d c := by
  constructor
  · intro H
    have hrun : ((rivals (catchAllServer 5)).run
        (fun c m => inTime (catchAllServer 5).config Rival.isRcpt c m && forward c m)
        (System.init (World.start 0)) staleMoves).any (hasAccepted "box@example.com" 1) := by
      decide +kernel
    have hnever : ∀ n < 12, ((rivals (catchAllServer 5)).run
        (fun c m => inTime (catchAllServer 5).config Rival.isRcpt c m && forward c m)
        (System.init (World.start 0)) (staleMoves.take n)).all fun c =>
          !mailboxIsActive c.world.store "box@example.com" c.world.clock := by
      decide +kernel
    obtain ⟨c, hc, hP⟩ := (Option.any_eq_true ..).mp hrun
    obtain ⟨addr, hist, hi⟩ := exists_of_hasAccepted hP
    have hnamed : Named (World.start 0).store := by
      intro a mb hmb
      simp [World.start, Inner.empty] at hmb
    obtain ⟨ms₁, ms₂, c₁, hms, hc₁, -, hactive⟩ :=
      H (catchAllServer 5) (World.start 0) staleMoves c (by decide) hnamed hc 1 addr hist _ hi
    have htake : staleMoves.take ms₁.length = ms₁ := by rw [hms, List.take_left]
    have hlen : ms₁.length < 12 := by
      have hle := congrArg List.length hms
      rw [List.length_append] at hle
      have hstale : staleMoves.length = 11 := rfl
      omega
    have hnot := hnever ms₁.length hlen
    rw [htake, hc₁, Option.all_some, hactive] at hnot
    cases hnot
  · intro H
    have hrun : ((rivals (catchAllServer (2 ^ 62))).run (fun c m =>
        inTime (catchAllServer (2 ^ 62)).config Rival.isRcpt c m &&
          lasting (catchAllServer (2 ^ 62)) "box@example.com" c m)
        (System.init (World.start 0)) endlessMoves).any (hasPanicked "box@example.com" 0) := by
      decide +kernel
    obtain ⟨c, hc, hP⟩ := (Option.any_eq_true ..).mp hrun
    obtain ⟨hist, k, hi⟩ := exists_of_hasPanicked hP
    obtain ⟨-, ch, hstep⟩ := H (catchAllServer (2 ^ 62)) (World.start 0) "box@example.com" endlessMoves
      c (by decide) (catches_box _) rfl hc 0 _ hist _ hi (by decide +kernel)
    simp [System.step, hi, rivals, exec] at hstep

end AnonyMail
