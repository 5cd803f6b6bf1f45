import AnonyMail.Verify.OwnerGate

/-! # The cap on active mailboxes of a device

`create` counts the active mailboxes of the device and then inserts a mailbox, in two store calls.
The cap holds as long as no other mailbox of the device comes in between, and as long as no mailbox
that has expired comes back: `extend` does not count. `CapInv` carries both: it says of every request
that has counted and has yet to insert that the number has not grown since. -/

namespace AnonyMail

open Calls MemoryStore

variable {app : AppState} {device : String} {cap : Nat} {c c' : ServerConf} {m : ServerMove}

/-! ## Counting -/

section
variable {q : MailboxQuotas} {s : Inner} {now t : DateTime} {ids : List Uuid}

def activeOf (device : String) (t : DateTime) (mb : Mailbox) : Bool :=
  mb.creatorDeviceHash == some device && decide (mb.expiresAt > t)

theorem countActive_eq : countActiveMailboxesByDevice s device t =
    HashMap.count (activeOf device t) s.mailboxes := rfl

theorem countActive_antitone {t' : DateTime} (h : t ≤ t') :
    countActiveMailboxesByDevice s device t' ≤ countActiveMailboxesByDevice s device t := by
  refine HashMap.count_mono fun mb hmb => ?_
  simp only [Bool.and_eq_true, decide_eq_true_eq] at hmb ⊢
  exact ⟨hmb.1, lt_of_le_of_lt h hmb.2⟩

/-- The call adds a mailbox of the device. -/
def StoreOp.insertsFor (s : Inner) (device : String) : StoreOp → Bool
  | .createMailbox a _ _ _ dev => dev == some device && (s.mailboxes.lookup a).isNone
  | _ => false

/-- The call gives a mailbox of the device that has expired at the time `t` a new expiry. -/
def StoreOp.revivesFor (s : Inner) (device : String) (t : DateTime) : StoreOp → Bool
  | .extendMailbox a _ => (s.mailboxes.lookup a).any fun mb =>
    mb.creatorDeviceHash == some device && decide (mb.expiresAt ≤ t)
  | _ => false

/-- All a call can do to the number of active mailboxes of a device. -/
theorem countActive_apply (op : StoreOp) (device : String) (t : DateTime) :
    countActiveMailboxesByDevice (op.apply q s now ids).2 device t ≤
        countActiveMailboxesByDevice s device t ∨
      (op.insertsFor s device ∨ op.revivesFor s device t) ∧
        countActiveMailboxesByDevice (op.apply q s now ids).2 device t ≤
          countActiveMailboxesByDevice s device t + 1 := by
  simp only [countActive_eq]
  cases op with
  | createMailbox a d x o dev =>
    simp only [StoreOp.apply, createMailbox]
    split
    · exact .inl (le_refl _)
    · next ha =>
      by_cases hdev : dev = some device
      · refine .inr ⟨.inl ?_, HashMap.count_insert_le ..⟩
        simp [StoreOp.insertsFor, hdev, AList.lookup_eq_none.mpr ha]
      · left
        rw [HashMap.count_insert, if_neg (by simp [activeOf, hdev]), Nat.add_zero]
        exact HashMap.count_erase_le ..
  | extendMailbox a x =>
    simp only [StoreOp.apply, extendMailbox]
    split
    · next mb hmb =>
      by_cases hact : activeOf device t { mb with expiresAt := x } → activeOf device t mb
      · exact .inl (HashMap.count_insert_of_imp hmb hact)
      · refine .inr ⟨.inr ?_, HashMap.count_insert_le ..⟩
        simp only [activeOf, Bool.and_eq_true, decide_eq_true_eq, not_forall] at hact
        obtain ⟨⟨hdev, -⟩, hnot⟩ := hact
        simpa [StoreOp.revivesFor, hmb, hdev] using hnot
    · exact .inl (le_refl _)
  | rotateOwnerToken a h =>
    simp only [StoreOp.apply, rotateOwnerToken]
    split
    · next mb hmb => exact .inl (HashMap.count_insert_of_imp hmb fun h => h)
    · exact .inl (le_refl _)
  | deleteMailbox a => exact .inl (HashMap.count_erase_le ..)
  | purgeExpired t' => exact .inl (HashMap.count_eraseAll_le ..)
  | addSubscription | createCustomDomain | recordCustomDomainCheck | advanceAttestedDeviceCounter =>
    simp only [StoreOp.apply, addSubscription, createCustomDomain, recordCustomDomainCheck,
      advanceAttestedDeviceCounter]
    repeat' split
    all_goals exact .inl (le_refl _)
  | _ => exact .inl (le_refl _)

end

/-! ## Requests that have counted -/

def isCreate : Task → Bool
  | .http (.createAddress ..) => true
  | _ => false

/-- The number that a call has found. -/
def counted (device : String) : Event Eff.Ans → Option (DateTime × Nat)
  | ⟨.store (.countActiveMailboxesByDevice dev t), .ok n⟩ => if dev = device then some (t, n) else none
  | _ => none

def hasCreated : Event Eff.Ans → Bool
  | ⟨.store (.createMailbox ..), .ok _⟩ => true
  | _ => false

/-- A request that has counted the mailboxes of the device and has yet to create one. -/
def isCounting (device : String) (p : Proc Task Eff.Ans Outcome) : Bool :=
  isCreate p.tag && p.hist.any (fun ev => (counted device ev).isSome) && !p.hist.any hasCreated &&
    !isOver p

/-- Tokens of the device are of a tier with this cap. -/
def Task.KeepsTier (app : AppState) (device : String) (cap : Nat) : Task → Prop
  | .http (.createAddress _ hs _) => ∀ raw key now claims, Api.rawClientToken hs = some raw →
    app.config.tokenSigningKey = some key →
    app.deps.jwtDecode key raw Api.clientTokenLeeway now = .ok claims →
    claims.kid.map (Api.hashToken app.deps) = some device →
    (app.config.tierPolicy claims.tier).activeMailboxes = cap
  | _ => True

/-- What the steps of a run must keep for the cap to hold. -/
structure CapStep (device : String) (cap : Nat) (c : ServerConf) (m : ServerMove) : Prop where
  clock : ∀ t, m = .env (.clock t) → c.world.clock ≤ t
  inserts : ∀ i ch t hist op, m = .act i ch → commit c m = some (t, hist, op) →
    op.insertsFor c.world.store device → ∀ j p, j ≠ i → c.procs[j]? = some p → ¬isCounting device p
  extending : ∀ t hist a x, commit c m = some (t, hist, .extendMailbox a x) →
    ∀ p ∈ c.procs, ¬isCounting device p
  revives : ∀ t hist op, commit c m = some (t, hist, op) →
    op.revivesFor c.world.store device c.world.clock →
    countActiveMailboxesByDevice c.world.store device c.world.clock < cap

structure CapInv (device : String) (cap : Nat) (c : ServerConf) : Prop where
  le : countActiveMailboxesByDevice c.world.store device c.world.clock ≤ cap
  counting : ∀ p ∈ c.procs, isCounting device p → ∀ ev ∈ p.hist, ∀ t n,
    counted device ev = some (t, n) →
    countActiveMailboxesByDevice c.world.store device (max t c.world.clock) ≤ n
  now : ∀ p ∈ c.procs, ∀ t, ⟨.now, t⟩ ∈ p.hist → t ≤ c.world.clock

/-! ## One call -/

theorem counted_eq_some {ev : Event Eff.Ans} {t : DateTime} {n : Nat}
    (h : counted device ev = some (t, n)) :
    ev = ⟨.store (.countActiveMailboxesByDevice device t), .ok n⟩ := by
  unfold counted at h
  split at h
  · obtain ⟨rfl, heq⟩ := Option.ite_none_right_eq_some.mp h
    cases heq
    rfl
  · cases h

theorem isCounting_iff {p : Proc Task Eff.Ans Outcome} : isCounting device p ↔
    isCreate p.tag ∧ (∃ ev ∈ p.hist, (counted device ev).isSome) ∧
      (∀ ev ∈ p.hist, ¬hasCreated ev) ∧ ¬isOver p := by
  simp [isCounting, and_assoc]

theorem not_isOver_call {e : Eff} {k : e.Ans → Run Outcome} (hne : e ≠ .panic) :
    ¬isOver ⟨t, hist, .call e k⟩ := by
  unfold isOver
  split
  · next heq => cases heq
  · next heq => cases heq; exact absurd rfl hne
  · exact Bool.false_ne_true

/-- The request was counting before its last call, if it has counted before it. -/
theorem isCounting_of_act {e : Eff} {k : e.Ans → Run Outcome} {r : e.Ans} {ev : Event Eff.Ans}
    (h : isCounting device ⟨t, hist ++ [⟨e, r⟩], k r⟩) (hev : ev ∈ hist)
    (hcount : (counted device ev).isSome) (hne : e ≠ .panic) :
    isCounting device ⟨t, hist, .call e k⟩ := by
  obtain ⟨htag, -, hcre, -⟩ := isCounting_iff.mp h
  refine isCounting_iff.mpr ⟨htag, ⟨ev, hev, hcount⟩, fun ev' hev' => ?_, ?_⟩
  · exact hcre ev' (List.mem_append_left _ hev')
  · exact not_isOver_call hne

theorem exec_ne_panic {e : Eff} {r : e.Ans} (h : exec app w e ch = some (r, w')) : e ≠ .panic := by
  rintro rfl
  exact r.elim

/-- A client token that was accepted was decoded with the key at some time. -/
theorem decoded_of_hist {start : World} (h : (server app).Reach ok (System.init start) c)
    (hp : p ∈ c.procs) (hev : ⟨.jwtDecode key raw leeway, .ok claims⟩ ∈ p.hist) :
    ∃ now, app.deps.jwtDecode key raw leeway now = .ok claims := by
  obtain ⟨i, hi⟩ := List.getElem?_of_mem hp
  obtain ⟨e, he, -, -, hev⟩ := h.mem_log_of_hist hi hev
  obtain ⟨l₁, l₂, hlog⟩ := List.append_of_mem he
  obtain ⟨_, _, ch, _, _, -, -, -, -, -, -, hx, -⟩ := h.split_log hlog
  obtain ⟨pid, tag, before, call, answer, after⟩ := e
  cases hev
  exact ⟨before.clock, (Prod.mk.inj (Option.some.inj hx)).1⟩

/-- When a request is about to insert a mailbox of the device, there is room for one. -/
theorem CapInv.room {start : World} (hinv : CapInv device cap c) (hcap : 0 < cap)
    (henf : app.config.entitlementsEnforced) (hc : (server app).Reach ok (System.init start) c)
    (htier : ∀ p ∈ c.procs, p.tag.KeepsTier app device cap)
    {k : (Eff.store op).Ans → Run Outcome} (hp : ⟨t, hist, .call (.store op) k⟩ ∈ c.procs)
    (hop : op.insertsFor c.world.store device) :
    countActiveMailboxesByDevice c.world.store device c.world.clock < cap := by
  cases op with
  | createMailbox a d x owner dev =>
    obtain ⟨hdev, -⟩ := Bool.and_eq_true_iff.mp hop
    cases eq_of_beq hdev
    obtain ⟨peer, hs, body, rfl, hreq⟩ | ⟨_, _, _, -, -, -, ⟨⟩⟩ := (task_lawful hc _ hp).1.2.cases
    obtain ⟨client, hclient, hkid, hcount, -⟩ := hreq.client
    cases client with
    | none => cases hkid
    | some claims =>
      obtain ⟨raw, key, hraw, hkey, hmem⟩ := hclient claims rfl
      obtain ⟨now, hdec⟩ := decoded_of_hist hc hp hmem
      have hpol : Api.Addresses.policyOf app (some claims) =
          some (app.config.tierPolicy claims.tier) := by
        simp [Api.Addresses.policyOf, henf]
      have hN := htier _ hp raw key now claims hraw hkey hdec hkid.symm
      obtain ⟨t, n, hnow, hev, hlt⟩ := hcount _ device hpol rfl (by rw [hN]; exact hcap)
      have hcounted : counted device ⟨.store (.countActiveMailboxesByDevice device t), .ok n⟩ =
          some (t, n) := by
        simp [counted]
      have hcounting : isCounting device ⟨.http (.createAddress peer hs body), hist, .call _ k⟩ := by
        refine isCounting_iff.mpr ⟨rfl, ⟨_, hev, by rw [hcounted]; rfl⟩, fun ev hev' hcre => ?_,
          Bool.false_ne_true⟩
        unfold hasCreated at hcre
        split at hcre
        · exact hreq.uncreated _ _ _ _ _ _ hev'
        · cases hcre
      have hle := hinv.counting _ hp hcounting _ hev t n hcounted
      rw [max_eq_right (hinv.now _ hp t hnow)] at hle
      omega
  | _ => cases hop

/-- The number that a request has just counted. -/
theorem counted_exec {e : Eff} {r : e.Ans} {t : DateTime} {n : Nat}
    (hx : exec app w e ch = some (r, w')) (hcount : counted device ⟨e, r⟩ = some (t, n)) :
    n = countActiveMailboxesByDevice w.store device t ∧ w'.store = w.store := by
  cases counted_eq_some hcount
  obtain ⟨-, ⟨⟩, -⟩ | ⟨ids, -, -, -, -, ha, -⟩ := exec_store_cases hx
  simp only [StoreOp.apply, Prod.mk.injEq, Except.ok.injEq] at ha
  exact ⟨ha.1.symm, ha.2.symm⟩

/-- Adding a mailbox of the device is answered with the mailbox. -/
theorem hasCreated_of_inserts {op : StoreOp} {s : Inner} (hop : op.insertsFor s device) :
    hasCreated ⟨.store op, (op.apply q s now ids).1⟩ := by
  cases op with
  | createMailbox a d x owner dev =>
    have ha : a ∉ s.mailboxes := by
      rw [← AList.lookup_eq_none]
      simpa using (Bool.and_eq_true_iff.mp hop).2
    simp [StoreOp.apply, createMailbox, ha, hasCreated]
  | _ => cases hop

/-- An owner-gated request is not a request for a new mailbox. -/
theorem not_isCreate_of_gated {hist : Hist} (hop : op.gated = some a)
    (hlaw : Protocol app t hist (.store op)) : ¬isCreate t := by
  obtain ⟨hs, mb, ht, -⟩ := hlaw.1 a hop
  intro hcre
  unfold isCreate at hcre
  split at hcre
  · cases ht
  · cases hcre

theorem exists_of_revives {op : StoreOp} (hop : op.revivesFor s device u) :
    ∃ a x, op = .extendMailbox a x := by
  cases op with
  | extendMailbox a x => exact ⟨a, x, rfl⟩
  | _ => cases hop

theorem CapInv.act {start : World} {i : Nat} {ch : Choice} {e : Eff} {k : e.Ans → Run Outcome}
    {r : e.Ans} {w' : World} (hinv : CapInv device cap c) (hcap : 0 < cap)
    (henf : app.config.entitlementsEnforced) (hc : (server app).Reach ok (System.init start) c)
    (htier : ∀ p ∈ c.procs, p.tag.KeepsTier app device cap)
    (hok : CapStep device cap c (.act i ch)) (hi : c.procs[i]? = some ⟨t, hist, .call e k⟩)
    (hx : exec app c.world e ch = some (r, w')) :
    countActiveMailboxesByDevice w'.store device c.world.clock ≤ cap ∧
    ∀ (j : Nat) (p : Proc Task Eff.Ans Outcome),
      (c.procs.set i ⟨t, hist ++ [⟨e, r⟩], k r⟩)[j]? = some p → isCounting device p →
      ∀ ev ∈ p.hist, ∀ u n, counted device ev = some (u, n) →
        countActiveMailboxesByDevice w'.store device (max u c.world.clock) ≤ n := by
  have hmem := List.mem_of_getElem? hi
  -- what a request had counted before the call
  have hold : ∀ (j : Nat) (p : Proc Task Eff.Ans Outcome),
      (c.procs.set i ⟨t, hist ++ [⟨e, r⟩], k r⟩)[j]? = some p → isCounting device p →
      ∀ ev ∈ p.hist, ∀ u n, counted device ev = some (u, n) →
        (j ≠ i ∧ c.procs[j]? = some p ∧ countActiveMailboxesByDevice c.world.store device
          (max u c.world.clock) ≤ n) ∨
        (isCounting device ⟨t, hist ++ [⟨e, r⟩], k r⟩ ∧ (countActiveMailboxesByDevice c.world.store
          device (max u c.world.clock) ≤ n)) := by
    intro j p hj hp ev hev u n hcount
    obtain ⟨-, rfl⟩ | ⟨hji, hj⟩ := System.getElem?_act hj
    · refine .inr ⟨hp, ?_⟩
      rcases List.mem_append.mp hev with hev | hev
      · have hbefore := isCounting_of_act hp hev (by rw [hcount]; rfl) (exec_ne_panic hx)
        exact hinv.counting _ hmem hbefore ev hev u n hcount
      · cases List.mem_singleton.mp hev
        rw [(counted_exec hx hcount).1]
        exact countActive_antitone (le_max_left ..)
    · exact .inl ⟨hji, hj, hinv.counting p (List.mem_of_getElem? hj) hp ev hev u n hcount⟩
  by_cases hsame : w'.store = c.world.store
  · rw [hsame]
    refine ⟨hinv.le, fun j p hj hp ev hev u n hcount => ?_⟩
    exact (hold j p hj hp ev hev u n hcount).elim (·.2.2) (·.2)
  cases e with
  | store op =>
    obtain ⟨-, -, rfl⟩ | ⟨ids, rfl, -, -, -, ha, -⟩ := exec_store_cases hx
    · exact absurd rfl hsame
    have hm : commit c (.act i (.uuids ids)) = some (t, hist, op) := by simp [commit, hi]
    obtain ⟨rfl, hstore⟩ := Prod.ext_iff.mp ha
    rw [show w'.store = _ from hstore.symm]
    constructor
    · obtain h | ⟨hop | hop, h⟩ := countActive_apply op device c.world.clock
      · exact h.trans hinv.le
      · exact h.trans (hinv.room hcap henf hc htier hmem hop)
      · exact h.trans (hok.revives _ _ _ hm hop)
    · intro j p hj hp ev hev u n hcount
      have hle := hold j p hj hp ev hev u n hcount
      obtain h | ⟨hop | hop, -⟩ := countActive_apply op device (max u c.world.clock)
      · exact h.trans (hle.elim (·.2.2) (·.2))
      · obtain ⟨hji, hj, -⟩ | ⟨hself, -⟩ := hle
        · exact absurd hp (hok.inserts _ _ _ _ _ rfl hm hop j p hji hj)
        · have hnone := (isCounting_iff.mp hself).2.2.1 _
            (List.mem_append_right _ (List.mem_singleton_self _))
          exact absurd (hasCreated_of_inserts hop) hnone
      · obtain ⟨a, x, rfl⟩ := exists_of_revives hop
        obtain ⟨hji, hj, -⟩ | ⟨hself, -⟩ := hle
        · exact absurd hp (hok.extending _ _ _ _ hm p (List.mem_of_getElem? hj))
        · exact absurd (isCounting_iff.mp hself).1
            (not_isCreate_of_gated rfl (task_lawful hc _ hmem).1)
  | _ => exact absurd (exec_store_eq hx (by simp)) hsame

theorem CapInv.step {start : World} (hinv : CapInv device cap c) (hcap : 0 < cap)
    (henf : app.config.entitlementsEnforced) (hc : (server app).Reach ok (System.init start) c)
    (htier : ∀ p ∈ c.procs, p.tag.KeepsTier app device cap)
    (hok : CapStep device cap c m) (hs : (server app).step c m = some c') :
    CapInv device cap c' := by
  obtain ⟨t, rfl, rfl⟩ | ⟨i, ch, t, hist, e, k, r, w, rfl, hi, hx, rfl⟩ | ⟨x, w, rfl, hw, rfl⟩ :=
    System.step_cases hs
  · refine ⟨hinv.le, fun p hp => ?_, fun p hp => ?_⟩ <;>
      rcases System.mem_spawn hp with hp | rfl
    · exact hinv.counting p hp
    · exact fun _ ev hev => absurd hev List.not_mem_nil
    · exact hinv.now p hp
    · exact fun _ hev => absurd hev List.not_mem_nil
  · have hclock : w.clock = c.world.clock := (exec_clocks_eq hx).1
    obtain ⟨hle, hcounting⟩ := hinv.act hcap henf hc htier hok hi hx
    rw [← hclock] at hle hcounting
    refine ⟨hle, fun p hp => ?_, fun p hp u hu => ?_⟩
    · obtain ⟨j, hj⟩ := List.getElem?_of_mem hp
      exact hcounting j p hj
    · rw [hclock]
      rcases System.mem_act hp with hp | rfl
      · exact hinv.now p hp u hu
      · rcases List.mem_append.mp hu with hu | hu
        · exact hinv.now _ (List.mem_of_getElem? hi) u hu
        · cases List.mem_singleton.mp hu
          cases hx
          exact le_refl _
  · cases hw
    cases x with
    | clock t =>
      have hle := hok.clock t rfl
      refine ⟨(countActive_antitone hle).trans hinv.le, fun p hp hcnt ev hev u n hcount => ?_,
        fun p hp u hu => (hinv.now p hp u hu).trans hle⟩
      refine le_trans (countActive_antitone ?_) (hinv.counting p hp hcnt ev hev u n hcount)
      exact max_le (le_max_left ..) (hle.trans (le_max_right ..))
    | instant n => exact ⟨hinv.le, hinv.counting, hinv.now⟩

theorem CapInv.init (start : DateTime) : CapInv device cap (System.init (World.start start)) :=
  ⟨Nat.zero_le _, by simp [System.init], by simp [System.init]⟩

/-! ## Requests that overlap -/

/-- The headers carry an attested token of the device and of the tier, and no other. -/
def CarriesToken (app : AppState) (device : String) (tier : Tier) (hs : Api.HeaderMap) : Prop :=
  ∃ raw key, Api.rawClientToken hs = some raw ∧ app.config.tokenSigningKey = some key ∧
    ∀ now claims, app.deps.jwtDecode key raw Api.clientTokenLeeway now = .ok claims →
      claims.isAttested ∧ claims.kid.map (Api.hashToken app.deps) = some device ∧ claims.tier = tier

theorem CarriesToken.keepsTier {tier : Tier} {hs : Api.HeaderMap}
    (h : CarriesToken app device tier hs) :
    Task.KeepsTier app device (app.config.tierPolicy tier).activeMailboxes
      (.http (.createAddress peer hs body)) := by
  obtain ⟨raw, key, hraw, hkey, hdec⟩ := h
  intro raw' key' now claims hraw' hkey' hok _
  cases hraw.symm.trans hraw'
  cases hkey.symm.trans hkey'
  rw [(hdec now claims hok).2.2]

/-- Requests for new mailboxes with tokens of one device and tier are started, and time passes. -/
structure PostRun (app : AppState) (device : String) (tier : Tier) (c : ServerConf)
    (m : ServerMove) : Prop where
  spawn : ∀ t, m = .spawn t →
    ∃ peer hs body, t = .http (.createAddress peer hs body) ∧ CarriesToken app device tier hs
  clock : ∀ t, m = .env (.clock t) → c.world.clock ≤ t

/-- When a mailbox of the device is added, no other request has counted and has yet to add one. -/
def insertsAlone (device : String) (c : ServerConf) (m : ServerMove) : Bool :=
  match m, commit c m with
  | .act i _, some (_, _, op) => !op.insertsFor c.world.store device ||
    c.procs.zipIdx.all fun (p, j) => j == i || !isCounting device p
  | _, _ => true

theorem not_isCounting_of_insertsAlone {i j : Nat} {ch : Choice}
    (hok : insertsAlone device c (.act i ch)) (hm : commit c (.act i ch) = some (t, hist, op))
    (hop : op.insertsFor c.world.store device) (hji : j ≠ i) (hj : c.procs[j]? = some p) :
    ¬isCounting device p := by
  simp only [insertsAlone, hm, hop, Bool.not_true, Bool.false_or, List.all_eq_true,
    Bool.or_eq_true, beq_iff_eq] at hok
  have h := hok (p, j) (List.mem_zipIdx_iff_getElem?.mpr hj)
  simpa [hji] using h

/-- Overlapping requests keep to the cap if none of them inserts while another one relies on the
number that it has counted. -/
theorem active_le_of_insertsAlone {tier : Tier} {start : DateTime}
    (henf : app.config.entitlementsEnforced)
    (hcap : 0 < (app.config.tierPolicy tier).activeMailboxes)
    (h : (server app).Reach (fun c m => PostRun app device tier c m ∧ insertsAlone device c m)
      (System.init (World.start start)) c) :
    countActiveMailboxesByDevice c.world.store device c.world.clock ≤
      (app.config.tierPolicy tier).activeMailboxes := by
  refine CapInv.le (h.invariant (CapInv.init start) fun {c c' m} hc hinv hok hs => ?_)
  have htags : ∀ p ∈ c.procs, ∃ peer hs body,
      p.tag = .http (.createAddress peer hs body) ∧ CarriesToken app device tier hs :=
    hc.tags fun c t hok => hok.1.spawn t rfl
  refine hinv.step hcap henf hc (fun p hp => ?_) ⟨hok.1.clock, ?_, ?_, ?_⟩ hs
  · obtain ⟨peer, hs, body, ht, htok⟩ := htags p hp
    rw [ht]
    exact htok.keepsTier
  · rintro i ch t hist op rfl hm hop j p hji hj
    exact not_isCounting_of_insertsAlone hok.2 hm hop hji hj
  all_goals
    -- nobody extends a mailbox
    have hno : ∀ t hist a x, commit c m ≠ some (t, hist, .extendMailbox a x) := by
      intro t hist a x hm
      obtain ⟨i, ids, k, -, hi⟩ := mem_of_commit hm
      have hmem := List.mem_of_getElem? hi
      obtain ⟨peer, hs, body, rfl, -⟩ := htags _ hmem
      exact not_isCreate_of_gated rfl (task_lawful hc _ hmem).1 rfl
  · exact fun t hist a x hm => absurd hm (hno t hist a x)
  · intro t hist op hm hop
    obtain ⟨a, x, rfl⟩ := exists_of_revives hop
    exact absurd hm (hno t hist a x)

/-! A server with a cap of one, and a device with a token for twelve hours. -/

def signingKey : List UInt8 := List.replicate 32 107

def deviceToken : String :=
  "eyJ0eXAiOiJKV1QiLCJhbGciOiJIUzI1NiJ9." ++
  "eyJraW5kIjoiaW9zIiwia2lkIjoiYTJWNSIsInRpZXIiOiJmcmVlIiwiaWF0IjowLCJleHAiOjQzMjAwfQ." ++
  "uOjSrMNpYI5CpGyKWf0N0F6yNFT2V570VdFUUwYuQzk"

def deviceClaims : ClientClaims := ⟨kindIos, some "a2V5", .free, 0, 43200⟩

def deviceServer : AppState where
  deps := { Deps.refusing ((Str.asBytes "a2V5",
      [174, 219, 206, 206, 52, 158, 235, 4, 139, 207, 25, 180, 166, 172, 142, 116, 124, 210, 239,
        168, 82, 189, 162, 121, 58, 238, 201, 192, 53, 125, 189, 148]) :: ownerDigests) with
    jwtDecode := fun key token leeway now =>
      if key = signingKey ∧ token = deviceToken then
        if deviceClaims.exp + leeway < now.timestamp then .error .expiredSignature
        else .ok deviceClaims
      else .error .other }
  config := { Config.default with
    entitlementsEnforced := true
    tokenSigningKey := some signingKey
    freeTier := ⟨1, 86400, false, 1, false⟩ }
  pro := false

def deviceHash : String := Api.hashToken deviceServer.deps "a2V5"

def deviceHeaders : Api.HeaderMap :=
  [("x-client-token", Str.asBytes deviceToken), ("authorization", Str.asBytes ("Bearer " ++ ownerToken))]

theorem rawClientToken_deviceHeaders : Api.rawClientToken deviceHeaders = some deviceToken := by
  decide +kernel

theorem carriesToken_deviceHeaders : CarriesToken deviceServer deviceHash .free deviceHeaders := by
  refine ⟨deviceToken, signingKey, rawClientToken_deviceHeaders, rfl, fun now claims h => ?_⟩
  have hdec : (if deviceClaims.exp + (Api.clientTokenLeeway : Int) < now.timestamp then
      Except.error JwtError.expiredSignature else .ok deviceClaims) = .ok claims := by
    simpa [deviceServer] using h
  split at hdec
  · cases hdec
  · cases hdec
    exact ⟨by decide, rfl, rfl⟩

/-- A request of the device for a generated local part, up to the number of active mailboxes. -/
def devicePost (i : Nat) : List ServerMove :=
  .spawn (.http (.createAddress 0 deviceHeaders none)) :: acts i [.answer, .answer, .uuids []]

/-- The rest of the request, with these random bytes and local part. -/
def deviceInsert (i : Nat) (b : UInt8) (n : Nat) : List ServerMove :=
  acts i ([.answer, .verdict true, .answer, .bytes (List.replicate 32 b)] ++
    List.replicate 10 (.index n) ++ [.uuids []])

/-- The headers of a request that creates, extends, rotates or deletes a mailbox. -/
def Task.mailboxHeaders : Task → Option Api.HeaderMap
  | .http (.createAddress _ hs _) | .http (.extendAddress _ hs) | .http (.rotateAddress _ hs)
  | .http (.deleteAddress _ hs) => some hs
  | _ => none

/-- The device makes its requests, the server cleans up, and time passes. -/
def deviceMoves (c : ServerConf) : ServerMove → Bool
  | .spawn .cleanup => true
  | .spawn t => t.mailboxHeaders.any (· == deviceHeaders)
  | .env (.clock t) => decide (c.world.clock ≤ t)
  | _ => true

theorem postRun_of_deviceMoves (h : deviceMoves c m)
    (hcreate : ∀ t, m = .spawn t → isCreate t) : PostRun deviceServer deviceHash .free c m := by
  refine ⟨fun t ht => ?_, fun t ht => ?_⟩ <;> subst ht
  · have hcre := hcreate t rfl
    unfold isCreate at hcre
    split at hcre
    · next peer hs body =>
      have hhs : hs = deviceHeaders := by simpa [deviceMoves, Task.mailboxHeaders] using h
      exact ⟨peer, hs, body, rfl, hhs ▸ carriesToken_deviceHeaders⟩
    · cases hcre
  · simpa [deviceMoves] using h

def spawnsCreate : ServerMove → Bool
  | .spawn t => isCreate t
  | _ => true

theorem active_le_of_insertsAlone_one : ∃ c,
    (server deviceServer).Reach
      (fun c m => PostRun deviceServer deviceHash .free c m ∧ insertsAlone deviceHash c m)
      (System.init (World.start 0)) c ∧ c.world.store.mailboxes.entries.length = 1 ∧
    countActiveMailboxesByDevice c.world.store deviceHash c.world.clock ≤
      (deviceServer.config.tierPolicy .free).activeMailboxes := by
  have hrun : ((server deviceServer).run
      (fun c m => (deviceMoves c m ∧ spawnsCreate m) ∧ insertsAlone deviceHash c m)
      (System.init (World.start 0)) (devicePost 0 ++ deviceInsert 0 0 0)).any fun c =>
        c.world.store.mailboxes.entries.length == 1 := by
    decide +kernel
  obtain ⟨c, hc, hP⟩ := System.Reach.exists_of_run hrun
  have hc' := hc.mono fun c m h =>
    And.intro (postRun_of_deviceMoves h.1.1 fun t ht => by subst ht; exact h.1.2) h.2
  exact ⟨c, hc', eq_of_beq hP, active_le_of_insertsAlone rfl (by decide) hc'⟩

/-- Two requests count before either of them inserts. -/
theorem not_active_le : ¬∀ (app : AppState) (device : String) (tier : Tier) (start : DateTime)
    (c : ServerConf), app.config.entitlementsEnforced →
    0 < (app.config.tierPolicy tier).activeMailboxes →
    (server app).Reach (PostRun app device tier) (System.init (World.start start)) c →
    countActiveMailboxesByDevice c.world.store device c.world.clock ≤
      (app.config.tierPolicy tier).activeMailboxes := by
  intro H
  have hrun : ((server deviceServer).run (fun c m => deviceMoves c m ∧ spawnsCreate m)
      (System.init (World.start 0)) (devicePost 0 ++ devicePost 1 ++ deviceInsert 0 0 0 ++
        deviceInsert 1 1 1)).any fun c =>
        decide (1 < countActiveMailboxesByDevice c.world.store deviceHash c.world.clock) := by
    decide +kernel
  obtain ⟨c, hc, hP⟩ := System.Reach.exists_of_run hrun
  have hle := H deviceServer deviceHash .free 0 c rfl (by decide) (hc.mono fun c m h =>
    postRun_of_deviceMoves h.1 fun t ht => by subst ht; exact h.2)
  exact absurd hle (Nat.not_le.mpr (of_decide_eq_true hP))

/-! ## Requests one after another -/

/-- A mailbox that has expired comes back only if there is room for it. -/
def revivesInRoom (device : String) (cap : Nat) (c : ServerConf) (m : ServerMove) : Bool :=
  match commit c m with
  | some (_, _, op) => !op.revivesFor c.world.store device c.world.clock ||
    decide (countActiveMailboxesByDevice c.world.store device c.world.clock < cap)
  | none => true

/-- Requests of one device and tier are served one after another, the server cleans up, and time
passes. -/
structure DeviceRun (app : AppState) (device : String) (tier : Tier) (c : ServerConf)
    (m : ServerMove) : Prop where
  spawn : ∀ t, m = .spawn t →
    t = .cleanup ∨ ∃ hs, t.mailboxHeaders = some hs ∧ CarriesToken app device tier hs
  clock : ∀ t, m = .env (.clock t) → c.world.clock ≤ t
  sequential : ∀ p ∈ c.procs, isOver p ∨ ∃ i ch, m = .act i ch

theorem keepsTier_of_mailboxHeaders {t : Task} {tier : Tier} {hs : Api.HeaderMap}
    (ht : t.mailboxHeaders = some hs) (h : CarriesToken app device tier hs) :
    t.KeepsTier app device (app.config.tierPolicy tier).activeMailboxes := by
  unfold Task.mailboxHeaders at ht
  split at ht
  · cases ht; exact h.keepsTier
  · trivial
  · trivial
  · trivial
  · cases ht

/-- Requests served one after another keep to the cap if no expired mailbox is extended when there
is no room for it. -/
theorem active_le_of_revivesInRoom {tier : Tier} {start : DateTime}
    (henf : app.config.entitlementsEnforced)
    (hcap : 0 < (app.config.tierPolicy tier).activeMailboxes)
    (h : (server app).Reach (fun c m => DeviceRun app device tier c m ∧
      revivesInRoom device (app.config.tierPolicy tier).activeMailboxes c m)
      (System.init (World.start start)) c) :
    countActiveMailboxesByDevice c.world.store device c.world.clock ≤
      (app.config.tierPolicy tier).activeMailboxes := by
  refine CapInv.le (h.invariant (CapInv.init start) fun {c c' m} hc hinv hok hs => ?_)
  have htags : ∀ p ∈ c.procs,
      p.tag.KeepsTier app device (app.config.tierPolicy tier).activeMailboxes := by
    refine hc.tags fun c t hok => ?_
    obtain rfl | ⟨hs, ht, htok⟩ := hok.1.spawn t rfl
    · trivial
    · exact keepsTier_of_mailboxHeaders ht htok
  have halone := hc.alone isOver (fun _ _ _ _ _ _ _ _ hx => not_isOver_call (exec_ne_panic hx))
    fun c t hok p hp => (hok.1.sequential p hp).resolve_right (by simp)
  -- the requests other than the one that calls the store are over
  have hothers : ∀ i ids t hist op j p, m = .act i (.uuids ids) →
      commit c m = some (t, hist, op) → j ≠ i → c.procs[j]? = some p → ¬isCounting device p := by
    intro i ids t hist op j p hi hm hji hj hcnt
    obtain ⟨i', ids', k, hi', hp⟩ := mem_of_commit hm
    cases hi.symm.trans hi'
    exact hji (halone j i p _ hj hp (isCounting_iff.mp hcnt).2.2.2 Bool.false_ne_true)
  refine hinv.step hcap henf hc htags ⟨hok.1.clock, ?_, ?_, ?_⟩ hs
  · rintro i ch t hist op rfl hm - j p hji hj
    obtain ⟨_, ids, _, hi, -⟩ := mem_of_commit hm
    cases hi
    exact hothers i ids t hist op j p rfl hm hji hj
  · intro t hist a x hm p hp
    obtain ⟨j, hj⟩ := List.getElem?_of_mem hp
    obtain ⟨i, ids, k, hi, hpi⟩ := mem_of_commit hm
    by_cases hji : j = i
    · subst hji
      cases hpi.symm.trans hj
      exact fun hcnt => not_isCreate_of_gated rfl (task_lawful hc _ hp).1 (isCounting_iff.mp hcnt).1
    · exact hothers i ids t hist _ j p hi hm hji hj
  · intro t hist op hm hop
    have hroom := hok.2
    simpa [revivesInRoom, hm, hop] using hroom

/-- An extension of the first mailbox of the device. -/
def deviceExtend (i : Nat) : List ServerMove :=
  .spawn (.http (.extendAddress "aaaaaaaaaa@example.com" deviceHeaders)) ::
    acts i [.answer, .uuids [], .answer, .answer, .uuids []]

theorem deviceRun_of_deviceMoves (h : deviceMoves c m) (hseq : sequential c m) :
    DeviceRun deviceServer deviceHash .free c m := by
  refine ⟨fun t ht => ?_, fun t ht => ?_, fun p hp => ?_⟩
  · subst ht
    cases t with
    | http req =>
      obtain ⟨hs, ht, hhs⟩ := (Option.any_eq_true ..).mp h
      exact .inr ⟨hs, ht, eq_of_beq hhs ▸ carriesToken_deviceHeaders⟩
    | cleanup => exact .inl rfl
    | smtp | reverify => cases h
  · subst ht
    simpa [deviceMoves] using h
  · cases m with
    | act i ch => exact .inr ⟨i, ch, rfl⟩
    | _ => exact .inl (List.all_eq_true.mp hseq p hp)

theorem active_le_of_revivesInRoom_extend : ∃ c,
    (server deviceServer).Reach
      (fun c m => DeviceRun deviceServer deviceHash .free c m ∧ revivesInRoom deviceHash
        (deviceServer.config.tierPolicy .free).activeMailboxes c m)
      (System.init (World.start 0)) c ∧ c.world.clock = Duration.seconds 3600 ∧
    countActiveMailboxesByDevice c.world.store deviceHash c.world.clock = 1 ∧
    countActiveMailboxesByDevice c.world.store deviceHash c.world.clock ≤
      (deviceServer.config.tierPolicy .free).activeMailboxes := by
  have hrun : ((server deviceServer).run
      (fun c m => (deviceMoves c m ∧ sequential c m) ∧ revivesInRoom deviceHash 1 c m)
      (System.init (World.start 0)) (devicePost 0 ++ deviceInsert 0 0 0 ++
        .env (.clock (Duration.seconds 3600)) :: deviceExtend 1)).any fun c =>
        c.world.clock == Duration.seconds 3600 &&
        countActiveMailboxesByDevice c.world.store deviceHash c.world.clock == 1 := by
    decide +kernel
  obtain ⟨c, hc, hP⟩ := System.Reach.exists_of_run hrun
  obtain ⟨hclock, hcount⟩ := Bool.and_eq_true_iff.mp hP
  have hc' := hc.mono fun c m h => And.intro (deviceRun_of_deviceMoves h.1.1 h.1.2) h.2
  exact ⟨c, hc', eq_of_beq hclock, eq_of_beq hcount,
    active_le_of_revivesInRoom rfl (by decide) hc'⟩

/-- A mailbox expires, a second one is created in its place, and the first one is extended. -/
theorem not_active_le_sequential : ¬∀ (app : AppState) (device : String) (tier : Tier)
    (start : DateTime) (c : ServerConf), app.config.entitlementsEnforced →
    0 < (app.config.tierPolicy tier).activeMailboxes →
    (server app).Reach (DeviceRun app device tier) (System.init (World.start start)) c →
    countActiveMailboxesByDevice c.world.store device c.world.clock ≤
      (app.config.tierPolicy tier).activeMailboxes := by
  intro H
  have hrun : ((server deviceServer).run (fun c m => deviceMoves c m ∧ sequential c m)
      (System.init (World.start 0)) (devicePost 0 ++ deviceInsert 0 0 0 ++
        .env (.clock (Duration.seconds 3600)) :: (devicePost 1 ++ deviceInsert 1 1 1) ++
        deviceExtend 2)).any fun c =>
        decide (1 < countActiveMailboxesByDevice c.world.store deviceHash c.world.clock) := by
    decide +kernel
  obtain ⟨c, hc, hP⟩ := System.Reach.exists_of_run hrun
  have hle := H deviceServer deviceHash .free 0 c rfl (by decide) (hc.mono fun c m h =>
    deviceRun_of_deviceMoves h.1 h.2)
  exact absurd hle (Nat.not_le.mpr (of_decide_eq_true hP))

end AnonyMail
