import AnonyMail.Verify.Protocol

/-! # What a call changes

For each table of the store, all that one call can do to the row of a given key. Everything that
is proved of runs goes through these lemmas and not through the methods of the store. -/

namespace AnonyMail

open Calls MemoryStore

variable {app : AppState} {w w' : World} {c : Choice}

/-- A store call fails and changes nothing, or takes effect. -/
theorem exec_store_cases {op : StoreOp} {r : Except StoreError op.Out}
    (h : exec app w (.store op) c = some (r, w')) :
    (c = .fail ∧ r = .error .other ∧ w' = w) ∨
    ∃ ids, c = .uuids ids ∧ ids.length = op.uuids ∧ ids.Nodup ∧ (∀ i ∈ ids, i ∉ w.uuids) ∧
      op.apply app.config.mailboxQuotas w.store w.clock ids = (r, w'.store) ∧
      w' = { w with store := w'.store, uuids := ids ++ w.uuids } := by
  cases c with
  | uuids ids =>
    simp only [exec, Option.ite_none_right_eq_some, Option.some.injEq, Prod.mk.injEq] at h
    obtain ⟨⟨h1, h2, h3⟩, rfl, rfl⟩ := h
    exact .inr ⟨ids, rfl, h1, h2, h3, rfl, rfl⟩
  | fail => cases h; exact .inl ⟨rfl, rfl, rfl⟩
  | _ => cases h

/-- All a call can do to the world. -/
inductive Effect (w : World) : Event Eff.Ans → World → Prop
  | store (op : StoreOp) (r : Except StoreError op.Out) (s : Inner) (ids : List Uuid) :
    Effect w ⟨.store op, r⟩ { w with store := s, uuids := ids }
  | drawn (n : Nat) (bs : List UInt8) : bs ∉ w.drawn →
    Effect w ⟨.randomBytes n, bs⟩ { w with drawn := bs :: w.drawn }
  | issue (x : String) (t : Instant) :
    Effect w ⟨.issueChallenge x t, ()⟩ { w with challenges := w.challenges.issue x t }
  | consume (x : String) : Effect w ⟨.consumeChallenge x, (w.challenges.consume x w.instant).1⟩
      { w with challenges := w.challenges.erase x }
  | publish (event : MailEvent) :
    Effect w ⟨.publish event, ()⟩ { w with published := w.published ++ [event] }
  | quiet (ev : Event Eff.Ans) : (∀ op, ev.1 ≠ .store op) → (∀ n, ev.1 ≠ .randomBytes n) →
    (∀ x t, ev.1 ≠ .issueChallenge x t) → (∀ x, ev.1 ≠ .consumeChallenge x) → Effect w ev w

theorem exec_effect {e : Eff} {r : e.Ans} (h : exec app w e c = some (r, w')) :
    Effect w ⟨e, r⟩ w' := by
  cases e with
  | store op =>
    obtain ⟨-, -, rfl⟩ | ⟨ids, -, -, -, -, -, hw⟩ := exec_store_cases h
    · exact .store op r w'.store w'.uuids
    · rw [hw]
      exact .store op r _ _
  | randomBytes n =>
    cases c with
    | bytes bs =>
      obtain ⟨⟨-, hbs⟩, h⟩ := Option.ite_none_right_eq_some.mp h
      cases h
      exact .drawn n _ hbs
    | _ => cases h
  | randomRange n =>
    cases c with
    | index i =>
      obtain ⟨-, h⟩ := Option.ite_none_right_eq_some.mp h
      cases h
      exact .quiet _ (by simp) (by simp) (by simp) (by simp)
    | _ => cases h
  | issueChallenge x t => cases h; exact .issue x t
  | consumeChallenge x => cases h; exact .consume x
  | publish event => cases h; exact .publish event
  | panic => cases h
  | now | instantNow | jwtDecode =>
    cases h
    exact .quiet _ (by simp) (by simp) (by simp) (by simp)
  | _ =>
    cases c <;> cases h <;> exact .quiet _ (by simp) (by simp) (by simp) (by simp)

/-- Calls other than store calls leave the store alone. -/
theorem exec_store_eq {e : Eff} {r : e.Ans} (h : exec app w e c = some (r, w'))
    (he : ∀ op, e ≠ .store op) : w'.store = w.store := by
  cases exec_effect h with
  | store op => exact absurd rfl (he op)
  | _ => rfl

/-- Calls read the clocks and do not set them. -/
theorem exec_clocks_eq {e : Eff} {r : e.Ans} (h : exec app w e c = some (r, w')) :
    w'.clock = w.clock ∧ w'.instant = w.instant := by
  cases exec_effect h <;> exact ⟨rfl, rfl⟩

/-! ## Moves that change the store -/

abbrev ServerMove := Move Task Choice Tick

/-- The process `i` makes its next calls with these choices. -/
def acts (i : Nat) (choices : List Choice) : List ServerMove := choices.map (.act i)

/-- The process can make no further call. -/
def isOver (p : Proc Task Eff.Ans Outcome) : Bool :=
  match p.rest with
  | .ret _ | .call .panic _ => true
  | _ => false

/-- Requests are served one after another, and time passes in between. -/
def sequential (c : ServerConf) : ServerMove → Bool
  | .act .. => true
  | _ => c.procs.all isOver

/-- The task whose store call takes effect with the move, the calls it has made before, and the
call. -/
def commit (c : ServerConf) : ServerMove → Option (Task × Hist × StoreOp)
  | .act i (.uuids _) =>
    match c.procs[i]? with
    | some ⟨t, hist, .call (.store op) _⟩ => some (t, hist, op)
    | _ => none
  | _ => none

theorem eq_store_of_commit {c : ServerConf} {i : Nat} {ch : Choice} {e : Eff}
    {k : e.Ans → Run Outcome} (hi : c.procs[i]? = some ⟨t, hist, .call e k⟩)
    (hm : commit c (.act i ch) = some (t', hist', op)) : e = .store op := by
  unfold commit at hm
  split at hm
  · next heq =>
    cases heq
    rw [hi] at hm
    split at hm
    · next heq => cases heq; cases hm; rfl
    · cases hm
  · cases hm

theorem mem_of_commit {c : ServerConf} {m : ServerMove} (hm : commit c m = some (t, hist, op)) :
    ∃ i ids k, m = .act i (.uuids ids) ∧ c.procs[i]? = some ⟨t, hist, .call (.store op) k⟩ := by
  unfold commit at hm
  split at hm
  · split at hm
    · next hi =>
      cases hm
      exact ⟨_, _, _, rfl, hi⟩
    · cases hm
  · cases hm

/-- Every task of a run keeps to its protocol. -/
theorem task_lawful {c : ServerConf} {ok} {w : World} (h : (server app).Reach ok (System.init w) c) :
    ∀ p ∈ c.procs, System.Lawful (Protocol app) p :=
  h.lawful fun t => (task_safe app t).obeys

theorem task_kept {c : ServerConf} {ok} {w : World}
    (h : (server app).Reach ok (System.init w) c) (hp : p ∈ c.procs) {h₁ h₂ : Hist} {e : Eff}
    {r : e.Ans} (hhist : p.hist = h₁ ++ ⟨e, r⟩ :: h₂) : Protocol app p.tag h₁ e :=
  h.kept (fun t => (task_safe app t).obeys) p hp h₁ e r h₂ hhist

/-- The store is changed by committed store calls only. -/
theorem store_step {c c' : ServerConf} {m : ServerMove} (hs : (server app).step c m = some c') :
    c'.world.store = c.world.store ∨
    ∃ t hist op k ids r, commit c m = some (t, hist, op) ∧ ⟨t, hist, .call (.store op) k⟩ ∈ c.procs ∧
      ⟨t, hist ++ [⟨.store op, r⟩], k r⟩ ∈ c'.procs ∧
      r = (op.apply app.config.mailboxQuotas c.world.store c.world.clock ids).1 ∧
      c'.world.store = (op.apply app.config.mailboxQuotas c.world.store c.world.clock ids).2 := by
  obtain ⟨t, -, rfl⟩ | ⟨i, ch, t, hist, e, k, r, w, rfl, hi, hx, rfl⟩ | ⟨x, w, -, hw, rfl⟩ :=
    System.step_cases hs
  · exact .inl rfl
  · replace hx : exec app c.world e ch = some (r, w) := hx
    cases e with
    | store op =>
      obtain ⟨-, -, rfl⟩ | ⟨ids, rfl, -, -, -, ha, -⟩ := exec_store_cases hx
      · exact .inl rfl
      · refine .inr ⟨t, hist, op, k, ids, r, by simp [commit, hi], List.mem_of_getElem? hi, ?_, ?_⟩
        · exact List.mem_set (List.getElem?_eq_some_iff.mp hi).1 _
        · rw [ha]; exact ⟨rfl, rfl⟩
    | _ => exact .inl (exec_store_eq hx (by simp))
  · cases hw
    cases x <;> exact .inl rfl

/-! ## What the log tells -/

abbrev ServerEntry := Entry World Task Eff.Ans

/-- A store call that did not fail: the run up to it, the call as it was made, and what it did. -/
theorem committed {c : ServerConf} {ok} {w : World} {l₁ l₂ : List ServerEntry} {e : ServerEntry}
    {op : StoreOp} {r : op.Out} (h : (server app).Reach ok (System.init w) c)
    (he : c.log = l₁ ++ e :: l₂) (hev : (⟨e.call, e.answer⟩ : Event Eff.Ans) = ⟨.store op, .ok r⟩) :
    ∃ c₁ c₂ ids hist k, (server app).Reach ok (System.init w) c₁ ∧ c₁.log = l₁ ∧
      c₁.world = e.before ∧ c₁.procs[e.pid]? = some ⟨e.tag, hist, .call (.store op) k⟩ ∧
      Protocol app e.tag hist (.store op) ∧ ok c₁ (.act e.pid (.uuids ids)) ∧
      commit c₁ (.act e.pid (.uuids ids)) = some (e.tag, hist, op) ∧
      (server app).step c₁ (.act e.pid (.uuids ids)) = some c₂ ∧
      op.apply app.config.mailboxQuotas e.before.store e.before.clock ids = (.ok r, e.after.store) ∧
      c₂.world = e.after ∧ (server app).Reach ok c₂ c := by
  obtain ⟨c₁, c₂, ch, hist, k, h₁, hl, hw, hi, hok, hs, hx, hw₂, h₂⟩ := h.split_log he
  obtain ⟨pid, tag, before, call, answer, after⟩ := e
  cases hev
  obtain ⟨-, ⟨⟩, -⟩ | ⟨ids, rfl, -, -, -, ha, -⟩ := exec_store_cases hx
  exact ⟨c₁, c₂, ids, hist, k, h₁, hl, hw, hi, (task_lawful h₁ _ (List.mem_of_getElem? hi)).1, hok,
    by simp [commit, hi], hs, ha, hw₂, h₂⟩

/-- What a task has read was so when it was read. -/
theorem read_of_hist {c : ServerConf} {ok} {w : World} {op : StoreOp} {r : op.Out}
    (h : (server app).Reach ok (System.init w) c) (hp : p ∈ c.procs)
    (hev : ⟨.store op, .ok r⟩ ∈ p.hist) :
    ∃ c₁ c₂ ids, (server app).Reach ok (System.init w) c₁ ∧
      op.apply app.config.mailboxQuotas c₁.world.store c₁.world.clock ids =
        (.ok r, c₂.world.store) ∧ (server app).Reach ok c₂ c := by
  obtain ⟨i, hi⟩ := List.getElem?_of_mem hp
  obtain ⟨e, he, -, -, hev⟩ := h.mem_log_of_hist hi hev
  obtain ⟨l₁, l₂, hlog⟩ := List.append_of_mem he
  obtain ⟨c₁, c₂, ids, -, -, h₁, -, hw, -, -, -, -, -, ha, hw₂, h₂⟩ := committed h hlog hev
  exact ⟨c₁, c₂, ids, h₁, by rw [hw, hw₂]; exact ha, h₂⟩

variable {q : MailboxQuotas} {s : Inner} {now : DateTime} {ids : List Uuid}

/-! ## Mailboxes -/

theorem mem_mailboxes_iff : a ∈ s.mailboxes ↔ ∃ mb, s.mailboxes.lookup a = some mb := by
  rw [← AList.lookup_isSome, Option.isSome_iff_exists]

/-- All a call can do to the mailbox `a`. -/
theorem mailbox_apply (op : StoreOp) (a : String) :
    ((op.apply q s now ids).2.mailboxes.lookup a = s.mailboxes.lookup a) ∨
    (s.mailboxes.lookup a = none ∧ ∃ d x owner device, op = .createMailbox a d x owner device ∧
      (op.apply q s now ids).2.mailboxes.lookup a = some ⟨a, d, now, x, owner, device⟩) ∨
    (∃ x mb, op = .extendMailbox a x ∧ s.mailboxes.lookup a = some mb ∧
      (op.apply q s now ids).2.mailboxes.lookup a = some { mb with expiresAt := x }) ∨
    (∃ h mb, op = .rotateOwnerToken a h ∧ s.mailboxes.lookup a = some mb ∧
      (op.apply q s now ids).2.mailboxes.lookup a = some { mb with ownerTokenHash := some h }) ∨
    (op = .deleteMailbox a ∧ (op.apply q s now ids).2.mailboxes.lookup a = none) ∨
    ∃ t mb, op = .purgeExpired t ∧ mb ∈ s.mailboxes.values ∧ mb.address = a ∧ mb.expiresAt ≤ t ∧
      (op.apply q s now ids).2.mailboxes.lookup a = none := by
  cases op with
  | createMailbox b d x o dev =>
    simp only [StoreOp.apply, createMailbox]
    split
    · exact .inl rfl
    · next hb =>
      by_cases ha : a = b
      · subst ha
        exact .inr (.inl ⟨AList.lookup_eq_none.mpr hb, d, x, o, dev, rfl, AList.lookup_insert _⟩)
      · exact .inl (AList.lookup_insert_ne ha)
  | extendMailbox b x =>
    simp only [StoreOp.apply, extendMailbox]
    split
    · next mb hmb =>
      by_cases ha : a = b
      · subst ha
        exact .inr (.inr (.inl ⟨x, mb, rfl, hmb, AList.lookup_insert _⟩))
      · exact .inl (AList.lookup_insert_ne ha)
    · exact .inl rfl
  | rotateOwnerToken b h =>
    simp only [StoreOp.apply, rotateOwnerToken]
    split
    · next mb hmb =>
      by_cases ha : a = b
      · subst ha
        exact .inr (.inr (.inr (.inl ⟨h, mb, rfl, hmb, AList.lookup_insert _⟩)))
      · exact .inl (AList.lookup_insert_ne ha)
    · exact .inl rfl
  | deleteMailbox b =>
    by_cases ha : a = b
    · subst ha
      exact .inr (.inr (.inr (.inr (.inl ⟨rfl, AList.lookup_erase ..⟩))))
    · exact .inl (AList.lookup_erase_ne ha)
  | purgeExpired t =>
    simp only [StoreOp.apply, purgeExpired, HashMap.lookup_eraseAll]
    split
    · next ha =>
      simp only [List.mem_map, List.mem_filter, decide_eq_true_eq] at ha
      obtain ⟨mb, ⟨hmb, hx⟩, haddr⟩ := ha
      exact .inr (.inr (.inr (.inr (.inr ⟨t, mb, rfl, hmb, haddr, hx, rfl⟩))))
    · exact .inl rfl
  | addSubscription | createCustomDomain | recordCustomDomainCheck | advanceAttestedDeviceCounter =>
    simp only [StoreOp.apply, addSubscription, createCustomDomain, recordCustomDomainCheck,
      advanceAttestedDeviceCounter]
    repeat' split
    all_goals exact .inl rfl
  | _ => exact .inl rfl

/-- Each mailbox is stored under its own address. -/
def Named (s : Inner) : Prop := ∀ a mb, s.mailboxes.lookup a = some mb → mb.address = a

theorem Named.apply {op : StoreOp} (hs : Named s) : Named (op.apply q s now ids).2 := by
  intro a mb hmb
  obtain h | ⟨-, d, x, o, dev, -, h⟩ | ⟨x, mb', -, hmb', h⟩ | ⟨token, mb', -, hmb', h⟩ | ⟨-, h⟩ |
    ⟨t, mb', -, -, -, -, h⟩ := @mailbox_apply q s now ids op a
  · exact hs a mb (h ▸ hmb)
  · cases h.symm.trans hmb
    rfl
  · cases h.symm.trans hmb
    exact hs a mb' hmb'
  · cases h.symm.trans hmb
    exact hs a mb' hmb'
  · cases h.symm.trans hmb
  · cases h.symm.trans hmb

theorem Named.exec {e : Eff} {r : e.Ans} (hs : Named w.store)
    (hx : exec app w e c = some (r, w')) : Named w'.store := by
  cases e with
  | store op =>
    obtain ⟨-, -, rfl⟩ | ⟨ids, -, -, -, -, hap, -⟩ := exec_store_cases hx
    · exact hs
    · have hstore : (op.apply app.config.mailboxQuotas w.store w.clock ids).2 = w'.store :=
        congrArg Prod.snd hap
      exact hstore ▸ hs.apply
  | _ => rw [exec_store_eq hx (by simp)]; exact hs

theorem Named.step {c c' : ServerConf} {m : ServerMove} (hs : Named c.world.store)
    (hstep : (server app).step c m = some c') : Named c'.world.store := by
  obtain hstore | ⟨t, hist, op, k, ids, r, -, -, -, -, hstore⟩ := store_step hstep
  · exact hstore ▸ hs
  · exact hstore ▸ hs.apply

/-! ## Subscriptions -/

theorem subscriptions_apply (op : StoreOp) :
    (op.apply q s now ids).2.subscriptions.Sublist s.subscriptions ∨
      ∃ a kind endpoint p256dh auth cap, op = .addSubscription a kind endpoint p256dh auth cap := by
  cases op with
  | addSubscription => exact .inr ⟨_, _, _, _, _, _, rfl⟩
  | deleteSubscription | deleteMailbox | purgeExpired => exact .inl List.filter_sublist
  | createMailbox | extendMailbox | rotateOwnerToken | createCustomDomain
  | recordCustomDomainCheck | advanceAttestedDeviceCounter =>
    left
    simp only [StoreOp.apply, createMailbox, extendMailbox, rotateOwnerToken, createCustomDomain,
      recordCustomDomainCheck, advanceAttestedDeviceCounter]
    repeat' split
    all_goals exact List.Sublist.refl _
  | _ => exact .inl (List.Sublist.refl _)

/-! ## Custom domains -/

/-- All a call can do to the claim of the domain `name`. -/
theorem claim_apply (op : StoreOp) (name : String) :
    ((op.apply q s now ids).2.customDomains.lookup name = s.customDomains.lookup name) ∨
    (∃ claim txt, op = .createCustomDomain name claim txt ∧ s.customDomains.lookup name = none ∧
      (op.apply q s now ids).2.customDomains.lookup name =
        some ⟨name, .pending, claim, txt, now, none, none⟩) ∨
    (op = .deleteCustomDomain name ∧ (op.apply q s now ids).2.customDomains.lookup name = none) ∨
    ∃ status verifiedAt t row, op = .recordCustomDomainCheck name status verifiedAt t ∧
      s.customDomains.lookup name = some row ∧
      (op.apply q s now ids).2.customDomains.lookup name =
        some { row with status, verifiedAt, lastCheckedAt := some t } := by
  cases op with
  | createCustomDomain d claim txt =>
    simp only [StoreOp.apply, createCustomDomain]
    split
    · exact .inl rfl
    · next hd =>
      by_cases hn : name = d
      · subst hn
        refine .inr (.inl ⟨claim, txt, rfl, ?_, by simp⟩)
        exact AList.lookup_eq_none.mpr hd
      · exact .inl (AList.lookup_insert_ne hn)
  | deleteCustomDomain d =>
    by_cases hn : name = d
    · subst hn
      exact .inr (.inr (.inl ⟨rfl, AList.lookup_erase ..⟩))
    · exact .inl (AList.lookup_erase_ne hn)
  | recordCustomDomainCheck d st v t =>
    simp only [StoreOp.apply, recordCustomDomainCheck]
    split
    · next row hrow =>
      by_cases hn : name = d
      · subst hn
        exact .inr (.inr (.inr ⟨st, v, t, row, rfl, hrow, AList.lookup_insert _⟩))
      · exact .inl (AList.lookup_insert_ne hn)
    · exact .inl rfl
  | createMailbox | extendMailbox | rotateOwnerToken | addSubscription | advanceAttestedDeviceCounter =>
    simp only [StoreOp.apply, createMailbox, extendMailbox, rotateOwnerToken, addSubscription,
      advanceAttestedDeviceCounter]
    repeat' split
    all_goals exact .inl rfl
  | _ => exact .inl rfl

/-! ## Attested devices -/

/-- All a call can do to the device `key`. -/
theorem device_apply (op : StoreOp) (key : String) :
    ((op.apply q s now ids).2.attestedDevices.lookup key = s.attestedDevices.lookup key) ∨
    (∃ pk t d, op = .upsertAttestedDevice key pk t ∧
      (op.apply q s now ids).2.attestedDevices.lookup key = some d ∧
      ((s.attestedDevices.lookup key = none ∧ d.counter = 0) ∨
        ∃ d', s.attestedDevices.lookup key = some d' ∧ d.counter = d'.counter)) ∨
    (∃ n t d, op = .advanceAttestedDeviceCounter key n t ∧
      s.attestedDevices.lookup key = some d ∧ d.counter < n ∧
      (op.apply q s now ids).2.attestedDevices.lookup key =
        some { d with counter := n, lastSeenAt := t }) ∨
    ∃ t, op = .pruneAttestedDevices t ∧
      (op.apply q s now ids).2.attestedDevices.lookup key = none := by
  cases op with
  | upsertAttestedDevice b pk t =>
    by_cases hb : key = b
    · subst hb
      refine .inr (.inl ⟨pk, t, _, rfl, AList.lookup_insert _, ?_⟩)
      cases hd : s.attestedDevices.lookup key with
      | none => exact .inl ⟨rfl, rfl⟩
      | some d => exact .inr ⟨d, rfl, rfl⟩
    · exact .inl (AList.lookup_insert_ne hb)
  | advanceAttestedDeviceCounter b n t =>
    simp only [StoreOp.apply, advanceAttestedDeviceCounter]
    split
    · next d hd =>
      split
      · next hlt =>
        by_cases hb : key = b
        · subst hb
          exact .inr (.inr (.inl ⟨n, t, d, rfl, hd, hlt, AList.lookup_insert _⟩))
        · exact .inl (AList.lookup_insert_ne hb)
      · exact .inl rfl
    · exact .inl rfl
  | pruneAttestedDevices t =>
    simp only [StoreOp.apply, pruneAttestedDevices, HashMap.lookup_retain]
    cases hd : s.attestedDevices.lookup key with
    | none => exact .inl rfl
    | some d =>
      by_cases hlt : d.lastSeenAt ≥ t
      · exact .inl (by simp [hlt])
      · exact .inr (.inr (.inr ⟨t, rfl, by simpa using hlt⟩))
  | createMailbox | extendMailbox | rotateOwnerToken | addSubscription | createCustomDomain
  | recordCustomDomainCheck =>
    simp only [StoreOp.apply, createMailbox, extendMailbox, rotateOwnerToken, addSubscription,
      createCustomDomain, recordCustomDomainCheck]
    repeat' split
    all_goals exact .inl rfl
  | _ => exact .inl rfl

/-! ## Moves and claims -/

/-- All a move can do to the claim of the domain `name`. -/
theorem claim_step {c c' : ServerConf} {m : ServerMove} (hs : (server app).step c m = some c')
    (name : String) :
    (c'.world.store.customDomains.lookup name = c.world.store.customDomains.lookup name) ∨
    (∃ claim txt, c.world.store.customDomains.lookup name = none ∧
      c'.world.store.customDomains.lookup name =
        some ⟨name, .pending, claim, txt, c.world.clock, none, none⟩) ∨
    (∃ t hist, commit c m = some (t, hist, .deleteCustomDomain name) ∧
      c'.world.store.customDomains.lookup name = none) ∨
    ∃ t hist status verifiedAt now k row,
      commit c m = some (t, hist, .recordCustomDomainCheck name status verifiedAt now) ∧
      ⟨t, hist, .call (.store (.recordCustomDomainCheck name status verifiedAt now)) k⟩ ∈ c.procs ∧
      ⟨t, hist ++ [⟨.store (.recordCustomDomainCheck name status verifiedAt now), .ok true⟩],
        k (.ok true)⟩ ∈ c'.procs ∧
      c.world.store.customDomains.lookup name = some row ∧
      c'.world.store.customDomains.lookup name =
        some { row with status, verifiedAt, lastCheckedAt := some now } := by
  obtain hstore | ⟨t, hist, op, k, ids, r, hm, hp, hp', hr, hstore⟩ := store_step hs
  · exact .inl (by rw [hstore])
  rw [hstore]
  obtain h | ⟨claim, txt, rfl, h⟩ | ⟨rfl, h⟩ | ⟨status, v, now, row, rfl, hrow, h⟩ :=
    claim_apply op name
  · exact .inl h
  · exact .inr (.inl ⟨claim, txt, h⟩)
  · exact .inr (.inr (.inl ⟨t, hist, hm, h⟩))
  · refine .inr (.inr (.inr ⟨t, hist, status, v, now, k, row, hm, hp, ?_, hrow, h⟩))
    simp only [StoreOp.apply, recordCustomDomainCheck, hrow] at hr
    exact hr ▸ hp'

/-! ## Random bytes -/

/-- All a call can do to the record of random bytes. -/
theorem drawn_exec {e : Eff} {r : e.Ans} (hx : exec app w e ch = some (r, w')) :
    (w'.drawn = w.drawn ∧ ∀ n, e ≠ .randomBytes n) ∨
      ∃ n bs, (⟨e, r⟩ : Event Eff.Ans) = ⟨.randomBytes n, bs⟩ ∧ bs ∉ w.drawn ∧
        w'.drawn = bs :: w.drawn := by
  cases exec_effect hx with
  | drawn n _ hbs => exact .inr ⟨n, _, rfl, hbs, rfl⟩
  | quiet _ _ hn => exact .inl ⟨rfl, hn⟩
  | _ => exact .inl ⟨rfl, by simp⟩

/-- What the random generator has returned was returned to one process only. -/
structure DrawnInv (c : ServerConf) : Prop where
  drawn : ∀ p ∈ c.procs, ∀ n bs, ⟨.randomBytes n, bs⟩ ∈ p.hist → bs ∈ c.world.drawn
  unique : ∀ (i j : Nat) (p q : Proc Task Eff.Ans Outcome) n n' bs,
    c.procs[i]? = some p → c.procs[j]? = some q →
    ⟨.randomBytes n, bs⟩ ∈ p.hist → ⟨.randomBytes n', bs⟩ ∈ q.hist → i = j

/-- Bytes in the history of a process after its call are old, or the call has drawn them. -/
theorem mem_drawn_exec {e : Eff} {r : e.Ans} (hx : exec app w e ch = some (r, w'))
    (hbs : (⟨.randomBytes n, bs⟩ : Event Eff.Ans) ∈ hist ++ [⟨e, r⟩]) :
    ⟨.randomBytes n, bs⟩ ∈ hist ∨ (bs ∉ w.drawn ∧ bs ∈ w'.drawn) := by
  rcases List.mem_append.mp hbs with hbs | hbs
  · exact .inl hbs
  · cases List.mem_singleton.mp hbs
    obtain ⟨-, hne⟩ | ⟨n', bs', heq, hnew, hw⟩ := drawn_exec hx
    · exact absurd rfl (hne n)
    · cases heq
      exact .inr ⟨hnew, by simp [hw]⟩

theorem drawn_mono {e : Eff} {r : e.Ans} (hx : exec app w e ch = some (r, w'))
    (hbs : bs ∈ w.drawn) : bs ∈ w'.drawn := by
  obtain ⟨hw, -⟩ | ⟨n, bs', -, -, hw⟩ := drawn_exec hx
  · rwa [hw]
  · rw [hw]; exact List.mem_cons_of_mem _ hbs

theorem DrawnInv.step {c c' : ServerConf} {m : ServerMove} (hinv : DrawnInv c)
    (hs : (server app).step c m = some c') : DrawnInv c' := by
  obtain ⟨t, -, rfl⟩ | ⟨i, ch, t, hist, e, k, r, w, -, hi, hx, rfl⟩ | ⟨x, w, -, hw, rfl⟩ :=
    System.step_cases hs
  · refine ⟨fun p hp n bs hbs => ?_, fun i j p q n n' bs hp hq hbs hbs' => ?_⟩
    · rcases System.mem_spawn hp with hp | rfl
      · exact hinv.drawn p hp n bs hbs
      · cases hbs
    · rcases System.getElem?_spawn hp with hp | rfl
      · rcases System.getElem?_spawn hq with hq | rfl
        · exact hinv.unique i j p q n n' bs hp hq hbs hbs'
        · cases hbs'
      · cases hbs
  · replace hx : exec app c.world e ch = some (r, w) := hx
    have hold := hinv.drawn _ (List.mem_of_getElem? hi)
    -- the bytes that the call draws are in no history
    have hfresh : ∀ j q n n' bs, j ≠ i → c.procs[j]? = some q → ⟨.randomBytes n, bs⟩ ∈ q.hist →
        (⟨.randomBytes n', bs⟩ : Event Eff.Ans) ∈ hist ++ [⟨e, r⟩] → False := by
      intro j q n n' bs hji hq hbs hbs'
      rcases mem_drawn_exec hx hbs' with hbs' | ⟨hnew, -⟩
      · exact hji (hinv.unique j i q _ n n' bs hq hi hbs hbs')
      · exact hnew (hinv.drawn q (List.mem_of_getElem? hq) n bs hbs)
    refine ⟨fun p hp n bs hbs => ?_, fun a b p q n n' bs hp hq hbs hbs' => ?_⟩
    · rcases System.mem_act hp with hp | rfl
      · exact drawn_mono hx (hinv.drawn p hp n bs hbs)
      · rcases mem_drawn_exec hx hbs with hbs | ⟨-, hbs⟩
        · exact drawn_mono hx (hold n bs hbs)
        · exact hbs
    · obtain ⟨rfl, rfl⟩ | ⟨ha, hp'⟩ := System.getElem?_act hp <;>
        obtain ⟨rfl, rfl⟩ | ⟨hb, hq'⟩ := System.getElem?_act hq
      · rfl
      · exact (hfresh b q n' n bs hb hq' hbs' hbs).elim
      · exact (hfresh a p n n' bs ha hp' hbs hbs').elim
      · exact hinv.unique a b p q n n' bs hp' hq' hbs hbs'
  · cases hw
    cases x <;> exact ⟨hinv.drawn, hinv.unique⟩

theorem drawnInv_of_reach {c : ServerConf} {ok} {start : World}
    (h : (server app).Reach ok (System.init start) c) : DrawnInv c :=
  h.invariant ⟨by simp [System.init], by simp [System.init]⟩ fun _ hinv _ hs => hinv.step hs

end AnonyMail
