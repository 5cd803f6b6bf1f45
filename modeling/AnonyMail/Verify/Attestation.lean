import AnonyMail.Verify.Frames

/-! # The attestation flow under interleaving

A challenge is issued once, because random bytes do not repeat, and redeemed once, because
redeeming removes it. The counter of a device only grows, because it is written by a guarded update
alone, until the device is pruned. -/

namespace AnonyMail

open Calls Encoding MemoryStore

variable {app : AppState} {c c' : ServerConf} {m : ServerMove}

/-! ## Challenges -/

/-- The call has redeemed the challenge. -/
def Passes (challenge : String) (e : ServerEntry) : Prop :=
  (⟨e.call, e.answer⟩ : Event Eff.Ans) = ⟨.consumeChallenge challenge, true⟩

def Issues (challenge : String) (t : Instant) (e : ServerEntry) : Prop :=
  e.call = .issueChallenge challenge t

/-- All a call can do to the outstanding challenges. -/
theorem challenges_exec {e : Eff} {r : e.Ans} (hx : exec app w e ch = some (r, w')) :
    (w'.challenges = w.challenges ∧ (∀ x t, e ≠ .issueChallenge x t) ∧
      ∀ x, e ≠ .consumeChallenge x) ∨
    (∃ x t, e = .issueChallenge x t ∧ w'.challenges = w.challenges.issue x t) ∨
    ∃ x, (⟨e, r⟩ : Event Eff.Ans) =
        ⟨.consumeChallenge x, (w.challenges.consume x w.instant).1⟩ ∧
      w'.challenges = w.challenges.erase x := by
  cases exec_effect hx with
  | issue x t => exact .inr (.inl ⟨x, t, rfl, rfl⟩)
  | consume x => exact .inr (.inr ⟨x, rfl, rfl⟩)
  | quiet _ _ _ hi hc => exact .inl ⟨rfl, hi, hc⟩
  | _ => exact .inl ⟨rfl, by simp⟩

theorem lookup_issue {issued : ChallengeStore} (h : (issued.issue x t).lookup y = some u) :
    (y = x ∧ u = t) ∨ (y ≠ x ∧ issued.lookup y = some u) := by
  unfold ChallengeStore.issue at h
  by_cases hy : y = x
  · subst hy
    rw [AList.lookup_insert] at h
    exact .inl ⟨rfl, (Option.some.inj h).symm⟩
  · rw [AList.lookup_insert_ne hy] at h
    refine .inr ⟨hy, ?_⟩
    split at h
    · dsimp only at h
      split at h
      · simp only [HashMap.lookup_retain, Option.filter_eq_some_iff] at h
        exact h.1.1
      · simp only [HashMap.lookup_retain, Option.filter_eq_some_iff] at h
        exact h.1
    · exact h

theorem consume_true {issued : ChallengeStore} (h : (issued.consume x now).1 = true) :
    ∃ t, issued.lookup x = some t ∧ now < t + ChallengeStore.ttl := by
  obtain ⟨t, ht, hlt⟩ := (Option.any_eq_true ..).mp h
  have hlt : now - t < ChallengeStore.ttl := of_decide_eq_true hlt
  have hle : now ≤ t + (now - t) := Nat.sub_le_iff_le_add'.mp le_rfl
  exact ⟨t, ht, hle.trans_lt (Nat.add_lt_add_left hlt t)⟩

/-- A challenge is issued at most once: it stands for random bytes that one process has drawn, and
a process issues one challenge. -/
theorem not_issued {start : World} {i : Nat} {k : (Eff.issueChallenge x u).Ans → Run Outcome}
    (h : (server app).Reach ok (System.init start) c) (hdrawn : DrawnInv c)
    (hi : c.procs[i]? = some ⟨t, hist, .call (.issueChallenge x u) k⟩) :
    ∀ e ∈ c.log, ∀ u', ¬Issues x u' e := by
  intro e he u' hiss
  obtain ⟨p, hp, -, hmem⟩ := h.mem_hist_of_log e he
  obtain ⟨pid, tag, before, call, answer, after⟩ := e
  cases hiss
  obtain ⟨h₁, h₂, hhist⟩ := List.append_of_mem hmem
  obtain ⟨bs, rfl, rfl⟩ := task_kept h (List.mem_of_getElem? hp) hhist
  obtain ⟨bs', rfl, hbs⟩ := (task_lawful h _ (List.mem_of_getElem? hi)).1
  cases base64Url_inj hbs
  have hpid : pid = i :=
    hdrawn.unique pid i p _ 32 32 bs hp hi (by simp [hhist]) (by simp)
  subst hpid
  cases hp.symm.trans hi
  simp at hhist

/-- The outstanding challenges have been issued and not redeemed; what was redeemed was issued. -/
structure Redeem (issued : ChallengeStore) (log : List ServerEntry) : Prop where
  outstanding : ∀ x t, issued.lookup x = some t → ∃ e ∈ log, Issues x t e
  unused : ∀ x t, issued.lookup x = some t → ∀ e ∈ log, ¬Passes x e
  passed : ∀ e ∈ log, ∀ x, Passes x e → ∃ e' ∈ log, ∃ t, Issues x t e'

namespace Redeem

variable {issued : ChallengeStore} {log : List ServerEntry} {e : ServerEntry}

theorem not_passes_append (h : ∀ e ∈ log, ¬Passes x e) (he : ¬Passes x e) :
    ∀ e' ∈ log ++ [e], ¬Passes x e' := by
  intro e' he'
  rcases List.mem_append.mp he' with he' | he'
  · exact h e' he'
  · cases List.mem_singleton.mp he'
    exact he

theorem passed_append (H : Redeem issued log) (he : ∀ x, Passes x e → ∃ t, issued.lookup x = some t) :
    ∀ e' ∈ log ++ [e], ∀ x, Passes x e' → ∃ e'' ∈ log ++ [e], ∃ t, Issues x t e'' := by
  intro e' he' x hp
  have hex : ∃ e'' ∈ log, ∃ t, Issues x t e'' := by
    rcases List.mem_append.mp he' with he' | he'
    · exact H.passed e' he' x hp
    · cases List.mem_singleton.mp he'
      obtain ⟨t, ht⟩ := he x hp
      obtain ⟨e'', he'', hiss⟩ := H.outstanding x t ht
      exact ⟨e'', he'', t, hiss⟩
  obtain ⟨e'', he'', hiss⟩ := hex
  exact ⟨e'', List.mem_append_left _ he'', hiss⟩

theorem other (H : Redeem issued log) (he : ∀ x, ¬Passes x e) : Redeem issued (log ++ [e]) := by
  refine ⟨fun x t ht => ?_, fun x t ht => not_passes_append (H.unused x t ht) (he x),
    H.passed_append fun x hp => (he x hp).elim⟩
  obtain ⟨e', he', hiss⟩ := H.outstanding x t ht
  exact ⟨e', List.mem_append_left _ he', hiss⟩

/-- A challenge that is issued now has not been issued before, so it has not been redeemed. -/
theorem issue (H : Redeem issued log) (hiss : Issues x t e)
    (hnew : ∀ e ∈ log, ∀ u, ¬Issues x u e) : Redeem (issued.issue x t) (log ++ [e]) := by
  have hnp : ∀ y, ¬Passes y e := fun y hp => by
    have := hiss.symm.trans (congrArg Sigma.fst hp)
    cases this
  refine ⟨fun y u hu => ?_, fun y u hu => not_passes_append (fun e' he' hp => ?_) (hnp y),
    H.passed_append fun y hp => (hnp y hp).elim⟩
  · obtain ⟨rfl, rfl⟩ | ⟨-, hu⟩ := lookup_issue hu
    · exact ⟨e, List.mem_append_right _ (List.mem_singleton_self e), hiss⟩
    · obtain ⟨e', he', hiss'⟩ := H.outstanding y u hu
      exact ⟨e', List.mem_append_left _ he', hiss'⟩
  · obtain ⟨rfl, rfl⟩ | ⟨-, hu⟩ := lookup_issue hu
    · obtain ⟨e'', he'', u', hiss'⟩ := H.passed e' he' y hp
      exact hnew e'' he'' u' hiss'
    · exact H.unused y u hu e' he' hp

theorem consume {b : Bool} (H : Redeem issued log) (hb : b = (issued.consume x now).1)
    (he : (⟨e.call, e.answer⟩ : Event Eff.Ans) = ⟨.consumeChallenge x, b⟩) :
    Redeem (issued.erase x) (log ++ [e]) := by
  have hpass : ∀ y, Passes y e → y = x ∧ b = true := by
    intro y hp
    cases hp.symm.trans he
    exact ⟨rfl, rfl⟩
  refine ⟨fun y u hu => ?_, fun y u hu => ?_, H.passed_append fun y hp => ?_⟩
  · rw [HashMap.lookup_erase_eq] at hu
    obtain ⟨e', he', hiss⟩ := H.outstanding y u (Option.ite_none_left_eq_some.mp hu).2
    exact ⟨e', List.mem_append_left _ he', hiss⟩
  · rw [HashMap.lookup_erase_eq] at hu
    obtain ⟨hne, hu⟩ := Option.ite_none_left_eq_some.mp hu
    exact not_passes_append (H.unused y u hu) fun hp => hne (hpass y hp).1
  · obtain ⟨rfl, rfl⟩ := hpass y hp
    obtain ⟨t, ht, -⟩ := consume_true hb.symm
    exact ⟨t, ht⟩

end Redeem

theorem redeem_step {start : World} (h : (server app).Reach ok (System.init start) c)
    (hdrawn : DrawnInv c) (H : Redeem c.world.challenges c.log)
    (hs : (server app).step c m = some c') : Redeem c'.world.challenges c'.log := by
  obtain ⟨t, -, rfl⟩ | ⟨i, ch, t, hist, e, k, r, w, -, hi, hx, rfl⟩ | ⟨x, w, -, hw, rfl⟩ :=
    System.step_cases hs
  · exact H
  · obtain ⟨hw, hni, hnc⟩ | ⟨x, u, rfl, hw⟩ | ⟨x, hev, hw⟩ := challenges_exec hx <;> dsimp only <;>
      rw [hw]
    · exact H.other fun x hp => hnc x (congrArg Sigma.fst hp)
    · exact H.issue rfl (not_issued h hdrawn hi)
    · exact H.consume rfl hev
  · cases hw
    cases x <;> exact H

theorem redeem_of_reach {start : DateTime}
    (h : (server app).Reach ok (System.init (World.start start)) c) :
    Redeem c.world.challenges c.log := by
  refine h.invariant ?_ fun hc hinv _ hs => redeem_step hc (drawnInv_of_reach hc) hinv hs
  exact ⟨by simp [System.init, World.start], by simp [System.init, World.start],
    by simp [System.init]⟩

/-- When a challenge is redeemed, it has been issued less than 300 seconds before and has not been
redeemed. -/
theorem passes_once {start : DateTime}
    (h : (server app).Reach ok (System.init (World.start start)) c)
    (hlog : c.log = l₁ ++ e :: l₂) (hp : Passes x e) :
    (∀ e' ∈ l₁, ¬Passes x e') ∧
      ∃ e' ∈ l₁, ∃ t, Issues x t e' ∧ e.before.instant < t + ChallengeStore.ttl := by
  obtain ⟨c₁, c₂, ch, hist, k, h₁, rfl, hw, -, -, -, hx, -, -⟩ := h.split_log hlog
  have H := redeem_of_reach h₁
  rw [hw] at H
  obtain ⟨pid, tag, before, call, answer, after⟩ := e
  cases hp
  obtain ⟨t, ht, hlt⟩ := consume_true (congrArg Prod.fst (Option.some.inj hx))
  obtain ⟨e', he', hiss⟩ := H.outstanding x t ht
  exact ⟨H.unused x t ht, e', he', t, hiss, hlt⟩

/-! ## Counters -/

/-- The call has accepted the counter `n` for the device `key`. -/
def Accepts (key : String) (n : Int) (e : ServerEntry) : Prop :=
  ∃ t, (⟨e.call, e.answer⟩ : Event Eff.Ans) =
    ⟨.store (.advanceAttestedDeviceCounter key n t), .ok true⟩

/-- The call has removed the device `key`. -/
def Removes (key : String) (e : ServerEntry) : Prop :=
  (e.before.store.attestedDevices.lookup key).isSome ∧
    e.after.store.attestedDevices.lookup key = none

/-- The counter of a device that is not removed does not go down. -/
theorem counter_exec {e : Eff} {r : e.Ans} (hx : exec app w e ch = some (r, w'))
    (hd : w.store.attestedDevices.lookup key = some d) :
    w'.store.attestedDevices.lookup key = none ∨
      ∃ d', w'.store.attestedDevices.lookup key = some d' ∧ d.counter ≤ d'.counter := by
  by_cases he : ∃ op, e = .store op
  · obtain ⟨op, rfl⟩ := he
    obtain ⟨-, -, rfl⟩ | ⟨ids, -, -, -, -, ha, -⟩ := exec_store_cases hx
    · exact .inr ⟨d, hd, le_rfl⟩
    · rw [show w'.store = _ from (congrArg Prod.snd ha).symm]
      obtain h | ⟨_, _, d', -, h, ⟨h', -⟩ | ⟨d'', h', hc⟩⟩ | ⟨n, _, d', -, h', hlt, h⟩ |
        ⟨_, -, h⟩ := device_apply op key
      · exact .inr ⟨d, h.trans hd, le_rfl⟩
      · cases hd.symm.trans h'
      · cases hd.symm.trans h'
        exact .inr ⟨d', h, hc.ge⟩
      · cases hd.symm.trans h'
        exact .inr ⟨_, h, hlt.le⟩
      · exact .inl h
  · rw [exec_store_eq hx fun op h => he ⟨op, h⟩]
    exact .inr ⟨d, hd, le_rfl⟩

theorem accepts_exec (ha : Accepts key n e)
    (hx : exec app e.before e.call ch = some (e.answer, e.after)) :
    ∃ d d', e.before.store.attestedDevices.lookup key = some d ∧ d.counter < n ∧
      e.after.store.attestedDevices.lookup key = some d' ∧ d'.counter = n := by
  obtain ⟨pid, tag, before, call, answer, after⟩ := e
  obtain ⟨t, heq⟩ := ha
  cases heq
  obtain ⟨-, ⟨⟩, -⟩ | ⟨ids, -, -, -, -, ha, -⟩ := exec_store_cases hx
  simp only [StoreOp.apply, advanceAttestedDeviceCounter] at ha
  split at ha
  · next d hd =>
    split at ha
    · next hlt =>
      have hlookup := congrArg (fun x => x.2.attestedDevices.lookup key) ha
      exact ⟨d, _, hd, hlt, hlookup.symm.trans (AList.lookup_insert _), rfl⟩
    · cases ha
  · cases ha

/-- An accepted counter stays a lower bound until the device is removed. -/
theorem accepted_le {start : World} (h : (server app).Reach ok (System.init start) c)
    (hlog : c.log = l₁ ++ e :: l₂) (ha : Accepts key n e) (hr : ∀ e' ∈ l₂, ¬Removes key e') :
    ∃ d, c.world.store.attestedDevices.lookup key = some d ∧ n ≤ d.counter := by
  induction h generalizing l₂ with
  | refl => simp [System.init] at hlog
  | tail hc _ hs ih =>
    obtain ⟨t, -, rfl⟩ | ⟨i, ch, t, hist, e', k, r, w, -, hi, hx, rfl⟩ | ⟨x, w, -, hw, rfl⟩ :=
      System.step_cases hs
    · exact ih hlog hr
    · obtain ⟨rfl, rfl⟩ | ⟨l₂', hl, rfl⟩ := concat_eq_split hlog
      · obtain ⟨d, d', -, -, hd', hn⟩ := accepts_exec ha hx
        exact ⟨d', hd', hn.ge⟩
      · obtain ⟨d, hd, hle⟩ := ih hl fun e' he' => hr e' (List.mem_append_left _ he')
        rcases counter_exec hx hd with hnone | ⟨d', hd', hle'⟩
        · refine (hr _ (List.mem_append_right _ (List.mem_singleton_self _)) ⟨?_, hnone⟩).elim
          exact Option.isSome_iff_exists.mpr ⟨d, hd⟩
        · exact ⟨d', hd', hle.trans hle'⟩
    · cases hw
      cases x <;> exact ih hlog hr

theorem accepted_lt {start : World} (h : (server app).Reach ok (System.init start) c)
    (hlog : c.log = l₁ ++ e :: (l₂ ++ e' :: l₃)) (ha : Accepts key n e) (ha' : Accepts key n' e')
    (hr : ∀ x ∈ l₂, ¬Removes key x) : n < n' := by
  have hlog' : c.log = (l₁ ++ e :: l₂) ++ e' :: l₃ := by simp [hlog]
  obtain ⟨c₁, c₂, ch, hist, k, h₁, hl, hw, -, -, -, hx, -, -⟩ := h.split_log hlog'
  obtain ⟨d, hd, hle⟩ := accepted_le h₁ hl ha hr
  obtain ⟨d', _, hd', hlt, -⟩ := accepts_exec ha' hx
  rw [hw] at hd
  cases hd.symm.trans hd'
  exact hle.trans_lt hlt

theorem ok_of_bind {x : Except ε α} {f : α → Except ε β} {b : β} (h : (x >>= f) = .ok b) :
    ∃ a, x = .ok a ∧ f a = .ok b := by
  cases x with
  | error e => cases h
  | ok a => exact ⟨a, rfl, h⟩

/-- The counter that an accepted assertion carries is a `u32`. -/
theorem verifyAssertion_range {D : Deps} {counter : Int}
    (h : Attest.verifyAssertion D appId challenge assertion key previous = .ok counter) :
    0 ≤ counter ∧ counter < 2 ^ 32 := by
  unfold Attest.verifyAssertion at h
  dsimp only at h
  split at h
  · cases h
  · obtain ⟨cbor, -, h⟩ := ok_of_bind h
    obtain ⟨prev, -, h⟩ := ok_of_bind h
    obtain ⟨n, -, h⟩ := ok_of_bind h
    obtain ⟨parsed, -, h⟩ := ok_of_bind h
    obtain ⟨_, -, h⟩ := ok_of_bind h
    cases h
    have := n.toNat_lt
    omega

/-- A stored counter is a `u32`. -/
def InRange (n : Int) : Prop := 0 ≤ n ∧ n < 2 ^ 32

theorem inRange_of_reach {start : DateTime}
    (h : (server app).Reach ok (System.init (World.start start)) c) :
    ∀ key d, c.world.store.attestedDevices.lookup key = some d → InRange d.counter := by
  refine h.invariant (I := fun c => ∀ key d, c.world.store.attestedDevices.lookup key = some d →
    InRange d.counter) (by simp [System.init, World.start, Inner.empty]) ?_
  intro c c' m hc hinv _ hs key d hd
  obtain hstore | ⟨t, hist, op, k, ids, r, hm, hp, hp', -, hstore⟩ := store_step hs
  · exact hinv key d (hstore ▸ hd)
  rw [hstore] at hd
  obtain h | ⟨_, _, d', -, h, ⟨-, hz⟩ | ⟨d'', h', hn⟩⟩ | ⟨n, _, d', rfl, -, -, h⟩ | ⟨_, -, h⟩ :=
    device_apply op key <;> rw [h] at hd
  · exact hinv key d hd
  · cases hd
    rw [hz]
    exact ⟨le_rfl, by decide⟩
  · cases hd
    rw [hn]
    exact hinv key d'' h'
  · cases hd
    obtain ⟨-, req, device, appId, -, -, -, -, hok⟩ := (task_lawful hc _ hp).1
    exact verifyAssertion_range hok
  · cases hd

/-- The device that a request has read was in the store. -/
theorem device_read {start : DateTime}
    (h : (server app).Reach ok (System.init (World.start start)) c) (hp : p ∈ c.procs)
    (hd : ⟨.store (.getAttestedDevice key), .ok (some d)⟩ ∈ p.hist) : InRange d.counter := by
  obtain ⟨i, hi⟩ := List.getElem?_of_mem hp
  obtain ⟨e, he, -, -, hev⟩ := h.mem_log_of_hist hi hd
  obtain ⟨l₁, l₂, hlog⟩ := List.append_of_mem he
  obtain ⟨c₁, c₂, ch, hist, k, h₁, -, hw, -, -, -, hx, -, -⟩ := h.split_log hlog
  obtain ⟨pid, tag, before, call, answer, after⟩ := e
  cases hev
  cases hw
  replace hx : exec app c₁.world (.store (.getAttestedDevice key)) ch = some (.ok (some d), after) := hx
  obtain ⟨-, ⟨⟩, -⟩ | ⟨ids, -, -, -, -, ha, -⟩ := exec_store_cases hx
  simp only [StoreOp.apply, Prod.mk.injEq, Except.ok.injEq] at ha
  exact inRange_of_reach h₁ key d ha.1

theorem error_of_bind {x : Except ε α} {f : α → Except ε β} {e : ε} (h : (x >>= f) = .error e) :
    x = .error e ∨ ∃ a, x = .ok a ∧ f a = .error e := by
  cases x with
  | error e' => cases h; exact .inl rfl
  | ok a => exact .inr ⟨a, rfl, h⟩

theorem mapError_error {x : Except ε α} {f : ε → ε'} {e : ε'} (h : x.mapError f = .error e) :
    ∃ e', e = f e' := by
  cases x with
  | error e' => cases h; exact ⟨e', rfl⟩
  | ok a => cases h

theorem head_append {s t : String} {x : Char} (h : s.toList.head? = some x) :
    (s ++ t).toList.head? = some x := by
  rw [String.toList_append, List.head?_append, h, Option.some_or]

theorem assertionCounter_error {D : Deps} (h : Attest.assertionCounter D cbor = .error e) :
    e.toList.head? = some 'a' := by
  have hfind : ∀ n input, Attest.findCounter D n input = .error e → e.toList.head? = some 'a' := by
    intro n
    induction n with
    | zero => rintro input ⟨⟩; decide
    | succ n ih =>
      intro input h
      unfold Attest.findCounter at h
      repeat' split at h
      all_goals first | exact ih _ h | (cases h; try decide)
  unfold Attest.assertionCounter at h
  split at h
  · cases h; decide
  · exact hfind _ _ h

/-- The errors of `verify_assertion`, less the one of a stored counter out of range. -/
theorem verifyAssertion_error {D : Deps} (hn : InRange previous)
    (h : Attest.verifyAssertion D appId challenge assertion key previous = .error e) :
    e.toList.head? = some 'a' := by
  unfold Attest.verifyAssertion at h
  dsimp only at h
  split at h
  · cases h; decide
  rcases error_of_bind h with h | ⟨cbor, -, h⟩
  · obtain ⟨e', rfl⟩ := mapError_error h
    exact head_append (by decide)
  rcases error_of_bind h with h | ⟨prev, -, h⟩
  · rw [Attest.tryIntoU32, if_pos ⟨hn.1, hn.2⟩] at h
    cases h
  rcases error_of_bind h with h | ⟨n, -, h⟩
  · exact assertionCounter_error h
  rcases error_of_bind h with h | ⟨parsed, -, h⟩
  · obtain ⟨e', rfl⟩ := mapError_error h
    exact head_append (by decide)
  rcases error_of_bind h with h | ⟨_, -, h⟩
  · obtain ⟨e', rfl⟩ := mapError_error h
    exact head_append (by decide)
  cases h

/-! ## Successful asserts -/

namespace Api

theorem yields_assert (req : AssertRequest) :
    Yields (fun _ _ => True)
      (fun h _ => ∃ n t, ⟨.store (.advanceAttestedDeviceCounter req.keyId n t), .ok true⟩ ∈ h) []
      (Client.assert app req) := by
  refine yields_any.bind fun _ appId _ => yields_any.bind fun _ _ _ => ?_
  refine yields_any.bind fun _ _ _ => yields_any.bind fun _ found _ => ?_
  cases found with
  | none => exact yields_throw
  | some device =>
    dsimp only
    split
    · exact yields_throw
    · refine yields_any.bind fun _ now _ => yields_store_bind trivial fun b => ?_
      cases b with
      | false => exact yields_throw
      | true =>
        refine yields_of_mem (List.mem_append_right _ (List.mem_singleton_self _)) ?_
        exact fun h' _ hmem => ⟨_, now, hmem⟩

end Api

/-- A request of the attestation flow that has returned a token after an assertion has had its
counter accepted. -/
theorem assert_obeys (t : Task) : Prog.Obeys (fun _ _ => True) (fun h out =>
    ∀ req r, t = .http (.assert req) → out = .response (.ok r) →
      ∃ n u, ⟨.store (.advanceAttestedDeviceCounter req.keyId n u), .ok true⟩ ∈ h) []
    (t.prog app) := by
  by_cases ht : ∃ req, t = .http (.assert req)
  · obtain ⟨req, rfl⟩ := ht
    refine Prog.obeys_bind.mpr (Prog.obeys_bind.mpr ((Api.yields_assert req).obeys.mono ?_))
    rintro h out hout
    cases out with
    | ok a =>
      rintro _ _ ⟨⟩ -
      exact hout a rfl
    | error e =>
      rintro _ _ - ⟨⟩
  · exact Prog.obeys_trivial.mono fun h out _ req _ heq => (ht ⟨req, heq⟩).elim

theorem assert_accepted {start : World} (h : (server app).Reach ok (System.init start) c)
    (hp : c.procs[i]? = some p) (htag : p.tag = .http (.assert req))
    (hret : p.rest = .ret (.response (.ok r))) :
    ∃ e ∈ c.log, e.pid = i ∧ ∃ n, Accepts req.keyId n e ∧ ∃ appId, ∃ device : AttestedDevice,
      Attest.verifyAssertion app.deps appId req.challenge req.assertion device.publicKey
        device.counter = .ok n := by
  have hmem := List.mem_of_getElem? hp
  have hobeys := h.obeys assert_obeys p hmem
  rw [hret] at hobeys
  obtain ⟨n, u, hev⟩ := hobeys req r htag rfl
  obtain ⟨e, he, hpid, -, heq⟩ := h.mem_log_of_hist hp hev
  obtain ⟨h₁, h₂, hhist⟩ := List.append_of_mem hev
  obtain ⟨-, req', device, appId, htag', -, -, -, hok⟩ := task_kept h hmem hhist
  cases htag.symm.trans htag'
  exact ⟨e, he, hpid, n, ⟨u, heq⟩, appId, device, hok⟩

/-- A device that attests again keeps its counter. -/
theorem reattested {start : World} (h : (server app).Reach ok (System.init start) c)
    (he : e ∈ c.log) (hcall : e.call = .store (.upsertAttestedDevice key pk t))
    (hd : e.before.store.attestedDevices.lookup key = some d) :
    ∃ d', e.after.store.attestedDevices.lookup key = some d' ∧ d'.counter = d.counter := by
  obtain ⟨l₁, l₂, hlog⟩ := List.append_of_mem he
  obtain ⟨c₁, c₂, ch, hist, k, h₁, -, -, -, -, -, hx, -, -⟩ := h.split_log hlog
  obtain ⟨pid, tag, before, call, answer, after⟩ := e
  cases hcall
  replace hx : exec app before (.store (.upsertAttestedDevice key pk t)) ch = some (answer, after) :=
    hx
  obtain ⟨-, -, rfl⟩ | ⟨ids, -, -, -, -, ha, -⟩ := exec_store_cases hx
  · exact ⟨d, hd, rfl⟩
  · simp only [StoreOp.apply, upsertAttestedDevice, hd] at ha
    have hlookup := congrArg (fun x => x.2.attestedDevices.lookup key) ha
    exact ⟨_, hlookup.symm.trans (AList.lookup_insert _), rfl⟩

/-- The guarantees of the attestation flow in a configuration. -/
structure AttestationSafe (app : AppState) (c : ServerConf) : Prop where
  /-- A challenge is redeemed once, less than 300 seconds after it was issued. -/
  redeemed : ∀ x l₁ e l₂, c.log = l₁ ++ e :: l₂ → Passes x e → (∀ e' ∈ l₁, ¬Passes x e') ∧
    ∃ e' ∈ l₁, ∃ t, Issues x t e' ∧ e.before.instant < t + ChallengeStore.ttl
  /-- A request that succeeds with an assertion has had its counter accepted. -/
  asserted : ∀ (i : Nat) (p : Proc Task Eff.Ans Outcome) req r, c.procs[i]? = some p →
    p.tag = .http (.assert req) → p.rest = .ret (.response (.ok r)) →
    ∃ e ∈ c.log, e.pid = i ∧ ∃ n, Accepts req.keyId n e ∧ ∃ appId, ∃ device : AttestedDevice,
      Attest.verifyAssertion app.deps appId req.challenge req.assertion device.publicKey
        device.counter = .ok n
  /-- As long as the device is not removed, accepted counters grow. -/
  increasing : ∀ key l₁ e l₂ e' l₃ n n', c.log = l₁ ++ e :: (l₂ ++ e' :: l₃) → Accepts key n e →
    Accepts key n' e' → (∀ x ∈ l₂, ¬Removes key x) → n < n'
  reattested : ∀ e ∈ c.log, ∀ key pk t d, e.call = .store (.upsertAttestedDevice key pk t) →
    e.before.store.attestedDevices.lookup key = some d →
    ∃ d', e.after.store.attestedDevices.lookup key = some d' ∧ d'.counter = d.counter
  range : ∀ key d, c.world.store.attestedDevices.lookup key = some d → InRange d.counter
  /-- The conversion of the stored counter does not fail. -/
  convertible : ∀ p ∈ c.procs, ∀ key d,
    ⟨.store (.getAttestedDevice key), .ok (some d)⟩ ∈ p.hist → ∀ appId challenge assertion,
    Attest.verifyAssertion app.deps appId challenge assertion d.publicKey d.counter ≠
      .error "stored counter out of range"

def attestServer : AppState :=
  ⟨.refusing [], { Config.default with appAttestTeamId := some "TEAMID", appAttestBundleId := some "app" },
    false⟩

/-- A challenge is issued and presented with an attestation that is not base64. -/
def attestMoves : List ServerMove :=
  .spawn (.http .challenge) :: acts 0 [.bytes (List.replicate 32 0), .answer, .answer] ++
    .env (.instant 5) :: .spawn (.http (.attest
      ⟨"key", "!", "AAAAAAAAAAAAAAAAAAAAAAAAAAAAAAAAAAAAAAAAAAA", none⟩)) :: acts 1 [.answer]

end AnonyMail
