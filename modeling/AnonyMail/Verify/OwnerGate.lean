import AnonyMail.Verify.Frames

/-! # Owner-gated requests under interleaving

A request that needs the owner token reads the mailbox, compares the token, and then acts on the
address in a second store call. What it has compared is still true at the second call if the mailbox
was not taken from the holder of the token in between. -/

namespace AnonyMail

open Calls MemoryStore

/-! ## Comparing tokens -/

theorem foldl_or_eq_zero {l : List (UInt8 × UInt8)} {acc : UInt8} :
    l.foldl (fun acc (x, y) => acc ||| (x ^^^ y)) acc = 0 ↔ acc = 0 ∧ ∀ p ∈ l, p.1 = p.2 := by
  induction l generalizing acc with
  | nil => simp
  | cons p l ih => simp [ih, and_assoc]

theorem eq_of_constantTimeEq {a b : List UInt8} (h : Api.constantTimeEq a b) : a = b := by
  unfold Api.constantTimeEq at h
  split at h
  · cases h
  · next hlen =>
    have hzip := (foldl_or_eq_zero.mp (eq_of_beq h)).2
    refine List.ext_getElem (not_not.mp hlen) fun i ha hb => ?_
    exact hzip (a[i], b[i]) (List.mem_iff_getElem.mpr ⟨i, by simp [ha, hb], by simp⟩)

theorem Str.asBytes_inj {s s' : String} (h : Str.asBytes s = Str.asBytes s') : s = s' := by
  have hdata := Array.toList_inj.mp h
  exact String.toByteArray_inj.mp (ByteArray.ext hdata)

theorem eq_of_tokenMatchesHash {D : Deps} (h : Api.tokenMatchesHash D token want) :
    want = Api.hashToken D token := (Str.asBytes_inj (eq_of_constantTimeEq h)).symm

theorem constantTimeEq_self (a : List UInt8) : Api.constantTimeEq a a := by
  rw [Api.constantTimeEq, if_neg (not_not.mpr rfl), beq_iff_eq, foldl_or_eq_zero]
  refine ⟨rfl, fun p hp => ?_⟩
  obtain ⟨i, hi, rfl⟩ := List.mem_iff_getElem.mp hp
  simp

theorem tokenMatchesHash_iff {D : Deps} :
    Api.tokenMatchesHash D token want ↔ want = Api.hashToken D token :=
  ⟨eq_of_tokenMatchesHash, fun h => h ▸ constantTimeEq_self _⟩

theorem constantTimeEq_iff {a b : List UInt8} : Api.constantTimeEq a b ↔ a = b :=
  ⟨eq_of_constantTimeEq, fun h => h ▸ constantTimeEq_self a⟩

/-- Comparing tokens is comparing their digests: the fold over zipped bytes of any lengths decides
equality, and two digests have one text only if they are the same bytes. -/
theorem tokenComparison_exact :
    (∀ a b : List UInt8, Api.constantTimeEq a b ↔ a = b) ∧
      (∀ a b : List UInt8, Encoding.hex a = Encoding.hex b ↔ a = b) ∧
      ∀ (D : Deps) (presented token : String),
        Api.tokenMatchesHash D presented (Api.hashToken D token) ↔
          D.sha256 (Str.asBytes presented) = D.sha256 (Str.asBytes token) := by
  refine ⟨fun a b => constantTimeEq_iff, fun a b => ⟨Encoding.hex_inj, congrArg _⟩,
    fun D presented token => ?_⟩
  rw [tokenMatchesHash_iff]
  constructor
  · intro h
    exact (Encoding.hex_inj h).symm
  · intro h
    rw [Api.hashToken, Api.hashToken, h]

theorem runs_authorizeOwner {app : AppState} {hs : Api.HeaderMap} {mb : Mailbox}
    (htok : Api.bearerToken hs = some token)
    (hwant : mb.ownerTokenHash = some want) (hmatch : Api.tokenMatchesHash app.deps token want) :
    Prog.Runs (Api.authorizeOwner app a hs).run [⟨.store (.getMailbox a), .ok (some mb)⟩] (.ok mb) := by
  refine .call ?_
  show Prog.Runs (Api.okOr (.unauthorized "missing bearer token") (Api.bearerToken hs) >>= _).run [] _
  obtain ⟨address, domain, createdAt, expiresAt, hash, device⟩ := mb
  cases hwant
  rw [htok]
  show Prog.Runs (if Api.tokenMatchesHash app.deps token want then return _
    else throw (.unauthorized "invalid owner token") : Api.Handler Mailbox).run [] _
  rw [if_pos hmatch]
  exact .ret

/-! ## Requests in flight -/

/-- The mailbox `a`, if the call has read it. -/
def readMailbox (a : String) : Event Eff.Ans → Option Mailbox
  | ⟨.store (.getMailbox a'), .ok (some mb)⟩ => if a' = a then some mb else none
  | _ => none

def mailboxesRead (a : String) (h : Hist) : List Mailbox := h.filterMap (readMailbox a)

def isGated : Event Eff.Ans → Bool
  | ⟨.store op, _⟩ => op.gated.isSome
  | _ => false

/-- The address of an owner-gated request that has read the mailbox and has yet to act on it. -/
def inFlight (p : Proc Task Eff.Ans Outcome) : Option String :=
  match p.tag.ownerGated with
  | some (a, _) =>
    if mailboxesRead a p.hist ≠ [] ∧ (∀ ev ∈ p.hist, ¬isGated ev) ∧ ¬p.rest.Done then some a
    else none
  | none => none

/-- The call takes the mailbox `a` from the holder of its token. -/
def StoreOp.replaces (s : Inner) (a : String) : StoreOp → Bool
  | .rotateOwnerToken a' _ | .deleteMailbox a' => a' == a
  | .purgeExpired now => (s.mailboxes.lookup a).any fun mb => mb.expiresAt ≤ now
  | _ => false

/-- No mailbox is rotated, deleted or purged while another owner-gated request on it is in
flight. -/
def undisturbed (c : ServerConf) (m : ServerMove) : Bool :=
  match m, commit c m with
  | .act i _, some (_, _, op) => c.procs.zipIdx.all fun (p, j) =>
    j == i || (inFlight p).all fun a => !op.replaces c.world.store a
  | _, _ => true

variable {app : AppState} {c c' : ServerConf} {m : ServerMove}

theorem inFlight_eq_some {p : Proc Task Eff.Ans Outcome} :
    inFlight p = some a ↔ (∃ hs, p.tag.ownerGated = some (a, hs)) ∧ mailboxesRead a p.hist ≠ [] ∧
      (∀ ev ∈ p.hist, ¬isGated ev) ∧ ¬p.rest.Done := by
  unfold inFlight
  split
  · next a' hs ht =>
    rw [Option.ite_none_right_eq_some, ht]
    constructor
    · rintro ⟨h, ⟨⟩⟩
      exact ⟨⟨hs, rfl⟩, h⟩
    · rintro ⟨⟨_, ⟨⟩⟩, h⟩
      exact ⟨h, rfl⟩
  · next ht => simp [ht]

theorem undisturbed_apply {i j : Nat} {ch : Choice} (hok : undisturbed c (.act i ch))
    (hm : commit c (.act i ch) = some (t, hist, op)) (hji : j ≠ i) (hj : c.procs[j]? = some p)
    (hp : inFlight p = some a) : ¬op.replaces c.world.store a := by
  simp only [undisturbed, hm, List.all_eq_true, Bool.or_eq_true, beq_iff_eq] at hok
  have h := hok (p, j) (List.mem_zipIdx_iff_getElem?.mpr hj)
  rw [hp] at h
  simpa [hji] using h

/-! ## Mailboxes that keep their token -/

structure OwnerInv (c : ServerConf) : Prop where
  key : ∀ a mb, c.world.store.mailboxes.lookup a = some mb → mb.address = a
  held : ∀ p ∈ c.procs, ∀ a, inFlight p = some a → ∀ mb ∈ mailboxesRead a p.hist,
    ∃ row, c.world.store.mailboxes.lookup a = some row ∧ row.ownerTokenHash = mb.ownerTokenHash

/-- A mailbox that is not taken away keeps its owner token. -/
theorem owner_step (hkey : Named c.world.store)
    (hs : (server app).step c m = some c') (hrow : c.world.store.mailboxes.lookup a = some row)
    (hkeep : ∀ t hist op, commit c m = some (t, hist, op) → ¬op.replaces c.world.store a) :
    ∃ row', c'.world.store.mailboxes.lookup a = some row' ∧
      row'.ownerTokenHash = row.ownerTokenHash := by
  obtain hstore | ⟨t, hist, op, _, _, _, hm, -, -, -, hstore⟩ := store_step hs
  · exact ⟨row, hstore ▸ hrow, rfl⟩
  have hrep := hkeep t hist op hm
  rw [hstore]
  obtain h | ⟨h, -⟩ | ⟨x, mb, -, hmb, h⟩ | ⟨_, mb, rfl, -⟩ | ⟨rfl, -⟩ |
    ⟨now, mb, rfl, hmb, rfl, hx, -⟩ := mailbox_apply op a
  · exact ⟨row, h.trans hrow, rfl⟩
  · cases hrow.symm.trans h
  · cases hrow.symm.trans hmb
    exact ⟨_, h, rfl⟩
  · simp [StoreOp.replaces] at hrep
  · simp [StoreOp.replaces] at hrep
  · obtain ⟨a, ha⟩ := HashMap.mem_values.mp hmb
    cases hkey a mb ha
    simp [StoreOp.replaces, ha, hx] at hrep

/-- A mailbox that is read is in the store. -/
theorem readMailbox_exec {e : Eff} {r : e.Ans} (hx : exec app w e ch = some (r, w'))
    (hmb : readMailbox a ⟨e, r⟩ = some mb) :
    w.store.mailboxes.lookup a = some mb ∧ w'.store = w.store := by
  unfold readMailbox at hmb
  split at hmb
  · next a' mb' heq =>
    cases heq
    obtain ⟨rfl, ⟨⟩⟩ := Option.ite_none_right_eq_some.mp hmb
    obtain ⟨-, ⟨⟩, -⟩ | ⟨ids, -, -, -, -, ha, -⟩ := exec_store_cases hx
    simp only [StoreOp.apply, Prod.mk.injEq, Except.ok.injEq] at ha
    exact ⟨ha.1, ha.2.symm⟩
  · cases hmb

/-- A request does not take the mailbox away before it acts on it. -/
theorem not_replaces_self {e : Eff} {k : e.Ans → Run Outcome} {r : e.Ans}
    (hlaw : System.Lawful (Protocol app) ⟨t, hist, .call e k⟩)
    (hp : inFlight ⟨t, hist ++ [⟨e, r⟩], k r⟩ = some a) (he : e = .store op) :
    ¬op.replaces s a := by
  obtain ⟨⟨hs, ht⟩, -, hgate, -⟩ := inFlight_eq_some.mp hp
  subst he
  have hop : op.gated = none := by
    simpa [isGated] using hgate ⟨.store op, r⟩ (by simp)
  have hpurge : ∀ now, op ≠ .purgeExpired now := by
    rintro now rfl
    cases (hlaw.1.2 : t = .cleanup)
    cases ht
  unfold StoreOp.replaces
  split
  · cases hop
  · cases hop
  · exact absurd rfl (hpurge _)
  · exact Bool.false_ne_true

theorem OwnerInv.step (hinv : OwnerInv c)
    (hlaw : ∀ p ∈ c.procs, System.Lawful (Protocol app) p) (hok : undisturbed c m)
    (hs : (server app).step c m = some c') : OwnerInv c' := by
  refine ⟨Named.step hinv.key hs, fun p hp a hfl mb hmb => ?_⟩
  obtain ⟨t, rfl, rfl⟩ | ⟨i, ch, t, hist, e, k, r, w, rfl, hi, hx, rfl⟩ | ⟨x, w, rfl, hw, rfl⟩ :=
    System.step_cases hs
  · rcases System.mem_spawn hp with hp | rfl
    · exact hinv.held p hp a hfl mb hmb
    · cases hmb
  · obtain ⟨j, hj⟩ := List.getElem?_of_mem hp
    obtain ⟨-, rfl⟩ | ⟨hji, hj⟩ := System.getElem?_act hj
    · rw [mailboxesRead, List.filterMap_append, List.mem_append] at hmb
      rcases hmb with hmb | hmb
      · have hfl' : inFlight ⟨t, hist, .call e k⟩ = some a := by
          obtain ⟨ht, -, hgate, -⟩ := inFlight_eq_some.mp hfl
          refine inFlight_eq_some.mpr ⟨ht, List.ne_nil_of_mem hmb, fun ev hev => ?_, id⟩
          exact hgate ev (List.mem_append_left _ hev)
        have hmem := List.mem_of_getElem? hi
        obtain ⟨row, hrow, hhash⟩ := hinv.held _ hmem a hfl' mb hmb
        obtain ⟨row', hrow', hhash'⟩ := owner_step hinv.key hs hrow fun t hist op hm =>
          not_replaces_self (hlaw _ hmem) hfl (eq_store_of_commit hi hm)
        exact ⟨row', hrow', hhash'.trans hhash⟩
      · obtain ⟨ev, hev, hmb⟩ := List.mem_filterMap.mp hmb
        cases List.mem_singleton.mp hev
        obtain ⟨hrow, hstore⟩ := readMailbox_exec hx hmb
        exact ⟨mb, hstore ▸ hrow, rfl⟩
    · obtain ⟨row, hrow, hhash⟩ := hinv.held p (List.mem_of_getElem? hj) a hfl mb hmb
      obtain ⟨row', hrow', hhash'⟩ := owner_step hinv.key hs hrow fun t hist op hm =>
        undisturbed_apply hok hm hji hj hfl
      exact ⟨row', hrow', hhash'.trans hhash⟩
  · cases hw
    cases x <;> exact hinv.held p hp a hfl mb hmb

/-! ## The owner at the second call -/

/-- If the call is the second store call of an owner-gated request and changes the store, the
mailbox belongs to the holder of the bearer token that the request has presented. -/
def OwnerHeld (app : AppState) (e : Entry World Task Eff.Ans) : Prop :=
  ∀ op a, e.call = .store op → op.gated = some a → e.after.store ≠ e.before.store →
    ∃ hs token row, e.tag.ownerGated = some (a, hs) ∧ Api.bearerToken hs = some token ∧
      e.before.store.mailboxes.lookup a = some row ∧
      row.ownerTokenHash = some (Api.hashToken app.deps token)

theorem inFlight_of_authorized {k : (Eff.store op).Ans → Run Outcome}
    (ht : t.ownerGated = some (a, hs)) (hauth : Authorized app hist a hs mb) (hh : Ungated hist) :
    inFlight ⟨t, hist, .call (.store op) k⟩ = some a ∧ mb ∈ mailboxesRead a hist := by
  have hmb : mb ∈ mailboxesRead a hist :=
    List.mem_filterMap.mpr ⟨_, hauth.1, by simp [readMailbox]⟩
  refine ⟨inFlight_eq_some.mpr ⟨⟨hs, ht⟩, List.ne_nil_of_mem hmb, ?_, id⟩, hmb⟩
  rintro ⟨e, r⟩ hev
  cases e with
  | store op' => simp [isGated, hh _ hev op' rfl]
  | _ => exact Bool.false_ne_true

theorem ownerHeld_of_undisturbed {start : DateTime}
    (h : (server app).Reach (undisturbed · ·) (System.init (World.start start)) c) :
    ∀ e ∈ c.log, OwnerHeld app e := by
  intro e he op a hcall hop _
  obtain ⟨l₁, l₂, hlog⟩ := List.append_of_mem he
  obtain ⟨c₁, c₂, ch, hist, k, h₁, -, hw, hi, -⟩ := h.split_log hlog
  have hinv : OwnerInv c₁ := by
    refine h₁.invariant ⟨by simp [System.init, World.start, Inner.empty], by simp [System.init]⟩ ?_
    exact fun hc hinv hok hs => hinv.step (task_lawful hc) hok hs
  obtain ⟨pid, tag, before, call, answer, after⟩ := e
  cases hcall
  cases hw
  have hmem := List.mem_of_getElem? hi
  obtain ⟨hs, mb, ht, hauth, hh⟩ := (task_lawful h₁ _ hmem).1.1 a hop
  obtain ⟨hfl, hmb⟩ := inFlight_of_authorized ht hauth hh
  obtain ⟨row, hrow, hhash⟩ := hinv.held _ hmem a hfl mb hmb
  obtain ⟨-, token, want, hb, hwant, hmatch⟩ := hauth
  refine ⟨hs, token, row, ht, hb, hrow, ?_⟩
  rw [hhash, hwant, eq_of_tokenMatchesHash hmatch]

/-! A server and some requests on one address. The owner tokens are those that the bytes `0`, `1` and
`2` give, with their SHA-256 digests. -/

def ownerToken : String := "am_AAAAAAAAAAAAAAAAAAAAAAAAAAAAAAAAAAAAAAAAAAA"

def ownerDigests : List (List UInt8 × List UInt8) :=
  [(Str.asBytes ownerToken,
    [151, 168, 37, 130, 246, 32, 86, 133, 207, 52, 106, 165, 159, 156, 8, 158, 184, 34, 143, 156,
      186, 197, 108, 118, 61, 192, 101, 42, 248, 65, 26, 195]),
   (Str.asBytes "am_AQEBAQEBAQEBAQEBAQEBAQEBAQEBAQEBAQEBAQEBAQE",
    [205, 252, 235, 95, 171, 22, 89, 208, 153, 78, 45, 110, 118, 191, 125, 230, 35, 40, 204, 168,
      165, 212, 108, 38, 53, 197, 207, 194, 114, 173, 85, 151]),
   (Str.asBytes "am_AgICAgICAgICAgICAgICAgICAgICAgICAgICAgICAgI",
    [72, 12, 184, 130, 138, 139, 202, 170, 129, 115, 253, 186, 46, 169, 13, 242, 220, 146, 59, 248,
      14, 145, 40, 20, 111, 192, 125, 43, 166, 58, 127, 63])]

def ownerServer : AppState := ⟨.refusing ownerDigests, .default, false⟩

def ownerHeaders : Api.HeaderMap := [("authorization", Str.asBytes ("Bearer " ++ ownerToken))]

def createMoves (i : Nat) (b : UInt8) : List ServerMove :=
  .spawn (.http (.createAddress 0 [] (some ⟨some "box", none⟩))) :: acts i [.answer, .verdict true,
    .answer, .bytes (List.replicate 32 b), .uuids []]

/-- A rotation by the first owner, up to its second store call. -/
def rotateMoves (i : Nat) (b : UInt8) : List ServerMove :=
  .spawn (.http (.rotateAddress "box@example.com" ownerHeaders)) :: acts i [.uuids [],
    .bytes (List.replicate 32 b)]

def deleteMoves (i : Nat) : List ServerMove :=
  .spawn (.http (.deleteAddress "box@example.com" ownerHeaders)) :: acts i [.uuids [], .uuids []]

/-- The call is a rotation that changes the mailbox, which was as `p` asks. -/
def rotates (p : Api.HeaderMap → Mailbox → Bool) (e : Entry World Task Eff.Ans) : Bool :=
  match e.call, e.tag.ownerGated with
  | .store (.rotateOwnerToken a _), some (_, hs) =>
    e.after.store.mailboxes.lookup a != e.before.store.mailboxes.lookup a &&
      (e.before.store.mailboxes.lookup a).all (p hs)
  | _, _ => false

theorem ownerHeld_rotate : ∃ c,
    (server ownerServer).Reach (undisturbed · ·) (System.init (World.start 0)) c ∧
      c.log.any (rotates fun _ _ => true) ∧ ∀ e ∈ c.log, OwnerHeld ownerServer e := by
  have hrun : ((server ownerServer).run (undisturbed · ·) (System.init (World.start 0))
      (createMoves 0 0 ++ rotateMoves 1 2 ++ acts 1 [.uuids []])).any fun c =>
        c.log.any (rotates fun _ _ => true) := by
    decide +kernel
  obtain ⟨c, hc, hP⟩ := System.Reach.exists_of_run hrun
  exact ⟨c, hc, hP, ownerHeld_of_undisturbed hc⟩

/-- A rotation that was authorized before the mailbox was deleted and its address taken by somebody
else hands out a token for the new mailbox. -/
theorem not_ownerHeld : ¬∀ (app : AppState) (start : DateTime) (c : ServerConf),
    (server app).Reach (fun _ _ => True) (System.init (World.start start)) c →
    ∀ e ∈ c.log, OwnerHeld app e := by
  intro H
  have hrun : ((server ownerServer).run (fun _ _ => True) (System.init (World.start 0))
      (createMoves 0 0 ++ rotateMoves 1 2 ++ deleteMoves 2 ++ createMoves 3 1 ++
        acts 1 [.uuids []])).any fun c => c.log.any (rotates fun hs row =>
          (Api.bearerToken hs).all fun token =>
            row.ownerTokenHash != some (Api.hashToken ownerServer.deps token)) := by
    decide +kernel
  obtain ⟨c, hc, hP⟩ := System.Reach.exists_of_run hrun
  obtain ⟨e, he, hrot⟩ := List.any_eq_true.mp hP
  unfold rotates at hrot
  split at hrot
  · next a h a' hs hcall htag =>
    obtain ⟨hne, hall⟩ := Bool.and_eq_true_iff.mp hrot
    have hchange : e.after.store ≠ e.before.store := fun heq => by simp [heq] at hne
    obtain ⟨hs', token, row, ht, hb, hrow, hhash⟩ :=
      H ownerServer 0 c hc e he _ a hcall rfl hchange
    cases htag.symm.trans ht
    simp [hrow, hb, hhash] at hall
  · cases hrot

end AnonyMail
